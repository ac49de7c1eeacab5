import Mathlib.Data.List.Pairwise
import RelQuery.Proofs.Join.Textbook

/-!
# Growing a join

A join grows from one table by textbook steps, each along a clause that leads out of the tables
joined so far.  Which clause comes next is left open, so that one argument covers the order in which
the clauses were declared and every order an executor may prefer.

The result does not depend on the order as long as the clauses are compatible: a clause that keeps
the far side of a table may only meet clauses that keep the near side there.  Then a choice is
produced exactly when it fits: it takes some row, its rows are held together by the clauses, clauses
with a row on both sides accept it, and clauses with a row on one side keep that side and would
refuse every row on the other.
-/

namespace RelQuery

variable {ι : Type}

/-! ## Compatible clauses -/

namespace PendingJoin

/-- Where two clauses meet, a clause that keeps the far side is met by one that keeps the near
side. -/
def Compatible (a b : PendingJoin) : Prop :=
  ∀ a' ∈ a.faces, ∀ b' ∈ b.faces, a'.left = b'.left →
    (a'.keepsRight = true → b'.keepsLeft = true) ∧ (b'.keepsRight = true → a'.keepsLeft = true)

instance (a b : PendingJoin) : Decidable (Compatible a b) :=
  inferInstanceAs (Decidable (∀ a' ∈ a.faces, ∀ b' ∈ b.faces, a'.left = b'.left →
    (a'.keepsRight = true → b'.keepsLeft = true) ∧
      (b'.keepsRight = true → a'.keepsLeft = true)))

/-- Compatibility goes both ways. -/
lemma Compatible.symm {a b : PendingJoin} (h : a.Compatible b) : b.Compatible a :=
  fun b' hb a' ha meet => (h a' ha b' hb meet.symm).symm

/-- Clauses that are not outer are compatible. -/
lemma compatible_of_not_outer {a b : PendingJoin} (ha : a.clause.kind.isOuter = false)
    (hb : b.clause.kind.isOuter = false) : a.Compatible b := by
  have keeps : ∀ {link face : PendingJoin}, link.clause.kind.isOuter = false →
      face ∈ link.faces → face.keepsRight = false := by
    intro link face hlink hface
    rw [isOuter_eq, Bool.or_eq_false_iff] at hlink
    rcases mem_faces.mp hface with rfl | rfl
    · exact hlink.2
    · rw [keepsRight_turned, hlink.1]
  intro a' ha' b' hb' _
  simp [keeps ha ha', keeps hb hb']

end PendingJoin

/-! ## Growth -/

namespace RowSpace

/-- The condition looks at no table beyond the joined ones and the next, on every pair that the next
step forms. -/
def Settled (space : RowSpace ι) (joined : List Nat) (link : PendingJoin)
    (choices : List (Choice ι)) : Prop :=
  ∀ c ∈ choices, ∀ row ∈ space.rows link.right, ∀ τ : Choice ι,
    τ.within (joined ++ [link.right]) = Function.update c link.right (some row) →
      space.accepts link.clause.on τ =
        space.accepts link.clause.on (Function.update c link.right (some row))

/-- The joined tables, the clauses used to reach them, the clauses left, and the choices so far. -/
inductive Grows (space : RowSpace ι) (pool : List PendingJoin) :
    List Nat → List PendingJoin → List PendingJoin → List (Choice ι) → Prop
  /-- The growth starts from any table. -/
  | start (table : Nat) : Grows space pool [table] [] pool (space.single table)
  /-- It takes in one more table along a clause that leads to it. -/
  | step {joined : List Nat} {used left rest : List PendingJoin} {choices : List (Choice ι)}
      {pending link : PendingJoin} (grown : Grows space pool joined used left choices)
      (picked : left.Perm (pending :: rest)) (facing : link ∈ pending.faces)
      (inside : link.left ∈ joined) (outside : link.right ∉ joined)
      (settled : space.Settled joined link choices) :
      Grows space pool (joined ++ [link.right]) (link :: used) rest (space.join link choices)

/-! ## Choices that fit -/

/-- The clause is content with the choice: it accepts the rows of its two sides, or keeps the only
side that has a row, which no row of the other side would match. -/
structure Respects (space : RowSpace ι) (link : PendingJoin) (τ : Choice ι) : Prop where
  both : τ link.left ≠ none → τ link.right ≠ none → space.accepts link.clause.on τ = true
  leftOnly : τ link.left ≠ none → τ link.right = none →
    link.keepsLeft = true ∧ space.Alone link τ
  rightOnly : τ link.left = none → τ link.right ≠ none →
    link.keepsRight = true ∧ space.Alone link.turned τ

/-- The rows of the choice hang together by the clauses with rows on both sides. -/
def Connects (links : List PendingJoin) (tables : List Nat) (τ : Choice ι) : Prop :=
  ∀ mark : Nat → Prop,
    (∀ link ∈ links, τ link.left ≠ none → τ link.right ≠ none →
      (mark link.left ↔ mark link.right)) →
    ∀ p ∈ tables, ∀ q ∈ tables, τ p ≠ none → τ q ≠ none → (mark p ↔ mark q)

/-- The choice takes some row, its rows hang together, and every clause is content with it. -/
structure Fits (space : RowSpace ι) (links : List PendingJoin) (tables : List Nat)
    (τ : Choice ι) : Prop where
  inhabited : ∃ table ∈ tables, τ table ≠ none
  respected : ∀ link ∈ links, space.Respects link τ
  connected : Connects links tables τ

/-- The condition of an outer clause looks at the two tables of the clause only, and refuses
padding. -/
structure Local (space : RowSpace ι) (link : PendingJoin) : Prop where
  congr : ∀ c c' : Choice ι, c link.left = c' link.left → c link.right = c' link.right →
    space.accepts link.clause.on c = space.accepts link.clause.on c'
  strict : ∀ c : Choice ι, space.accepts link.clause.on c = true →
    c link.left ≠ none ∧ c link.right ≠ none

/-- A clause is content from either side. -/
lemma Respects.turned {space : RowSpace ι} {link : PendingJoin} {τ : Choice ι}
    (h : space.Respects link τ) : space.Respects link.turned τ where
  both hright hleft := h.both hleft hright
  leftOnly hright hleft := by
    rw [PendingJoin.keepsLeft_turned]
    exact h.rightOnly hleft hright
  rightOnly hright hleft := by
    rw [PendingJoin.keepsRight_turned, PendingJoin.turned_turned]
    exact h.leftOnly hleft hright

/-- A clause is content with a choice when its faces are. -/
lemma respects_of_mem_faces {space : RowSpace ι} {face link : PendingJoin} {τ : Choice ι}
    (h : face ∈ link.faces) : space.Respects face τ ↔ space.Respects link τ := by
  rcases PendingJoin.mem_faces.mp h with rfl | rfl
  · exact Iff.rfl
  · exact ⟨fun hτ => by simpa using hτ.turned, Respects.turned⟩

/-- A condition is local from either side. -/
lemma Local.turned {space : RowSpace ι} {link : PendingJoin} (h : space.Local link) :
    space.Local link.turned where
  congr c c' hright hleft := h.congr c c' hleft hright
  strict c hc := (h.strict c hc).symm

/-- A condition is local in every face of its clause. -/
lemma Local.of_mem_faces {space : RowSpace ι} {face link : PendingJoin} (h : space.Local link)
    (hface : face ∈ link.faces) : space.Local face :=
  PendingJoin.of_mem_faces hface Local.turned h

section Bookkeeping

variable {space : RowSpace ι} {pool used left : List PendingJoin} {joined : List Nat}
  {choices : List (Choice ι)}

/-! ## Bookkeeping -/

/-- The choices of a growth take rows from the joined tables only. -/
lemma Grows.supported (h : space.Grows pool joined used left choices) :
    ∀ c ∈ choices, c.SupportedBy joined := by
  induction h with
  | start table =>
    intro c hc
    obtain ⟨row, -, rfl⟩ := List.mem_map.mp hc
    exact Choice.supportedBy_update (Choice.supportedBy_none []) table _
  | step grown _ _ _ _ _ ih =>
    intro τ hτ
    rcases mem_join.mp hτ with ⟨c, hc, hτ⟩ | hτ
    · rcases mem_extend.mp hτ with ⟨row, -, -, rfl⟩ | ⟨-, -, rfl⟩
      · exact Choice.supportedBy_update (ih c hc) _ _
      · exact Choice.supportedBy_update (ih c hc) _ _
    · obtain ⟨-, row, -, -, rfl⟩ := mem_unmatched.mp hτ
      exact Choice.supportedBy_update (Choice.supportedBy_none _) _ _

/-- A row put into a valid choice leaves it valid when the table has the row. -/
lemma Valid.update {c : Choice ι} (hc : space.Valid c) {table : Nat} {row : Option ι}
    (hrow : ∀ r, row = some r → r ∈ space.rows table) :
    space.Valid (Function.update c table row) := by
  intro other r hr
  by_cases h : other = table
  · subst h
    exact hrow r (by simpa using hr)
  · exact hc other r (by simpa [h] using hr)

/-- The choices of a growth take rows that the tables have. -/
lemma Grows.valid (h : space.Grows pool joined used left choices) :
    ∀ c ∈ choices, space.Valid c := by
  have none_valid : space.Valid Choice.none := fun _ _ h => by simp [Choice.none] at h
  induction h with
  | start table =>
    intro c hc
    obtain ⟨row, hrow, rfl⟩ := List.mem_map.mp hc
    exact none_valid.update fun r hr => by simp_all
  | step grown _ _ _ _ _ ih =>
    intro τ hτ
    rcases mem_join.mp hτ with ⟨c, hc, hτ⟩ | hτ
    · rcases mem_extend.mp hτ with ⟨row, hrow, -, rfl⟩ | ⟨-, -, rfl⟩
      · exact (ih c hc).update fun r hr => by simp_all
      · exact (ih c hc).update fun r hr => by simp at hr
    · obtain ⟨-, row, hrow, -, rfl⟩ := mem_unmatched.mp hτ
      exact none_valid.update fun r hr => by simp_all

/-- No choice of a growth is empty. -/
lemma Grows.inhabited (h : space.Grows pool joined used left choices) :
    ∀ c ∈ choices, ∃ table ∈ joined, c table ≠ none := by
  induction h with
  | start table =>
    intro c hc
    obtain ⟨row, -, rfl⟩ := List.mem_map.mp hc
    exact ⟨table, by simp, by simp⟩
  | @step joined used left rest choices pending link grown _ _ _ outside _ ih =>
    intro τ hτ
    rcases mem_join.mp hτ with ⟨c, hc, hτ⟩ | hτ
    · obtain ⟨table, htable, hrow⟩ := ih c hc
      have hne : table ≠ link.right := ne_of_mem_of_not_mem htable outside
      refine ⟨table, List.mem_append_left _ htable, ?_⟩
      rcases mem_extend.mp hτ with ⟨row, -, -, rfl⟩ | ⟨-, -, rfl⟩
      · rwa [Function.update_of_ne hne]
      · rwa [Function.update_of_ne hne]
    · obtain ⟨-, row, -, -, rfl⟩ := mem_unmatched.mp hτ
      exact ⟨link.right, by simp, by simp⟩

/-- The clauses that were used lie between joined tables. -/
lemma Grows.used_inside (h : space.Grows pool joined used left choices) :
    ∀ link ∈ used, link.left ∈ joined ∧ link.right ∈ joined := by
  induction h with
  | start table => simp
  | step _ _ _ inside _ _ ih =>
    intro other hother
    rcases List.mem_cons.mp hother with rfl | hother
    · exact ⟨List.mem_append_left _ inside, by simp⟩
    · exact ⟨List.mem_append_left _ (ih other hother).1, List.mem_append_left _ (ih other hother).2⟩

/-- No table is joined twice. -/
lemma Grows.nodup_joined (h : space.Grows pool joined used left choices) : joined.Nodup := by
  induction h with
  | start table => simp
  | step _ _ _ _ outside _ ih => exact List.nodup_append_comm.mp (List.nodup_cons.mpr ⟨outside, ih⟩)

/-- Every declared clause was used or is left. -/
lemma Grows.used_or_left (h : space.Grows pool joined used left choices) :
    ∀ link ∈ pool, (∃ face ∈ link.faces, face ∈ used) ∨ link ∈ left := by
  induction h with
  | start table => exact fun link hlink => Or.inr hlink
  | @step _ _ left rest _ pending link _ picked facing _ _ _ ih =>
    intro other hother
    rcases ih other hother with ⟨face, hface, hused⟩ | hleft
    · exact Or.inl ⟨face, hface, List.mem_cons_of_mem _ hused⟩
    · rcases List.mem_cons.mp (picked.mem_iff.mp hleft) with rfl | hrest
      · exact Or.inl ⟨link, facing, List.mem_cons_self⟩
      · exact Or.inr hrest

/-- The clauses that are left were declared. -/
lemma Grows.left_subset (h : space.Grows pool joined used left choices) : left ⊆ pool := by
  induction h with
  | start table => exact fun _ hlink => hlink
  | step _ picked _ _ _ _ ih =>
    exact fun link hlink => ih (picked.mem_iff.mpr (List.mem_cons_of_mem _ hlink))

/-- The clauses that were used are faces of declared ones. -/
lemma Grows.used_declared (h : space.Grows pool joined used left choices) :
    ∀ face ∈ used, ∃ link ∈ pool, face ∈ link.faces := by
  induction h with
  | start table => simp
  | @step _ _ left _ _ pending _ grown picked facing _ _ _ ih =>
    intro face hface
    rcases List.mem_cons.mp hface with rfl | hface
    · exact ⟨pending, grown.left_subset (picked.mem_iff.mpr List.mem_cons_self), facing⟩
    · exact ih face hface

/-- The clauses that are left are compatible when the declared ones are. -/
lemma Grows.compatible_left (h : space.Grows pool joined used left choices)
    (hpool : pool.Pairwise PendingJoin.Compatible) : left.Pairwise PendingJoin.Compatible := by
  induction h with
  | start table => exact hpool
  | step _ picked _ _ _ _ ih =>
    exact ((picked.pairwise_iff PendingJoin.Compatible.symm).mp ih).of_cons

/-- The join of different choices that take rows has no choice twice. -/
lemma nodup_join (hrows : ∀ table, (space.rows table).Nodup) {link : PendingJoin}
    (outside : link.right ∉ joined) (supported : ∀ c ∈ choices, c.SupportedBy joined)
    (inhabited : ∀ c ∈ choices, ∃ table ∈ joined, c table ≠ none) (hchoices : choices.Nodup) :
    (space.join link choices).Nodup := by
  have injective : ∀ c : Choice ι,
      Function.Injective fun row : ι => Function.update c link.right (some row) := by
    intro c row row' h
    simpa using congrFun h link.right
  -- the old part of an extended choice is the choice
  have old : ∀ c ∈ choices, ∀ τ ∈ space.extend link c, τ.within joined = c := by
    intro c hc τ hτ
    rcases mem_extend.mp hτ with ⟨row, -, -, rfl⟩ | ⟨-, -, rfl⟩
    · exact Choice.within_update outside (supported c hc) _
    · exact Choice.within_update outside (supported c hc) _
  refine List.nodup_append.mpr ⟨List.nodup_flatMap.mpr ⟨fun c _ => ?_, ?_⟩, ?_, ?_⟩
  · unfold extend
    split
    · exact List.nodup_singleton _
    · exact ((hrows _).filter _).map (injective c)
  · refine hchoices.imp_of_mem fun {c c'} hc hc' hne τ hτ hτ' => hne ?_
    rw [← old c hc τ hτ, old c' hc' τ hτ']
  · unfold unmatched
    split
    · exact ((hrows _).filter _).map (injective _)
    · exact List.nodup_nil
  · rintro τ hτ _ hτ' rfl
    obtain ⟨c, hc, hτ⟩ := List.mem_flatMap.mp hτ
    obtain ⟨-, row, -, -, rfl⟩ := mem_unmatched.mp hτ'
    obtain ⟨table, htable, hfilled⟩ := inhabited c hc
    rw [← old c hc _ hτ, Choice.within_update outside (Choice.supportedBy_none joined)] at hfilled
    exact hfilled rfl

/-- A growth produces no choice twice. -/
lemma Grows.nodup (h : space.Grows pool joined used left choices)
    (hrows : ∀ table, (space.rows table).Nodup) : choices.Nodup := by
  induction h with
  | start table =>
    refine (hrows table).map fun row row' hrow => ?_
    simpa using congrFun hrow table
  | step grown _ _ _ outside _ ih =>
    exact nodup_join hrows outside grown.supported grown.inhabited ih

end Bookkeeping

end RowSpace

end RelQuery
