import RelQuery.Proofs.Join.Growth

/-!
# What compatible clauses guard

Three invariants of a growth along compatible clauses.  Clauses that lead out of the joined tables
are guarded against each other wherever they start.  Rows of a joined table whose far side is kept
all occur among the choices.  Padding occurs at a clause that is left only where the clause keeps
it.
-/

namespace RelQuery.RowSpace

variable {ι : Type} {space : RowSpace ι} {pool used left : List PendingJoin} {joined : List Nat}
  {choices : List (Choice ι)}

/-! ## Guarded clauses -/

/-- Of two clauses at joined tables one that keeps its far side is met by one that keeps its near
side. -/
def Guarded (joined : List Nat) (a b : PendingJoin) : Prop :=
  ∀ a' ∈ a.faces, ∀ b' ∈ b.faces, a'.left ∈ joined → b'.left ∈ joined →
    (a'.keepsRight = true → b'.keepsLeft = true) ∧ (b'.keepsRight = true → a'.keepsLeft = true)

/-- Guarding goes both ways. -/
lemma Guarded.symm {a b : PendingJoin} (h : Guarded joined a b) : Guarded joined b a :=
  fun b' hb a' ha hb' ha' => (h a' ha b' hb ha' hb').symm

/-- A clause that keeps its far side stays guarded when one more table is joined: directly where
both clauses stay or both are at the new table, and else by way of the clause that led there. -/
lemma keepsLeft_of_keepsRight_append {a b pending link a' b' : PendingJoin}
    (facing : link ∈ pending.faces) (inside : link.left ∈ joined)
    (guarded : Guarded joined a b) (compatible : a.Compatible b)
    (guardedA : Guarded joined pending a) (compatibleA : pending.Compatible a)
    (guardedB : Guarded joined pending b) (compatibleB : pending.Compatible b)
    (ha : a' ∈ a.faces) (hb : b' ∈ b.faces) (ha' : a'.left ∈ joined ++ [link.right])
    (hb' : b'.left ∈ joined ++ [link.right]) (keeps : a'.keepsRight = true) :
    b'.keepsLeft = true := by
  have turned_facing : link.turned ∈ pending.faces :=
    PendingJoin.turned_mem_faces_of_mem facing
  rw [List.mem_append, List.mem_singleton] at ha' hb'
  rcases ha' with ha' | ha' <;> rcases hb' with hb' | hb'
  · exact (guarded a' ha b' hb ha' hb').1 keeps
  · have hlink : link.keepsLeft = true := (guardedA link facing a' ha inside ha').2 keeps
    exact (compatibleB link.turned turned_facing b' hb hb'.symm).1 (by simpa using hlink)
  · have hlink : link.turned.keepsLeft = true :=
      (compatibleA link.turned turned_facing a' ha ha'.symm).2 keeps
    exact (guardedB link facing b' hb inside hb').1 (by simpa using hlink)
  · exact (compatible a' ha b' hb (ha'.trans hb'.symm)).1 keeps

/-- The clauses that are left are guarded against each other. -/
lemma Grows.guarded (h : space.Grows pool joined used left choices)
    (hpool : pool.Pairwise PendingJoin.Compatible) : left.Pairwise (Guarded joined) := by
  induction h with
  | start table =>
    refine hpool.imp fun {a b} hab a' ha b' hb ha' hb' => hab a' ha b' hb ?_
    rw [List.mem_singleton.mp ha', List.mem_singleton.mp hb']
  | @step joined used left rest choices pending link grown picked facing inside outside _ ih =>
    have guarded := (picked.pairwise_iff Guarded.symm).mp ih
    have compatible := (picked.pairwise_iff PendingJoin.Compatible.symm).mp
      (grown.compatible_left hpool)
    rw [List.pairwise_cons] at guarded compatible
    refine (guarded.2.and compatible.2).imp_of_mem ?_
    intro a b ha hb hab a' ha' b' hb' hina hinb
    constructor
    · exact keepsLeft_of_keepsRight_append facing inside hab.1 hab.2 (guarded.1 a ha)
        (compatible.1 a ha) (guarded.1 b hb) (compatible.1 b hb) ha' hb' hina hinb
    · exact keepsLeft_of_keepsRight_append facing inside hab.1.symm hab.2.symm (guarded.1 b hb)
        (compatible.1 b hb) (guarded.1 a ha) (compatible.1 a ha) hb' ha' hinb hina

/-- A clause that is picked is guarded against those that stay, and compatible with them. -/
lemma Grows.guarded_of_picked (h : space.Grows pool joined used left choices)
    (hpool : pool.Pairwise PendingJoin.Compatible) {pending : PendingJoin}
    {rest : List PendingJoin} (picked : left.Perm (pending :: rest)) {other : PendingJoin}
    (hother : other ∈ rest) : Guarded joined pending other ∧ pending.Compatible other := by
  have guarded := (picked.pairwise_iff Guarded.symm).mp (h.guarded hpool)
  have compatible := (picked.pairwise_iff PendingJoin.Compatible.symm).mp (h.compatible_left hpool)
  exact ⟨(List.pairwise_cons.mp guarded).1 other hother,
    (List.pairwise_cons.mp compatible).1 other hother⟩

/-! ## Rows and padding at the clauses that are left -/

/-- A step along a clause that keeps its joined side keeps every choice in some form. -/
lemma exists_extension {link : PendingJoin} (keeps : link.keepsLeft = true) {c : Choice ι}
    (hc : c ∈ choices) :
    ∃ c' ∈ space.join link choices, ∀ table ≠ link.right, c' table = c table := by
  by_cases halone : space.Alone link c
  · refine ⟨Function.update c link.right none, ?_, fun _ hne => Function.update_of_ne hne _ _⟩
    exact mem_join.mpr (Or.inl ⟨c, hc, mem_extend.mpr (Or.inr ⟨keeps, halone, rfl⟩)⟩)
  · simp only [Alone, not_forall, Bool.not_eq_false] at halone
    obtain ⟨partner, hpartner, haccepts⟩ := halone
    refine ⟨Function.update c link.right (some partner), ?_,
      fun _ hne => Function.update_of_ne hne _ _⟩
    exact mem_join.mpr (Or.inl ⟨c, hc, mem_extend.mpr (Or.inl ⟨partner, hpartner, haccepts, rfl⟩)⟩)

/-- After a step along a clause that keeps its new side every row of the new table occurs, matched
or not. -/
lemma exists_with_new {link : PendingJoin} (keeps : link.keepsRight = true) {row : ι}
    (hrow : row ∈ space.rows link.right) :
    ∃ c ∈ space.join link choices, c link.right = some row := by
  by_cases hmatched : ∃ c ∈ choices,
      space.accepts link.clause.on (Function.update c link.right (some row)) = true
  · obtain ⟨c, hc, haccepts⟩ := hmatched
    refine ⟨Function.update c link.right (some row), ?_, Function.update_self ..⟩
    exact mem_join.mpr (Or.inl ⟨c, hc, mem_extend.mpr (Or.inl ⟨row, hrow, haccepts, rfl⟩)⟩)
  · refine ⟨Function.update Choice.none link.right (some row), ?_, Function.update_self ..⟩
    refine mem_join.mpr (Or.inr (mem_unmatched.mpr ⟨keeps, row, hrow, ?_, rfl⟩))
    intro c hc
    rw [← Bool.not_eq_true]
    exact fun haccepts => hmatched ⟨c, hc, haccepts⟩

/-- Where a clause that is left keeps its far side, every row of its joined side occurs. -/
lemma Grows.covered (h : space.Grows pool joined used left choices)
    (hpool : pool.Pairwise PendingJoin.Compatible) {pending face : PendingJoin}
    (hpending : pending ∈ left) (hface : face ∈ pending.faces) (inside : face.left ∈ joined)
    (keeps : face.keepsRight = true) :
    ∀ row ∈ space.rows face.left, ∃ c ∈ choices, c face.left = some row := by
  induction h generalizing pending face with
  | start table =>
    intro row hrow
    obtain htable : face.left = table := List.mem_singleton.mp inside
    rw [htable] at hrow ⊢
    exact ⟨_, List.mem_map.mpr ⟨row, hrow, rfl⟩, by simp⟩
  | @step joined used left rest choices picked_clause link grown picked facing at_link outside _
      ih =>
    intro row hrow
    obtain ⟨guarded, compatible⟩ := grown.guarded_of_picked hpool picked hpending
    rcases List.mem_append.mp inside with hin | hnew
    · -- an old table: its row is in an old choice, which the step keeps in some form
      have hkeeps : link.keepsLeft = true := (guarded link facing face hface at_link hin).2 keeps
      obtain ⟨c, hc, hrow⟩ := ih (picked.mem_iff.mpr (List.mem_cons_of_mem _ hpending)) hface hin
        keeps row hrow
      obtain ⟨c', hc', hsame⟩ := exists_extension hkeeps hc
      exact ⟨c', hc', (hsame _ (ne_of_mem_of_not_mem hin outside)).trans hrow⟩
    · -- the new table: its row is matched, or unmatched and kept
      obtain htable : face.left = link.right := List.mem_singleton.mp hnew
      have hkeeps : link.turned.keepsLeft = true :=
        (compatible link.turned (PendingJoin.turned_mem_faces_of_mem facing) face hface
          htable.symm).2 keeps
      rw [PendingJoin.keepsLeft_turned] at hkeeps
      rw [htable] at hrow ⊢
      exact exists_with_new hkeeps hrow

/-- Padding occurs at a clause that is left only where the clause keeps it. -/
lemma Grows.keepsLeft_of_padded (h : space.Grows pool joined used left choices)
    (hpool : pool.Pairwise PendingJoin.Compatible) {c : Choice ι} (hc : c ∈ choices)
    {pending face : PendingJoin} (hpending : pending ∈ left) (hface : face ∈ pending.faces)
    (inside : face.left ∈ joined) (padded : c face.left = none) : face.keepsLeft = true := by
  induction h generalizing c pending face with
  | start table =>
    obtain ⟨row, -, rfl⟩ := List.mem_map.mp hc
    rw [List.mem_singleton.mp inside] at padded
    simp at padded
  | @step joined used left rest choices picked_clause link grown picked facing at_link outside _
      ih =>
    obtain ⟨guarded, compatible⟩ := grown.guarded_of_picked hpool picked hpending
    have hleft : pending ∈ left := picked.mem_iff.mpr (List.mem_cons_of_mem _ hpending)
    rcases List.mem_append.mp inside with hin | hnew
    · have hne : face.left ≠ link.right := ne_of_mem_of_not_mem hin outside
      rcases mem_join.mp hc with ⟨c, hold, hτ⟩ | hτ
      · rcases mem_extend.mp hτ with ⟨row, -, -, rfl⟩ | ⟨-, -, rfl⟩
        · exact ih hold hleft hface hin (by rwa [Function.update_of_ne hne] at padded)
        · exact ih hold hleft hface hin (by rwa [Function.update_of_ne hne] at padded)
      · exact (guarded link facing face hface at_link hin).1 (mem_unmatched.mp hτ).1
    · obtain htable : face.left = link.right := List.mem_singleton.mp hnew
      rw [htable] at padded
      rcases mem_join.mp hc with ⟨c, hc, hτ⟩ | hτ
      · rcases mem_extend.mp hτ with ⟨row, -, -, rfl⟩ | ⟨hkeeps, -, rfl⟩
        · simp at padded
        · exact (compatible link.turned (PendingJoin.turned_mem_faces_of_mem facing) face hface
            htable.symm).1 (by simpa using hkeeps)
      · obtain ⟨-, row, -, -, rfl⟩ := mem_unmatched.mp hτ
        simp at padded

end RelQuery.RowSpace
