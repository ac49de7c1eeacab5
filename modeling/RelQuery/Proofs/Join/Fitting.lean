import RelQuery.Proofs.Join.Guarding

/-!
# A growth produces what fits

Each step is seen from a choice: whether the step produces it, and whether it fits afterwards, are
both told by its old part and its row of the new table.  The two answers agree when the clauses are
compatible, so by induction a growth produces the choices that fit, each once.
-/

namespace RelQuery.RowSpace

variable {ι : Type} {space : RowSpace ι} {pool used left : List PendingJoin} {joined : List Nat}
  {choices : List (Choice ι)}

/-! ## One step, seen from a choice -/

section Step

variable {link : PendingJoin}

/-- A choice with a row of the new table is produced from its old part and a match, or as an
unmatched row. -/
lemma within_mem_join_of_some (supported : ∀ c ∈ choices, c.SupportedBy joined)
    (outside : link.right ∉ joined) {τ : Choice ι} (valid : space.Valid τ) {row : ι}
    (hrow : τ link.right = some row) :
    τ.within (joined ++ [link.right]) ∈ space.join link choices ↔
      (τ.within joined ∈ choices ∧
        space.accepts link.clause.on (τ.within (joined ++ [link.right])) = true) ∨
      (link.keepsRight = true ∧ (∀ table ∈ joined, τ table = none) ∧ ∀ c ∈ choices,
        space.accepts link.clause.on (Function.update c link.right (some row)) = false) := by
  have hwithin : τ.within (joined ++ [link.right]) =
      Function.update (τ.within joined) link.right (some row) := by
    rw [Choice.within_append, hrow]
  rw [mem_join]
  constructor
  · rintro (⟨c, hc, hτ⟩ | hτ)
    · have hcut : c = τ.within joined := by
        rcases mem_extend.mp hτ with ⟨r, -, -, hr⟩ | ⟨-, -, hr⟩
        · rw [← Choice.within_update outside (supported c hc) (some r), ← hr, hwithin]
          exact Choice.within_update outside (Choice.supportedBy_within joined τ) _
        · rw [← Choice.within_update outside (supported c hc) none, ← hr, hwithin]
          exact Choice.within_update outside (Choice.supportedBy_within joined τ) _
      rcases mem_extend.mp hτ with ⟨r, -, haccepts, hr⟩ | ⟨-, -, hr⟩
      · exact Or.inl ⟨hcut ▸ hc, hr ▸ haccepts⟩
      · have := congrFun (hwithin.symm.trans hr) link.right
        simp at this
    · obtain ⟨hkeeps, r, -, hnone, hr⟩ := mem_unmatched.mp hτ
      have hvalue : row = r := by
        have := congrFun (hwithin.symm.trans hr) link.right
        simpa using this
      refine Or.inr ⟨hkeeps, fun table htable => ?_, hvalue ▸ hnone⟩
      have hne : table ≠ link.right := ne_of_mem_of_not_mem htable outside
      have := congrFun hr table
      rwa [Choice.within_of_mem (List.mem_append_left _ htable), Function.update_of_ne hne]
        at this
  · rintro (⟨hmem, haccepts⟩ | ⟨hkeeps, hnone, hall⟩)
    · refine Or.inl ⟨τ.within joined, hmem, mem_extend.mpr (Or.inl ⟨row, ?_, ?_, hwithin⟩)⟩
      · exact valid link.right row hrow
      · rwa [hwithin] at haccepts
    · refine Or.inr (mem_unmatched.mpr ⟨hkeeps, row, valid link.right row hrow, hall, ?_⟩)
      rw [hwithin]
      congr 1
      funext table
      by_cases htable : table ∈ joined
      · rw [Choice.within_of_mem htable, hnone table htable]
        rfl
      · rw [Choice.within_of_notMem htable]
        rfl

/-- A choice without a row of the new table is produced from its old part by padding. -/
lemma within_mem_join_of_none (supported : ∀ c ∈ choices, c.SupportedBy joined)
    (outside : link.right ∉ joined) {τ : Choice ι} (hrow : τ link.right = none) :
    τ.within (joined ++ [link.right]) ∈ space.join link choices ↔
      τ.within joined ∈ choices ∧ link.keepsLeft = true ∧ space.Alone link (τ.within joined) := by
  have hwithin : τ.within (joined ++ [link.right]) =
      Function.update (τ.within joined) link.right none := by
    rw [Choice.within_append, hrow]
  rw [mem_join]
  constructor
  · rintro (⟨c, hc, hτ⟩ | hτ)
    · rcases mem_extend.mp hτ with ⟨r, -, -, hr⟩ | ⟨hkeeps, halone, hr⟩
      · have := congrFun (hwithin.symm.trans hr) link.right
        simp at this
      · have hcut : c = τ.within joined := by
          rw [← Choice.within_update outside (supported c hc) none, ← hr, hwithin]
          exact Choice.within_update outside (Choice.supportedBy_within joined τ) _
        exact ⟨hcut ▸ hc, hkeeps, hcut ▸ halone⟩
    · obtain ⟨-, r, -, -, hr⟩ := mem_unmatched.mp hτ
      have := congrFun (hwithin.symm.trans hr) link.right
      simp at this
  · rintro ⟨hmem, hkeeps, halone⟩
    exact Or.inl ⟨_, hmem, mem_extend.mpr (Or.inr ⟨hkeeps, halone, hwithin⟩)⟩

/-- A choice without a row of the new table fits when its old part does and the clause keeps it. -/
lemma fits_append_of_none {τ : Choice ι} (hrow : τ link.right = none) :
    space.Fits (link :: used) (joined ++ [link.right]) τ ↔
      space.Fits used joined τ ∧
        (τ link.left ≠ none → link.keepsLeft = true ∧ space.Alone link τ) := by
  constructor
  · rintro ⟨⟨table, htable, hfilled⟩, respected, connected⟩
    refine ⟨⟨⟨table, ?_, hfilled⟩, ?_, ?_⟩, ?_⟩
    · rcases List.mem_append.mp htable with htable | htable
      · exact htable
      · rw [List.mem_singleton.mp htable] at hfilled
        exact absurd hrow hfilled
    · exact fun other hother => respected other (List.mem_cons_of_mem _ hother)
    · intro mark hmark p hp q hq
      refine connected mark ?_ p (List.mem_append_left _ hp) q (List.mem_append_left _ hq)
      intro other hother hleft hright
      rcases List.mem_cons.mp hother with rfl | hother
      · exact absurd hrow hright
      · exact hmark other hother hleft hright
    · exact fun hleft => (respected link List.mem_cons_self).leftOnly hleft hrow
  · rintro ⟨⟨⟨table, htable, hfilled⟩, respected, connected⟩, hlink⟩
    refine ⟨⟨table, List.mem_append_left _ htable, hfilled⟩, ?_, ?_⟩
    · intro other hother
      rcases List.mem_cons.mp hother with rfl | hother
      · exact ⟨fun _ hright => absurd hrow hright, fun hleft _ => hlink hleft,
          fun _ hright => absurd hrow hright⟩
      · exact respected other hother
    · intro mark hmark p hp q hq hpf hqf
      have old : ∀ p ∈ joined ++ [link.right], τ p ≠ none → p ∈ joined := by
        intro p hp hpf
        rcases List.mem_append.mp hp with hp | hp
        · exact hp
        · rw [List.mem_singleton.mp hp] at hpf
          exact absurd hrow hpf
      exact connected mark (fun other hother => hmark other (List.mem_cons_of_mem _ hother))
        p (old p hp hpf) q (old q hq hqf) hpf hqf

/-- A choice with rows on both sides of the new clause fits when its old part does and the clause
accepts it. -/
lemma fits_append_of_both (ends : ∀ other ∈ used, other.left ∈ joined ∧ other.right ∈ joined)
    (inside : link.left ∈ joined) (outside : link.right ∉ joined) {τ : Choice ι}
    (hleft : τ link.left ≠ none) (hright : τ link.right ≠ none) :
    space.Fits (link :: used) (joined ++ [link.right]) τ ↔
      space.Fits used joined τ ∧ space.accepts link.clause.on τ = true := by
  have hne : link.left ≠ link.right := ne_of_mem_of_not_mem inside outside
  constructor
  · rintro ⟨-, respected, connected⟩
    refine ⟨⟨⟨link.left, inside, hleft⟩, ?_, ?_⟩, ?_⟩
    · exact fun other hother => respected other (List.mem_cons_of_mem _ hother)
    · -- the new table is marked like the table it hangs on
      intro mark hmark p hp q hq hpf hqf
      have hspread := connected (Function.update mark link.right (mark link.left)) ?_
        p (List.mem_append_left _ hp) q (List.mem_append_left _ hq) hpf hqf
      · rwa [Function.update_of_ne (ne_of_mem_of_not_mem hp outside),
          Function.update_of_ne (ne_of_mem_of_not_mem hq outside)] at hspread
      · intro other hother hl hr
        rcases List.mem_cons.mp hother with rfl | hother
        · simp [hne]
        · rw [Function.update_of_ne (ne_of_mem_of_not_mem (ends other hother).1 outside),
            Function.update_of_ne (ne_of_mem_of_not_mem (ends other hother).2 outside)]
          exact hmark other hother hl hr
    · exact (respected link List.mem_cons_self).both hleft hright
  · rintro ⟨⟨-, respected, connected⟩, haccepts⟩
    refine ⟨⟨link.left, List.mem_append_left _ inside, hleft⟩, ?_, ?_⟩
    · intro other hother
      rcases List.mem_cons.mp hother with rfl | hother
      · exact ⟨fun _ _ => haccepts, fun _ hnone => absurd hnone hright,
          fun hnone _ => absurd hnone hleft⟩
      · exact respected other hother
    · intro mark hmark
      -- every table with a row is marked like the table the new one hangs on
      have like : ∀ p ∈ joined ++ [link.right], τ p ≠ none → (mark p ↔ mark link.left) := by
        intro p hp hpf
        rcases List.mem_append.mp hp with hp | hp
        · exact connected mark (fun other hother => hmark other (List.mem_cons_of_mem _ hother))
            p hp link.left inside hpf hleft
        · rw [List.mem_singleton.mp hp]
          exact (hmark link List.mem_cons_self hleft hright).symm
      exact fun p hp q hq hpf hqf => (like p hp hpf).trans (like q hq hqf).symm

/-- A choice with a row of the new table, and none on the other side of the new clause, fits when it
takes no other row, the clause keeps the new side, and no row of the other side matches. -/
lemma fits_append_of_apart (ends : ∀ other ∈ used, other.left ∈ joined ∧ other.right ∈ joined)
    (inside : link.left ∈ joined) (outside : link.right ∉ joined) {τ : Choice ι}
    (hleft : τ link.left = none) (hright : τ link.right ≠ none) :
    space.Fits (link :: used) (joined ++ [link.right]) τ ↔
      (∀ table ∈ joined, τ table = none) ∧ link.keepsRight = true ∧
        space.Alone link.turned τ := by
  constructor
  · rintro ⟨-, respected, connected⟩
    refine ⟨fun table htable => ?_, (respected link List.mem_cons_self).rightOnly hleft hright⟩
    by_contra hfilled
    -- nothing ties the new table to the others
    have htied := connected (fun p => p = link.right) ?_ table (List.mem_append_left _ htable)
      link.right (by simp) hfilled hright
    · exact ne_of_mem_of_not_mem htable outside (htied.mpr rfl)
    · intro other hother hl hr
      rcases List.mem_cons.mp hother with rfl | hother
      · exact absurd hleft hl
      · have hl' := ne_of_mem_of_not_mem (ends other hother).1 outside
        have hr' := ne_of_mem_of_not_mem (ends other hother).2 outside
        simp [hl', hr']
  · rintro ⟨hnone, hkeeps, halone⟩
    refine ⟨⟨link.right, by simp, hright⟩, ?_, ?_⟩
    · intro other hother
      rcases List.mem_cons.mp hother with rfl | hother
      · exact ⟨fun hl => absurd hleft hl, fun hl => absurd hleft hl, fun _ _ => ⟨hkeeps, halone⟩⟩
      · have hl := hnone _ (ends other hother).1
        have hr := hnone _ (ends other hother).2
        exact ⟨fun h => absurd hl h, fun h => absurd hl h, fun _ h => absurd hr h⟩
    · have only : ∀ p ∈ joined ++ [link.right], τ p ≠ none → p = link.right := by
        intro p hp hpf
        rcases List.mem_append.mp hp with hp | hp
        · exact absurd (hnone p hp) hpf
        · exact List.mem_singleton.mp hp
      intro mark _ p hp q hq hpf hqf
      rw [only p hp hpf, only q hq hqf]

/-! ## One step produces what fits -/

/-- Without a row of the new table a step produces what fits, where padding at the other side of the
clause is kept and refused by a local condition. -/
lemma within_mem_join_iff_fits_of_none (supported : ∀ c ∈ choices, c.SupportedBy joined)
    (inside : link.left ∈ joined) (outside : link.right ∉ joined)
    (settled : space.Settled joined link choices) {τ : Choice ι}
    (padded : τ link.left = none → τ.within joined ∈ choices →
      link.keepsLeft = true ∧ space.Local link)
    (old : τ.within joined ∈ choices ↔ space.Fits used joined τ) (hrow : τ link.right = none) :
    τ.within (joined ++ [link.right]) ∈ space.join link choices ↔
      space.Fits (link :: used) (joined ++ [link.right]) τ := by
  rw [within_mem_join_of_none supported outside hrow, fits_append_of_none hrow, ← old]
  refine and_congr_right fun hmem => ?_
  by_cases hfar : τ link.left = none
  · obtain ⟨hkeeps, hlocal⟩ := padded hfar hmem
    refine ⟨fun _ hfilled => absurd hfar hfilled, fun _ => ⟨hkeeps, fun row _ => ?_⟩⟩
    rw [← Bool.not_eq_true]
    intro haccepts
    have hfilled := (hlocal.strict _ haccepts).1
    rw [Function.update_of_ne (ne_of_mem_of_not_mem inside outside),
      Choice.within_of_mem inside] at hfilled
    exact hfilled hfar
  · have halone : space.Alone link (τ.within joined) ↔ space.Alone link τ := by
      refine forall₂_congr fun row hr => ?_
      rw [settled _ hmem row hr (Function.update τ link.right (some row))]
      rw [Choice.within_append, Function.update_self]
      congr 1
      funext table
      by_cases ht : table ∈ joined
      · rw [Choice.within_of_mem ht, Choice.within_of_mem ht,
          Function.update_of_ne (ne_of_mem_of_not_mem ht outside)]
      · rw [Choice.within_of_notMem ht, Choice.within_of_notMem ht]
    rw [halone]
    exact ⟨fun hkept _ => hkept, fun hkept => hkept hfar⟩

/-- With rows on both sides of the clause a step produces what fits. -/
lemma within_mem_join_iff_fits_of_both (supported : ∀ c ∈ choices, c.SupportedBy joined)
    (ends : ∀ other ∈ used, other.left ∈ joined ∧ other.right ∈ joined)
    (inside : link.left ∈ joined) (outside : link.right ∉ joined)
    (settled : space.Settled joined link choices) {τ : Choice ι} (valid : space.Valid τ)
    (old : τ.within joined ∈ choices ↔ space.Fits used joined τ) (hleft : τ link.left ≠ none)
    {row : ι} (hrow : τ link.right = some row) :
    τ.within (joined ++ [link.right]) ∈ space.join link choices ↔
      space.Fits (link :: used) (joined ++ [link.right]) τ := by
  have hright : τ link.right ≠ none := by simp [hrow]
  have hwithin := Choice.within_append joined link.right τ
  rw [hrow] at hwithin
  rw [within_mem_join_of_some supported outside valid hrow,
    fits_append_of_both ends inside outside hleft hright, ← old]
  constructor
  · rintro (⟨hmem, haccepts⟩ | ⟨-, hnone, -⟩)
    · refine ⟨hmem, ?_⟩
      rwa [settled _ hmem row (valid _ _ hrow) τ hwithin, ← hwithin]
    · exact absurd (hnone _ inside) hleft
  · rintro ⟨hmem, haccepts⟩
    refine Or.inl ⟨hmem, ?_⟩
    rwa [hwithin, ← settled _ hmem row (valid _ _ hrow) τ hwithin]

/-- With a row of the new table only, a step produces what fits, where the rows of the other side
all occur among the choices and a local condition refuses padding. -/
lemma within_mem_join_iff_fits_of_apart (supported : ∀ c ∈ choices, c.SupportedBy joined)
    (ends : ∀ other ∈ used, other.left ∈ joined ∧ other.right ∈ joined)
    (inside : link.left ∈ joined) (outside : link.right ∉ joined)
    (drawn : ∀ c ∈ choices, space.Valid c) {τ : Choice ι} (valid : space.Valid τ)
    (padded : τ link.left = none → τ.within joined ∈ choices →
      link.keepsLeft = true ∧ space.Local link)
    (covered : link.keepsRight = true → space.Local link ∧
      ∀ row ∈ space.rows link.left, ∃ c ∈ choices, c link.left = some row)
    (hleft : τ link.left = none) {row : ι} (hrow : τ link.right = some row) :
    τ.within (joined ++ [link.right]) ∈ space.join link choices ↔
      space.Fits (link :: used) (joined ++ [link.right]) τ := by
  have hright : τ link.right ≠ none := by simp [hrow]
  have hne : link.left ≠ link.right := ne_of_mem_of_not_mem inside outside
  rw [within_mem_join_of_some supported outside valid hrow,
    fits_append_of_apart ends inside outside hleft hright]
  have nothing : ¬(τ.within joined ∈ choices ∧
      space.accepts link.clause.on (τ.within (joined ++ [link.right])) = true) := by
    rintro ⟨hmem, haccepts⟩
    have hfilled := ((padded hleft hmem).2.strict _ haccepts).1
    rw [Choice.within_of_mem (List.mem_append_left _ inside)] at hfilled
    exact hfilled hleft
  rw [or_iff_right nothing, and_left_comm]
  refine and_congr_right fun hnone => and_congr_right fun hkeeps => ?_
  obtain ⟨hlocal, hcovered⟩ := covered hkeeps
  -- an unmatched row is one that no row of the other side matches, since all of these occur
  have agree : ∀ (c : Choice ι) (r : ι), c link.left = some r →
      space.accepts link.clause.on (Function.update c link.right (some row)) =
        space.accepts link.clause.on (Function.update τ link.left (some r)) := by
    intro c r hc
    apply hlocal.congr
    · rw [Function.update_of_ne hne, Function.update_self, hc]
    · rw [Function.update_self, Function.update_of_ne hne.symm, hrow]
  constructor
  · intro hunmatched r hr
    obtain ⟨c, hc, hcr⟩ := hcovered r hr
    exact (agree c r hcr).symm.trans (hunmatched c hc)
  · intro halone c hc
    rw [← Bool.not_eq_true]
    intro haccepts
    have hfilled := (hlocal.strict _ haccepts).1
    rw [Function.update_of_ne hne] at hfilled
    obtain ⟨r, hcr⟩ := Option.ne_none_iff_exists'.mp hfilled
    have hr := halone r (drawn c hc _ _ hcr)
    rw [PendingJoin.right_turned, PendingJoin.on_turned, ← agree c r hcr, haccepts] at hr
    exact absurd hr (by simp)

end Step

/-! ## All steps -/

/-- The rows of one table alone are the choices of it that fit. -/
lemma within_mem_single_iff_fits {table : Nat} {τ : Choice ι} (valid : space.Valid τ) :
    τ.within [table] ∈ space.single table ↔ space.Fits [] [table] τ := by
  constructor
  · intro hmem
    obtain ⟨row, -, hrow⟩ := List.mem_map.mp hmem
    have hfilled : τ table ≠ none := by
      have hvalue := congrFun hrow table
      rw [Function.update_self, Choice.within_of_mem (List.mem_singleton_self table)] at hvalue
      simp [← hvalue]
    refine ⟨⟨table, List.mem_singleton_self table, hfilled⟩, by simp, ?_⟩
    intro mark _ p hp q hq _ _
    rw [List.mem_singleton.mp hp, List.mem_singleton.mp hq]
  · rintro ⟨⟨other, hother, hfilled⟩, -, -⟩
    obtain rfl := List.mem_singleton.mp hother
    obtain ⟨row, hrow⟩ := Option.ne_none_iff_exists'.mp hfilled
    refine List.mem_map.mpr ⟨row, valid other row hrow, ?_⟩
    rw [← List.nil_append [other], Choice.within_append, hrow]
    congr 1

/-- A growth along compatible clauses, the outer ones with local conditions, produces the choices
that fit. -/
theorem Grows.within_mem_iff_fits (h : space.Grows pool joined used left choices)
    (hpool : pool.Pairwise PendingJoin.Compatible)
    (hlocal : ∀ link ∈ pool, link.clause.kind.isOuter = true → space.Local link)
    {τ : Choice ι} (valid : space.Valid τ) :
    τ.within joined ∈ choices ↔ space.Fits used joined τ := by
  induction h with
  | start table => exact within_mem_single_iff_fits valid
  | @step joined used left rest choices pending link grown picked facing inside outside settled
      ih =>
    have hleft : pending ∈ left := picked.mem_iff.mpr List.mem_cons_self
    have localOf : link.clause.kind.isOuter = true → space.Local link := by
      intro houter
      have hsame : pending.clause.kind.isOuter = link.clause.kind.isOuter := by
        rcases PendingJoin.mem_faces.mp facing with rfl | rfl <;> simp
      exact (hlocal pending (grown.left_subset hleft) (hsame.trans houter)).of_mem_faces facing
    -- padding at the joined side is kept, and then the condition refuses it
    have padded : τ link.left = none → τ.within joined ∈ choices →
        link.keepsLeft = true ∧ space.Local link := by
      intro hnone hmem
      have hkeeps := grown.keepsLeft_of_padded hpool hmem hleft facing inside
        (by rwa [Choice.within_of_mem inside])
      exact ⟨hkeeps, localOf (by simp [PendingJoin.isOuter_eq, hkeeps])⟩
    cases hrow : τ link.right with
    | none =>
      exact within_mem_join_iff_fits_of_none grown.supported inside outside settled padded ih hrow
    | some row =>
      by_cases hnear : τ link.left = none
      · refine within_mem_join_iff_fits_of_apart grown.supported grown.used_inside inside outside
          grown.valid valid padded (fun hkeeps => ⟨?_, ?_⟩) hnear hrow
        · exact localOf (by simp [PendingJoin.isOuter_eq, hkeeps])
        · exact grown.covered hpool hleft facing inside hkeeps
      · exact within_mem_join_iff_fits_of_both grown.supported grown.used_inside inside outside
          settled valid ih hnear hrow

end RelQuery.RowSpace
