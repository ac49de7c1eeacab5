import RelQuery.Proofs.Expr.Evaluation

/-!
# Looking up columns in named rows

The rows of a tuple belong to different tables, so a qualifier means at most one of them.  A column
is then looked up in the row of its table wherever that row stands, and what was found in a part of
a tuple is found in the whole.
-/

namespace RelQuery

/-- Where the elements of a list have different names, a name means one position. -/
lemma eq_of_apart {α : Type} {name : α → String} {l : List α} (default : α)
    (apart : l.Pairwise fun a b => Name.same (name a) (name b) = false) {p q : Nat}
    (hp : p < l.length) (hq : q < l.length)
    (h : Name.same (name (l.getD p default)) (name (l.getD q default)) = true) : p = q := by
  have hget : ∀ i (hi : i < l.length), l.getD i default = l[i] := by
    intro i hi
    simp [hi]
  rw [hget p hp, hget q hq] at h
  rcases Nat.lt_trichotomy p q with hlt | heq | hgt
  · rw [List.pairwise_iff_getElem.mp apart p q hp hq hlt] at h
    exact absurd h (by simp)
  · exact heq
  · rw [Name.same_comm, List.pairwise_iff_getElem.mp apart q p hq hp hgt] at h
    exact absurd h (by simp)

namespace Expr

/-- The row that answers to a name is one of the rows and has the name. -/
lemma named_of_findRow? {table : String} {rows : List LogicalRow} {row : LogicalRow}
    (h : findRow? table rows = some row) :
    row ∈ rows ∧ Name.same row.tableName table = true := by
  unfold findRow? at h
  have hname := List.find?_some h
  exact ⟨List.mem_of_find?_eq_some h, hname⟩

/-- A row answers to the name of every row. -/
lemma exists_findRow? {table : String} {rows : List LogicalRow} {row : LogicalRow}
    (hmem : row ∈ rows) (hname : Name.same row.tableName table = true) :
    ∃ found, findRow? table rows = some found := by
  rw [← Option.isSome_iff_exists, findRow?, List.find?_isSome]
  exact ⟨row, hmem, hname⟩

/-- A column is looked up alike in rows of the same names, where the rows that it is qualified by
give it the same value. -/
lemma columnOutcome_congr {α : Type} {mode : Coverage} {ref : ColumnRef} {l : List α}
    {row row' : α → LogicalRow} (names : ∀ a ∈ l, (row a).tableName = (row' a).tableName)
    (values : ∀ a ∈ l, ref.qualifiedBy (row a).tableName = true →
      (row a).valueOf ref = (row' a).valueOf ref) :
    columnOutcome mode (l.map row) ref = columnOutcome mode (l.map row') ref := by
  unfold columnOutcome
  split
  · rename_i table index htable hindex
    induction l with
    | nil => rfl
    | cons a rest ih =>
      have hname := names a List.mem_cons_self
      have hrest := ih (fun b hb => names b (List.mem_cons_of_mem _ hb))
        fun b hb => values b (List.mem_cons_of_mem _ hb)
      simp only [findRow?, List.map_cons, List.find?_cons, ← hname] at hrest ⊢
      by_cases hanswers : Name.same (row a).tableName table = true
      · have hvalue := values a List.mem_cons_self (by
          rw [ColumnRef.qualifiedBy, htable, Option.any_some, Name.same_comm]
          exact hanswers)
        simp only [hanswers, hvalue]
      · simp only [hanswers]
        exact hrest
  · rfl

variable {positions positions' : List Nat} {row row' : Nat → LogicalRow}

/-- The rows at different positions have different names. -/
def Apart (positions : List Nat) (row : Nat → LogicalRow) : Prop :=
  ∀ p ∈ positions, ∀ q ∈ positions,
    Name.same (row p).tableName (row q).tableName = true → p = q

/-- Rows at fewer positions are still apart. -/
lemma Apart.of_subset (h : Apart positions' row) (hsub : positions ⊆ positions') :
    Apart positions row :=
  fun p hp q hq => h p (hsub hp) q (hsub hq)

/-- A name means the row that answers to it. -/
lemma findRow?_map {table : String} (apart : Apart positions row) {p : Nat} (hp : p ∈ positions)
    (hname : Name.same (row p).tableName table = true) :
    findRow? table (positions.map row) = some (row p) := by
  unfold findRow?
  cases hfound : (positions.map row).find? fun r => Name.same r.tableName table with
  | none =>
    have := List.find?_eq_none.mp hfound (row p) (List.mem_map.mpr ⟨p, hp, rfl⟩)
    exact absurd hname this
  | some r =>
    obtain ⟨q, hq, rfl⟩ := List.mem_map.mp (List.mem_of_find?_eq_some hfound)
    have hsame := List.find?_some hfound
    rw [apart p hp q hq (Name.same_trans hname (by rwa [Name.same_comm]))]

/-- A name that no row answers to means nothing. -/
lemma findRow?_map_eq_none {table : String}
    (h : ∀ p ∈ positions, Name.same (row p).tableName table = false) :
    findRow? table (positions.map row) = none := by
  refine List.find?_eq_none.mpr fun r hr => ?_
  obtain ⟨p, hp, rfl⟩ := List.mem_map.mp hr
  simp [h p hp]

/-- What a name means does not depend on the order of the rows. -/
lemma findRow?_perm {table : String} (apart : Apart positions row)
    (hperm : positions.Perm positions') :
    findRow? table (positions.map row) = findRow? table (positions'.map row) := by
  have apart' : Apart positions' row := apart.of_subset hperm.symm.subset
  by_cases hnamed : ∃ p ∈ positions, Name.same (row p).tableName table = true
  · obtain ⟨p, hp, hname⟩ := hnamed
    rw [findRow?_map apart hp hname, findRow?_map apart' (hperm.mem_iff.mp hp) hname]
  · push Not at hnamed
    simp only [ne_eq, Bool.not_eq_true] at hnamed
    rw [findRow?_map_eq_none hnamed,
      findRow?_map_eq_none fun p hp => hnamed p (hperm.mem_iff.mpr hp)]

/-- An expression does not look at the order of the rows. -/
lemma evaluate_perm {mode : Coverage} (apart : Apart positions row)
    (hperm : positions.Perm positions') (e : Expr) :
    e.evaluate mode (positions.map row) = e.evaluate mode (positions'.map row) := by
  refine evaluate_congr fun ref _ => ?_
  unfold columnOutcome
  split
  · rw [findRow?_perm apart hperm]
  · rfl

/-- A column is looked up in the row of its table. -/
lemma columnOutcome_map {mode : Coverage} {ref : ColumnRef} (apart : Apart positions row) {p : Nat}
    (hp : p ∈ positions) (hname : ref.qualifiedBy (row p).tableName = true)
    (hindex : ref.index.isSome = true) :
    columnOutcome mode (positions.map row) ref = ((row p).valueOf ref).map .determined := by
  obtain ⟨index, hindex⟩ := Option.isSome_iff_exists.mp hindex
  unfold ColumnRef.qualifiedBy at hname
  rw [Option.any_eq_true_iff_get] at hname
  obtain ⟨hsome, hname⟩ := hname
  obtain ⟨table, htable⟩ := Option.isSome_iff_exists.mp hsome
  simp only [htable, Option.get_some] at hname
  unfold columnOutcome
  simp only [htable, hindex]
  rw [findRow?_map apart hp (by rwa [Name.same_comm])]

/-- A column that was found in full mode is that of a row. -/
lemma exists_of_columnOutcome_full {ref : ColumnRef} {found : Outcome}
    (h : columnOutcome .full (positions.map row) ref = .ok found) :
    ∃ p ∈ positions, ref.qualifiedBy (row p).tableName = true ∧ ref.index.isSome = true := by
  unfold columnOutcome at h
  split at h
  · rename_i table index htable hindex
    split at h
    · rename_i r hr
      unfold findRow? at hr
      obtain ⟨p, hp, rfl⟩ := List.mem_map.mp (List.mem_of_find?_eq_some hr)
      have hsame := List.find?_some hr
      refine ⟨p, hp, ?_, by simp [hindex]⟩
      simpa [ColumnRef.qualifiedBy, htable, Name.same_comm] using hsame
    · simp at h
  · simp at h

/-- What an expression gives in full mode on some rows it gives on all. -/
lemma evaluate_full_of_subset {e : Expr} (apart : Apart positions' row')
    (hsub : positions ⊆ positions') (agree : ∀ p ∈ positions, row p = row' p) {outcome : Outcome}
    (h : e.evaluate .full (positions.map row) = .ok outcome) :
    e.evaluate .full (positions'.map row') = .ok outcome := by
  have hrows : positions.map row = positions.map row' := List.map_congr_left agree
  rw [hrows] at h
  refine evaluate_of_columns (fun ref _ found hfound => ?_) h
  obtain ⟨p, hp, hname, hindex⟩ := exists_of_columnOutcome_full hfound
  rw [columnOutcome_map (apart.of_subset hsub) hp hname hindex] at hfound
  rw [columnOutcome_map apart (hsub hp) hname hindex, hfound]

/-- What a predicate accepts or refuses on some rows it does on all. -/
lemma accepts_of_subset {predicate : Expr} (apart : Apart positions' row')
    (hsub : positions ⊆ positions') (agree : ∀ p ∈ positions, row p = row' p) {passed : Bool}
    (h : predicate.accepts (positions.map row) = .ok passed) :
    predicate.accepts (positions'.map row') = .ok passed := by
  unfold accepts at h ⊢
  cases he : predicate.evaluate .full (positions.map row) with
  | error error => simp [he] at h
  | ok outcome =>
    rw [evaluate_full_of_subset apart hsub agree he]
    simpa [he] using h

end Expr

end RelQuery
