import RelQuery.Proofs.Engine.Gathered

/-!
# Narrowed rows tell the same

A candidate carries only the columns that the conditions read.  A condition looks columns up by name
and qualifier, and every column that it reads is carried under that name, so on candidates it gives
what it gives on the stored rows behind them.
-/

namespace RelQuery

/-! ## Carried columns -/

namespace Plan

variable {s : Store} {plan : Plan}

/-- The columns of an entry that the conditions read. -/
def readColumns (plan : Plan) (b : BoundEntry) : List ColumnRef :=
  Expr.addNew [] (plan.conditions.flatMap fun e => e.columnsOf [b.referenceName])

/-- A column that is read is a column of a condition, and qualified by the entry. -/
lemma mem_readColumns {b : BoundEntry} {ref : ColumnRef} (h : ref ∈ plan.readColumns b) :
    (∃ e ∈ plan.conditions, ref ∈ e.columns) ∧ ref.qualifiedBy b.referenceName = true := by
  rcases Expr.mem_addNew h with h | h
  · simp at h
  · obtain ⟨e, he, href⟩ := List.mem_flatMap.mp h
    obtain ⟨hcolumn, hname⟩ := Expr.mem_columnsOf href
    exact ⟨⟨e, he, hcolumn⟩, hname⟩

/-- Every column of a condition that is qualified by the entry agrees with one that is read. -/
lemma exists_same_of_readColumns {b : BoundEntry} {e : Expr} (he : e ∈ plan.conditions)
    {ref : ColumnRef} (href : ref ∈ e.columns) (hname : ref.qualifiedBy b.referenceName = true) :
    ∃ found ∈ plan.readColumns b, found.same ref = true := by
  obtain ⟨own, hown, hsame⟩ := Expr.exists_same_of_columnsOf href hname
  have hread : own ∈ plan.conditions.flatMap fun e => e.columnsOf [b.referenceName] :=
    List.mem_flatMap.mpr ⟨e, he, hown⟩
  obtain ⟨found, hfound, hsame'⟩ := Expr.exists_same_of_addNew [] own hread
  exact ⟨found, hfound, ColumnRef.same_trans hsame' hsame⟩

/-- Where the conditions read a column of the entry, its rows carry what they read. -/
lemma carriedColumns_eq {b : BoundEntry} {ref : ColumnRef} (h : ref ∈ plan.readColumns b) :
    plan.carriedColumns b = plan.readColumns b := by
  have hread : (plan.readColumns b).isEmpty = false := by
    simpa using List.ne_nil_of_mem h
  exact if_neg (ne_true_of_eq_false hread)

/-- The place where a column is carried holds a column of the same position. -/
lemma Bound.exists_place (bound : plan.Bound s) {b : BoundEntry} {e : Expr}
    (he : e ∈ plan.conditions) {ref : ColumnRef} (href : ref ∈ e.columns)
    (hname : ref.qualifiedBy b.referenceName = true) :
    ∃ place found, carriedPosition b.referenceName (plan.carriedColumns b) ref = .ok place ∧
      (plan.carriedColumns b)[place]? = some found ∧ found.index = ref.index := by
  obtain ⟨known, hknown, hsame⟩ := exists_same_of_readColumns he href hname
  rw [carriedColumns_eq hknown]
  cases hplace : (plan.readColumns b).findIdx? (·.same ref) with
  | none =>
    have := List.findIdx?_eq_none_iff.mp hplace known hknown
    rw [hsame] at this
    exact absurd this (by simp)
  | some place =>
    obtain ⟨hlt, hfound, -⟩ := List.findIdx?_eq_some_iff_getElem.mp hplace
    refine ⟨place, (plan.readColumns b)[place], ?_, by simp [hlt], ?_⟩
    · unfold carriedPosition
      rw [hplace]
    · obtain ⟨⟨e', he', hread⟩, -⟩ := mem_readColumns (List.getElem_mem hlt)
      obtain ⟨table, htable, i, hdeclares⟩ := bound.resolved e' he' _ hread
      obtain ⟨table', htable', j, hdeclares'⟩ := bound.resolved e he ref href
      obtain ⟨-, rfl⟩ := hdeclares.eq_of_same bound.apart htable htable' hdeclares' hfound
      rw [hdeclares.index, hdeclares'.index]

/-- A candidate gives the columns of the conditions the values of the row behind it. -/
lemma Bound.valueOf_cut (bound : plan.Bound s) {b : BoundEntry} {e : Expr}
    (he : e ∈ plan.conditions) {ref : ColumnRef} (href : ref ∈ e.columns)
    (hname : ref.qualifiedBy b.referenceName = true) {row : StoredRow} {candidate : Candidate}
    (hcut : Store.cut (plan.carriedColumns b) row = .ok candidate) :
    (LogicalRow.candidate b.referenceName (plan.carriedColumns b) candidate).valueOf ref =
      (LogicalRow.stored row).valueOf ref := by
  obtain ⟨place, found, hplace, hfound, hindex⟩ := bound.exists_place he href hname
  obtain ⟨values, hvalues, rfl⟩ := Result.map_eq_ok.mp hcut
  obtain ⟨value, hvalue, hrow⟩ := getElem?_of_mapM hvalues hfound
  have hstored : (LogicalRow.stored row).valueOf ref = .ok value := by
    obtain ⟨table, -, i, hdeclares⟩ := bound.resolved e he ref href
    rw [StoredRow.valueOf, hindex, hdeclares.index] at hrow
    rw [LogicalRow.valueOf, StoredRow.valueOf, hdeclares.index]
    exact hrow
  rw [hstored, LogicalRow.valueOf, hplace]
  simp only [Except.bind, Row.at, hvalue]

end Plan

/-! ## Candidates inside the stored rows -/

namespace JoinInput

variable {s : Store} {columns : List ColumnRef} {predicate : Option Expr} {entry : FromEntry}
  {t : JoinInput}

/-- There are as many candidates as kept rows. -/
lemma Gathers.length_eq (h : t.Gathers s columns predicate entry) :
    (s.kept predicate entry).length = t.rows.length :=
  h.rows.length_eq

/-- A candidate is cut from the kept row at its position. -/
lemma Gathers.exists_candidate (h : t.Gathers s columns predicate entry) {index : Nat}
    (hindex : index < t.rows.length) : ∃ candidate, t.rows[index]? = some candidate ∧
      Store.cut columns (entry.named ((s.kept predicate entry).getD index (0, []))) =
        .ok candidate := by
  have hkept : index < (s.kept predicate entry).length := by rwa [h.length_eq]
  refine ⟨t.rows[index], by simp [hindex], ?_⟩
  rw [List.getD_eq_getElem?_getD, List.getElem?_eq_getElem hkept, Option.getD_some]
  exact h.rows.get hkept hindex

end JoinInput

namespace Plan

variable {s : Store} {plan : Plan} {early : FromEntry → Option Expr} {inputs : List JoinInput}

/-- The entries of the plan. -/
def entries (plan : Plan) : List FromEntry :=
  plan.tables.map BoundEntry.table

/-- The stored row behind a candidate, given the early predicates. -/
def behind (s : Store) (plan : Plan) (early : FromEntry → Option Expr) (position index : Nat) :
    Nat × Row :=
  (s.kept (early (FromEntry.atPosition plan.entries position))
    (FromEntry.atPosition plan.entries position)).getD index (0, [])

/-- The entries of a bound plan are apart. -/
lemma Bound.apart_entries (bound : plan.Bound s) : FromEntry.Apart plan.entries :=
  List.pairwise_map.mpr bound.apart

/-- The candidates are those of the entries. -/
lemma Gathered.entries_eq (h : plan.Gathered s early inputs) :
    inputs.map JoinInput.table = plan.entries := by
  have hsame : List.Forall₂ (fun t b => t.table = BoundEntry.table b) inputs plan.tables :=
    List.Forall₂.flip (List.Forall₂.imp (fun _ _ gathers => gathers.table) h)
  rw [entries, ← List.forall₂_eq_eq_eq, List.forall₂_map_left_iff, List.forall₂_map_right_iff]
  exact hsame

/-- There is one join input for every entry. -/
lemma Gathered.length_eq (h : plan.Gathered s early inputs) :
    plan.entries.length = inputs.length := by
  rw [← h.entries_eq, List.length_map]

/-- The entry of the join input at a position. -/
lemma Gathered.entry_eq (h : plan.Gathered s early inputs) (position : Nat) :
    FromEntry.atPosition plan.entries position = (JoinInput.atPosition inputs position).table := by
  unfold FromEntry.atPosition JoinInput.atPosition
  rw [← h.entries_eq]
  cases hget : inputs[position]? <;> simp [List.getD_eq_getElem?_getD, hget]

/-- The join input at a position stands for the kept rows of its entry. -/
lemma Gathered.at_position (h : plan.Gathered s early inputs) {position : Nat}
    (hposition : position < inputs.length) :
    ∃ b ∈ plan.tables, FromEntry.atPosition plan.entries position = b.table ∧
      (JoinInput.atPosition inputs position).Gathers s (plan.carriedColumns b) (early b.table)
        b.table := by
  have hlt : position < plan.tables.length := by
    rwa [h.length_eq.symm, entries, List.length_map] at hposition
  refine ⟨plan.tables[position], List.getElem_mem hlt, ?_, ?_⟩
  · simp [FromEntry.atPosition, entries, hlt]
  · have hget := List.Forall₂.get h hlt hposition
    simpa [JoinInput.atPosition, hposition] using hget

/-- The names of the join inputs are apart. -/
lemma Gathered.namesApart (h : plan.Gathered s early inputs) (bound : plan.Bound s) :
    JoinInput.NamesApart inputs := by
  have hentries := bound.apart_entries
  rw [← h.entries_eq] at hentries
  exact List.pairwise_map.mp hentries

/-- A candidate goes under the name of the row behind it. -/
lemma Gathered.tableName_eq (h : plan.Gathered s early inputs) (position : Nat)
    (slot : Option Nat) : ((JoinInput.atPosition inputs position).chosenRow slot).tableName =
      ((FromEntry.atPosition plan.entries position).shown
        (slot.map (behind s plan early position))).tableName := by
  rw [JoinInput.tableName_chosenRow, FromEntry.tableName_shown, h.entry_eq,
    JoinInput.referenceName]

/-- A condition sees in a candidate the values of the row behind it. -/
lemma Gathered.valueOf_chosenRow (h : plan.Gathered s early inputs) (bound : plan.Bound s)
    {position : Nat} (hposition : position < inputs.length) {slot : Option Nat}
    (hslot : ∀ index, slot = some index →
      index < (JoinInput.atPosition inputs position).rows.length)
    {e : Expr} (he : e ∈ plan.conditions) {ref : ColumnRef} (href : ref ∈ e.columns)
    (hname : ref.qualifiedBy (FromEntry.atPosition plan.entries position).referenceName = true) :
    ((JoinInput.atPosition inputs position).chosenRow slot).valueOf ref =
      ((FromEntry.atPosition plan.entries position).shown
        (slot.map (behind s plan early position))).valueOf ref := by
  cases slot with
  | none => rfl
  | some index =>
    obtain ⟨b, hb, hentry, gathers⟩ := h.at_position hposition
    obtain ⟨candidate, hcandidate, hcut⟩ := gathers.exists_candidate (hslot index rfl)
    rw [hentry] at hname
    have hvalue := bound.valueOf_cut he href hname hcut
    have hreference : (JoinInput.atPosition inputs position).referenceName = b.referenceName := by
      rw [JoinInput.referenceName, gathers.table]
      rfl
    simp only [JoinInput.chosenRow, hcandidate, hreference, gathers.carried, hvalue,
      Option.map_some, FromEntry.shown, behind, hentry]

/-- The row behind a candidate is a stored row of the entry. -/
lemma Gathered.behind_mem (h : plan.Gathered s early inputs) {position : Nat}
    (hposition : position < inputs.length) {index : Nat}
    (hindex : index < (JoinInput.atPosition inputs position).rows.length) :
    behind s plan early position index ∈
      s.rowsOf (FromEntry.atPosition plan.entries position) := by
  obtain ⟨b, hb, hentry, gathers⟩ := h.at_position hposition
  rw [← gathers.length_eq] at hindex
  have hmem :
      (s.kept (early b.table) b.table).getD index (0, []) ∈ s.kept (early b.table) b.table := by
    simp [hindex]
  rw [behind, hentry]
  exact (List.mem_filter.mp hmem).1

/-- The candidates lie inside the stored rows. -/
lemma Gathered.embeds (h : plan.Gathered s early inputs) (sound : s.Sound) :
    (JoinInput.space inputs).Embeds (s.space plan.entries) (behind s plan early) := by
  -- a table that has a candidate is one of the inputs
  have inside : ∀ {position index : Nat}, index ∈ (JoinInput.space inputs).rows position →
      position < inputs.length ∧ index < (JoinInput.atPosition inputs position).rows.length := by
    intro position index hindex
    have hlt : index < (JoinInput.atPosition inputs position).rows.length :=
      List.mem_range.mp hindex
    refine ⟨?_, hlt⟩
    by_contra hposition
    simp [JoinInput.atPosition, hposition, JoinInput.vacant] at hlt
  constructor
  · intro position index hindex
    obtain ⟨hposition, hlt⟩ := inside hindex
    exact h.behind_mem hposition hlt
  · intro position i hi j hj hij
    obtain ⟨hposition, hlti⟩ := inside hi
    obtain ⟨-, hltj⟩ := inside hj
    obtain ⟨b, hb, hentry, gathers⟩ := h.at_position hposition
    rw [← gathers.length_eq] at hlti hltj
    have hnodup : (s.kept (early b.table) b.table).Nodup := (sound.nodup_rowsOf b.table).filter _
    simp only [behind, hentry] at hij
    rw [List.getD_eq_getElem?_getD, List.getD_eq_getElem?_getD, List.getElem?_eq_getElem hlti,
      List.getElem?_eq_getElem hltj, Option.getD_some, Option.getD_some] at hij
    exact (hnodup.getElem_inj_iff).mp hij

/-- A resolved column belongs to an entry of the plan. -/
lemma exists_position {ref : ColumnRef} (h : ref.ResolvedIn plan.tables) :
    ∃ position < plan.entries.length,
      ref.qualifiedBy (FromEntry.atPosition plan.entries position).referenceName = true ∧
        ref.index.isSome = true := by
  obtain ⟨b, hb, index, hdeclares⟩ := h
  obtain ⟨position, hposition, rfl⟩ := List.getElem_of_mem hb
  refine ⟨position, by rwa [entries, List.length_map], ?_, by rw [hdeclares.index]; rfl⟩
  have hentry : FromEntry.atPosition plan.entries position = plan.tables[position].table := by
    simp [FromEntry.atPosition, entries, hposition]
  rw [hentry, hdeclares.qualifiedBy_iff]
  exact Name.same_refl _

/-- A condition of the plan does not tell candidates from the rows behind them. -/
lemma Gathered.reads (h : plan.Gathered s early inputs) (bound : plan.Bound s) {on : Option Expr}
    (hon : ∀ e, on = some e → e ∈ plan.conditions) :
    (JoinInput.space inputs).Reads (s.space plan.entries) (behind s plan early) on := by
  intro c valid
  cases on with
  | none => rfl
  | some e =>
    have he := hon e rfl
    have hevaluate : e.evaluate .full
          ((List.range inputs.length).map fun p =>
            (JoinInput.atPosition inputs p).chosenRow (c p)) =
        e.evaluate .full (FromEntry.shownRows plan.entries (c.through (behind s plan early))) := by
      refine Expr.evaluate_congr fun ref href => ?_
      rw [FromEntry.shownRows, h.length_eq]
      apply Expr.columnOutcome_congr
      · intro p _
        exact h.tableName_eq p (c p)
      · intro p hp hname
        rw [h.tableName_eq p (c p), FromEntry.tableName_shown] at hname
        exact h.valueOf_chosenRow bound (List.mem_range.mp hp)
          (fun index hindex => List.mem_range.mp (valid p index hindex)) he href hname
    simp only [JoinInput.space, Store.space, RowSpace.ofRows, Expr.accepts, hevaluate]
    rfl

/-- An entry without early predicate misses no row. -/
lemma Gathered.complete (h : plan.Gathered s early inputs) {position : Nat}
    (hposition : position < inputs.length)
    (hearly : early (FromEntry.atPosition plan.entries position) = none) :
    (JoinInput.space inputs).Complete (s.space plan.entries) (behind s plan early) position := by
  intro row hrow
  obtain ⟨b, hb, hentry, gathers⟩ := h.at_position hposition
  replace hrow : row ∈ s.kept (early b.table) b.table := by
    rw [← hentry, hearly, Store.kept_none]
    exact hrow
  obtain ⟨index, hindex, rfl⟩ := List.getElem_of_mem hrow
  refine ⟨index, List.mem_range.mpr (by rwa [← gathers.length_eq]), ?_⟩
  simp [behind, hentry, hindex]

end Plan

end RelQuery
