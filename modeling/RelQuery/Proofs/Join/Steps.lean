import RelQuery.Proofs.Join.Growth
import RelQuery.Proofs.Join.Partners
import RelQuery.Proofs.Join.Slots

/-!
# Executor steps are textbook joins

A cross step evaluates the condition on every pair, a match step compares keys that it has looked up
beforehand.  Read as choices, the tuples that either of them returns are those of the textbook join,
in the same order, and the condition turns out to look at no table beyond the joined ones.
-/

namespace RelQuery

/-! ## Keys of a condition -/

namespace JoinInput

/-- No row of the table carries a real in the column. -/
def HoldsNoReal (t : JoinInput) (ref : ColumnRef) : Prop :=
  ∀ row ∈ t.rows, ∀ value,
    (LogicalRow.candidate t.referenceName t.columns row).valueOf ref = .ok value →
      value.isReal = false

/-- The columns that a condition equates are located, and hold no real. -/
def KeysPlain (tables : List JoinInput) (on : Expr) : Prop :=
  ∀ left right, on.equated? = some (left, right) →
    (left.index.isSome = true ∧ right.index.isSome = true) ∧
      ∀ t ∈ tables, t.HoldsNoReal left ∧ t.HoldsNoReal right

end JoinInput

namespace EqualityKey

/-- The sides of a condition are the two columns it equates, that of the named table first. -/
lemma equated_of_sides {name : String} {on : Expr} {new existing : ColumnRef}
    (h : sides? name on = some (new, existing)) :
    new.qualifiedBy name = true ∧
      (on.equated? = some (new, existing) ∨ on.equated? = some (existing, new)) := by
  unfold sides? at h
  split at h
  · rename_i l labelL r labelR label
    split at h
    · rename_i hname
      obtain ⟨rfl, rfl⟩ : l = new ∧ r = existing := by simpa using h
      exact ⟨hname, Or.inl rfl⟩
    · split at h
      · rename_i hname
        obtain ⟨rfl, rfl⟩ : r = new ∧ l = existing := by simpa using h
        exact ⟨hname, Or.inr rfl⟩
      · simp at h
  · simp at h

/-- What the key of a condition is made of. -/
lemma ofCondition_eq_ok {tables : List JoinInput} {order : List Nat} {newTable : Nat} {on : Expr}
    {key : EqualityKey} (h : ofCondition tables order newTable on = .ok key) :
    ∃ new existing, sides? (JoinInput.atPosition tables newTable).referenceName on =
        some (new, existing) ∧
      order[key.slot]? = some key.existing ∧
      existing.qualifiedBy (JoinInput.atPosition tables key.existing).referenceName = true ∧
      (JoinInput.atPosition tables key.existing).placeOf existing = .ok key.existingColumn ∧
      (JoinInput.atPosition tables newTable).placeOf new = .ok key.newColumn := by
  unfold ofCondition at h
  dsimp only at h
  split at h
  · simp at h
  · rename_i new existing hsides
    split at h
    · simp at h
    · rename_i slot hslot
      obtain ⟨-, -, h⟩ := Result.bind_eq_ok.mp h
      obtain ⟨existingColumn, hexisting, h⟩ := Result.bind_eq_ok.mp h
      obtain ⟨newColumn, hnew, h⟩ := Result.bind_eq_ok.mp h
      obtain rfl := Result.pure_eq_ok.mp h
      obtain ⟨hlt, hbelongs, -⟩ := List.findIdx?_eq_some_iff_getElem.mp hslot
      have hget : order.getD slot 0 = order[slot] := by simp [hlt]
      refine ⟨new, existing, hsides, by simp [hlt], ?_, hexisting, hnew⟩
      rw [hget]
      exact hbelongs

end EqualityKey

/-- A candidate holds its value of a column at the place where the column is carried. -/
lemma JoinInput.valueOf_candidate {t : JoinInput} {ref : ColumnRef} {place : Nat}
    (hplace : t.placeOf ref = .ok place) (row : Candidate) :
    (LogicalRow.candidate t.referenceName t.columns row).valueOf ref =
      (LogicalRow.candidate t.referenceName t.columns row).valueAt place := by
  unfold JoinInput.placeOf at hplace
  simp [LogicalRow.valueOf, LogicalRow.valueAt, hplace, Except.bind]

/-! ## One step -/

namespace JoinInput

variable {tables : List JoinInput} {order : List Nat} {newTable : Nat} {tuples : List Tuple}

/-- The joined tables and the next: distinct tables of the list, with one slot each. -/
structure Placed (tables : List JoinInput) (order : List Nat) (newTable : Nat)
    (tuples : List Tuple) : Prop where
  nodup : order.Nodup
  inside : order ⊆ positions tables
  fresh : newTable ∉ order
  known : newTable < tables.length
  lengths : ∀ tuple ∈ tuples, tuple.length = order.length

/-- The joined tables and the next one are distinct. -/
lemma Placed.nodup_concat (placed : Placed tables order newTable tuples) :
    (order ++ [newTable]).Nodup :=
  List.nodup_append_comm.mp (List.nodup_cons.mpr ⟨placed.fresh, placed.nodup⟩)

/-- The joined tables and the next one are tables of the list. -/
lemma Placed.concat_subset (placed : Placed tables order newTable tuples) :
    order ++ [newTable] ⊆ positions tables :=
  List.append_subset.mpr ⟨placed.inside,
    List.cons_subset.mpr ⟨mem_positions.mpr placed.known, List.nil_subset _⟩⟩

/-- The tuples after a step, read as choices, are the textbook join of those before it, and the
condition is settled. -/
structure JoinsAs (tables : List JoinInput) (order : List Nat) (link : PendingJoin)
    (tuples joined : List Tuple) : Prop where
  choices : joined.map (slotChoice (order ++ [link.right])) =
    (space tables).join link (tuples.map (slotChoice order))
  settled : (space tables).Settled order link (tuples.map (slotChoice order))
  lengths : ∀ tuple ∈ joined, tuple.length = (order ++ [link.right]).length

/-- The choice takes what the tuple and a row of the new table take. -/
def Extends (order : List Nat) (newTable : Nat) (tuple : Tuple) (index : Nat) (τ : Choice Nat) :
    Prop :=
  τ.within (order ++ [newTable]) = Function.update (slotChoice order tuple) newTable (some index)

/-- An extending choice takes the slots of the extended tuple. -/
lemma Placed.eq_slotChoice (placed : Placed tables order newTable tuples) {tuple : Tuple}
    (htuple : tuple ∈ tuples) {index : Nat} {τ : Choice Nat}
    (hτ : Extends order newTable tuple index τ) :
    ∀ table ∈ order ++ [newTable],
      τ table = slotChoice (order ++ [newTable]) (tuple ++ [some index]) table := by
  intro table htable
  rw [slotChoice_append (placed.lengths tuple htuple) placed.fresh, ← hτ,
    Choice.within_of_mem htable]

/-- The choice of the extended tuple extends the tuple. -/
lemma extends_update (order : List Nat) (newTable : Nat) (tuple : Tuple) (index : Nat) :
    Extends order newTable tuple index
      (Function.update (slotChoice order tuple) newTable (some index)) := by
  have hsupported : (slotChoice order tuple).SupportedBy order :=
    fun table h => slotChoice_of_notMem h tuple
  exact Choice.within_eq_self (Choice.supportedBy_update hsupported newTable _)

/-- The extended tuples, read as choices. -/
lemma Placed.map_slotChoice (placed : Placed tables order newTable tuples) {tuple : Tuple}
    (htuple : tuple ∈ tuples) (found : List Nat) :
    (found.map fun index => tuple ++ [some index]).map (slotChoice (order ++ [newTable])) =
      found.map fun index =>
        Function.update (slotChoice order tuple) newTable (some index) := by
  rw [List.map_map]
  refine List.map_congr_left fun index _ => ?_
  exact slotChoice_append (placed.lengths tuple htuple) placed.fresh _

/-! ### Cross steps -/

/-- The pairs of a cross step have their condition decided for all choices that extend them. -/
lemma accepts_of_passesOn (apart : NamesApart tables)
    (placed : Placed tables order newTable tuples) {tuple : Tuple} (htuple : tuple ∈ tuples)
    {index : Nat} {on : Option Expr} {passed : Bool}
    (h : passesOn tables (order ++ [newTable]) on (tuple ++ [some index]) = .ok passed)
    {τ : Choice Nat} (hτ : Extends order newTable tuple index τ) :
    (space tables).accepts on τ = passed := by
  cases on with
  | none => exact Except.ok.inj h
  | some predicate =>
    have haccepts := accepts_of_acceptsTuple apart placed.nodup_concat placed.concat_subset
      (by simp [placed.lengths tuple htuple]) h (placed.eq_slotChoice htuple hτ)
    exact congrArg Result.holds haccepts

/-- A cross step tests every pair and keeps what passes. -/
lemma crossStep_eq_ok {watch : Watch} {interval : Nat} {on : Option Expr} {joined : List Tuple}
    (h : crossStep tables watch interval order newTable on tuples = .ok joined) :
    (∀ pair ∈ allPairs tuples (atPosition tables newTable).rows.length,
      ∃ passed, passesOn tables (order ++ [newTable]) on pair = .ok passed) ∧
    joined = (allPairs tuples (atPosition tables newTable).rows.length).filter fun pair =>
      Result.holds (passesOn tables (order ++ [newTable]) on pair) := by
  unfold crossStep at h
  obtain ⟨-, -, h⟩ := Result.bind_eq_ok.mp h
  obtain ⟨kept, hkept, h⟩ := Result.bind_eq_ok.mp h
  obtain rfl := Result.pure_eq_ok.mp h
  obtain ⟨hall, rfl⟩ := filterResult_eq_ok.mp hkept
  generalize allPairs tuples (atPosition tables newTable).rows.length = pairs at hall ⊢
  -- a test that succeeded has the answer of the condition
  have answer : ∀ pair ∈ pairs.zipIdx 1, ∃ passed,
      (do watch.pollEvery interval pair.2 (.paired order.length pair.2)
          passesOn tables (order ++ [newTable]) on pair.1) = .ok passed ∧
        passesOn tables (order ++ [newTable]) on pair.1 = .ok passed := by
    intro pair hpair
    obtain ⟨passed, hpassed⟩ := hall pair hpair
    obtain ⟨-, -, hon⟩ := Result.bind_eq_ok.mp hpassed
    exact ⟨passed, hpassed, hon⟩
  constructor
  · intro pair hpair
    rw [← List.zipIdx_map_fst 1 pairs] at hpair
    obtain ⟨numbered, hnumbered, rfl⟩ := List.mem_map.mp hpair
    obtain ⟨passed, -, hon⟩ := answer numbered hnumbered
    exact ⟨passed, hon⟩
  · conv_rhs => rw [← List.zipIdx_map_fst 1 pairs]
    rw [List.filter_map]
    congr 1
    refine List.filter_congr fun pair hpair => ?_
    obtain ⟨passed, hpassed, hon⟩ := answer pair hpair
    rw [hpassed, Function.comp_apply, hon]

/-- A cross step is the textbook join. -/
theorem joinsAs_of_crossStep (apart : NamesApart tables) {link : PendingJoin}
    (placed : Placed tables order link.right tuples) (hkind : link.clause.kind = .cross)
    {watch : Watch} {interval : Nat} {joined : List Tuple}
    (h : crossStep tables watch interval order link.right link.clause.on tuples = .ok joined) :
    JoinsAs tables order link tuples joined := by
  obtain ⟨hall, rfl⟩ := crossStep_eq_ok h
  have hleft : link.keepsLeft = false := by simp [PendingJoin.keepsLeft, hkind, JoinKind.keepsLeft]
  have hright : link.keepsRight = false := by
    simp [PendingJoin.keepsRight, hkind, JoinKind.keepsRight]
  have decided : ∀ tuple ∈ tuples, ∀ index < (atPosition tables link.right).rows.length,
      ∀ τ, Extends order link.right tuple index τ →
        (space tables).accepts link.clause.on τ =
          Result.holds (passesOn tables (order ++ [link.right]) link.clause.on
            (tuple ++ [some index])) := by
    intro tuple htuple index hindex τ hτ
    have hpair : tuple ++ [some index] ∈
        allPairs tuples (atPosition tables link.right).rows.length := by
      unfold allPairs
      exact List.mem_flatMap.mpr ⟨tuple, htuple,
        List.mem_map.mpr ⟨index, List.mem_range.mpr hindex, rfl⟩⟩
    obtain ⟨passed, hpassed⟩ := hall _ hpair
    rw [accepts_of_passesOn apart placed htuple hpassed hτ, hpassed, Result.holds_ok]
  refine ⟨?_, ?_, ?_⟩
  · have hunmatched : (space tables).unmatched link (tuples.map (slotChoice order)) = [] := by
      simp [RowSpace.unmatched, hright]
    rw [RowSpace.join, hunmatched, List.append_nil, allPairs, List.filter_flatMap,
      List.map_flatMap, List.flatMap_map]
    refine List.flatMap_congr fun tuple htuple => ?_
    rw [List.filter_map, placed.map_slotChoice htuple, RowSpace.extend, hleft, Bool.and_false,
      if_neg Bool.false_ne_true, RowSpace.partners]
    congr 1
    refine List.filter_congr fun index hindex => ?_
    rw [decided tuple htuple index (List.mem_range.mp hindex) _ (extends_update _ _ _ index)]
    rfl
  · intro c hc index hindex τ hτ
    obtain ⟨tuple, htuple, rfl⟩ := List.mem_map.mp hc
    rw [decided tuple htuple index (List.mem_range.mp hindex) τ hτ,
      decided tuple htuple index (List.mem_range.mp hindex) _ (extends_update _ _ _ index)]
  · intro tuple htuple
    obtain ⟨old, hold, hpair⟩ := List.mem_flatMap.mp (List.mem_filter.mp htuple).1
    obtain ⟨index, -, rfl⟩ := List.mem_map.mp hpair
    simp [placed.lengths old hold]

/-! ### Match steps -/

/-- The value of a candidate at a place. -/
lemma valueAt_candidate_eq_ok {t : JoinInput} {row : Candidate} {place : Nat} {value : Value} :
    (LogicalRow.candidate t.referenceName t.columns row).valueAt place = .ok value ↔
      row.values[place]? = some value := by
  simp only [LogicalRow.valueAt, Row.at]
  cases row.values[place]? <;> simp

/-- The values under a column without reals are not real. -/
lemma HoldsNoReal.of_place {t : JoinInput} {ref : ColumnRef} (h : t.HoldsNoReal ref) {place : Nat}
    (hplace : t.placeOf ref = .ok place) {row : Candidate} (hrow : row ∈ t.rows) {value : Value}
    (hvalue : row.values[place]? = some value) : value.isReal = false := by
  refine h row hrow value ?_
  rw [valueOf_candidate hplace]
  exact valueAt_candidate_eq_ok.mpr hvalue

/-- The probe of a tuple is its value under the key, or nothing where it has padding. -/
lemma probe_eq_ok {key : EqualityKey} {tuple : Tuple} {probe : Option Value}
    (h : key.probe tables tuple = .ok probe) :
    (tuple[key.slot]? = some none ∧ probe = none) ∨
      ∃ index row value, tuple[key.slot]? = some (some index) ∧
        (atPosition tables key.existing).rows[index]? = some row ∧
        row.values[key.existingColumn]? = some value ∧ probe = some value := by
  unfold EqualityKey.probe at h
  split at h
  · simp at h
  · rename_i hslot
    exact Or.inl ⟨hslot, (Except.ok.inj h).symm⟩
  · rename_i index hslot
    obtain ⟨row, hrow, h⟩ := Result.bind_eq_ok.mp h
    obtain ⟨value, hvalue, hsome⟩ := Result.bind_eq_ok.mp h
    unfold JoinInput.row at hrow
    split at hrow
    · rename_i candidate hcandidate
      obtain rfl := Except.ok.inj hrow
      exact Or.inr ⟨index, candidate, value, hslot, hcandidate,
        valueAt_candidate_eq_ok.mp hvalue, (Result.pure_eq_ok.mp hsome).symm⟩
    · simp at hrow

/-- A position of a table in the list. -/
lemma atPosition_mem {table : Nat} (h : table < tables.length) :
    atPosition tables table ∈ tables :=
  List.mem_of_getElem? (getElem?_eq_atPosition h)

/-- The columns of a key: those that the condition equates, each carried by its table. -/
structure EquatedColumns (tables : List JoinInput) (order : List Nat) (newTable : Nat) (on : Expr)
    (key : EqualityKey) (new existing : ColumnRef) : Prop where
  equated : on.equated? = some (new, existing) ∨ on.equated? = some (existing, new)
  newQualified : new.qualifiedBy (atPosition tables newTable).referenceName = true
  existingQualified :
    existing.qualifiedBy (atPosition tables key.existing).referenceName = true
  newPlace : (atPosition tables newTable).placeOf new = .ok key.newColumn
  existingPlace : (atPosition tables key.existing).placeOf existing = .ok key.existingColumn
  slot : order[key.slot]? = some key.existing

/-- Every key has columns. -/
lemma exists_equatedColumns {on : Expr} {key : EqualityKey}
    (hkey : EqualityKey.ofCondition tables order newTable on = .ok key) :
    ∃ new existing, EquatedColumns tables order newTable on key new existing := by
  obtain ⟨new, existing, hsides, hslot, hqualified, hexisting, hnew⟩ :=
    EqualityKey.ofCondition_eq_ok hkey
  obtain ⟨hname, hequated⟩ := EqualityKey.equated_of_sides hsides
  exact ⟨new, existing, hequated, hname, hqualified, hnew, hexisting, hslot⟩

/-- The columns of a key: those that the condition equates, both located and without reals on
whichever side they stand. -/
structure KeyColumns (tables : List JoinInput) (order : List Nat) (newTable : Nat) (on : Expr)
    (key : EqualityKey) (new existing : ColumnRef) : Prop where
  equated : on.equated? = some (new, existing) ∨ on.equated? = some (existing, new)
  newQualified : new.qualifiedBy (atPosition tables newTable).referenceName = true
  existingQualified :
    existing.qualifiedBy (atPosition tables key.existing).referenceName = true
  located : new.index.isSome = true ∧ existing.index.isSome = true
  noReal : (∀ t ∈ tables, t.HoldsNoReal new) ∧ ∀ t ∈ tables, t.HoldsNoReal existing
  newPlace : (atPosition tables newTable).placeOf new = .ok key.newColumn
  existingPlace : (atPosition tables key.existing).placeOf existing = .ok key.existingColumn
  slot : order[key.slot]? = some key.existing

/-- The columns of a key are the equated ones. -/
lemma KeyColumns.equatedColumns {on : Expr} {key : EqualityKey} {new existing : ColumnRef}
    (columns : KeyColumns tables order newTable on key new existing) :
    EquatedColumns tables order newTable on key new existing :=
  ⟨columns.equated, columns.newQualified, columns.existingQualified, columns.newPlace,
    columns.existingPlace, columns.slot⟩

/-- The columns of a key are located and hold no real if the condition equates such columns only. -/
lemma exists_keyColumns {on : Expr} (plain : KeysPlain tables on) {key : EqualityKey}
    (hkey : EqualityKey.ofCondition tables order newTable on = .ok key) :
    ∃ new existing, KeyColumns tables order newTable on key new existing := by
  obtain ⟨new, existing, columns⟩ := exists_equatedColumns hkey
  refine ⟨new, existing, columns.equated, columns.newQualified, columns.existingQualified, ?_, ?_,
    columns.newPlace, columns.existingPlace, columns.slot⟩
  · rcases columns.equated with hequated | hequated
    · exact (plain new existing hequated).1
    · exact (plain existing new hequated).1.symm
  · rcases columns.equated with hequated | hequated
    · have := (plain new existing hequated).2
      exact ⟨fun t ht => (this t ht).1, fun t ht => (this t ht).2⟩
    · have := (plain existing new hequated).2
      exact ⟨fun t ht => (this t ht).2, fun t ht => (this t ht).1⟩

/-- No probe is a real. -/
lemma KeyColumns.isReal_probe {on : Expr} {key : EqualityKey} {new existing : ColumnRef}
    (columns : KeyColumns tables order newTable on key new existing)
    (placed : Placed tables order newTable tuples) {tuple : Tuple} {probe : Option Value}
    (hprobe : key.probe tables tuple = .ok probe) : ∀ v, probe = some v → v.isReal = false := by
  have hknown : key.existing < tables.length :=
    mem_positions.mp (placed.inside (List.mem_of_getElem? columns.slot))
  rintro v rfl
  rcases probe_eq_ok hprobe with ⟨-, h⟩ | ⟨index, row, value, -, hrow, hvalue, h⟩
  · simp at h
  · obtain rfl : v = value := by simpa using h
    exact (columns.noReal.2 _ (atPosition_mem hknown)).of_place columns.existingPlace
      (List.mem_of_getElem? hrow) hvalue

/-- Among the rows of a choice that extends a tuple by a row, the columns of a key have the key of
the row and that of the tuple for their values. -/
lemma EquatedColumns.outcomes (apart : NamesApart tables)
    (placed : Placed tables order newTable tuples) {on : Expr} {key : EqualityKey}
    {new existing : ColumnRef} (columns : EquatedColumns tables order newTable on key new existing)
    (located : new.index.isSome = true ∧ existing.index.isSome = true) {tuple : Tuple}
    (htuple : tuple ∈ tuples) {probe : Option Value} (hprobe : key.probe tables tuple = .ok probe)
    {index : Nat} {row : Candidate} (hrow : (atPosition tables newTable).rows[index]? = some row)
    {value : Value} (hvalue : row.values[key.newColumn]? = some value) {τ : Choice Nat}
    (hτ : Extends order newTable tuple index τ) {looked : List Nat}
    (hlooked : looked ⊆ positions tables) (hjoined : order ++ [newTable] ⊆ looked) :
    Expr.columnOutcome .full (looked.map (chosen tables τ)) new = .ok (.determined value) ∧
      Expr.columnOutcome .full (looked.map (chosen tables τ)) existing =
        .ok (.determined (probe.getD .null)) := by
  have hexisting : key.existing ∈ order := List.mem_of_getElem? columns.slot
  have hslots := placed.eq_slotChoice htuple hτ
  have hnodup := placed.nodup_concat
  have hlength := placed.lengths tuple htuple
  have hapart := (apart.chosen τ).of_subset hlooked
  constructor
  -- the row of the new table
  · rw [Expr.columnOutcome_map hapart (p := newTable) (hjoined (by simp))
      (by rw [tableName_chosen]; exact columns.newQualified) located.1]
    have hτnew : τ newTable = some index := by
      rw [hslots newTable (by simp)]
      refine slotChoice_getElem hnodup order.length (by simp) ?_
      rw [← hlength]
      simp
    simp only [chosen, hτnew, chosenRow, hrow]
    rw [valueOf_candidate columns.newPlace, valueAt_candidate_eq_ok.mpr hvalue]
    rfl
  -- the row of the joined table, or its padding
  · rw [Expr.columnOutcome_map hapart (hjoined (List.mem_append_left _ hexisting))
      (by rw [tableName_chosen]; exact columns.existingQualified) located.2]
    have hτexisting : ∀ slot, tuple[key.slot]? = some slot → τ key.existing = slot := by
      intro slot hget
      rw [hslots key.existing (List.mem_append_left _ hexisting)]
      obtain ⟨hlt, -⟩ := List.getElem?_eq_some_iff.mp columns.slot
      refine slotChoice_getElem hnodup key.slot ?_ ?_
      · rw [List.getElem?_append_left hlt, columns.slot]
      · rw [List.getElem?_append_left (by rwa [hlength]), hget]
    rcases probe_eq_ok hprobe with ⟨hnone, rfl⟩ | ⟨i, r, w, hget, hr, hw, rfl⟩
    · simp only [chosen, hτexisting none hnone, chosenRow]
      rfl
    · simp only [chosen, hτexisting _ hget, chosenRow, hr]
      rw [valueOf_candidate columns.existingPlace, valueAt_candidate_eq_ok.mpr hw]
      rfl

/-- A condition on columns accepts a pair where the key of the row equals the probe of the tuple. -/
lemma KeyColumns.accepts_iff_equal (apart : NamesApart tables)
    (placed : Placed tables order newTable tuples) {on : Expr} {key : EqualityKey}
    {new existing : ColumnRef} (columns : KeyColumns tables order newTable on key new existing)
    {tuple : Tuple} (htuple : tuple ∈ tuples) {probe : Option Value}
    (hprobe : key.probe tables tuple = .ok probe) {index : Nat} {row : Candidate}
    (hrow : (atPosition tables newTable).rows[index]? = some row) {value : Value}
    (hvalue : row.values[key.newColumn]? = some value) {τ : Choice Nat}
    (hτ : Extends order newTable tuple index τ) :
    (space tables).accepts (some on) τ = probe.any (·.equal value) := by
  obtain ⟨hnew, hexisting⟩ := columns.equatedColumns.outcomes apart placed columns.located htuple
    hprobe hrow hvalue hτ (List.Subset.refl (positions tables)) placed.concat_subset
  have hequal : (probe.getD .null).equal value = probe.any (·.equal value) := by
    cases probe <;> rfl
  rcases columns.equated with hequated | hequated
  · have hholds : (space tables).accepts (some on) τ = value.equal (probe.getD .null) :=
      Expr.holds_accepts_of_equated hequated hnew hexisting
    rw [hholds, ← hequal, Value.equal_comm]
  · have hholds : (space tables).accepts (some on) τ = (probe.getD .null).equal value :=
      Expr.holds_accepts_of_equated hequated hexisting hnew
    rw [hholds, hequal]

/-- The keys of a table: one value for every position. -/
lemma keyedRows_eq_ok {t : JoinInput} {column : Nat} {keys : List (Value × Nat)}
    (h : t.rows.zipIdx.mapM (keyedRow t column) = .ok keys) :
    keys.map Prod.snd = List.range t.rows.length ∧
      ∀ key ∈ keys, ∃ row, t.rows[key.2]? = some row ∧ row.values[column]? = some key.1 := by
  have hrow : ∀ row key, keyedRow t column row = .ok key →
      key.2 = row.2 ∧ row.1.values[column]? = some key.1 := by
    intro row key hkey
    unfold keyedRow at hkey
    split at hkey
    · rename_i value hvalue
      obtain rfl := Except.ok.inj hkey
      exact ⟨rfl, hvalue⟩
    · simp at hkey
  constructor
  · have hsnd : keys.map Prod.snd = t.rows.zipIdx.map Prod.snd := by
      have hall := mapM_eq_ok.mp h
      clear h
      generalize t.rows.zipIdx = rows at hall ⊢
      induction hall with
      | nil => rfl
      | cons hkey _ ih => rw [List.map_cons, List.map_cons, (hrow _ _ hkey).1, ih]
    rw [hsnd, List.zipIdx_map_snd, List.range_eq_range']
  · intro key hkey
    obtain ⟨row, hmem, hok⟩ := source_of_mem_of_mapM h hkey
    obtain ⟨hindex, hvalue⟩ := hrow row key hok
    refine ⟨row.1, ?_, hvalue⟩
    rw [hindex]
    exact List.mem_zipIdx_iff_getElem?.mp hmem

/-- The condition of a match step is decided on every pair, and the keys of the new table tell the
partners of a tuple. -/
lemma KeyColumns.partners_eq (apart : NamesApart tables) {link : PendingJoin}
    (placed : Placed tables order link.right tuples) {on : Expr} (hon : link.clause.on = some on)
    {key : EqualityKey} {new existing : ColumnRef}
    (columns : KeyColumns tables order link.right on key new existing) {keys : List (Value × Nat)}
    (hkeys : (atPosition tables link.right).rows.zipIdx.mapM
      (keyedRow (atPosition tables link.right) key.newColumn) = .ok keys)
    {tuple : Tuple} (htuple : tuple ∈ tuples) {probe : Option Value}
    (hprobe : key.probe tables tuple = .ok probe) :
    (∀ index < (atPosition tables link.right).rows.length, ∀ τ,
      Extends order link.right tuple index τ →
        (space tables).accepts link.clause.on τ = (space tables).accepts link.clause.on
          (Function.update (slotChoice order tuple) link.right (some index))) ∧
    ∀ found, partners (sortKeys keys) probe = .ok found →
      found = (space tables).partners link (slotChoice order tuple) := by
  obtain ⟨hindices, hvalues⟩ := keyedRows_eq_ok hkeys
  have decided : ∀ entry ∈ keys, ∀ τ, Extends order link.right tuple entry.2 τ →
      (space tables).accepts link.clause.on τ = probe.any (·.equal entry.1) := by
    intro entry hentry τ hτ
    obtain ⟨row, hrow, hvalue⟩ := hvalues entry hentry
    rw [hon]
    exact columns.accepts_iff_equal apart placed htuple hprobe hrow hvalue hτ
  have noReal : ∀ entry ∈ keys, entry.1.isReal = false := by
    intro entry hentry
    obtain ⟨row, hrow, hvalue⟩ := hvalues entry hentry
    exact (columns.noReal.1 _ (atPosition_mem placed.known)).of_place columns.newPlace
      (List.mem_of_getElem? hrow) hvalue
  constructor
  · intro index hindex τ hτ
    rw [← List.mem_range, ← hindices] at hindex
    obtain ⟨entry, hentry, rfl⟩ := List.mem_map.mp hindex
    rw [decided entry hentry τ hτ, decided entry hentry _ (extends_update _ _ _ _)]
  · intro found hfound
    rw [RelQuery.partners_eq noReal (columns.isReal_probe placed hprobe) hfound, RowSpace.partners]
    have haccepts : keys.filter (fun entry => probe.any (·.equal entry.1)) =
        keys.filter ((fun index => (space tables).accepts link.clause.on
          (Function.update (slotChoice order tuple) link.right (some index))) ∘ Prod.snd) := by
      refine List.filter_congr fun entry hentry => ?_
      rw [Function.comp_apply, decided entry hentry _ (extends_update _ _ _ _)]
    rw [haccepts, ← List.filter_map, hindices]
    rfl

/-- The new rows that no tuple found are the unmatched ones. -/
lemma map_unmatched (link : PendingJoin) (fresh : link.right ∉ order) :
    (unmatched order.length (atPosition tables link.right).rows.length
      (tuples.map fun tuple => (space tables).partners link (slotChoice order tuple))).map
        (slotChoice (order ++ [link.right])) =
      ((List.range (atPosition tables link.right).rows.length).filter fun row =>
        !(tuples.map (slotChoice order)).any fun c => (space tables).accepts link.clause.on
          (Function.update c link.right (some row))).map fun row =>
            Function.update Choice.none link.right (some row) := by
  have hslot : ∀ index : Nat, slotChoice (order ++ [link.right])
      (List.replicate order.length none ++ [some index]) =
        Function.update Choice.none link.right (some index) := by
    intro index
    rw [slotChoice_append (by simp) fresh, slotChoice_replicate]
  rw [unmatched, List.map_map]
  simp only [Function.comp_def, hslot]
  congr 1
  refine List.filter_congr fun index hindex => ?_
  congr 1
  rw [List.any_map, List.any_map]
  congr 1
  funext tuple
  rw [Function.comp_apply, Function.comp_apply, Bool.eq_iff_iff, List.contains_iff_mem,
    RowSpace.partners, List.mem_filter]
  exact and_iff_right hindex

/-- Every element beside its image. -/
lemma zip_map_self {α β : Type} (f : α → β) (l : List α) :
    l.zip (l.map f) = l.map fun a => (a, f a) := by
  rw [List.zip_map_right, List.zip_eq_zipWith, List.zipWith_self, List.map_map]
  rfl

/-- A match step finds the partners of every tuple among the sorted keys, and extends the tuple by
them.  The polling changes nothing. -/
lemma matchStep_eq_ok {watch : Watch} {interval : Nat} {kind : JoinKind} {width : Nat}
    {key : EqualityKey} {joined : List Tuple}
    (h : matchStep tables watch interval kind width newTable key tuples = .ok joined) :
    ∃ (sorted : List (Value × Nat)) (found : Tuple → List Nat),
      sortedKeys (atPosition tables newTable) key.newColumn = .ok sorted ∧
      (∀ tuple ∈ tuples, ∃ probe, key.probe tables tuple = .ok probe ∧
        partners sorted probe = .ok (found tuple)) ∧
      joined = (tuples.flatMap fun tuple => extend kind tuple (found tuple)) ++
        if kind.keepsRight then
          unmatched width (atPosition tables newTable).rows.length (tuples.map found)
        else [] := by
  unfold matchStep at h
  obtain ⟨sorted, hsorted, h⟩ := Result.bind_eq_ok.mp h
  obtain ⟨allFound, hall, h⟩ := Result.bind_eq_ok.mp h
  obtain rfl := Result.pure_eq_ok.mp h
  have hprobed : tuples.mapM (fun tuple => key.probe tables tuple >>= partners sorted) =
      .ok allFound := by
    refine mapM_of_zipIdx hall fun tuple count partnersOf hpartners => ?_
    obtain ⟨-, -, hpartners⟩ := Result.bind_eq_ok.mp hpartners
    exact hpartners
  obtain ⟨found, hfound, rfl⟩ := exists_map_of_mapM hprobed
  refine ⟨sorted, found, hsorted, fun tuple htuple => ?_, ?_⟩
  · exact Result.bind_eq_ok.mp (hfound tuple htuple)
  · rw [zip_map_self, List.flatMap_map]

/-- A tuple gets one more slot. -/
lemma length_of_mem_extend {kind : JoinKind} {tuple extended : Tuple} {found : List Nat}
    (h : extended ∈ extend kind tuple found) : extended.length = tuple.length + 1 := by
  unfold extend at h
  split at h
  · rw [List.mem_singleton.mp h, List.length_append, List.length_singleton]
  · obtain ⟨index, -, rfl⟩ := List.mem_map.mp h
    rw [List.length_append, List.length_singleton]

/-- An unmatched row has padding for all the joined tables. -/
lemma length_of_mem_unmatched {width rows : Nat} {found : List (List Nat)} {tuple : Tuple}
    (h : tuple ∈ unmatched width rows found) : tuple.length = width + 1 := by
  obtain ⟨index, -, rfl⟩ := List.mem_map.mp h
  rw [List.length_append, List.length_replicate, List.length_singleton]

/-- A tuple that is extended by its partners, read as a choice. -/
lemma Placed.map_extend {link : PendingJoin} (placed : Placed tables order link.right tuples)
    {tuple : Tuple} (htuple : tuple ∈ tuples) :
    (extend link.clause.kind tuple ((space tables).partners link (slotChoice order tuple))).map
        (slotChoice (order ++ [link.right])) =
      (space tables).extend link (slotChoice order tuple) := by
  unfold extend RowSpace.extend PendingJoin.keepsLeft
  split
  · simp [slotChoice_append (placed.lengths tuple htuple) placed.fresh]
  · exact placed.map_slotChoice htuple _

/-- A match step is the textbook join. -/
theorem joinsAs_of_matchStep (apart : NamesApart tables) {link : PendingJoin}
    (placed : Placed tables order link.right tuples) {on : Expr} (hon : link.clause.on = some on)
    (plain : KeysPlain tables on) {key : EqualityKey}
    (hkey : EqualityKey.ofCondition tables order link.right on = .ok key) {watch : Watch}
    {interval : Nat} {joined : List Tuple}
    (h : matchStep tables watch interval link.clause.kind order.length link.right key tuples =
      .ok joined) : JoinsAs tables order link tuples joined := by
  obtain ⟨sorted, found, hsorted, hfound, rfl⟩ := matchStep_eq_ok h
  obtain ⟨keys, hkeys, rfl⟩ := Result.map_eq_ok.mp hsorted
  obtain ⟨new, existing, columns⟩ := exists_keyColumns plain hkey
  have hpartners : ∀ tuple ∈ tuples,
      found tuple = (space tables).partners link (slotChoice order tuple) := by
    intro tuple htuple
    obtain ⟨probe, hprobe, hpartners⟩ := hfound tuple htuple
    exact (columns.partners_eq apart placed hon hkeys htuple hprobe).2 _ hpartners
  have hextend : ∀ tuple ∈ tuples,
      (extend link.clause.kind tuple (found tuple)).map (slotChoice (order ++ [link.right])) =
        (space tables).extend link (slotChoice order tuple) :=
    fun tuple htuple => hpartners tuple htuple ▸ placed.map_extend htuple
  refine ⟨?_, ?_, ?_⟩
  · rw [List.map_append, List.map_flatMap, List.map_congr_left hpartners, RowSpace.join,
      List.flatMap_map]
    congr 1
    · exact List.flatMap_congr hextend
    · unfold RowSpace.unmatched PendingJoin.keepsRight
      split
      · exact map_unmatched link placed.fresh
      · rfl
  · intro c hc index hindex τ hτ
    obtain ⟨tuple, htuple, rfl⟩ := List.mem_map.mp hc
    obtain ⟨probe, hprobe, -⟩ := hfound tuple htuple
    exact (columns.partners_eq apart placed hon hkeys htuple hprobe).1 index
      (List.mem_range.mp hindex) τ hτ
  · intro tuple htuple
    rw [List.length_append, List.length_singleton]
    rcases List.mem_append.mp htuple with htuple | htuple
    · obtain ⟨old, hold, htuple⟩ := List.mem_flatMap.mp htuple
      rw [length_of_mem_extend htuple, placed.lengths old hold]
    · split at htuple
      · exact length_of_mem_unmatched htuple
      · simp at htuple

end JoinInput

end RelQuery
