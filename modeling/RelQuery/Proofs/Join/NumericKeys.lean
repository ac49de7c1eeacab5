import Mathlib
import RelQuery.Proofs.Faults.Joining
import RelQuery.Proofs.Join.Matching
import RelQuery.Proofs.Value.Numbers

/-!
# Match steps on numbers

Keys of a numeric column are sorted by their own measure and searched for a probe of either numeric
type.  The search is right as long as no key of the new table is a NaN: a NaN ties with every
number, so in front of the equal keys it may stop the halving short of them and end the run before
it starts.  What is found is equal to the probe in any case.
-/

namespace RelQuery

/-! ## Searching numbers -/

section Numbers

variable {keys : List (Value × Nat)} {probe : Value} {existingType newType : ColumnType}
  {found : List Nat}

/-- Sorted keys that compare with the probe by a measure can be searched for it. -/
lemma searchable_of_compare? {measure : Value → Int} {place : Int}
    (sorted : keys.Pairwise fun a b => measure a.1 ≤ measure b.1)
    (hcompare : ∀ key ∈ keys,
      key.1.compare? probe = .ok (some (compare (measure key.1) place))) :
    Searchable compare measure probe place keys where
  sorted := sorted.imp Int.isLE_compare.mpr
  sortOrder_eq key hkey := Value.sortOrder_of_compare? (hcompare key hkey)
  equal_eq key hkey := by
    rw [Value.equal_comm, Value.equal, Value.ordered, hcompare key hkey]

/-- Numbers of one type are sorted by their own rank. -/
lemma sorted_ownRank
    (hkeys : ∀ key ∈ keys.filter fun key => !key.1.isNull, Value.NumberOf newType key.1) :
    (sortKeys keys).Pairwise fun a b => a.1.ownRank ≤ b.1.ownRank := by
  have := transCmp_image (compare : Int → Int → Ordering) fun key : Value × Nat => key.1.ownRank
  rw [sortKeys_eq_inOrder compare Value.ownRank fun a ha b hb =>
    Value.sortOrder_of_compare? (Value.compare?_ownRank (hkeys a ha) (hkeys b hb))]
  exact (sorted_inOrder _ _).imp Int.isLE_compare.mp

/-- Sorted numbers of one type can be searched for a number. -/
lemma exists_searchable {sorted : List (Value × Nat)} (hnumeric : newType.isNumeric = true)
    (hsorted : sorted.Pairwise fun a b => a.1.ownRank ≤ b.1.ownRank)
    (hkeys : ∀ key ∈ sorted, Value.NumberOf newType key.1)
    (hprobe : Value.NumberOf existingType probe) :
    ∃ measure place, Searchable (compare : Int → Int → Ordering) measure probe place sorted := by
  have htypes : (existingType = .real ∨ newType = .real) ∨ existingType = newType := by
    cases hprobe <;> cases newType <;> simp_all [ColumnType.isNumeric]
  rcases htypes with hreal | rfl
  · -- an integer beside a real counts as the double nearest to it
    have hmono : sorted.Pairwise fun a b => a.1.realRank ≤ b.1.realRank := by
      refine (List.Pairwise.and_mem.mp hsorted).imp fun h => ?_
      obtain ⟨ha, hb, hab⟩ := h
      exact Value.realRank_mono (hkeys _ ha) (hkeys _ hb) hab
    exact ⟨Value.realRank, probe.realRank, searchable_of_compare? hmono fun key hkey =>
      Value.compare?_realRank (hkeys key hkey) hprobe hreal.symm⟩
  · exact ⟨Value.ownRank, probe.ownRank, searchable_of_compare? hsorted fun key hkey =>
      Value.compare?_ownRank (hkeys key hkey) hprobe⟩

/-- Nothing but NULL is left out of the keys that equal a value. -/
lemma filter_equal_nonNull (keys : List (Value × Nat)) (value : Value) :
    (keys.filter fun key => !key.1.isNull).filter (fun key => value.equal key.1) =
      keys.filter fun key => value.equal key.1 := by
  rw [List.filter_filter]
  refine List.filter_congr fun key _ => ?_
  cases hnull : key.1.isNull with
  | false => simp
  | true =>
    rw [Value.isNull_eq_true.mp hnull, Value.equal_comm, Value.equal_null]
    rfl

/-- What the search finds is equal to the probe, whatever the keys are. -/
lemma subperm_of_partners
    (hfound : partners (sortKeys keys) (some probe) = .ok found) :
    found.Subperm ((keys.filter fun key => probe.equal key.1).map Prod.snd) := by
  generalize hsorted : sortKeys keys = sorted at hfound
  have hequal : (sorted.filter fun key => probe.equal key.1).Perm
      (keys.filter fun key => probe.equal key.1) := by
    rw [← filter_equal_nonNull keys, ← hsorted]
    exact (stableSort_perm _ _).filter _
  rw [partners] at hfound
  split at hfound
  · obtain rfl := Except.ok.inj hfound
    exact List.nil_subperm
  · rw [equalRun_eq hfound]
    -- the run is a part of the sorted keys
    have hrun := (takeWhile_sublist_filter _ _).trans
      ((List.drop_sublist (boundary (fun key => key.1.sortOrder probe == .lt) sorted) sorted).filter
        fun key => probe.equal key.1)
    exact (hrun.map Prod.snd).subperm.trans (hequal.map Prod.snd).subperm

/-- Among numbers that are no NaNs the search finds all that are equal to the probe. -/
lemma perm_of_partners (hnumeric : newType.isNumeric = true)
    (hkeys : ∀ key ∈ keys, key.1.Fits newType) (hnan : ∀ key ∈ keys, key.1.isNaN = false)
    (hnumeric' : existingType.isNumeric = true) (hprobe : probe.Fits existingType)
    (hfound : partners (sortKeys keys) (some probe) = .ok found) :
    found.Perm ((keys.filter fun key => probe.equal key.1).map Prod.snd) := by
  have none_equal (h : ∀ key, probe.equal key = false) : found = [] ∧
      (keys.filter fun key => probe.equal key.1) = [] := by
    have hnil : (keys.filter fun key => probe.equal key.1) = [] :=
      List.filter_eq_nil_iff.mpr fun key _ => by simp [h key.1]
    have hsub := subperm_of_partners hfound
    rw [hnil] at hsub
    exact ⟨List.subperm_nil.mp hsub, hnil⟩
  by_cases hnumber : probe.isNull = false ∧ probe.isNaN = false
  · have hnumbers : ∀ key ∈ keys.filter fun key => !key.1.isNull,
        Value.NumberOf newType key.1 := by
      intro key hkey
      obtain ⟨hkey, hnull⟩ := List.mem_filter.mp hkey
      exact (hkeys key hkey).numberOf hnumeric (by simpa using hnull) (hnan key hkey)
    obtain ⟨measure, place, hsearch⟩ := exists_searchable hnumeric (sorted_ownRank hnumbers)
      (fun key hkey => hnumbers key (mem_stableSort.mp hkey))
      (hprobe.numberOf hnumeric' hnumber.1 hnumber.2)
    rw [hsearch.partners_eq hnumber.1 hfound, ← filter_equal_nonNull keys]
    exact ((stableSort_perm _ _).filter _).map _
  · -- neither NULL nor a NaN equals anything
    have hnone : ∀ key, probe.equal key = false := by
      intro key
      cases hprobeNaN : probe.isNaN with
      | true => exact Value.equal_eq_false_of_isNaN hprobeNaN key
      | false =>
        have hnull : probe.isNull = true := by simpa [hprobeNaN] using hnumber
        rw [Value.isNull_eq_true.mp hnull, Value.equal_null]
    obtain ⟨rfl, hnil⟩ := none_equal hnone
    rw [hnil]
    exact List.Perm.refl _

end Numbers

/-! ## Pairs of equal keys -/

namespace JoinInput

variable {tables : List JoinInput} {order : List Nat}

/-- The rows of a tuple of the shape are those it chooses. -/
lemma FitsOrder.rowsOf_eq (nodup : order.Nodup) {tuple : Tuple}
    (fits : FitsOrder tables order tuple) :
    rowsOf tables order tuple = .ok (order.map (chosen tables (slotChoice order tuple))) := by
  rw [fits.rowsOf_zip, JoinInput.rowsOf_eq nodup fits.length_eq.symm fits.rowsOf_zip]

end JoinInput

/-- The key of a tuple and that of a row of the new table are equal. -/
def EqualityKey.equates (tables : List JoinInput) (newTable : Nat) (key : EqualityKey)
    (tuple : Tuple) (index : Nat) : Bool :=
  (key.ofTuple tables tuple).equal (key.ofRow tables newTable index)

/-- A match step on numeric keys: the tuples have the shape of the joined tables, the condition
equates located columns of which one is of the new table, and the keys are NULL or of two numeric
types. -/
structure NumericStep (tables : List JoinInput) (order : List Nat) (newTable : Nat) (on : Expr)
    (key : EqualityKey) (tuples : List Tuple) (existingType newType : ColumnType) : Prop where
  apart : JoinInput.NamesApart tables
  placed : JoinInput.Placed tables order newTable tuples
  fits : ∀ tuple ∈ tuples, JoinInput.FitsOrder tables order tuple
  keyed : EqualityKey.ofCondition tables order newTable on = .ok key
  located : ∀ ref ∈ on.columns, ref.index.isSome = true
  typed : KeysTyped tables newTable key tuples existingType newType
  numeric : existingType.isNumeric = true ∧ newType.isNumeric = true

section NumericStep

open JoinInput

variable {tables : List JoinInput} {order : List Nat} {newTable : Nat} {on : Expr}
  {key : EqualityKey} {tuples : List Tuple} {existingType newType : ColumnType}

/-- The condition is decided on every pair of a tuple and a row of the new table, and accepts those
with equal keys. -/
lemma NumericStep.acceptsTuple_eq
    (step : NumericStep tables order newTable on key tuples existingType newType) {tuple : Tuple}
    (htuple : tuple ∈ tuples) {index : Nat}
    (hindex : index < (atPosition tables newTable).rows.length) :
    acceptsTuple tables (order ++ [newTable]) on (tuple ++ [some index]) =
      .ok (key.equates tables newTable tuple index) := by
  obtain ⟨new, existing, columns⟩ := exists_equatedColumns step.keyed
  obtain ⟨hfitsTuple, probe, hprobe, hprobeValue⟩ := step.typed.probe htuple
  have hrow := List.getElem?_eq_getElem hindex
  obtain ⟨hvalue, hfitsRow⟩ := step.typed.ofRow_eq hrow
  have hrows : rowsOf tables (order ++ [newTable]) (tuple ++ [some index]) =
      .ok ((order ++ [newTable]).map
        (chosen tables (slotChoice (order ++ [newTable]) (tuple ++ [some index])))) := by
    refine FitsOrder.rowsOf_eq step.placed.nodup_concat
      ((step.fits tuple htuple).append fun position hposition => ?_)
    obtain rfl := Option.some.inj hposition
    exact hindex
  -- the pair itself is a choice that extends the tuple
  have hextends : Extends order newTable tuple index
      (slotChoice (order ++ [newTable]) (tuple ++ [some index])) := by
    rw [slotChoice_append (step.placed.lengths tuple htuple) step.placed.fresh]
    exact extends_update order newTable tuple index
  have hlocated : new.index.isSome = true ∧ existing.index.isSome = true := by
    rcases columns.equated with h | h <;>
      simpa [Expr.columns_of_equated h, and_comm] using step.located
  obtain ⟨hnew, hexisting⟩ := columns.outcomes step.apart step.placed hlocated htuple hprobe hrow
    hvalue hextends step.placed.concat_subset (List.Subset.refl _)
  rw [hprobeValue] at hexisting
  rw [acceptsTuple, hrows, EqualityKey.equates]
  rcases columns.equated with hequated | hequated
  · obtain ⟨order?, hcompare⟩ := hfitsRow.exists_compare? hfitsTuple (.inr step.numeric.symm)
    rw [Except.bind, Expr.accepts_of_equated hequated hnew hexisting,
      Value.map_compare?_eq hcompare, Value.equal_comm]
  · obtain ⟨order?, hcompare⟩ := hfitsTuple.exists_compare? hfitsRow (.inr step.numeric)
    rw [Except.bind, Expr.accepts_of_equated hequated hexisting hnew,
      Value.map_compare?_eq hcompare]

/-- An inner join extends a tuple by its partners. -/
lemma extend_inner (tuple : Tuple) (found : List Nat) :
    extend .inner tuple found = found.map fun index => tuple ++ [some index] := by
  simp [extend, JoinKind.keepsLeft]

/-- Parts of the lists that are strung together are strung together to a part. -/
lemma subperm_flatMap {α β : Type} {f g : α → List β} {l : List α}
    (h : ∀ a ∈ l, (f a).Subperm (g a)) : (l.flatMap f).Subperm (l.flatMap g) := by
  induction l with
  | nil => exact List.Subperm.refl _
  | cons a rest ih =>
    rw [List.forall_mem_cons] at h
    exact h.1.append (ih h.2)

/-- On numeric keys an inner match step succeeds and returns no more than nested loops over the
pairs that its condition accepts.  It returns all of them if no key of the new table is a NaN. -/
theorem NumericStep.matchStep_subperm_loopJoin
    (step : NumericStep tables order newTable on key tuples existingType newType)
    (interval width : Nat) :
    ∃ joined, matchStep tables .never interval .inner width newTable key tuples = .ok joined ∧
      joined.Subperm (loopJoin .inner width (atPosition tables newTable).rows.length
        (key.equates tables newTable) tuples) ∧
      ((∀ index < (atPosition tables newTable).rows.length,
          (key.ofRow tables newTable index).isNaN = false) →
        joined.Perm (loopJoin .inner width (atPosition tables newTable).rows.length
          (key.equates tables newTable) tuples)) ∧
      ∀ tuple ∈ tuples, ∀ index < (atPosition tables newTable).rows.length,
        acceptsTuple tables (order ++ [newTable]) on (tuple ++ [some index]) =
          .ok (key.equates tables newTable tuple index) := by
  have typed := step.typed
  have hsearch : ∀ tuple, ∃ found, tuple ∈ tuples →
      partners (sortedNewKeys tables newTable key) (some (key.ofTuple tables tuple)) =
        .ok found := by
    intro tuple
    by_cases htuple : tuple ∈ tuples
    · obtain ⟨found, hfound⟩ := typed.exists_partners (.inr step.numeric) htuple
      exact ⟨found, fun _ => hfound⟩
    · exact ⟨[], fun h => absurd h htuple⟩
  choose partnersOf hpartners using hsearch
  refine ⟨_, typed.matchStep_eq hpartners interval .inner width, ?_, fun hnan => ?_,
    fun tuple htuple index => step.acceptsTuple_eq htuple⟩
  · rw [loopJoin_eq]
    refine List.Subperm.append (subperm_flatMap fun tuple htuple => ?_) (List.Subperm.refl [])
    obtain ⟨part, hpart, hsub⟩ := subperm_of_partners (hpartners tuple htuple)
    rw [map_filter_newKeys] at hsub
    rw [extend_inner, extend_inner]
    exact ⟨part.map fun index => tuple ++ [some index], hpart.map _, hsub.map _⟩
  · rw [loopJoin_eq]
    refine List.Perm.append (List.Perm.flatMap_left _ fun tuple htuple => ?_) (List.Perm.refl [])
    have hkeys : ∀ entry ∈ newKeys tables newTable key, entry.1.isNaN = false := by
      intro entry hentry
      obtain ⟨index, hindex, rfl⟩ := List.mem_map.mp hentry
      exact hnan index (List.mem_range.mp hindex)
    have hperm := perm_of_partners step.numeric.2 (fun _ => typed.fits_of_mem) hkeys
      step.numeric.1 (typed.probe htuple).1 (hpartners tuple htuple)
    rw [map_filter_newKeys] at hperm
    rw [extend_inner, extend_inner]
    exact hperm.map _

end NumericStep

/-! ## Two tables of numbers -/

/-- The column `k` of a table. -/
def numberColumn (name : String) (type : ColumnType) : ColumnRef where
  name := "k"
  table := some name
  columnType := some type
  index := some 0

/-- A table with one column of numbers. -/
def numberTable (name : String) (type : ColumnType) (keys : List Value) : JoinInput where
  table := { name, label := none }
  columns := [numberColumn name type]
  rows := keys.map fun key => { id := 0, values := [key] }

/-- The condition that the columns of `a` and `b` are equal. -/
def numbersEqual (left right : ColumnType) : Expr :=
  .binary (.comparison .eq) (.column (numberColumn "a" left) none)
    (.column (numberColumn "b" right) none) none

/-- A step from `a`, with a tuple for each of its rows, to `b`. -/
lemma numericStep_numberTables (left right : ColumnType) (keys keys' : List Value)
    (numeric : left.isNumeric = true ∧ right.isNumeric = true) (hkeys : ∀ key ∈ keys, key.Fits left)
    (hkeys' : ∀ key ∈ keys', key.Fits right) :
    NumericStep [numberTable "a" left keys, numberTable "b" right keys'] [0] 1
      (numbersEqual left right) ⟨0, 0, 0, 0⟩
      ((List.range keys.length).map fun index => [some index]) left right where
  apart := by
    have apart : Name.same "a" "b" = false := by decide +kernel
    simp [JoinInput.NamesApart, JoinInput.referenceName, numberTable, FromEntry.referenceName,
      apart]
  placed := by
    refine ⟨by decide, ?_, by decide, Nat.one_lt_two, ?_⟩
    · exact List.cons_subset.mpr ⟨JoinInput.mem_positions.mpr Nat.two_pos, List.nil_subset _⟩
    · exact List.forall_mem_map.mpr fun _ _ => rfl
  fits := by
    refine List.forall_mem_map.mpr fun index hindex => .cons (fun i hi => ?_) .nil
    obtain rfl := Option.some.inj hi
    simpa [JoinInput.atPosition, numberTable] using hindex
  keyed := by
    obtain ⟨hleft, hright⟩ := numeric
    cases left <;> cases right <;> first
      | exact absurd hleft (by decide)
      | exact absurd hright (by decide)
      | cbv
  located := by simp [numbersEqual, numberColumn, Expr.columns]
  typed := by
    constructor
    · refine List.forall_mem_map.mpr fun index hindex => .inr ?_
      rw [List.mem_range] at hindex
      refine ⟨index, { id := 0, values := [keys[index]] }, keys[index], rfl, ?_, rfl,
        hkeys _ (List.getElem_mem hindex)⟩
      simp [JoinInput.atPosition, numberTable, hindex]
    · exact List.forall_mem_map.mpr fun key hkey => ⟨key, rfl, hkeys' key hkey⟩
  numeric := numeric

/-- An INTEGER finds the REAL that it is rounded to, and NULL finds nothing. -/
theorem matchStep_subperm_loopJoin_mixed :
    ∃ joined, matchStep [numberTable "a" .integer [.integer 5, .null],
        numberTable "b" .real [.real ⟨0x4018000000000000⟩, .null, .real ⟨0x4014000000000000⟩]]
        .never 1 .inner 1 1 ⟨0, 0, 0, 0⟩ [[some 0], [some 1]] = .ok joined ∧
      joined.Perm [[some 0, some 2]] := by
  have step := numericStep_numberTables .integer .real [.integer 5, .null]
    [.real ⟨0x4018000000000000⟩, .null, .real ⟨0x4014000000000000⟩] (by decide)
    (by simp [Value.Fits, Value.type?]) (by simp [Value.Fits, Value.type?])
  obtain ⟨joined, hjoined, -, hperm, -⟩ := step.matchStep_subperm_loopJoin 1 1
  exact ⟨joined, hjoined, (hperm (by decide)).trans (by decide +kernel)⟩

/-- A NaN hides a row from its partner: it ties with the probe, and so the search
ends in front of it. -/
theorem not_forall_matchStep_perm_loopJoin :
    ¬∀ (tables : List JoinInput) (order : List Nat) (newTable : Nat) (on : Expr)
      (key : EqualityKey) (tuples joined : List Tuple) (existingType newType : ColumnType)
      (interval width : Nat), NumericStep tables order newTable on key tuples existingType newType →
      matchStep tables .never interval .inner width newTable key tuples = .ok joined →
        joined.Perm (loopJoin .inner width
          (JoinInput.atPosition tables newTable).rows.length (key.equates tables newTable)
          tuples) := by
  intro h
  have step := numericStep_numberTables .real .real [.real ⟨0x4014000000000000⟩]
    [.real ⟨0x7FF8000000000000⟩, .real ⟨0x4014000000000000⟩] (by decide)
    (by simp [Value.Fits, Value.type?]) (by simp [Value.Fits, Value.type?])
  have hperm := h _ _ _ _ _ _ [] _ _ 1 1 step (by cbv)
  exact absurd hperm.length_eq (by decide +kernel)

end RelQuery
