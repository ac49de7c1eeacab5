import Mathlib
import RelQuery.Proofs.Join.Partners
import RelQuery.Proofs.Join.Steps
import RelQuery.Proofs.Value.Ranks

/-!
# Match steps and nested loops

Nested loops run through the tuples and for each of them through the rows of the new table.  A match
step sorts and searches instead.  Where all key values are NULL or of one type other than REAL the
two have the same outcome, row for row.
-/

namespace RelQuery

/-! ## Nested loops -/

/-- The join of tuples with the rows of one more table by nested loops: the partners of each tuple
in the order of the rows, or padding for a tuple without a partner if the left side is kept, and at
the end the rows that are no partner of any tuple if the right side is kept. -/
def loopJoin (kind : JoinKind) (width rows : Nat) (pairs : Tuple → Nat → Bool)
    (tuples : List Tuple) : List Tuple :=
  (tuples.flatMap fun tuple =>
    ((List.range rows).filter (pairs tuple)).map (fun index => tuple ++ [some index]) ++
      if kind.keepsLeft && !(List.range rows).any (pairs tuple) then [tuple ++ [none]] else []) ++
  if kind.keepsRight then
    ((List.range rows).filter fun index => !tuples.any (pairs · index)).map fun index =>
      List.replicate width none ++ [some index]
  else []

/-- The loops may be written with the partners of each tuple. -/
lemma loopJoin_eq (kind : JoinKind) (width rows : Nat) (pairs : Tuple → Nat → Bool)
    (tuples : List Tuple) :
    loopJoin kind width rows pairs tuples =
      (tuples.flatMap fun tuple => extend kind tuple ((List.range rows).filter (pairs tuple))) ++
        if kind.keepsRight then
          unmatched width rows (tuples.map fun tuple => (List.range rows).filter (pairs tuple))
        else [] := by
  unfold loopJoin unmatched
  congr 1
  · refine List.flatMap_congr fun tuple _ => ?_
    unfold extend
    have hempty : ((List.range rows).filter (pairs tuple)).isEmpty =
        !(List.range rows).any (pairs tuple) := by
      rw [Bool.eq_iff_iff]
      simp [List.isEmpty_iff]
    rw [← hempty, Bool.and_comm]
    split
    · rename_i hpadded
      rw [List.isEmpty_iff.mp (Bool.and_eq_true_iff.mp hpadded).1]
      rfl
    · rw [List.append_nil]
  · split
    · congr 1
      refine List.filter_congr fun index hindex => ?_
      have hpairs (tuple : Tuple) :
          ((List.range rows).filter (pairs tuple)).contains index = pairs tuple index := by
        rw [Bool.eq_iff_iff, List.contains_iff_mem, List.mem_filter]
        exact and_iff_right hindex
      simp only [List.any_map, Function.comp_def, hpairs]
    · rfl

/-! ## Keys -/

/-- The value of a row under a column, NULL where it has none. -/
def JoinInput.keyAt (t : JoinInput) (column index : Nat) : Value :=
  ((t.rows[index]?).bind (·.values[column]?)).getD .null

namespace EqualityKey

/-- The key of a tuple, NULL where it has padding. -/
def ofTuple (tables : List JoinInput) (key : EqualityKey) (tuple : Tuple) : Value :=
  match tuple[key.slot]? with
  | some (some index) => (JoinInput.atPosition tables key.existing).keyAt key.existingColumn index
  | _ => .null

/-- The key of a row of the new table. -/
def ofRow (tables : List JoinInput) (newTable : Nat) (key : EqualityKey) (index : Nat) : Value :=
  (JoinInput.atPosition tables newTable).keyAt key.newColumn index

end EqualityKey

/-- The keys of a step can be read, and are NULL or of the given types. -/
structure KeysTyped (tables : List JoinInput) (newTable : Nat) (key : EqualityKey)
    (tuples : List Tuple) (existingType newType : ColumnType) : Prop where
  existing : ∀ tuple ∈ tuples, tuple[key.slot]? = some none ∨
    ∃ index row value, tuple[key.slot]? = some (some index) ∧
      (JoinInput.atPosition tables key.existing).rows[index]? = some row ∧
      row.values[key.existingColumn]? = some value ∧ value.Fits existingType
  new : ∀ row ∈ (JoinInput.atPosition tables newTable).rows,
    ∃ value, row.values[key.newColumn]? = some value ∧ value.Fits newType

section KeysTyped

variable {tables : List JoinInput} {newTable : Nat} {key : EqualityKey} {tuples : List Tuple}
  {existingType newType : ColumnType}

/-- The keys of the rows of the new table, each with the position of its row. -/
def newKeys (tables : List JoinInput) (newTable : Nat) (key : EqualityKey) : List (Value × Nat) :=
  (List.range (JoinInput.atPosition tables newTable).rows.length).map fun index =>
    (key.ofRow tables newTable index, index)

/-- The keys of the new table that are not NULL, sorted. -/
def sortedNewKeys (tables : List JoinInput) (newTable : Nat) (key : EqualityKey) :
    List (Value × Nat) :=
  sortKeys (newKeys tables newTable key)

/-- A probe that is missing finds what NULL finds. -/
lemma partners_getD (sorted : List (Value × Nat)) (probe : Option Value) :
    partners sorted (some (probe.getD .null)) = partners sorted probe := by
  cases probe <;> rfl

/-- The key of a row fits the type of the new column. -/
lemma KeysTyped.ofRow_eq (typed : KeysTyped tables newTable key tuples existingType newType)
    {row : Candidate} {index : Nat}
    (hrow : (JoinInput.atPosition tables newTable).rows[index]? = some row) :
    row.values[key.newColumn]? = some (key.ofRow tables newTable index) ∧
      (key.ofRow tables newTable index).Fits newType := by
  obtain ⟨value, hvalue, hfits⟩ := typed.new row (List.mem_of_getElem? hrow)
  have hkey : key.ofRow tables newTable index = value := by
    simp [EqualityKey.ofRow, JoinInput.keyAt, hrow, hvalue]
  rw [hkey]
  exact ⟨hvalue, hfits⟩

/-- The keys of the new table are its values under the key column. -/
lemma KeysTyped.keyedRows (typed : KeysTyped tables newTable key tuples existingType newType) :
    (JoinInput.atPosition tables newTable).rows.zipIdx.mapM
      (keyedRow (JoinInput.atPosition tables newTable) key.newColumn) =
        .ok (newKeys tables newTable key) := by
  have hkeys : ∀ entry ∈ (JoinInput.atPosition tables newTable).rows.zipIdx,
      keyedRow (JoinInput.atPosition tables newTable) key.newColumn entry =
        .ok (key.ofRow tables newTable entry.2, entry.2) := by
    intro entry hentry
    have hvalue := (typed.ofRow_eq (List.mem_zipIdx_iff_getElem?.mp hentry)).1
    simp only [keyedRow, hvalue]
  rw [mapM_eq_ok_map hkeys, newKeys, List.range_eq_range', ← List.zipIdx_map_snd, List.map_map]
  rfl

/-- The key of a tuple is read, and fits the type of the existing column. -/
lemma KeysTyped.probe (typed : KeysTyped tables newTable key tuples existingType newType)
    {tuple : Tuple} (htuple : tuple ∈ tuples) :
    (key.ofTuple tables tuple).Fits existingType ∧
      ∃ probe, key.probe tables tuple = .ok probe ∧
        probe.getD .null = key.ofTuple tables tuple := by
  rcases typed.existing tuple htuple with hslot | ⟨index, row, value, hslot, hrow, hvalue, hfits⟩
  · have hkey : key.ofTuple tables tuple = .null := by simp [EqualityKey.ofTuple, hslot]
    rw [hkey]
    exact ⟨Value.fits_null _, none, by simp [EqualityKey.probe, hslot], rfl⟩
  · have hkey : key.ofTuple tables tuple = value := by
      simp [EqualityKey.ofTuple, hslot, JoinInput.keyAt, hrow, hvalue]
    rw [hkey]
    refine ⟨hfits, some value, ?_, rfl⟩
    have hread : (LogicalRow.candidate (JoinInput.atPosition tables key.existing).referenceName
        (JoinInput.atPosition tables key.existing).columns row).valueAt key.existingColumn =
          .ok value := JoinInput.valueAt_candidate_eq_ok.mpr hvalue
    simp only [EqualityKey.probe, hslot, JoinInput.row, hrow]
    exact Result.bind_eq_ok.mpr ⟨_, rfl, Result.bind_eq_ok.mpr ⟨value, hread, rfl⟩⟩

/-- The partners of all tuples are found if those of each tuple are. -/
lemma KeysTyped.allPartners_eq (typed : KeysTyped tables newTable key tuples existingType newType)
    {partnersOf : Tuple → List Nat} {sorted : List (Value × Nat)}
    (hpartners : ∀ tuple ∈ tuples,
      partners sorted (some (key.ofTuple tables tuple)) = .ok (partnersOf tuple))
    (interval width : Nat) :
    allPartners tables .never interval width key sorted tuples = .ok (tuples.map partnersOf) := by
  unfold allPartners
  rw [mapM_eq_ok_map (g := fun entry => partnersOf entry.1)]
  · rw [← Function.comp_def partnersOf, ← List.map_map, List.zipIdx_map_fst]
  · rintro ⟨tuple, count⟩ hentry
    have htuple : tuple ∈ tuples := List.fst_mem_of_mem_zipIdx hentry
    obtain ⟨-, probe, hprobe, hvalue⟩ := typed.probe htuple
    refine Result.bind_eq_ok.mpr ⟨(), Watch.pollEvery_never _ _ _,
      Result.bind_eq_ok.mpr ⟨probe, hprobe, ?_⟩⟩
    rw [← partners_getD, hvalue]
    exact hpartners tuple htuple

/-- A match step whose searches succeed extends the tuples by what they found. -/
lemma KeysTyped.matchStep_eq (typed : KeysTyped tables newTable key tuples existingType newType)
    {partnersOf : Tuple → List Nat}
    (hpartners : ∀ tuple ∈ tuples, partners (sortedNewKeys tables newTable key)
      (some (key.ofTuple tables tuple)) = .ok (partnersOf tuple))
    (interval : Nat) (kind : JoinKind) (width : Nat) :
    matchStep tables .never interval kind width newTable key tuples =
      .ok ((tuples.flatMap fun tuple => extend kind tuple (partnersOf tuple)) ++
        if kind.keepsRight then
          unmatched width (JoinInput.atPosition tables newTable).rows.length
            (tuples.map partnersOf)
        else []) := by
  have hsorted : sortedKeys (JoinInput.atPosition tables newTable) key.newColumn =
      .ok (sortedNewKeys tables newTable key) := by
    rw [sortedKeys, typed.keyedRows]
    rfl
  refine Result.bind_eq_ok.mpr ⟨_, hsorted,
    Result.bind_eq_ok.mpr ⟨_, typed.allPartners_eq hpartners interval width, ?_⟩⟩
  rw [JoinInput.zip_map_self, List.flatMap_map]
  rfl

/-- A key of the new table is the key of a row, and fits the type of the new column. -/
lemma KeysTyped.fits_of_mem (typed : KeysTyped tables newTable key tuples existingType newType)
    {entry : Value × Nat} (hentry : entry ∈ newKeys tables newTable key) :
    entry.1.Fits newType := by
  obtain ⟨index, hindex, rfl⟩ := List.mem_map.mp hentry
  exact (typed.ofRow_eq (List.getElem?_eq_getElem (List.mem_range.mp hindex))).2

/-- A sorted key is one of the keys, and not NULL. -/
lemma mem_sortedNewKeys {entry : Value × Nat} : entry ∈ sortedNewKeys tables newTable key ↔
    entry ∈ newKeys tables newTable key ∧ entry.1.isNull = false := by
  exact mem_sortKeys

/-- The search for the partners of a tuple succeeds if the types can be compared. -/
lemma KeysTyped.exists_partners (typed : KeysTyped tables newTable key tuples existingType newType)
    (htypes : existingType = newType ∨
      existingType.isNumeric = true ∧ newType.isNumeric = true)
    {tuple : Tuple} (htuple : tuple ∈ tuples) :
    ∃ found, partners (sortedNewKeys tables newTable key) (some (key.ofTuple tables tuple)) =
      .ok found :=
  RelQuery.exists_partners fun _ hentry => (typed.probe htuple).1.exists_compare?
    (typed.fits_of_mem (mem_sortedNewKeys.mp hentry).1) htypes

/-- The rows whose key equals a value. -/
lemma map_filter_newKeys (value : Value) :
    ((newKeys tables newTable key).filter fun entry => value.equal entry.1).map Prod.snd =
      (List.range (JoinInput.atPosition tables newTable).rows.length).filter fun index =>
        value.equal (key.ofRow tables newTable index) := by
  rw [newKeys, List.filter_map, List.map_map]
  exact List.map_id _

/-- Where the keys are NULL or of one type other than REAL, a match step has the outcome of nested
loops that pair a tuple with the rows that have the same key other than NULL. -/
theorem matchStep_eq_loopJoin {type : ColumnType} (hreal : type ≠ .real)
    (typed : KeysTyped tables newTable key tuples type type) (interval : Nat) (kind : JoinKind)
    (width : Nat) :
    matchStep tables .never interval kind width newTable key tuples =
      .ok (loopJoin kind width (JoinInput.atPosition tables newTable).rows.length
        (fun tuple index => decide (key.ofTuple tables tuple = key.ofRow tables newTable index ∧
          key.ofTuple tables tuple ≠ .null)) tuples) := by
  have hkeys : ∀ entry ∈ newKeys tables newTable key, entry.1.isReal = false :=
    fun _ hentry => (typed.fits_of_mem hentry).isReal_eq_false hreal
  rw [loopJoin_eq]
  refine typed.matchStep_eq (fun tuple htuple => ?_) interval kind width
  have hprobe := (typed.probe htuple).1.isReal_eq_false hreal
  obtain ⟨found, hfound⟩ := typed.exists_partners (.inl rfl) htuple
  rw [hfound, partners_eq hkeys (by simpa using hprobe) hfound]
  simp only [Option.any_some]
  rw [map_filter_newKeys]
  congr 1
  refine List.filter_congr fun index hindex => ?_
  have hrow := hkeys _ (List.mem_map_of_mem hindex)
  rw [Bool.eq_iff_iff, Value.equal_iff hprobe hrow, decide_eq_true_iff, Value.isNull_eq_false]

end KeysTyped

/-- A full join of tuples with padding and NULL in the key with rows in no order. -/
theorem matchStep_eq_loopJoin_full :
    let keyed (name : String) (keys : List Value) : JoinInput :=
      { table := { name := name, label := none }, columns := []
        rows := keys.map fun key => { id := 0, values := [key] } }
    let tables := [keyed "a" [.integer 2, .null, .integer 1],
      keyed "b" [.integer 2, .integer 1, .null, .integer 2, .integer 3]]
    matchStep tables .never 1 .full 1 1 ⟨0, 0, 0, 0⟩ [[some 0], [none], [some 1], [some 2]] =
      .ok [[some 0, some 0], [some 0, some 3], [none, none], [some 1, none], [some 2, some 1],
        [none, some 2], [none, some 4]] := by
  intro keyed tables
  have typed : KeysTyped tables 1 ⟨0, 0, 0, 0⟩ [[some 0], [none], [some 1], [some 2]]
      .integer .integer := by
    have fits (n : Int64) : (Value.integer n).Fits .integer := fun _ h => (Option.some.inj h).symm
    constructor
    · simp only [List.forall_mem_cons]
      exact ⟨.inr ⟨0, _, _, rfl, rfl, rfl, fits 2⟩, .inl rfl,
        .inr ⟨1, _, _, rfl, rfl, rfl, Value.fits_null _⟩,
        .inr ⟨2, _, _, rfl, rfl, rfl, fits 1⟩, List.forall_mem_nil _⟩
    · refine List.forall_mem_map.mpr ?_
      simp only [List.forall_mem_cons]
      exact ⟨⟨_, rfl, fits 2⟩, ⟨_, rfl, fits 1⟩, ⟨_, rfl, Value.fits_null _⟩, ⟨_, rfl, fits 2⟩,
        ⟨_, rfl, fits 3⟩, List.forall_mem_nil _⟩
  exact (matchStep_eq_loopJoin (by decide) typed 1 .full 1).trans (congrArg Except.ok (by decide))

end RelQuery
