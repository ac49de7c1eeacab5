import Mathlib.Data.List.Forall2
import Mathlib.Data.List.Nodup
import RelQuery.Proofs.Result
import RelQuery.Store.Catalog

/-!
# Reachable stores

A store is reachable when it is the empty store or comes from a reachable one by a request that
succeeded.  In every table of a reachable store the ids are increasing and below the next one, and
every row has one value per column, NULL or of the column's type.
-/

namespace RelQuery

/-! ## Typed rows -/

/-- The value is NULL or of the type. -/
def Value.Fits (value : Value) (type : ColumnType) : Prop :=
  ∀ found, value.type? = some found → found = type

/-- The row has one value per column, each of which fits its column. -/
def Row.Typed (row : Row) (columns : List Column) : Prop :=
  List.Forall₂ (fun column value => Value.Fits value column.columnType) columns row

/-- NULL fits every type. -/
lemma Value.fits_null (type : ColumnType) : null.Fits type :=
  fun _ hfound => absurd hfound (by simp [type?])

/-- A converted value fits the type it was converted to. -/
lemma Value.fits_of_convert {value result : Value} {target : ColumnType}
    (h : value.convert target = .ok result) : result.Fits target := by
  rcases type?_of_convert h with ⟨-, rfl⟩ | ⟨-, htype⟩
  · exact fits_null target
  · exact fun found hfound => Option.some.inj (hfound.symm.trans htype)

/-- A converted row is typed. -/
lemma StoredTable.typed_of_convertRow {table : String} {columns : List Column} {values row : Row}
    (hlength : values.length = columns.length)
    (h : convertRow table columns values = .ok row) : row.Typed columns := by
  induction columns generalizing values row with
  | nil =>
    obtain rfl := List.length_eq_zero_iff.mp hlength
    obtain rfl := Except.ok.inj h
    exact List.Forall₂.nil
  | cons column columns ih =>
    cases values with
    | nil => simp at hlength
    | cons value values =>
      rw [convertRow] at h
      obtain ⟨converted, hconverted, h⟩ := Result.bind_eq_ok.mp h
      obtain ⟨rest, hrest, h⟩ := Result.bind_eq_ok.mp h
      obtain rfl := Result.pure_eq_ok.mp h
      exact List.Forall₂.cons (Value.fits_of_convert (Result.inPlace_eq_ok.mp hconverted))
        (ih (by simpa using hlength) hrest)

/-! ## Sound tables -/

/-- The ids of the table are increasing and below the next one, and its rows are typed. -/
structure StoredTable.Sound (t : StoredTable) : Prop where
  increasing : t.rows.Pairwise fun a b => a.1 < b.1
  below : ∀ row ∈ t.rows, row.1 < t.nextId
  typed : ∀ row ∈ t.rows, Row.Typed row.2 t.definition.columns

namespace StoredTable

/-- A typed row with the next id keeps the table sound. -/
lemma Sound.append {t : StoredTable} (sound : t.Sound) {row : Row}
    (htyped : row.Typed t.definition.columns) :
    StoredTable.Sound
      { t with rows := t.rows ++ [(t.nextId, row)], nextId := t.nextId + 1 } where
  increasing := by
    rw [List.pairwise_append]
    refine ⟨sound.increasing, List.pairwise_singleton _ _, fun a ha b hb => ?_⟩
    rw [List.mem_singleton.mp hb]
    exact sound.below a ha
  below a ha := by
    rcases List.mem_append.mp ha with ha | ha
    · exact Nat.lt_succ_of_lt (sound.below a ha)
    · rw [List.mem_singleton.mp ha]
      exact Nat.lt_succ_self _
  typed a ha := by
    rcases List.mem_append.mp ha with ha | ha
    · exact sound.typed a ha
    · rw [List.mem_singleton.mp ha]
      exact htyped

/-- A row that is inserted, or refused, keeps the table sound. -/
lemma Sound.tryInsert {t : StoredTable} (sound : t.Sound) (values : Row) :
    (t.tryInsert values).2.Sound := by
  unfold StoredTable.tryInsert
  dsimp only
  split
  · exact sound
  · rename_i hlength
    split
    · exact sound
    · rename_i stored hstored
      exact sound.append (typed_of_convertRow (not_not.mp hlength) hstored)

/-- Fewer rows keep the table sound. -/
lemma Sound.filter {t : StoredTable} (sound : t.Sound) (p : Nat × Row → Bool) :
    StoredTable.Sound { t with rows := t.rows.filter p } where
  increasing := sound.increasing.filter p
  below row hrow := sound.below row (List.mem_filter.mp hrow).1
  typed row hrow := sound.typed row (List.mem_filter.mp hrow).1

/-- Rows with the same id are the same row. -/
lemma Sound.eq_of_id_eq {t : StoredTable} (sound : t.Sound) {a b : Nat × Row} (ha : a ∈ t.rows)
    (hb : b ∈ t.rows) (h : a.1 = b.1) : a = b := by
  have hids : (t.rows.map Prod.fst).Nodup :=
    List.pairwise_map.mpr (sound.increasing.imp fun {a b} hlt => Nat.ne_of_lt hlt)
  exact List.inj_on_of_nodup_map hids ha hb h

/-- An id means the row that has it. -/
lemma Sound.row?_eq {t : StoredTable} (sound : t.Sound) {row : Nat × Row} (hrow : row ∈ t.rows) :
    t.row? row.1 = some row.2 := by
  unfold row?
  have hfind : t.rows.find? (·.1 == row.1) = some row := by
    cases hfound : t.rows.find? (·.1 == row.1) with
    | none => simpa using List.find?_eq_none.mp hfound row hrow
    | some other =>
      have hid : other.1 = row.1 := by simpa using List.find?_some hfound
      rw [sound.eq_of_id_eq (List.mem_of_find?_eq_some hfound) hrow hid]
  rw [hfind]
  rfl

/-- No row occurs twice. -/
lemma Sound.nodup {t : StoredTable} (sound : t.Sound) : t.rows.Nodup :=
  sound.increasing.imp fun {a b} hlt heq => absurd hlt (by simp [heq])

end StoredTable

/-! ## Reachable stores -/

namespace Store

/-- All tables are sound. -/
def Sound (s : Store) : Prop :=
  ∀ t ∈ s.tables, t.Sound

/-- A request to change the store. -/
inductive Request where
  | addTable (definition : TableSchema)
  | removeTable (name : String)
  | addRow (table : String) (values : Row)
  | removeRow (table : String) (id : Nat)

/-- The answer to a request, an id where a row is inserted, and the store after it. -/
def Request.attempt (s : Store) : Request → Result (Option Nat) × Store
  | addTable definition =>
    ((s.tryAddTable definition).1.map fun _ => none, (s.tryAddTable definition).2)
  | removeTable name => ((s.tryRemoveTable name).1.map fun _ => none, (s.tryRemoveTable name).2)
  | addRow table values => ((s.tryAddRow table values).1.map some, (s.tryAddRow table values).2)
  | removeRow table id =>
    ((s.tryRemoveRow table id).1.map fun _ => none, (s.tryRemoveRow table id).2)

/-- The store after a request that succeeds. -/
def Request.run (s : Store) : Request → Result Store
  | addTable definition => s.addTable definition
  | removeTable name => s.removeTable name
  | addRow table values => (s.addRow table values).map Prod.snd
  | removeRow table id => s.removeRow table id

/-- The stores that come from the empty one by requests that succeeded. -/
inductive Reachable : Store → Prop
  | empty : Reachable empty
  | request {s s' : Store} (before : Reachable s) (request : Request)
      (done : request.run s = .ok s') : Reachable s'

/-- Requests one after the other lead from a reachable store to a reachable store. -/
lemma Reachable.requests {s s' : Store} (before : s.Reachable) (requests : List Request)
    (done : requests.foldlM Request.run s = .ok s') : s'.Reachable := by
  induction requests generalizing s with
  | nil =>
    obtain rfl := Except.ok.inj done
    exact before
  | cons request rest ih =>
    obtain ⟨next, hnext, done⟩ := Result.bind_eq_ok.mp done
    exact ih (before.request request hnext) done

/-- The table of a name is one of the store. -/
lemma get_eq_ok {s : Store} {name : String} {table : StoredTable} (h : s.get name = .ok table) :
    s.find? name = some table ∧ table ∈ s.tables := by
  unfold get at h
  split at h
  · rename_i found hfound
    obtain rfl := Except.ok.inj h
    exact ⟨hfound, List.mem_of_find?_eq_some hfound⟩
  · simp at h

/-- A request runs when it is answered. -/
lemma Request.run_eq_ok {s s' : Store} {request : Request} :
    request.run s = .ok s' ↔ ∃ answer, request.attempt s = (.ok answer, s') := by
  have hrun : request.run s = (Result.settled (request.attempt s)).map Prod.snd := by
    cases request <;> exact (Result.map_snd_settled_map _ _).symm
  rw [hrun, Result.map_snd_settled_eq_ok]

/-- A sound table in the place of another keeps the store sound. -/
lemma Sound.replace {s : Store} (sound : s.Sound) {table : StoredTable} (htable : table.Sound) :
    (s.replace table).Sound := by
  intro t ht
  obtain ⟨old, hold, rfl⟩ := List.mem_map.mp ht
  split
  · exact htable
  · exact sound old hold

/-- A step that keeps each table sound keeps the store sound. -/
lemma Sound.inTable {s : Store} (sound : s.Sound) {α : Type}
    {step : StoredTable → Result α × StoredTable} (hstep : ∀ t, t.Sound → (step t).2.Sound)
    (name : String) : (s.inTable name step).2.Sound := by
  unfold Store.inTable
  split
  · exact sound
  · rename_i table hget
    exact sound.replace (hstep table (sound table (get_eq_ok hget).2))

/-- A request keeps the store sound, whether it is answered or refused. -/
lemma Sound.attempt {s : Store} (sound : s.Sound) (request : Request) :
    (request.attempt s).2.Sound := by
  cases request with
  | addTable definition =>
    change (s.tryAddTable definition).2.Sound
    unfold Store.tryAddTable
    split
    · exact sound
    split
    · exact sound
    split
    · exact sound
    · intro t ht
      rcases List.mem_append.mp ht with ht | ht
      · exact sound t ht
      · rw [List.mem_singleton.mp ht]
        exact ⟨List.Pairwise.nil, by simp, by simp⟩
  | removeTable name => exact fun t ht => sound t (List.mem_filter.mp ht).1
  | addRow table values => exact sound.inTable (fun t ht => ht.tryInsert values) table
  | removeRow table id => exact sound.inTable (fun t ht => ht.filter _) table

/-- Reachable stores are sound. -/
theorem Reachable.sound {s : Store} (h : s.Reachable) : s.Sound := by
  induction h with
  | empty => simp [Sound, Store.empty]
  | request _ request done ih =>
    obtain ⟨answer, hanswer⟩ := Request.run_eq_ok.mp done
    have hsound := ih.attempt request
    rwa [hanswer] at hsound

/-! ## Tables of integers -/

/-- The requests that make a table of INTEGER columns with some rows. -/
def Request.fill (name : String) (columns : List String) (rows : List (List Int64)) :
    List Request :=
  addTable ⟨name, columns.map fun column => ⟨column, .integer⟩⟩ ::
    rows.map fun row => addRow name (row.map .integer)

end Store

/-- A table of INTEGER columns with some rows. -/
def StoredTable.ofIntegers (name : String) (columns : List String) (rows : List (List Int64)) :
    StoredTable where
  definition := ⟨name, columns.map fun column => ⟨column, .integer⟩⟩
  rows := (rows.zipIdx 1).map fun row => (row.2, row.1.map .integer)
  nextId := rows.length + 1

end RelQuery
