import Mathlib.Data.List.Forall2
import RelQuery.Proofs.Store.Reachable

/-!
# Requests to the store

Each request succeeds under a condition on the table it names, and then changes that table alone.
A request that is refused leaves the store as it was.
-/

namespace RelQuery

/-! ## Converted rows -/

/-- The stored row has the given values, one per column, each converted to the type of its
column. -/
def Row.Stores (columns : List Column) (given stored : Row) : Prop :=
  given.length = columns.length ∧
    List.Forall₂ (fun slot value => slot.2.convert slot.1.columnType = .ok value)
      (columns.zip given) stored

namespace StoredTable

/-- As many values as there are columns are converted one by one. -/
lemma convertRow_eq_ok {name : String} {columns : List Column} {given stored : Row}
    (hlength : given.length = columns.length) :
    convertRow name columns given = .ok stored ↔ Row.Stores columns given stored := by
  rw [Row.Stores, and_iff_right hlength]
  induction columns generalizing given stored with
  | nil => simp [convertRow, eq_comm]
  | cons column columns ih =>
    cases given with
    | nil => simp at hlength
    | cons value given =>
      replace hlength : given.length = columns.length := by simpa using hlength
      simp only [convertRow, Result.bind_eq_ok, Result.inPlace_eq_ok, Result.pure_eq_ok,
        List.zip_cons_cons, List.forall₂_cons_left_iff, ih hlength]
      constructor
      · rintro ⟨first, hfirst, rest, hrest, rfl⟩
        exact ⟨first, rest, hfirst, hrest, rfl⟩
      · rintro ⟨first, rest, hfirst, hrest, rfl⟩
        exact ⟨first, hfirst, rest, hrest, rfl⟩

end StoredTable

/-- A row that is stored is typed. -/
lemma Row.Stores.typed {columns : List Column} {given stored : Row}
    (h : Row.Stores columns given stored) : stored.Typed columns := by
  have hconvert : StoredTable.convertRow "" columns given = .ok stored :=
    (StoredTable.convertRow_eq_ok h.1).mpr h
  exact StoredTable.typed_of_convertRow h.1 hconvert

namespace StoredTable

/-- A row is inserted under the next id when its values can be converted. -/
lemma tryInsert_eq_ok {t t' : StoredTable} {given : Row} {id : Nat} :
    t.tryInsert given = (.ok id, t') ↔ ∃ stored, Row.Stores t.definition.columns given stored ∧
      id = t.nextId ∧ t' = { t with rows := t.rows ++ [(id, stored)], nextId := id + 1 } := by
  unfold tryInsert
  dsimp only
  split
  · rename_i hlength
    exact iff_of_false (by simp) fun ⟨_, hstored, _⟩ => hlength hstored.1
  rename_i hlength
  have hstores (stored : Row) : convertRow t.definition.name t.definition.columns given =
      .ok stored ↔ Row.Stores t.definition.columns given stored :=
    convertRow_eq_ok (not_not.mp hlength)
  split
  · rename_i error hrefused
    refine iff_of_false (by simp) fun ⟨stored, hstored, _⟩ => ?_
    rw [(hstores stored).mpr hstored] at hrefused
    simp at hrefused
  · rename_i stored hstored
    simp only [Prod.mk.injEq, Except.ok.injEq]
    constructor
    · rintro ⟨rfl, rfl⟩
      exact ⟨stored, (hstores stored).mp hstored, rfl, rfl⟩
    · rintro ⟨other, hother, rfl, rfl⟩
      obtain rfl : stored = other :=
        Except.ok.inj (hstored.symm.trans ((hstores other).mpr hother))
      exact ⟨rfl, rfl⟩

/-- A row that cannot be converted leaves the table as it was. -/
lemma eq_of_tryInsert_refused {t t' : StoredTable} {given : Row} {error : Error}
    (refused : t.tryInsert given = (.error error, t')) : t' = t := by
  unfold tryInsert at refused
  dsimp only at refused
  split at refused
  · exact (Prod.mk.inj refused).2.symm
  split at refused
  · exact (Prod.mk.inj refused).2.symm
  · simp at refused

/-- There is a row of an id. -/
lemma isSome_row?_iff {t : StoredTable} {id : Nat} :
    (t.row? id).isSome = true ↔ ∃ row ∈ t.rows, row.1 = id := by
  simp [row?, List.find?_isSome]

/-- A row is removed where there is one of its id. -/
lemma tryRemove_eq_ok {t t' : StoredTable} {name : String} {id : Nat} :
    t.tryRemove name id = (.ok (), t') ↔
      (∃ row ∈ t.rows, row.1 = id) ∧ t' = { t with rows := t.rows.filter (·.1 != id) } := by
  rw [← isSome_row?_iff, tryRemove, Prod.mk.injEq, eq_comm (b := t')]
  refine and_congr_left fun _ => ?_
  split <;> simp_all

/-- Where there is no row of the id, none is removed. -/
lemma eq_of_tryRemove_refused {t t' : StoredTable} {name : String} {id : Nat} {error : Error}
    (refused : t.tryRemove name id = (.error error, t')) : t' = t := by
  obtain ⟨hanswer, rfl⟩ := Prod.mk.inj refused
  have hnone : ¬ ∃ row ∈ t.rows, row.1 = id := by
    intro hrow
    rw [if_pos (isSome_row?_iff.mpr hrow)] at hanswer
    simp at hanswer
  have hall : t.rows.filter (·.1 != id) = t.rows := by
    rw [List.filter_eq_self]
    intro row hrow
    rw [bne_iff_ne]
    exact fun hid => hnone ⟨row, hrow, hid⟩
  rw [hall]

end StoredTable

/-! ## Requests -/

namespace Store

open StoredTable (keyOf)

variable {s s' : Store}

/-- No column name is used twice, and none was used before. -/
lemma duplicateColumn?_eq_none {seen : List String} {columns : List Column} :
    duplicateColumn? seen columns = none ↔
      (columns.map fun column => Text.lowercase column.name).Nodup ∧
        ∀ column ∈ columns, Text.lowercase column.name ∉ seen := by
  induction columns generalizing seen with
  | nil => simp [duplicateColumn?]
  | cons column rest ih =>
    rw [duplicateColumn?]
    split
    · rename_i hseen
      refine iff_of_false (by simp) fun h => ?_
      exact h.2 column List.mem_cons_self (by simpa using hseen)
    · rename_i hseen
      rw [ih]
      simp only [List.map_cons, List.nodup_cons, List.mem_map, List.mem_cons, not_or,
        forall_eq_or_imp, not_exists, not_and]
      constructor
      · rintro ⟨hnodup, hrest⟩
        exact ⟨⟨fun other hother => (hrest other hother).1, hnodup⟩, by simpa using hseen,
          fun other hother => (hrest other hother).2⟩
      · rintro ⟨⟨hfirst, hnodup⟩, -, hrest⟩
        exact ⟨hnodup, fun other hother => ⟨hfirst other hother, hrest other hother⟩⟩

/-- No two tables have the same key. -/
def Distinct (s : Store) : Prop :=
  (s.tables.map StoredTable.key).Nodup

/-- A request that names a table goes to the table of that name. -/
lemma get_eq_ok_iff {name : String} {table : StoredTable} :
    s.get name = .ok table ↔ s.find? name = some table := by
  unfold get
  cases s.find? name <;> simp

/-- A table in its own place changes nothing. -/
lemma Distinct.replace_self (distinct : s.Distinct) {name : String} {table : StoredTable}
    (hfound : s.find? name = some table) : s.replace table = s := by
  have hsame : s.tables.map (fun other => if other.key = table.key then table else other) =
      s.tables.map id := by
    refine List.map_congr_left fun other hother => ?_
    split
    · rename_i hkey
      exact List.inj_on_of_nodup_map distinct (List.mem_of_find?_eq_some hfound) hother hkey.symm
    · rfl
  rw [replace, hsame, List.map_id]

/-! ### Answered requests -/

/-- A table is added where there is none of its name and its columns have different names. -/
lemma tryAddTable_eq_ok {definition : TableSchema} :
    s.tryAddTable definition = (.ok (), s') ↔ (s.find? definition.name = none ∧
      definition.columns ≠ [] ∧
      (definition.columns.map fun column => Text.lowercase column.name).Nodup) ∧
        s' = ⟨s.tables ++ [{ definition, rows := [], nextId := 1 }]⟩ := by
  unfold tryAddTable
  split
  · rename_i hsome
    exact iff_of_false (by simp) fun h => by simp [h.1.1] at hsome
  rename_i hnone
  replace hnone : s.find? definition.name = none := by simpa using hnone
  split
  · rename_i hempty
    exact iff_of_false (by simp) fun h => h.1.2.1 (by simpa using hempty)
  rename_i hcolumns
  replace hcolumns : definition.columns ≠ [] := by simpa using hcolumns
  split
  · rename_i column hduplicate
    refine iff_of_false (by simp) fun h => ?_
    rw [duplicateColumn?_eq_none.mpr ⟨h.1.2.2, by simp⟩] at hduplicate
    simp at hduplicate
  · rename_i hduplicate
    rw [Prod.mk.injEq, and_iff_right rfl, eq_comm]
    exact (and_iff_right ⟨hnone, hcolumns, (duplicateColumn?_eq_none.mp hduplicate).1⟩).symm

/-- A table is removed where there is one. -/
lemma tryRemoveTable_eq_ok {name : String} :
    s.tryRemoveTable name = (.ok (), s') ↔ (∃ table, s.find? name = some table) ∧
      s' = ⟨s.tables.filter fun table => table.key != keyOf name⟩ := by
  rw [tryRemoveTable, ← Option.isSome_iff_exists, Prod.mk.injEq, eq_comm (b := s')]
  refine and_congr_left fun _ => ?_
  split <;> simp_all

/-- A step in a table that is answered goes into the table of that name. -/
lemma inTable_eq_ok {α : Type} {name : String} {step : StoredTable → Result α × StoredTable}
    {a : α} : s.inTable name step = (.ok a, s') ↔ ∃ table changed, s.find? name = some table ∧
      step table = (.ok a, changed) ∧ s' = s.replace changed := by
  simp only [← get_eq_ok_iff]
  unfold inTable
  rcases s.get name with error | table
  · simp
  · simp [Prod.ext_iff, eq_comm]

/-- A row is added to a table where the values can be converted. -/
lemma tryAddRow_eq_ok {name : String} {given : Row} {id : Nat} :
    s.tryAddRow name given = (.ok id, s') ↔ ∃ table stored, s.find? name = some table ∧
      Row.Stores table.definition.columns given stored ∧ id = table.nextId ∧
        s' = s.replace { table with rows := table.rows ++ [(id, stored)], nextId := id + 1 } := by
  simp only [tryAddRow, inTable_eq_ok, StoredTable.tryInsert_eq_ok]
  constructor
  · rintro ⟨table, _, hfound, ⟨stored, hstored, rfl, rfl⟩, rfl⟩
    exact ⟨table, stored, hfound, hstored, rfl, rfl⟩
  · rintro ⟨table, stored, hfound, hstored, rfl, rfl⟩
    exact ⟨table, _, hfound, ⟨stored, hstored, rfl, rfl⟩, rfl⟩

/-- A row is removed where there is one of its id. -/
lemma tryRemoveRow_eq_ok {name : String} {id : Nat} :
    s.tryRemoveRow name id = (.ok (), s') ↔ ∃ table, s.find? name = some table ∧
      (∃ row ∈ table.rows, row.1 = id) ∧
        s' = s.replace { table with rows := table.rows.filter (·.1 != id) } := by
  simp only [tryRemoveRow, inTable_eq_ok, StoredTable.tryRemove_eq_ok]
  constructor
  · rintro ⟨table, _, hfound, ⟨hrow, rfl⟩, rfl⟩
    exact ⟨table, hfound, hrow, rfl⟩
  · rintro ⟨table, hfound, hrow, rfl⟩
    exact ⟨table, _, hfound, ⟨hrow, rfl⟩, rfl⟩

/-! ### Refused requests -/

/-- A table that cannot be added leaves the store as it was. -/
lemma eq_of_tryAddTable_refused {definition : TableSchema} {error : Error}
    (refused : s.tryAddTable definition = (.error error, s')) : s' = s := by
  unfold tryAddTable at refused
  split at refused
  · exact (Prod.mk.inj refused).2.symm
  split at refused
  · exact (Prod.mk.inj refused).2.symm
  split at refused
  · exact (Prod.mk.inj refused).2.symm
  · simp at refused

/-- Where there is no table of the name, none is removed. -/
lemma eq_of_tryRemoveTable_refused {name : String} {error : Error}
    (refused : s.tryRemoveTable name = (.error error, s')) : s' = s := by
  obtain ⟨hanswer, rfl⟩ := Prod.mk.inj refused
  have hnone : s.find? name = none := by
    by_contra hsome
    rw [if_pos (Option.isSome_iff_ne_none.mpr hsome)] at hanswer
    simp at hanswer
  have hall : s.tables.filter (fun table => table.key != keyOf name) = s.tables := by
    rw [List.filter_eq_self]
    intro table htable
    simpa using List.find?_eq_none.mp hnone table htable
  rw [hall]

/-- A step in a table that leaves the table as it was when it is refused leaves the store as it
was. -/
lemma Distinct.eq_of_inTable_refused (distinct : s.Distinct) {α : Type} {name : String}
    {step : StoredTable → Result α × StoredTable} {error : Error}
    (hstep : ∀ {t t' : StoredTable}, step t = (.error error, t') → t' = t)
    (refused : s.inTable name step = (.error error, s')) : s' = s := by
  unfold inTable at refused
  split at refused
  · exact (Prod.mk.inj refused).2.symm
  · rename_i table hget
    obtain ⟨hanswer, rfl⟩ := Prod.mk.inj refused
    have hunchanged : (step table).2 = table := hstep (Prod.ext hanswer rfl)
    change s.replace (step table).2 = s
    rw [hunchanged]
    exact distinct.replace_self (get_eq_ok_iff.mp hget)

/-- A request that is refused leaves the store as it was. -/
lemma Distinct.eq_of_attempt_refused (distinct : s.Distinct) {request : Request} {error : Error}
    (refused : request.attempt s = (.error error, s')) : s' = s := by
  obtain ⟨hanswer, rfl⟩ := Prod.mk.inj refused
  cases request with
  | addTable definition =>
    exact eq_of_tryAddTable_refused (Prod.ext (Result.map_eq_error.mp hanswer) rfl)
  | removeTable name =>
    exact eq_of_tryRemoveTable_refused (Prod.ext (Result.map_eq_error.mp hanswer) rfl)
  | addRow name given =>
    exact distinct.eq_of_inTable_refused StoredTable.eq_of_tryInsert_refused
      (Prod.ext (Result.map_eq_error.mp hanswer) rfl)
  | removeRow name id =>
    exact distinct.eq_of_inTable_refused StoredTable.eq_of_tryRemove_refused
      (Prod.ext (Result.map_eq_error.mp hanswer) rfl)

/-! ### The tables after a request -/

/-- The keys of the tables stay when one is changed. -/
lemma Distinct.replace (distinct : s.Distinct) (table : StoredTable) :
    (s.replace table).Distinct := by
  have hkeys : (s.replace table).tables.map StoredTable.key = s.tables.map StoredTable.key := by
    rw [Store.replace, List.map_map]
    refine List.map_congr_left fun other _ => ?_
    rw [Function.comp_apply]
    split
    · rename_i hsame
      exact hsame.symm
    · rfl
  rw [Distinct, hkeys]
  exact distinct

/-- A step in a table keeps the keys different. -/
lemma Distinct.inTable (distinct : s.Distinct) {α : Type} (name : String)
    (step : StoredTable → Result α × StoredTable) : (s.inTable name step).2.Distinct := by
  unfold Store.inTable
  split
  · exact distinct
  · exact distinct.replace _

/-- A request keeps the keys different. -/
lemma Distinct.attempt (distinct : s.Distinct) (request : Request) :
    (request.attempt s).2.Distinct := by
  cases request with
  | addTable definition =>
    rcases hadd : s.tryAddTable definition with ⟨error | _, s'⟩
    · have hsame := eq_of_tryAddTable_refused hadd
      simpa [Request.attempt, hadd, hsame] using distinct
    · obtain ⟨⟨hnone, -⟩, hs'⟩ := tryAddTable_eq_ok.mp hadd
      change (s.tryAddTable definition).2.Distinct
      rw [hadd, hs', Distinct, List.map_append, List.nodup_append]
      refine ⟨distinct, List.nodup_singleton _, ?_⟩
      intro key hkey new hnew hsame
      obtain ⟨table, htable, rfl⟩ := List.mem_map.mp hkey
      rw [List.map_singleton, List.mem_singleton] at hnew
      have hother := List.find?_eq_none.mp hnone table htable
      exact hother (beq_iff_eq.mpr (hsame.trans hnew))
  | removeTable name => exact distinct.sublist (List.filter_sublist.map _)
  | addRow name given => exact distinct.inTable name _
  | removeRow name id => exact distinct.inTable name _

/-- A table that is found has the key of its name. -/
lemma key_of_find? {name : String} {table : StoredTable} (h : s.find? name = some table) :
    table.key = keyOf name := by
  simpa using List.find?_some h

/-- The tables after one was changed. -/
lemma find?_replace (s : Store) (table : StoredTable) (name : String) :
    (s.replace table).find? name =
      if keyOf name = table.key then (s.find? name).map fun _ => table else s.find? name := by
  have hkeys : (fun other : StoredTable => other.key == keyOf name) ∘
      (fun other => if other.key = table.key then table else other) =
        fun other => other.key == keyOf name := by
    funext other
    dsimp only [Function.comp]
    split
    · rename_i hsame
      rw [hsame]
    · rfl
  rw [find?, replace, List.find?_map, hkeys]
  change (s.find? name).map _ = _
  cases hfound : s.find? name with
  | none => simp
  | some other =>
    rw [← key_of_find? hfound, Option.map_some]
    split <;> rfl

/-- The tables after one that is there was changed. -/
lemma find?_replace_of_find? {name : String} {table changed : StoredTable}
    (hfound : s.find? name = some table) (hkey : changed.key = table.key) (other : String) :
    (s.replace changed).find? other =
      if keyOf other = keyOf name then some changed else s.find? other := by
  rw [find?_replace, hkey, key_of_find? hfound]
  split
  · rename_i hsame
    have hother : s.find? other = some table := by
      rw [← hfound, find?, find?, hsame]
    rw [hother]
    rfl
  · rfl

/-- The tables after one was added. -/
lemma find?_add {definition : TableSchema} (hnone : s.find? definition.name = none)
    (name : String) :
    find? ⟨s.tables ++ [{ definition, rows := [], nextId := 1 }]⟩ name =
      if keyOf name = keyOf definition.name then some { definition, rows := [], nextId := 1 }
      else s.find? name := by
  rw [find?, List.find?_append]
  change (s.find? name).or _ = _
  split
  · rename_i hsame
    have hfree : s.find? name = none := by
      rw [find?, hsame]
      exact hnone
    simp [hfree, hsame, StoredTable.key]
  · rename_i hother
    simp [StoredTable.key, Ne.symm hother]

/-- The tables after one was removed. -/
lemma find?_remove (s : Store) (gone name : String) :
    find? ⟨s.tables.filter fun table => table.key != keyOf gone⟩ name =
      if keyOf name = keyOf gone then none else s.find? name := by
  rw [find?, List.find?_filter]
  split
  · rename_i hsame
    simp [hsame]
  · rename_i hother
    rw [find?]
    congr 1
    funext table
    by_cases hkey : table.key = keyOf name
    · simp [hkey, hother]
    · simp [hkey]

end Store

end RelQuery
