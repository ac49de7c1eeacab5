import Mathlib.Data.Option.Basic
import Mathlib.Logic.Function.Basic
import RelQuery.Proofs.Store.Requests

/-!
# What the store keeps of its history

The history of a table is told by the requests and their answers alone: the rows that were inserted
since it was created, as they were given and under the ids that were returned, and the ids whose
rows were deleted.  Whatever was requested, the store holds the rows that are left of the history of
each table, with their values converted to the types of the columns; it accepts a request exactly
when the histories allow it, and a request that it refuses changes nothing.
-/

namespace RelQuery

/-! ## Histories -/

/-- What happened to a table since it was created. -/
structure TableHistory where
  definition : TableSchema
  /-- The rows that were inserted, as they were given, under the ids that were returned. -/
  inserted : List (Nat × Row)
  /-- The ids whose rows were deleted. -/
  deleted : List Nat

namespace TableHistory

/-- The history of a new table. -/
def created (definition : TableSchema) : TableHistory where
  definition := definition
  inserted := []
  deleted := []

/-- The history after a row was inserted. -/
def insert (history : TableHistory) (id : Nat) (given : Row) : TableHistory where
  definition := history.definition
  inserted := history.inserted ++ [(id, given)]
  deleted := history.deleted

/-- The history after a row was deleted. -/
def delete (history : TableHistory) (id : Nat) : TableHistory where
  definition := history.definition
  inserted := history.inserted
  deleted := history.deleted ++ [id]

/-- The rows that were inserted and not yet deleted. -/
def remaining (history : TableHistory) : List (Nat × Row) :=
  history.inserted.filter fun row => row.1 ∉ history.deleted

/-- A row with an id that was never deleted remains. -/
lemma remaining_insert {history : TableHistory} {id : Nat} (hid : id ∉ history.deleted)
    (given : Row) : (history.insert id given).remaining = history.remaining ++ [(id, given)] := by
  rw [remaining, insert, List.filter_append]
  simp [remaining, hid]

/-- A deletion takes one id from those that remain. -/
lemma remaining_delete (history : TableHistory) (id : Nat) :
    (history.delete id).remaining = history.remaining.filter (·.1 != id) := by
  rw [remaining, remaining, List.filter_filter]
  refine List.filter_congr fun row _ => ?_
  by_cases hid : row.1 = id <;> simp [delete, hid]

end TableHistory

namespace Store.Request

/-- The key of the table that the request is about. -/
def key : Request → String
  | addTable definition => StoredTable.keyOf definition.name
  | removeTable name => StoredTable.keyOf name
  | addRow table _ => StoredTable.keyOf table
  | removeRow table _ => StoredTable.keyOf table

end Store.Request

/-- The histories of the tables there are, by the keys of their names. -/
abbrev Histories : Type :=
  String → Option TableHistory

namespace Histories

/-- The history of the table that an answered request is about, after the request. -/
def entryAfter (histories : Histories) (request : Store.Request) (answer : Option Nat) :
    Option TableHistory :=
  match request, answer with
  | .addTable definition, _ => some (.created definition)
  | .removeTable _, _ => none
  | .addRow _ given, some id => (histories request.key).map (·.insert id given)
  | .addRow .., none => histories request.key
  | .removeRow _ id, _ => (histories request.key).map (·.delete id)

/-- The histories after a request that was answered. -/
def record (histories : Histories) (request : Store.Request) (answer : Option Nat) : Histories :=
  Function.update histories request.key (histories.entryAfter request answer)

/-- The request can be done: a table is created under a free name and with different column names, a
table that is used exists, a row that is inserted can be converted, and a row that is deleted is
there. -/
def Allows (histories : Histories) (request : Store.Request) : Prop :=
  match request with
  | .addTable definition =>
    histories request.key = none ∧ definition.columns ≠ [] ∧
      (definition.columns.map fun column => Text.lowercase column.name).Nodup
  | .removeTable _ => ∃ history, histories request.key = some history
  | .addRow _ given =>
    ∃ history stored, histories request.key = some history ∧
      Row.Stores history.definition.columns given stored
  | .removeRow _ id =>
    ∃ history, histories request.key = some history ∧ ∃ row ∈ history.remaining, row.1 = id

end Histories

/-! ## The rows that are left -/

/-- The table holds what is left of its history, and its next id was never returned. -/
structure StoredTable.Keeps (t : StoredTable) (history : TableHistory) : Prop where
  definition : t.definition = history.definition
  next : 1 ≤ t.nextId
  ids : ∀ row ∈ history.inserted, 1 ≤ row.1 ∧ row.1 < t.nextId
  ascending : history.inserted.Pairwise fun a b => a.1 < b.1
  deleted : ∀ id ∈ history.deleted, id < t.nextId
  rows : List.Forall₂
    (fun given stored => stored.1 = given.1 ∧
      Row.Stores history.definition.columns given.2 stored.2) history.remaining t.rows

namespace StoredTable

variable {t : StoredTable} {history : TableHistory}

/-- A new table has a new history. -/
lemma keeps_created (definition : TableSchema) :
    Keeps { definition, rows := [], nextId := 1 } (.created definition) where
  definition := rfl
  next := Nat.le_refl 1
  ids := by simp [TableHistory.created]
  ascending := List.Pairwise.nil
  deleted := by simp [TableHistory.created]
  rows := List.Forall₂.nil

/-- A row that is inserted is the last one that is left. -/
lemma Keeps.insert (keeps : t.Keeps history) {given stored : Row}
    (hstored : Row.Stores t.definition.columns given stored) :
    Keeps { t with rows := t.rows ++ [(t.nextId, stored)], nextId := t.nextId + 1 }
      (history.insert t.nextId given) where
  definition := keeps.definition
  next := Nat.le_succ_of_le keeps.next
  ids row hrow := by
    rcases List.mem_append.mp hrow with hrow | hrow
    · exact ⟨(keeps.ids row hrow).1, Nat.lt_succ_of_lt (keeps.ids row hrow).2⟩
    · rw [List.mem_singleton.mp hrow]
      exact ⟨keeps.next, Nat.lt_succ_self _⟩
  ascending := by
    refine List.pairwise_append.mpr ⟨keeps.ascending, List.pairwise_singleton _ _, ?_⟩
    intro row hrow new hnew
    rw [List.mem_singleton.mp hnew]
    exact (keeps.ids row hrow).2
  deleted id hid := Nat.lt_succ_of_lt (keeps.deleted id hid)
  rows := by
    have hnew : t.nextId ∉ history.deleted := fun h => Nat.lt_irrefl _ (keeps.deleted _ h)
    rw [TableHistory.remaining_insert hnew]
    rw [keeps.definition] at hstored
    exact List.rel_append keeps.rows (List.Forall₂.cons ⟨rfl, hstored⟩ List.Forall₂.nil)

/-- A row that is deleted is no longer left. -/
lemma Keeps.delete (keeps : t.Keeps history) {id : Nat}
    (hid : ∃ row ∈ history.remaining, row.1 = id) :
    Keeps { t with rows := t.rows.filter (·.1 != id) } (history.delete id) where
  definition := keeps.definition
  next := keeps.next
  ids := keeps.ids
  ascending := keeps.ascending
  deleted other hother := by
    rcases List.mem_append.mp hother with hother | hother
    · exact keeps.deleted other hother
    · obtain ⟨row, hrow, rfl⟩ := hid
      rw [List.mem_singleton.mp hother]
      exact (keeps.ids row (List.mem_filter.mp hrow).1).2
  rows := by
    rw [TableHistory.remaining_delete]
    refine List.rel_filter (fun given stored hsame => ?_) keeps.rows
    simp [hsame.1]

/-- A row of the table is the stored form of one that was inserted under its id. -/
lemma Keeps.exists_inserted (keeps : t.Keeps history) {stored : Nat × Row}
    (hstored : stored ∈ t.rows) : ∃ given ∈ history.inserted, stored.1 = given.1 ∧
      Row.Stores history.definition.columns given.2 stored.2 := by
  obtain ⟨given, hgiven, hsame⟩ := exists_of_forall₂ keeps.rows.flip hstored
  exact ⟨given, (List.mem_filter.mp hgiven).1, hsame⟩

/-- The ids of the rows are those that remain. -/
lemma Keeps.map_ids (keeps : t.Keeps history) :
    t.rows.map Prod.fst = history.remaining.map Prod.fst := by
  have hsame : List.Forall₂ Eq (t.rows.map Prod.fst) (history.remaining.map Prod.fst) := by
    rw [List.forall₂_map_left_iff, List.forall₂_map_right_iff]
    exact keeps.rows.flip.imp fun _ _ hsame => hsame.1
  exact List.forall₂_eq_eq_eq ▸ hsame

/-- A table that keeps its history is sound. -/
lemma Keeps.sound (keeps : t.Keeps history) : t.Sound where
  increasing := by
    have hremaining : (history.remaining.map Prod.fst).Pairwise (· < ·) :=
      List.pairwise_map.mpr (keeps.ascending.filter _)
    rw [← keeps.map_ids] at hremaining
    exact List.pairwise_map.mp hremaining
  below row hrow := by
    obtain ⟨given, hgiven, hid, -⟩ := keeps.exists_inserted hrow
    rw [hid]
    exact (keeps.ids given hgiven).2
  typed row hrow := by
    obtain ⟨given, -, -, hstores⟩ := keeps.exists_inserted hrow
    rw [keeps.definition]
    exact hstores.typed

/-- There is a row of an id when the id remains. -/
lemma Keeps.exists_id_iff (keeps : t.Keeps history) {id : Nat} :
    (∃ row ∈ t.rows, row.1 = id) ↔ ∃ row ∈ history.remaining, row.1 = id := by
  rw [← List.mem_map, keeps.map_ids, List.mem_map]

end StoredTable

namespace Store

open StoredTable (keyOf)

/-- No key occurs twice, every table of the store keeps its history, and other names have none. -/
structure Keeps (s : Store) (histories : Histories) : Prop where
  distinct : s.Distinct
  tables : ∀ name, Option.Rel StoredTable.Keeps (s.find? name) (histories (keyOf name))

variable {s s' : Store} {histories : Histories} {name : String}

/-- A table of the store has a history that it keeps. -/
lemma Keeps.of_table (keeps : s.Keeps histories) {table : StoredTable}
    (h : s.find? name = some table) :
    ∃ history, histories (keyOf name) = some history ∧ table.Keeps history := by
  have hname := keeps.tables name
  rw [h] at hname
  cases hhistory : histories (keyOf name) with
  | none => simp [hhistory] at hname
  | some history =>
    rw [hhistory] at hname
    cases hname with
    | some hname => exact ⟨history, rfl, hname⟩

/-- What has a history is a table of the store, which keeps it. -/
lemma Keeps.of_history (keeps : s.Keeps histories) {history : TableHistory}
    (h : histories (keyOf name) = some history) :
    ∃ table, s.find? name = some table ∧ table.Keeps history := by
  have hname := keeps.tables name
  rw [h] at hname
  cases htable : s.find? name with
  | none => simp [htable] at hname
  | some table =>
    rw [htable] at hname
    cases hname with
    | some hname => exact ⟨table, rfl, hname⟩

/-- There is no table where there is no history. -/
lemma Keeps.find?_eq_none_iff (keeps : s.Keeps histories) :
    s.find? name = none ↔ histories (keyOf name) = none := by
  have hname := keeps.tables name
  constructor
  · intro h
    rw [h] at hname
    cases hhistory : histories (keyOf name) with
    | none => rfl
    | some history => simp [hhistory] at hname
  · intro h
    rw [h] at hname
    cases htable : s.find? name with
    | none => rfl
    | some table => simp [htable] at hname

/-! ## Requests and histories -/

variable {request : Request} {answer : Option Nat}

/-- A request that is answered is one that the histories allow. -/
lemma Keeps.allows_iff (keeps : s.Keeps histories) :
    (∃ answer s', request.attempt s = (.ok answer, s')) ↔ histories.Allows request := by
  cases request with
  | addTable definition =>
    simp only [Request.attempt, Result.map_const_fst_eq_ok, tryAddTable_eq_ok,
      keeps.find?_eq_none_iff]
    constructor
    · rintro ⟨_, _, ⟨hfree, -⟩, -⟩
      exact hfree
    · intro hfree
      exact ⟨_, _, ⟨hfree, rfl⟩, rfl⟩
  | removeTable name =>
    simp only [Request.attempt, Result.map_const_fst_eq_ok, tryRemoveTable_eq_ok]
    constructor
    · rintro ⟨_, _, ⟨⟨table, hfound⟩, -⟩, -⟩
      obtain ⟨history, hhistory, -⟩ := keeps.of_table hfound
      exact ⟨history, hhistory⟩
    · rintro ⟨history, hhistory⟩
      obtain ⟨table, hfound, -⟩ := keeps.of_history hhistory
      exact ⟨_, _, ⟨⟨table, hfound⟩, rfl⟩, rfl⟩
  | addRow name given =>
    simp only [Request.attempt, Result.map_fst_eq_ok, tryAddRow_eq_ok]
    constructor
    · rintro ⟨_, _, _, ⟨table, stored, hfound, hstored, -⟩, -⟩
      obtain ⟨history, hhistory, htable⟩ := keeps.of_table hfound
      exact ⟨history, stored, hhistory, htable.definition ▸ hstored⟩
    · rintro ⟨history, stored, hhistory, hstored⟩
      obtain ⟨table, hfound, htable⟩ := keeps.of_history hhistory
      exact ⟨_, _, _, ⟨table, stored, hfound, htable.definition ▸ hstored, rfl, rfl⟩, rfl⟩
  | removeRow name id =>
    simp only [Request.attempt, Result.map_const_fst_eq_ok, tryRemoveRow_eq_ok]
    constructor
    · rintro ⟨_, _, ⟨table, hfound, hid, -⟩, -⟩
      obtain ⟨history, hhistory, htable⟩ := keeps.of_table hfound
      exact ⟨history, hhistory, htable.exists_id_iff.mp hid⟩
    · rintro ⟨history, hhistory, hid⟩
      obtain ⟨table, hfound, htable⟩ := keeps.of_history hhistory
      exact ⟨_, _, ⟨table, hfound, htable.exists_id_iff.mpr hid, rfl⟩, rfl⟩

/-- A request that is answered changes the table it is about, as the history of the table tells, and
no table of another name. -/
lemma Keeps.exists_changed (keeps : s.Keeps histories)
    (h : request.attempt s = (.ok answer, s')) :
    ∃ changed, Option.Rel StoredTable.Keeps changed (histories.entryAfter request answer) ∧
      ∀ name, s'.find? name = if keyOf name = request.key then changed else s.find? name := by
  cases request with
  | addTable definition =>
    simp only [Request.attempt, Result.map_const_fst_eq_ok, tryAddTable_eq_ok] at h
    obtain ⟨⟨⟨hnone, -⟩, rfl⟩, rfl⟩ := h
    exact ⟨_, .some (StoredTable.keeps_created definition), find?_add hnone⟩
  | removeTable name =>
    simp only [Request.attempt, Result.map_const_fst_eq_ok, tryRemoveTable_eq_ok] at h
    obtain ⟨⟨-, rfl⟩, rfl⟩ := h
    exact ⟨_, .none, find?_remove s name⟩
  | addRow name given =>
    simp only [Request.attempt, Result.map_fst_eq_ok, tryAddRow_eq_ok] at h
    obtain ⟨_, ⟨table, stored, hfound, hstored, rfl, rfl⟩, rfl⟩ := h
    obtain ⟨history, hhistory, htable⟩ := keeps.of_table hfound
    refine ⟨_, ?_, find?_replace_of_find? hfound rfl⟩
    rw [Histories.entryAfter, Request.key, hhistory]
    exact .some (htable.insert hstored)
  | removeRow name id =>
    simp only [Request.attempt, Result.map_const_fst_eq_ok, tryRemoveRow_eq_ok] at h
    obtain ⟨⟨table, hfound, hid, rfl⟩, rfl⟩ := h
    obtain ⟨history, hhistory, htable⟩ := keeps.of_table hfound
    refine ⟨_, ?_, find?_replace_of_find? hfound rfl⟩
    rw [Histories.entryAfter, Request.key, hhistory]
    exact .some (htable.delete (htable.exists_id_iff.mp hid))

/-- A request that is answered goes into the histories. -/
lemma Keeps.record (keeps : s.Keeps histories) (h : request.attempt s = (.ok answer, s')) :
    s'.Keeps (histories.record request answer) := by
  obtain ⟨changed, hchanged, hfind⟩ := keeps.exists_changed h
  have hdistinct := keeps.distinct.attempt request
  rw [h] at hdistinct
  refine ⟨hdistinct, fun name => ?_⟩
  rw [hfind, Histories.record, Function.update_apply]
  split
  · exact hchanged
  · exact keeps.tables name

/-- A row that is inserted has an id above all that its table returned before. -/
lemma Keeps.lt_of_addRow (keeps : s.Keeps histories) {given : Row} {id : Nat}
    (h : s.addRow name given = .ok (id, s')) :
    ∃ history, histories (keyOf name) = some history ∧ ∀ row ∈ history.inserted, row.1 < id := by
  obtain ⟨table, stored, hfound, -, rfl, -⟩ := tryAddRow_eq_ok.mp (Result.settled_eq_ok.mp h)
  obtain ⟨history, hhistory, htable⟩ := keeps.of_table hfound
  exact ⟨history, hhistory, fun row hrow => (htable.ids row hrow).2⟩

end Store

/-! ## Reading -/

/-- Read by an entry, the table with the history has the rows that were inserted and not yet
deleted, in the order of their ids and with their values converted, and no others. -/
structure Store.Shows (s : Store) (entry : FromEntry) (history : TableHistory)
    (table : StoredTable) (rows : List StoredRow) : Prop where
  found : s.find? entry.name = some table
  definition : table.definition = history.definition
  typed : ∀ row ∈ table.rows, Row.Typed row.2 table.definition.columns
  numbered : ∀ row ∈ table.rows, 1 ≤ row.1 ∧ row.1 < table.nextId
  scanned : s.scan entry = .ok rows
  ascending : rows.Pairwise fun a b => a.id < b.id
  converted : List.Forall₂
    (fun given row => row.table = entry.referenceName ∧ row.id = given.1 ∧
      Row.Stores history.definition.columns given.2 row.values) history.remaining rows
  fetched : ∀ row ∈ rows, s.rowBehind entry row.id = .ok row
  vanished : ∀ id, (∀ row ∈ rows, row.id ≠ id) →
    s.rowBehind entry id = .error (.fault (.vanishedRow id entry.name))

namespace Store

variable {s : Store} {histories : Histories} {entry : FromEntry}

/-- The row behind an id of a table that is there. -/
lemma rowBehind_of_find? {table : StoredTable} (hfound : s.find? entry.name = some table)
    (id : Nat) : s.rowBehind entry id =
      match table.row? id with
      | some values => .ok ⟨entry.referenceName, id, values⟩
      | none => .error (.fault (.vanishedRow id entry.name)) := by
  rw [rowBehind, get_eq_ok_iff.mpr hfound]
  rfl

/-- A table with a history is read as the history tells. -/
lemma Keeps.shows (keeps : s.Keeps histories) {history : TableHistory}
    (h : histories (StoredTable.keyOf entry.name) = some history) :
    ∃ table rows, s.Shows entry history table rows := by
  obtain ⟨table, hfound, htable⟩ := keeps.of_history h
  refine ⟨table, table.rows.map fun row => ⟨entry.referenceName, row.1, row.2⟩, hfound,
    htable.definition, htable.sound.typed, fun row hrow => ?_, ?_, ?_, ?_, fun row hrow => ?_,
    fun id hid => ?_⟩
  · obtain ⟨given, hgiven, hid, -⟩ := htable.exists_inserted hrow
    rw [hid]
    exact htable.ids given hgiven
  · rw [scan, get_eq_ok_iff.mpr hfound]
    rfl
  · exact List.pairwise_map.mpr htable.sound.increasing
  · rw [List.forall₂_map_right_iff]
    exact htable.rows.imp fun _ _ hsame => ⟨rfl, hsame⟩
  · obtain ⟨stored, hstored, rfl⟩ := List.mem_map.mp hrow
    rw [rowBehind_of_find? hfound, htable.sound.row?_eq hstored]
  · have hnone : table.row? id = none := by
      rw [← Option.not_isSome_iff_eq_none, StoredTable.isSome_row?_iff]
      rintro ⟨stored, hstored, hsame⟩
      exact hid _ (List.mem_map_of_mem hstored) hsame
    rw [rowBehind_of_find? hfound, hnone]

/-- Nothing is read where there is no history. -/
lemma Keeps.not_found (keeps : s.Keeps histories)
    (h : histories (StoredTable.keyOf entry.name) = none) :
    s.scan entry = .error (.tableNotFound entry.name) ∧
      ∀ id, s.rowBehind entry id = .error (.tableNotFound entry.name) := by
  have hget : s.get entry.name = .error (.tableNotFound entry.name) := by
    rw [get, keeps.find?_eq_none_iff.mpr h]
  refine ⟨?_, fun id => ?_⟩
  · rw [scan, hget]
    rfl
  · rw [rowBehind, hget]
    rfl

/-- A request is answered when the histories allow it, changes nothing when it is refused, and
changes no table of another name. -/
lemma Keeps.attempt (keeps : s.Keeps histories) (request : Request) :
    ((∃ answer s', request.attempt s = (.ok answer, s')) ↔ histories.Allows request) ∧
      (∀ error s', request.attempt s = (.error error, s') → s' = s) ∧
      ∀ name, StoredTable.keyOf name ≠ request.key →
        (request.attempt s).2.find? name = s.find? name := by
  refine ⟨keeps.allows_iff, fun error s' => keeps.distinct.eq_of_attempt_refused,
    fun name hname => ?_⟩
  rcases hattempt : request.attempt s with ⟨_ | answer, s'⟩
  · rw [keeps.distinct.eq_of_attempt_refused hattempt]
  · obtain ⟨changed, -, hfind⟩ := keeps.exists_changed hattempt
    rw [hfind, if_neg hname]

end Store

/-! ## Runs -/

/-- A store with the histories of its tables. -/
structure RecordedStore where
  store : Store
  histories : Histories

namespace RecordedStore

open StoredTable (keyOf)

/-- The empty store, in which nothing has happened. -/
def start : RecordedStore where
  store := .empty
  histories _ := none

/-- A request in place, which goes into the histories when it is answered. -/
def serve (r : RecordedStore) (request : Store.Request) : RecordedStore :=
  match request.attempt r.store with
  | (.ok answer, store) => ⟨store, r.histories.record request answer⟩
  | (.error _, store) => ⟨store, r.histories⟩

/-- The store and the histories after requests one after the other. -/
def after (requests : List Store.Request) : RecordedStore :=
  requests.foldl serve start

/-- A request keeps store and histories in step. -/
lemma keeps_serve {r : RecordedStore} (keeps : r.store.Keeps r.histories)
    (request : Store.Request) : (r.serve request).store.Keeps (r.serve request).histories := by
  unfold serve
  split
  · rename_i answer store hattempt
    exact keeps.record hattempt
  · rename_i error store hattempt
    rw [keeps.distinct.eq_of_attempt_refused hattempt]
    exact keeps

/-- After any requests the store keeps the histories. -/
lemma keeps_after (requests : List Store.Request) :
    (after requests).store.Keeps (after requests).histories := by
  have hfrom : ∀ r : RecordedStore, r.store.Keeps r.histories →
      (requests.foldl serve r).store.Keeps (requests.foldl serve r).histories := by
    induction requests with
    | nil => exact fun r keeps => keeps
    | cons request rest ih => exact fun r keeps => ih (r.serve request) (keeps_serve keeps request)
  exact hfrom start ⟨List.nodup_nil, fun name => .none⟩

/-- **The store keeps what its history tells.**  After any requests, whether answered or refused,
a table is read as the rows that were inserted into it since its creation and not yet deleted,
typed, numbered below the next id and converted from what was given.  The next request is answered
exactly when the histories allow it, changes nothing when it is refused and no table of another name
when it is answered, and an inserted row has an id above all that its table returned before. -/
theorem store_after_requests (requests : List Store.Request) :
    (∀ entry : FromEntry,
      match (after requests).histories (keyOf entry.name) with
      | some history => ∃ table rows, (after requests).store.Shows entry history table rows
      | none => (after requests).store.scan entry = .error (.tableNotFound entry.name) ∧
          ∀ id, (after requests).store.rowBehind entry id =
            .error (.tableNotFound entry.name)) ∧
    (∀ request : Store.Request,
      ((∃ answer store, request.attempt (after requests).store = (.ok answer, store)) ↔
        (after requests).histories.Allows request) ∧
      (∀ error store, request.attempt (after requests).store = (.error error, store) →
        store = (after requests).store) ∧
      ∀ name, keyOf name ≠ request.key →
        (request.attempt (after requests).store).2.find? name =
          (after requests).store.find? name) ∧
    ∀ table given id store, (after requests).store.addRow table given = .ok (id, store) →
      ∃ history, (after requests).histories (keyOf table) = some history ∧
        ∀ row ∈ history.inserted, row.1 < id := by
  have keeps := keeps_after requests
  refine ⟨fun entry => ?_, keeps.attempt, fun table given id store => keeps.lt_of_addRow⟩
  split
  · rename_i history hhistory
    exact keeps.shows hhistory
  · rename_i hhistory
    exact keeps.not_found hhistory

end RecordedStore

end RelQuery
