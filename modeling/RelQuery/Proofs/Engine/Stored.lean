import RelQuery.Proofs.Join.Rows
import RelQuery.Proofs.Store.Reachable

/-!
# Stored rows as a row space

The meaning of a query is stated on the rows that the store has.  Given the entries of its FROM list
they form a row space: a choice takes a row of the table that an entry names, or pads the entry, and
is seen by expressions as one logical row for every entry.
-/

namespace RelQuery

/-! ## Stored rows of an entry -/

/-- The rows of the table that an entry names. -/
def Store.rowsOf (s : Store) (entry : FromEntry) : List (Nat × Row) :=
  ((s.find? entry.name).map StoredTable.rows).getD []

/-- The rows of a table that the store has. -/
lemma Store.rowsOf_eq {s : Store} {entry : FromEntry} {t : StoredTable}
    (h : s.get entry.name = .ok t) : s.rowsOf entry = t.rows := by
  rw [rowsOf, (Store.get_eq_ok h).1]
  rfl

/-- No row of an entry occurs twice. -/
lemma Store.Sound.nodup_rowsOf {s : Store} (sound : s.Sound) (entry : FromEntry) :
    (s.rowsOf entry).Nodup := by
  unfold rowsOf
  cases h : s.find? entry.name with
  | none => exact List.nodup_nil
  | some t => exact (sound t (List.mem_of_find?_eq_some h)).nodup

namespace FromEntry

/-- The entry at a position.  Positions are always those of entries in the list. -/
def atPosition (entries : List FromEntry) (position : Nat) : FromEntry :=
  entries.getD position JoinInput.vacant.table

/-- A row of the entry's table under the reference name of the entry. -/
def named (entry : FromEntry) (row : Nat × Row) : StoredRow :=
  ⟨entry.referenceName, row.1, row.2⟩

/-- A row of the entry's table as expressions see it, where no row stands for padding. -/
def shown (entry : FromEntry) : Option (Nat × Row) → LogicalRow
  | some row => .stored (entry.named row)
  | none => .padding entry.referenceName

/-- The logical rows of a choice, one for every entry. -/
def shownRows (entries : List FromEntry) (σ : Choice (Nat × Row)) : List LogicalRow :=
  (List.range entries.length).map fun position => (atPosition entries position).shown (σ position)

/-- No two entries have the same reference name. -/
def Apart (entries : List FromEntry) : Prop :=
  entries.Pairwise fun a b => a.same b = false

/-- A shown row belongs to its entry. -/
@[simp] lemma tableName_shown (entry : FromEntry) (slot : Option (Nat × Row)) :
    (entry.shown slot).tableName = entry.referenceName := by
  cases slot <;> rfl

/-- Different rows are shown as different ones. -/
lemma shown_inj (entry : FromEntry) {a b : Option (Nat × Row)} (h : entry.shown a = entry.shown b) :
    a = b := by
  cases a with
  | none => cases b with
    | none => rfl
    | some row => simp [shown] at h
  | some row => cases b with
    | none => simp [shown] at h
    | some row' =>
      simp only [shown, named, LogicalRow.stored.injEq, StoredRow.mk.injEq, true_and] at h
      rw [Option.some.injEq]
      exact Prod.ext h.1 h.2

/-- Entries at different positions have different names. -/
lemma Apart.eq_of_same {entries : List FromEntry} (apart : Apart entries) {p q : Nat}
    (hp : p < entries.length) (hq : q < entries.length)
    (h : Name.same (atPosition entries p).referenceName
      (atPosition entries q).referenceName = true) :
    p = q :=
  eq_of_apart _ apart hp hq h

/-- The stored rows carry the names of their entries. -/
lemma Apart.named {entries : List FromEntry} (apart : Apart entries) :
    RowSpace.Named entries.length (fun position => (atPosition entries position).referenceName)
      fun position => (atPosition entries position).shown where
  tableName _ _ := tableName_shown _ _
  padding _ := rfl
  apart _ hp _ hq := apart.eq_of_same hp hq

end FromEntry

/-! ## The row space of a FROM list -/

/-- The row space of the stored rows. -/
def Store.space (s : Store) (entries : List FromEntry) : RowSpace (Nat × Row) :=
  .ofRows entries.length (fun position => s.rowsOf (FromEntry.atPosition entries position))
    fun position => (FromEntry.atPosition entries position).shown

/-- A condition accepts a choice when it is TRUE on the rows shown. -/
lemma Store.accepts_space (s : Store) (entries : List FromEntry) (on : Expr)
    (σ : Choice (Nat × Row)) :
    (s.space entries).accepts (some on) σ =
      Result.holds (on.accepts (FromEntry.shownRows entries σ)) := rfl

/-- Choices that are shown alike and take no rows beyond the entries are the same. -/
lemma FromEntry.shownRows_inj {entries : List FromEntry} {σ σ' : Choice (Nat × Row)}
    (supported : σ.SupportedBy (List.range entries.length))
    (supported' : σ'.SupportedBy (List.range entries.length))
    (h : shownRows entries σ = shownRows entries σ') : σ = σ' := by
  funext position
  by_cases hposition : position ∈ List.range entries.length
  · exact shown_inj _ (List.map_inj_left.mp h position hposition)
  · rw [supported position hposition, supported' position hposition]

end RelQuery
