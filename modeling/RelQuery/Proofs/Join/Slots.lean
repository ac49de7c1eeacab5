import RelQuery.Proofs.Join.Rows

/-!
# Tuples as choices

The executor numbers the slots of its tuples in the order in which it joined the tables.  Read table
by table a tuple is a choice of candidate rows, and the candidate rows with the conditions on them
form a row space.  A condition that can be evaluated on the tables joined so far has the same answer
on every choice that extends the tuple.
-/

namespace RelQuery

/-! ## Slots -/

/-- The choice that a tuple makes, given the order of its slots. -/
def slotChoice : List Nat → Tuple → Choice Nat
  | table :: order, slot :: tuple => Function.update (slotChoice order tuple) table slot
  | _, _ => Choice.none

/-- The choices that the tuples make. -/
def JoinedTuples.choices (output : JoinedTuples) : List (Choice Nat) :=
  output.tuples.map (slotChoice output.order)

/-- A table without a slot takes no row. -/
lemma slotChoice_of_notMem {order : List Nat} {table : Nat} (h : table ∉ order) (tuple : Tuple) :
    slotChoice order tuple table = none := by
  induction order generalizing tuple with
  | nil => rfl
  | cons first order ih =>
    rw [List.mem_cons, not_or] at h
    cases tuple with
    | nil => rfl
    | cons slot tuple => rw [slotChoice, Function.update_of_ne h.1, ih h.2]

/-- A tuple with one more slot. -/
lemma slotChoice_append {order : List Nat} {tuple : Tuple} (length : tuple.length = order.length)
    {table : Nat} (h : table ∉ order) (slot : Option Nat) :
    slotChoice (order ++ [table]) (tuple ++ [slot]) =
      Function.update (slotChoice order tuple) table slot := by
  induction order generalizing tuple with
  | nil =>
    obtain rfl := List.length_eq_zero_iff.mp length
    rfl
  | cons first order ih =>
    rw [List.mem_cons, not_or] at h
    cases tuple with
    | nil => simp at length
    | cons other tuple =>
      rw [List.cons_append, List.cons_append, slotChoice, ih (by simpa using length) h.2,
        Function.update_comm h.1]
      rfl

/-- Padding everywhere is no choice at all. -/
lemma slotChoice_replicate (order : List Nat) (width : Nat) :
    slotChoice order (List.replicate width none) = Choice.none := by
  induction order generalizing width with
  | nil => rfl
  | cons table order ih =>
    cases width with
    | zero => rfl
    | succ width =>
      rw [List.replicate_succ, slotChoice, ih]
      exact Function.update_eq_self table _

/-- The slot of a joined table. -/
lemma slotChoice_getElem {order : List Nat} (nodup : order.Nodup) {tuple : Tuple} (position : Nat)
    {table : Nat} {slot : Option Nat} (htable : order[position]? = some table)
    (hslot : tuple[position]? = some slot) : slotChoice order tuple table = slot := by
  induction order generalizing tuple position with
  | nil => simp at htable
  | cons first order ih =>
    rw [List.nodup_cons] at nodup
    cases tuple with
    | nil => simp at hslot
    | cons other tuple =>
      cases position with
      | zero =>
        obtain rfl : first = table := by simpa using htable
        obtain rfl : other = slot := by simpa using hslot
        rw [slotChoice, Function.update_self]
      | succ position =>
        rw [List.getElem?_cons_succ] at htable hslot
        have hne : table ≠ first := by
          rintro rfl
          exact nodup.1 (List.mem_of_getElem? htable)
        rw [slotChoice, Function.update_of_ne hne]
        exact ih nodup.2 position htable hslot

/-- What the slots of a tuple give, table by table. -/
lemma eq_map_of_slots {β : Type} {f : Nat → Option Nat → Result β} {g : Nat → Option Nat → β}
    {order : List Nat} (nodup : order.Nodup) {tuple : Tuple} (length : tuple.length = order.length)
    (hg : ∀ table ∈ order, ∀ slot b, f table slot = .ok b → b = g table slot) {r : List β}
    (h : ((order.zip tuple).mapM fun slot => f slot.1 slot.2) = .ok r) :
    r = order.map fun table => g table (slotChoice order tuple table) := by
  induction order generalizing tuple r with
  | nil =>
    rw [List.zip_nil_left, List.mapM_nil, Result.pure_eq_ok] at h
    rw [← h, List.map_nil]
  | cons table order ih =>
    rw [List.nodup_cons] at nodup
    cases tuple with
    | nil => simp at length
    | cons slot tuple =>
      rw [List.zip_cons_cons, List.mapM_cons, Result.bind_eq_ok] at h
      obtain ⟨first, hfirst, h⟩ := h
      obtain ⟨rest, hrest, h⟩ := Result.bind_eq_ok.mp h
      rw [← Result.pure_eq_ok.mp h, List.map_cons, slotChoice, Function.update_self,
        hg table List.mem_cons_self slot first hfirst,
        ih nodup.2 (by simpa using length)
          (fun other hother => hg other (List.mem_cons_of_mem _ hother)) hrest]
      congr 1
      refine List.map_congr_left fun other hother => ?_
      rw [Function.update_of_ne (ne_of_mem_of_not_mem hother nodup.1)]

/-! ## Candidate rows as a row space -/

namespace JoinInput

/-- The row that a slot stands for, where a slot without a candidate counts as padding. -/
def chosenRow (t : JoinInput) : Option Nat → LogicalRow
  | some index =>
    match t.rows[index]? with
    | some row => .candidate t.referenceName t.columns row
    | none => .padding t.referenceName
  | none => .padding t.referenceName

/-- The row of a table under a choice. -/
def chosen (tables : List JoinInput) (c : Choice Nat) (table : Nat) : LogicalRow :=
  (atPosition tables table).chosenRow (c table)

/-- The positions of the tables. -/
def positions (tables : List JoinInput) : List Nat :=
  List.range tables.length

/-- The row space of the candidates. -/
def space (tables : List JoinInput) : RowSpace Nat :=
  .ofRows tables.length (fun table => List.range (atPosition tables table).rows.length)
    fun table => (atPosition tables table).chosenRow

/-- No two tables have the same reference name. -/
def NamesApart (tables : List JoinInput) : Prop :=
  tables.Pairwise fun a b => Name.same a.referenceName b.referenceName = false

/-- A chosen row belongs to its table. -/
@[simp] lemma tableName_chosenRow (t : JoinInput) (slot : Option Nat) :
    (t.chosenRow slot).tableName = t.referenceName := by
  unfold chosenRow
  split
  · split <;> rfl
  · rfl

/-- A chosen row belongs to its table. -/
@[simp] lemma tableName_chosen (tables : List JoinInput) (c : Choice Nat) (table : Nat) :
    (chosen tables c table).tableName = (atPosition tables table).referenceName :=
  tableName_chosenRow _ _

/-- The row of a slot is the chosen one. -/
lemma eq_chosenRow {t : JoinInput} {slot : Option Nat} {row : LogicalRow}
    (h : t.slotRow slot = .ok row) : row = t.chosenRow slot := by
  cases slot with
  | none => exact (Except.ok.inj h).symm
  | some index =>
    simp only [slotRow, JoinInput.row] at h
    simp only [chosenRow]
    cases hrow : t.rows[index]? with
    | none => simp [hrow] at h
    | some candidate =>
      rw [hrow] at h
      exact (Except.ok.inj h).symm

/-- A position of a table. -/
@[simp] lemma mem_positions {tables : List JoinInput} {table : Nat} :
    table ∈ positions tables ↔ table < tables.length := by
  simp [positions]

/-- The table at a position inside the list. -/
lemma getElem?_eq_atPosition {tables : List JoinInput} {table : Nat} (h : table < tables.length) :
    tables[table]? = some (atPosition tables table) := by
  simp [atPosition, List.getD_eq_getElem?_getD, h]

/-- Tables at different positions have different names. -/
lemma NamesApart.eq_of_same {tables : List JoinInput} (apart : NamesApart tables) {p q : Nat}
    (hp : p < tables.length) (hq : q < tables.length)
    (h : Name.same (atPosition tables p).referenceName (atPosition tables q).referenceName = true) :
    p = q :=
  eq_of_apart _ apart hp hq h

/-- The candidates carry the names of their tables. -/
lemma NamesApart.named {tables : List JoinInput} (apart : NamesApart tables) :
    RowSpace.Named tables.length (fun table => (atPosition tables table).referenceName)
      fun table => (atPosition tables table).chosenRow where
  tableName _ _ := tableName_chosenRow _ _
  padding _ := rfl
  apart _ hp _ hq := apart.eq_of_same hp hq

/-- The chosen rows of all tables are apart. -/
lemma NamesApart.chosen {tables : List JoinInput} (apart : NamesApart tables) (c : Choice Nat) :
    Expr.Apart (positions tables) (chosen tables c) :=
  apart.named.apart_rows c

/-- The rows of a tuple are those it chooses. -/
lemma rowsOf_eq {tables : List JoinInput} {order : List Nat} (nodup : order.Nodup) {tuple : Tuple}
    (length : tuple.length = order.length) {rows : List LogicalRow}
    (h : rowsOf tables order tuple = .ok rows) :
    rows = order.map (chosen tables (slotChoice order tuple)) :=
  eq_map_of_slots (f := fun table slot => (atPosition tables table).slotRow slot)
    (g := fun table slot => (atPosition tables table).chosenRow slot) nodup length
    (fun _ _ _ _ hrow => eq_chosenRow hrow) h

/-- A condition that is evaluated on the joined tables has the same answer on all choices that
extend the tuple. -/
lemma accepts_of_acceptsTuple {tables : List JoinInput} (apart : NamesApart tables)
    {order : List Nat} (nodup : order.Nodup) (inside : order ⊆ positions tables) {tuple : Tuple}
    (length : tuple.length = order.length) {predicate : Expr} {passed : Bool}
    (h : acceptsTuple tables order predicate tuple = .ok passed) {τ : Choice Nat}
    (hτ : ∀ table ∈ order, τ table = slotChoice order tuple table) :
    predicate.accepts ((positions tables).map (chosen tables τ)) = .ok passed := by
  obtain ⟨rows, hrows, h⟩ := Result.bind_eq_ok'.mp h
  rw [rowsOf_eq nodup length hrows] at h
  refine Expr.accepts_of_subset (apart.chosen τ) inside (fun table htable => ?_) h
  rw [chosen, chosen, hτ table htable]

end JoinInput

end RelQuery
