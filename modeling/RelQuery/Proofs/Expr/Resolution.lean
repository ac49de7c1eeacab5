import Mathlib
import RelQuery.Proofs.Expr.Resolved

/-!
# Which columns are resolved, and to what

A written column is searched in all tables that its qualifier means, or in all tables where it has
none.  It is resolved when exactly one of them has a column of its name, and the result is that
table's first column of the name as it is declared there.  Names are compared up to ASCII case
throughout.

Resolving again finds the same column.  The resolved qualifier is the reference name of one table,
which the written qualifier already meant, so the second search looks at no table that the first did
not look at.
-/

namespace RelQuery

/-- A list contributes one element exactly when one position contributes. -/
lemma exists_filterMap_eq_singleton_iff {α β : Type} {f : α → Option β} {l : List α} :
    (∃ b, l.filterMap f = [b]) ↔ ∃! i : Nat, ∃ a, l[i]? = some a ∧ f a ≠ none := by
  constructor
  · rintro ⟨b, h⟩
    obtain ⟨before, a, after, rfl, hbefore, ha, hafter⟩ := List.filterMap_eq_cons_iff.mp h
    refine ⟨before.length, ⟨a, by simp, by simp [ha]⟩, ?_⟩
    rintro i ⟨x, hx, hne⟩
    rcases Nat.lt_trichotomy i before.length with hlt | heq | hgt
    · rw [List.getElem?_append_left hlt] at hx
      exact (hne (hbefore x (List.mem_of_getElem? hx))).elim
    · exact heq
    · obtain ⟨k, rfl⟩ := Nat.exists_eq_add_of_lt hgt
      rw [List.getElem?_append_right (by omega)] at hx
      have hx : after[k]? = some x := by
        simpa [show before.length + k + 1 - before.length = k + 1 by omega] using hx
      exact (hne (List.filterMap_eq_nil_iff.mp hafter x (List.mem_of_getElem? hx))).elim
  · rintro ⟨i, ⟨a, ha, hne⟩, unique⟩
    obtain ⟨hlt, rfl⟩ := List.getElem?_eq_some_iff.mp ha
    obtain ⟨b, hb⟩ := Option.ne_none_iff_exists'.mp hne
    have only (j : Nat) (x : α) (hx : l[j]? = some x) (hj : j ≠ i) : f x = none := by
      by_contra hsome
      exact hj (unique j ⟨x, hx, hsome⟩)
    have hbefore : (l.take i).filterMap f = [] := by
      refine List.filterMap_eq_nil_iff.mpr fun x hx => ?_
      obtain ⟨j, hj, rfl⟩ := List.mem_take_iff_getElem.mp hx
      exact only j _ (List.getElem?_eq_getElem _) (by omega)
    have hafter : (l.drop (i + 1)).filterMap f = [] := by
      refine List.filterMap_eq_nil_iff.mpr fun x hx => ?_
      obtain ⟨j, hj, rfl⟩ := List.mem_drop_iff_getElem.mp hx
      exact only (i + 1 + j) _ (List.getElem?_eq_getElem (by omega)) (by omega)
    refine ⟨b, ?_⟩
    rw [← List.take_append_drop i l, List.drop_eq_getElem_cons hlt, List.filterMap_append,
      List.filterMap_cons_some hb, hbefore, hafter, List.nil_append]

variable {tables : List BoundEntry} {table : BoundEntry}

/-! ## The search for one column -/

/-- The table has a column of the name. -/
def BoundEntry.HasColumn (table : BoundEntry) (name : String) : Prop :=
  ∃ column ∈ table.definition.columns, Name.same column.name name = true

namespace ColumnRef

variable {column resolved : ColumnRef} {index : Nat}

/-- The reference is searched in the table: its qualifier, if it has one, means the table. -/
def LooksAt (column : ColumnRef) (table : BoundEntry) : Prop :=
  ∀ qualifier, column.table = some qualifier → Name.same table.referenceName qualifier = true

/-- The reference is searched in the table at the position and found there. -/
def FoundAt (tables : List BoundEntry) (column : ColumnRef) (position : Nat) : Prop :=
  ∃ table, tables[position]? = some table ∧ column.LooksAt table ∧ table.HasColumn column.name

/-- The reference is found in exactly one of the tables. -/
def Unambiguous (tables : List BoundEntry) (column : ColumnRef) : Prop :=
  ∃! position, column.FoundAt tables position

/-- The second reference is the declaration, in one of the tables, of what the first looks for. -/
def Means (tables : List BoundEntry) (column resolved : ColumnRef) : Prop :=
  ∃ table ∈ tables, column.LooksAt table ∧ Name.same resolved.name column.name = true ∧
    ∃ index, Declares table index resolved

/-- The tables that are searched are those the qualifier allows. -/
lemma allows_iff : column.allows table = true ↔ column.LooksAt table := by
  unfold allows LooksAt
  cases column.table with
  | none => simp
  | some qualifier => simp [BoundEntry.answersTo]

/-- A name has a position in the tables that have a column of it. -/
lemma isSome_indexOf?_iff {name : String} :
    (table.definition.indexOf? name).isSome = true ↔ table.HasColumn name := by
  simp [TableSchema.indexOf?, BoundEntry.HasColumn]

/-- A declared column belongs to its table. -/
lemma Declares.hasColumn (h : Declares table index resolved) : table.HasColumn resolved.name :=
  isSome_indexOf?_iff.mp (by rw [h.named]; rfl)

/-- The position a table has for a column that is searched in it. -/
def owner? (column : ColumnRef) (table : BoundEntry) : Option (BoundEntry × Nat) :=
  if column.allows table then
    (table.definition.indexOf? column.name).map fun index => (table, index)
  else none

/-- The owners of a column are collected table by table. -/
lemma owners_eq_filterMap : column.owners tables = tables.filterMap column.owner? := by
  rw [owners, List.filterMap_filter]
  rfl

/-- A table owns a column that is searched in it and found there. -/
lemma owner?_ne_none_iff :
    column.owner? table ≠ none ↔ column.LooksAt table ∧ table.HasColumn column.name := by
  rw [← allows_iff, ← isSome_indexOf?_iff, owner?, ← Option.isSome_iff_ne_none]
  split
  · rename_i hallows
    simp [hallows]
  · rename_i hallows
    simp [hallows]

/-- A column has exactly one owner when it is found in exactly one table. -/
lemma exists_owner_iff :
    (∃ owner, column.owners tables = [owner]) ↔ column.Unambiguous tables := by
  rw [owners_eq_filterMap, exists_filterMap_eq_singleton_iff]
  simp only [owner?_ne_none_iff]
  rfl

/-- The owners are the tables in which the column is found, each with the position there. -/
lemma mem_owners_iff : (table, index) ∈ column.owners tables ↔
    table ∈ tables ∧ column.LooksAt table ∧
      table.definition.indexOf? column.name = some index := by
  rw [mem_owners, allows_iff]

/-- A column is resolved when it is found in exactly one table, and then to its declaration
there. -/
lemma resolve_eq_ok_iff :
    column.resolve tables = .ok resolved ↔
      column.Unambiguous tables ∧ column.Means tables resolved := by
  rw [← exists_owner_iff, resolve_eq_ok]
  constructor
  · rintro ⟨table, index, definition, howners, hdefinition, rfl⟩
    obtain ⟨hmem, hlooks, hindex⟩ := mem_owners_iff.mp (howners ▸ List.mem_singleton_self _)
    obtain ⟨found, hfound, hname⟩ := exists_column_of_indexOf? hindex
    obtain rfl := Option.some.inj (hdefinition.symm.trans hfound)
    exact ⟨⟨_, howners⟩, table, hmem, hlooks, hname, index, declares_of_indexOf? hindex hdefinition⟩
  · rintro ⟨⟨owner, howners⟩, table, hmem, hlooks, hname, index, hdeclares⟩
    have hindex : table.definition.indexOf? column.name = some index :=
      (indexOf?_congr _ hname).symm.trans hdeclares.named
    -- the table that declares the column is the one owner
    obtain rfl : (table, index) = owner :=
      List.mem_singleton.mp (howners ▸ mem_owners_iff.mpr ⟨hmem, hlooks, hindex⟩)
    obtain ⟨definition, hdefinition, rfl⟩ := hdeclares.declared
    exact ⟨table, index, definition, howners, hdefinition, rfl⟩

/-- A column that is found in exactly one table is resolved. -/
lemma exists_resolve (h : column.Unambiguous tables) :
    ∃ resolved, column.resolve tables = .ok resolved := by
  obtain ⟨⟨table, index⟩, howners⟩ := exists_owner_iff.mpr h
  obtain ⟨-, -, hindex⟩ := mem_owners_iff.mp (howners ▸ List.mem_singleton_self _)
  obtain ⟨definition, hdefinition, -⟩ := exists_column_of_indexOf? hindex
  exact ⟨_, resolve_eq_ok.mpr ⟨table, index, definition, howners, hdefinition, rfl⟩⟩

/-- Where a resolved column is found, the written one was found before. -/
lemma Means.foundAt {position : Nat} (h : column.Means tables resolved)
    (hfound : resolved.FoundAt tables position) : column.FoundAt tables position := by
  obtain ⟨table, -, hlooks, hname, index, hdeclares⟩ := h
  obtain ⟨other, hother, hlooksOther, c, hc, hsame⟩ := hfound
  refine ⟨other, hother, fun qualifier hqualifier => ?_, c, hc, Name.same_trans hsame hname⟩
  exact Name.same_trans (hlooksOther _ hdeclares.table) (hlooks qualifier hqualifier)

/-- Resolving a resolved column changes nothing. -/
lemma resolve_resolved (h : column.resolve tables = .ok resolved) :
    resolved.resolve tables = .ok resolved := by
  obtain ⟨⟨position, -, unique⟩, means⟩ := resolve_eq_ok_iff.mp h
  obtain ⟨table, hmem, -, -, index, hdeclares⟩ := id means
  have looks : resolved.LooksAt table := by
    intro qualifier hqualifier
    rw [hdeclares.table] at hqualifier
    rw [← Option.some.inj hqualifier]
    exact Name.same_refl _
  obtain ⟨own, hown⟩ := List.mem_iff_getElem?.mp hmem
  have found : resolved.FoundAt tables own := ⟨table, hown, looks, hdeclares.hasColumn⟩
  refine resolve_eq_ok_iff.mpr ⟨⟨own, found, fun other hother => ?_⟩, ?_⟩
  · rw [unique other (means.foundAt hother), unique own (means.foundAt found)]
  · exact ⟨table, hmem, looks, Name.same_refl _, index, hdeclares⟩

end ColumnRef

/-! ## Whole expressions -/

namespace Expr

variable {e resolved : Expr}

/-- Every function has its argument, and every column is found in exactly one table. -/
structure Resolvable (tables : List BoundEntry) (e : Expr) : Prop where
  /-- Only COUNT stands without an argument. -/
  argument : ∀ f label, bareCall f label ∈ e.parts → f = .aggregate .count
  unambiguous : ∀ column ∈ e.columns, column.Unambiguous tables

/-- The second expression is the first with each column replaced by its declaration. -/
inductive Resolves (tables : List BoundEntry) : Expr → Expr → Prop where
  | literal (value : Value) (label : Option String) :
    Resolves tables (literal value label) (literal value label)
  | column {ref resolved : ColumnRef} (label : Option String) (h : ref.Means tables resolved) :
    Resolves tables (column ref label) (column resolved label)
  | binary (op : BinaryOp) {left right left' right' : Expr} (label : Option String)
    (hleft : Resolves tables left left') (hright : Resolves tables right right') :
    Resolves tables (binary op left right label) (binary op left' right' label)
  | negate {operand operand' : Expr} (label : Option String)
    (hoperand : Resolves tables operand operand') :
    Resolves tables (negate operand label) (negate operand' label)
  | call (f : Function) {arg arg' : Expr} (label : Option String)
    (harg : Resolves tables arg arg') :
    Resolves tables (call f arg label) (call f arg' label)
  | bareCall (f : Function) (label : Option String) :
    Resolves tables (bareCall f label) (bareCall f label)

/-- An operation is resolvable when both operands are. -/
lemma resolvable_binary {op : BinaryOp} {left right : Expr} {label : Option String} :
    (binary op left right label).Resolvable tables ↔
      left.Resolvable tables ∧ right.Resolvable tables := by
  constructor
  · intro h
    refine ⟨⟨fun f l hpart => h.argument f l ?_, fun c hc => h.unambiguous c ?_⟩,
      ⟨fun f l hpart => h.argument f l ?_, fun c hc => h.unambiguous c ?_⟩⟩ <;>
    simp_all [parts, columns]
  · rintro ⟨hleft, hright⟩
    refine ⟨fun f l hpart => ?_, fun c hc => ?_⟩
    · have hpart : bareCall f l ∈ left.parts ∨ bareCall f l ∈ right.parts := by
        simpa [parts] using hpart
      exact hpart.elim (hleft.argument f l) (hright.argument f l)
    · exact (List.mem_append.mp hc).elim (hleft.unambiguous c) (hright.unambiguous c)

/-- A negation is resolvable when its operand is. -/
lemma resolvable_negate {operand : Expr} {label : Option String} :
    (negate operand label).Resolvable tables ↔ operand.Resolvable tables := by
  constructor <;>
  exact fun h => ⟨fun f l hpart => h.argument f l (by simpa [parts] using hpart), h.unambiguous⟩

/-- A call is resolvable when its argument is. -/
lemma resolvable_call {f : Function} {arg : Expr} {label : Option String} :
    (call f arg label).Resolvable tables ↔ arg.Resolvable tables := by
  constructor <;>
  exact fun h => ⟨fun g l hpart => h.argument g l (by simpa [parts] using hpart), h.unambiguous⟩

/-- An expression is resolved when it is resolvable, and then column by column. -/
lemma resolve_eq_ok_iff :
    e.resolve tables = .ok resolved ↔ e.Resolvable tables ∧ Resolves tables e resolved := by
  induction e generalizing resolved with
  | literal value label =>
    constructor
    · intro h
      obtain rfl := Except.ok.inj h
      exact ⟨⟨by simp [parts], by simp [columns]⟩, .literal value label⟩
    · rintro ⟨-, h⟩
      cases h
      rfl
  | column ref label =>
    rw [resolve_column_eq_ok]
    constructor
    · rintro ⟨found, hfound, rfl⟩
      obtain ⟨unambiguous, means⟩ := ColumnRef.resolve_eq_ok_iff.mp hfound
      exact ⟨⟨by simp [parts], by simpa [columns] using unambiguous⟩, .column label means⟩
    · rintro ⟨resolvable, h⟩
      cases h with
      | column _ means =>
        have unambiguous := resolvable.unambiguous ref (by simp [columns])
        exact ⟨_, ColumnRef.resolve_eq_ok_iff.mpr ⟨unambiguous, means⟩, rfl⟩
  | binary op left right label ihLeft ihRight =>
    rw [resolve_binary_eq_ok, resolvable_binary]
    constructor
    · rintro ⟨l, r, hl, hr, rfl⟩
      obtain ⟨resolvableLeft, hleft⟩ := ihLeft.mp hl
      obtain ⟨resolvableRight, hright⟩ := ihRight.mp hr
      exact ⟨⟨resolvableLeft, resolvableRight⟩, .binary op label hleft hright⟩
    · rintro ⟨⟨resolvableLeft, resolvableRight⟩, h⟩
      cases h with
      | binary _ _ hleft hright =>
        exact ⟨_, _, ihLeft.mpr ⟨resolvableLeft, hleft⟩, ihRight.mpr ⟨resolvableRight, hright⟩, rfl⟩
  | negate operand label ih =>
    rw [resolve_negate_eq_ok, resolvable_negate]
    constructor
    · rintro ⟨o, ho, rfl⟩
      obtain ⟨resolvable, hoperand⟩ := ih.mp ho
      exact ⟨resolvable, .negate label hoperand⟩
    · rintro ⟨resolvable, h⟩
      cases h with
      | negate _ hoperand => exact ⟨_, ih.mpr ⟨resolvable, hoperand⟩, rfl⟩
  | call f arg label ih =>
    rw [resolve_call_eq_ok, resolvable_call]
    constructor
    · rintro ⟨a, ha, rfl⟩
      obtain ⟨resolvable, harg⟩ := ih.mp ha
      exact ⟨resolvable, .call f label harg⟩
    · rintro ⟨resolvable, h⟩
      cases h with
      | call _ _ harg => exact ⟨_, ih.mpr ⟨resolvable, harg⟩, rfl⟩
  | bareCall f label =>
    rw [resolve_bareCall_eq_ok]
    constructor
    · rintro ⟨hbare, rfl⟩
      have count : f = .aggregate .count := by simpa [Function.mayBeBare] using hbare
      exact ⟨⟨by simp [parts, count], by simp [columns]⟩, .bareCall f label⟩
    · rintro ⟨resolvable, h⟩
      cases h
      obtain rfl := resolvable.argument f label (self_mem_parts _)
      exact ⟨rfl, rfl⟩

/-- What can be resolved is resolved to something. -/
lemma Resolvable.exists_resolves (h : e.Resolvable tables) : ∃ r, Resolves tables e r := by
  induction e with
  | literal value label => exact ⟨_, .literal value label⟩
  | column ref label =>
    obtain ⟨resolved, hresolved⟩ :=
      ColumnRef.exists_resolve (h.unambiguous ref (by simp [columns]))
    exact ⟨_, .column label (ColumnRef.resolve_eq_ok_iff.mp hresolved).2⟩
  | binary op left right label ihLeft ihRight =>
    obtain ⟨resolvableLeft, resolvableRight⟩ := resolvable_binary.mp h
    obtain ⟨l, hl⟩ := ihLeft resolvableLeft
    obtain ⟨r, hr⟩ := ihRight resolvableRight
    exact ⟨_, .binary op label hl hr⟩
  | negate operand label ih =>
    obtain ⟨o, ho⟩ := ih (resolvable_negate.mp h)
    exact ⟨_, .negate label ho⟩
  | call f arg label ih =>
    obtain ⟨a, ha⟩ := ih (resolvable_call.mp h)
    exact ⟨_, .call f label ha⟩
  | bareCall f label => exact ⟨_, .bareCall f label⟩

/-- Resolving a resolved expression changes nothing. -/
lemma Resolves.resolve_eq_self (h : Resolves tables e resolved)
    (hresolvable : e.Resolvable tables) :
    resolved.resolve tables = .ok resolved := by
  induction h with
  | literal value label => rfl
  | @column ref _ label means =>
    have unambiguous := hresolvable.unambiguous ref (by simp [columns])
    have found := ColumnRef.resolve_eq_ok_iff.mpr ⟨unambiguous, means⟩
    exact resolve_column_eq_ok.mpr ⟨_, ColumnRef.resolve_resolved found, rfl⟩
  | binary op label hleft hright ihLeft ihRight =>
    obtain ⟨resolvableLeft, resolvableRight⟩ := resolvable_binary.mp hresolvable
    exact resolve_binary_eq_ok.mpr ⟨_, _, ihLeft resolvableLeft, ihRight resolvableRight, rfl⟩
  | negate label hoperand ih =>
    exact resolve_negate_eq_ok.mpr ⟨_, ih (resolvable_negate.mp hresolvable), rfl⟩
  | call f label harg ih =>
    exact resolve_call_eq_ok.mpr ⟨_, ih (resolvable_call.mp hresolvable), rfl⟩
  | bareCall f label =>
    obtain rfl := hresolvable.argument f label (self_mem_parts _)
    rfl

/-- Resolution keeps the aggregate at the top. -/
lemma Resolves.aggregate?_eq (h : Resolves tables e resolved) :
    resolved.aggregate? = e.aggregate? := by
  cases h <;> rfl

/-- Resolution keeps aggregates where they are. -/
lemma Resolves.hasAggregate_eq (h : Resolves tables e resolved) :
    resolved.hasAggregate = e.hasAggregate := by
  induction h with
  | literal value label => rfl
  | column label means => rfl
  | binary op label _ _ ihLeft ihRight => rw [hasAggregate, hasAggregate, ihLeft, ihRight]
  | negate label _ ih => exact ih
  | call f label _ ih => rw [hasAggregate, hasAggregate, ih]
  | bareCall f label => rfl

/-- Resolution is exact and idempotent.  It succeeds for the resolvable expressions, replaces each
column by the declaration it means, keeps everything else, and changes nothing a second time. -/
theorem resolution_exact_and_idempotent (tables : List BoundEntry) (e : Expr) :
    ((∃ resolved, e.resolve tables = .ok resolved) ↔ e.Resolvable tables) ∧
      ∀ resolved, e.resolve tables = .ok resolved →
        Resolves tables e resolved ∧ resolved.resolve tables = .ok resolved := by
  refine ⟨⟨?_, ?_⟩, ?_⟩
  · rintro ⟨resolved, h⟩
    exact (resolve_eq_ok_iff.mp h).1
  · intro resolvable
    obtain ⟨resolved, resolves⟩ := resolvable.exists_resolves
    exact ⟨resolved, resolve_eq_ok_iff.mpr ⟨resolvable, resolves⟩⟩
  · intro resolved h
    obtain ⟨resolvable, resolves⟩ := resolve_eq_ok_iff.mp h
    exact ⟨resolves, resolves.resolve_eq_self resolvable⟩

/-- Two tables of one definition under the names `A` and `b`: the qualifier `a` means the first, and
the column `KEY` its second column. -/
theorem resolution_of_qualified_column :
    let definition : TableSchema := ⟨"t", [⟨"id", .integer⟩, ⟨"key", .text⟩]⟩
    let tables : List BoundEntry := [⟨⟨"t", some "A"⟩, definition⟩, ⟨⟨"t", some "b"⟩, definition⟩]
    let found : Expr := .column ⟨"key", some "A", some .text, some 1⟩ (some "x")
    resolve tables (.column (.written (some "a") "KEY") (some "x")) = .ok found ∧
      found.resolve tables = .ok found := by
  intro definition tables found
  have resolved : resolve tables (.column (.written (some "a") "KEY") (some "x")) = .ok found := by
    cbv
  exact ⟨resolved, ((resolution_exact_and_idempotent tables _).2 found resolved).2⟩

end Expr

end RelQuery
