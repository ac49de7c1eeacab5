import Mathlib.Data.List.Pairwise
import RelQuery.Projection
import RelQuery.Proofs.Result

/-!
# Resolved columns

A resolved column is a declared column of one of the tables, at the position that its name has
there.  Two resolved columns that agree in name and qualifier have the same position, so what a list
of columns was collected from can be looked up in it again.
-/

namespace RelQuery

/-! ## Resolved references -/

/-- The tables have different reference names. -/
def BoundEntry.Apart (tables : List BoundEntry) : Prop :=
  tables.Pairwise fun a b => Name.same a.referenceName b.referenceName = false

/-- Tables with the same reference name are the same. -/
lemma BoundEntry.Apart.eq_of_same {tables : List BoundEntry} (apart : BoundEntry.Apart tables)
    {a b : BoundEntry} (ha : a ∈ tables) (hb : b ∈ tables)
    (h : Name.same a.referenceName b.referenceName = true) : a = b := by
  by_contra hne
  have symm : Std.Symm fun a b : BoundEntry =>
      Name.same a.referenceName b.referenceName = false :=
    ⟨fun _ _ hxy => by rwa [Name.same_comm]⟩
  have hdiff := List.Pairwise.forall apart ha hb hne
  rw [h] at hdiff
  exact absurd hdiff (by simp)

namespace ColumnRef

variable {tables : List BoundEntry}

/-- The reference is that of a declared column, which its name means in the table. -/
structure Declares (table : BoundEntry) (index : Nat) (ref : ColumnRef) : Prop where
  declared : ∃ column, table.definition.columns[index]? = some column ∧
    ref = declared table index column
  named : table.definition.indexOf? ref.name = some index

/-- The reference is that of a declared column of one of the tables. -/
def ResolvedIn (tables : List BoundEntry) (ref : ColumnRef) : Prop :=
  ∃ table ∈ tables, ∃ index, Declares table index ref

/-- A declared column is qualified by the reference name of its table. -/
lemma Declares.table {table : BoundEntry} {index : Nat} {ref : ColumnRef}
    (h : Declares table index ref) : ref.table = some table.referenceName := by
  obtain ⟨column, -, rfl⟩ := h.declared
  rfl

/-- A declared column is located at its position. -/
lemma Declares.index {table : BoundEntry} {index : Nat} {ref : ColumnRef}
    (h : Declares table index ref) : ref.index = some index := by
  obtain ⟨column, -, rfl⟩ := h.declared
  rfl

/-- A declared column is qualified by the names that are the same as that of its table. -/
lemma Declares.qualifiedBy_iff {table : BoundEntry} {index : Nat} {ref : ColumnRef}
    (h : Declares table index ref) {name : String} :
    ref.qualifiedBy name = true ↔ Name.same table.referenceName name = true := by
  simp [qualifiedBy, h.table]

/-- The position of a name depends on the name up to case. -/
lemma indexOf?_congr (definition : TableSchema) {a b : String} (h : Name.same a b = true) :
    definition.indexOf? a = definition.indexOf? b := by
  unfold TableSchema.indexOf?
  congr 1
  funext column
  rw [Bool.eq_iff_iff, Name.same_iff, Name.same_iff, Name.same_iff.mp h]

/-- A reference agrees with itself. -/
lemma same_refl (ref : ColumnRef) : ref.same ref = true := by
  cases htable : ref.table <;> simp [same, sameTable, htable]

/-- Agreement goes from one to the next. -/
lemma same_trans {a b c : ColumnRef} (hab : a.same b = true) (hbc : b.same c = true) :
    a.same c = true := by
  unfold same at *
  rw [Bool.and_eq_true] at *
  refine ⟨?_, Name.same_trans hab.2 hbc.2⟩
  cases ha : a.table <;> cases hb : b.table <;> cases hc : c.table <;>
    simp_all [sameTable]
  exact Name.same_trans hab.1 hbc.1

/-- At the position of a name stands a column of that name. -/
lemma exists_column_of_indexOf? {table : BoundEntry} {name : String} {index : Nat}
    (h : table.definition.indexOf? name = some index) :
    ∃ definition, table.definition.columns[index]? = some definition ∧
      Name.same definition.name name = true := by
  obtain ⟨hlt, hsame, -⟩ := List.findIdx?_eq_some_iff_getElem.mp h
  exact ⟨_, List.getElem?_eq_getElem hlt, hsame⟩

/-- The column at the position of a name is declared there, also by its own name. -/
lemma declares_of_indexOf? {table : BoundEntry} {name : String} {index : Nat} {column : Column}
    (h : table.definition.indexOf? name = some index)
    (hcolumn : table.definition.columns[index]? = some column) :
    Declares table index (declared table index column) := by
  obtain ⟨found, hfound, hname⟩ := exists_column_of_indexOf? h
  obtain rfl := Option.some.inj (hcolumn.symm.trans hfound)
  exact ⟨⟨column, hcolumn, rfl⟩, (indexOf?_congr _ hname).trans h⟩

/-- The owners are the tables that the qualifier allows and that have a column of the name, each
with the position there. -/
lemma mem_owners {column : ColumnRef} {table : BoundEntry} {index : Nat} :
    (table, index) ∈ column.owners tables ↔ table ∈ tables ∧ column.allows table = true ∧
      table.definition.indexOf? column.name = some index := by
  simp only [owners, List.mem_filterMap, List.mem_filter, Option.map_eq_some_iff, Prod.mk.injEq]
  constructor
  · rintro ⟨owner, ⟨hmem, hallows⟩, found, hfound, rfl, rfl⟩
    exact ⟨hmem, hallows, hfound⟩
  · rintro ⟨hmem, hallows, hfound⟩
    exact ⟨table, ⟨hmem, hallows⟩, index, hfound, rfl, rfl⟩

/-- A column is resolved to its declaration in its only owner. -/
lemma resolve_eq_ok {column ref : ColumnRef} :
    column.resolve tables = .ok ref ↔ ∃ table index definition,
      column.owners tables = [(table, index)] ∧
        table.definition.columns[index]? = some definition ∧
          declared table index definition = ref := by
  unfold resolve
  constructor
  · intro h
    split at h
    · simp at h
    · rename_i table index howners
      split at h
      · rename_i definition hdefinition
        exact ⟨table, index, definition, howners, hdefinition, Except.ok.inj h⟩
      · simp at h
    · simp at h
  · rintro ⟨table, index, definition, howners, hdefinition, rfl⟩
    simp only [howners, hdefinition]

/-- A successful resolution finds a declared column. -/
lemma resolvedIn_of_resolve {column ref : ColumnRef} (h : column.resolve tables = .ok ref) :
    ResolvedIn tables ref := by
  obtain ⟨table, index, definition, howners, hdefinition, rfl⟩ := resolve_eq_ok.mp h
  obtain ⟨hmem, -, hindex⟩ := mem_owners.mp (howners ▸ List.mem_singleton_self _)
  exact ⟨table, hmem, index, declares_of_indexOf? hindex hdefinition⟩

/-- Resolved columns that agree in name and qualifier have the same table and position. -/
lemma Declares.eq_of_same (apart : BoundEntry.Apart tables) {a b : BoundEntry} (ha : a ∈ tables)
    (hb : b ∈ tables) {i j : Nat} {ref other : ColumnRef} (href : Declares a i ref)
    (hother : Declares b j other) (h : ref.same other = true) : a = b ∧ i = j := by
  unfold same at h
  rw [Bool.and_eq_true, href.table, hother.table] at h
  obtain rfl : a = b := apart.eq_of_same ha hb h.1
  refine ⟨rfl, ?_⟩
  have hname := href.named
  rw [indexOf?_congr _ h.2, hother.named] at hname
  exact (Option.some.inj hname).symm

/-- Resolved columns that agree in name and qualifier are one column. -/
lemma ResolvedIn.eq_of_same (apart : BoundEntry.Apart tables) {ref other : ColumnRef}
    (href : ref.ResolvedIn tables) (hother : other.ResolvedIn tables)
    (h : ref.same other = true) : ref = other := by
  obtain ⟨a, ha, i, hdeclares⟩ := href
  obtain ⟨b, hb, j, hdeclares'⟩ := hother
  obtain ⟨rfl, rfl⟩ := hdeclares.eq_of_same apart ha hb hdeclares' h
  obtain ⟨column, hcolumn, rfl⟩ := hdeclares.declared
  obtain ⟨column', hcolumn', rfl⟩ := hdeclares'.declared
  rw [Option.some.inj (hcolumn.symm.trans hcolumn')]

end ColumnRef

/-! ## Resolved expressions -/

namespace Expr

variable {tables : List BoundEntry}

/-- All columns of the expression are resolved. -/
def ResolvedIn (tables : List BoundEntry) (e : Expr) : Prop :=
  ∀ ref ∈ e.columns, ref.ResolvedIn tables

/-- A column is resolved where its reference is. -/
lemma resolve_column_eq_ok {ref : ColumnRef} {label : Option String} {resolved : Expr} :
    (column ref label).resolve tables = .ok resolved ↔
      ∃ found, ref.resolve tables = .ok found ∧ column found label = resolved := by
  rw [resolve]
  cases ref.resolve tables with
  | error error => simp
  | ok found => simp

/-- An operation is resolved where both operands are. -/
lemma resolve_binary_eq_ok {op : BinaryOp} {left right : Expr} {label : Option String}
    {resolved : Expr} :
    (binary op left right label).resolve tables = .ok resolved ↔
      ∃ l r, left.resolve tables = .ok l ∧ right.resolve tables = .ok r ∧
        binary op l r label = resolved := by
  rw [resolve]
  cases left.resolve tables with
  | error failure => simp
  | ok l => simp [Resolution.put_eq_ok]

/-- A negation is resolved where its operand is. -/
lemma resolve_negate_eq_ok {operand : Expr} {label : Option String} {resolved : Expr} :
    (negate operand label).resolve tables = .ok resolved ↔
      ∃ o, operand.resolve tables = .ok o ∧ negate o label = resolved :=
  Resolution.put_eq_ok

/-- A call is resolved where its argument is. -/
lemma resolve_call_eq_ok {f : Function} {arg : Expr} {label : Option String} {resolved : Expr} :
    (call f arg label).resolve tables = .ok resolved ↔
      ∃ a, arg.resolve tables = .ok a ∧ call f a label = resolved :=
  Resolution.put_eq_ok

/-- A function without argument is resolved where it needs none. -/
lemma resolve_bareCall_eq_ok {f : Function} {label : Option String} {resolved : Expr} :
    (bareCall f label).resolve tables = .ok resolved ↔
      f.mayBeBare = true ∧ bareCall f label = resolved := by
  rw [resolve]
  split
  · rename_i hbare
    simp [hbare]
  · rename_i hbare
    simp [hbare]

/-- A successful resolution resolves all columns. -/
lemma resolvedIn_of_resolve {e resolved : Expr} (h : e.resolve tables = .ok resolved) :
    resolved.ResolvedIn tables := by
  induction e generalizing resolved with
  | literal value label =>
    obtain rfl := Except.ok.inj h
    exact List.forall_mem_nil _
  | column ref label =>
    obtain ⟨found, hfound, rfl⟩ := resolve_column_eq_ok.mp h
    exact List.forall_mem_singleton.mpr (ColumnRef.resolvedIn_of_resolve hfound)
  | binary op left right label ihLeft ihRight =>
    obtain ⟨l, r, hl, hr, rfl⟩ := resolve_binary_eq_ok.mp h
    exact List.forall_mem_append.mpr ⟨ihLeft hl, ihRight hr⟩
  | negate operand label ih =>
    obtain ⟨o, ho, rfl⟩ := resolve_negate_eq_ok.mp h
    exact fun ref href => ih ho ref href
  | call f arg label ih =>
    obtain ⟨a, ha, rfl⟩ := resolve_call_eq_ok.mp h
    exact fun ref href => ih ha ref href
  | bareCall f label =>
    obtain ⟨-, rfl⟩ := resolve_bareCall_eq_ok.mp h
    exact List.forall_mem_nil _

/-! ## Parts -/

/-- The expression with all expressions inside it. -/
def parts : Expr → List Expr
  | literal value label => [literal value label]
  | column ref label => [column ref label]
  | binary op left right label => binary op left right label :: (left.parts ++ right.parts)
  | negate operand label => negate operand label :: operand.parts
  | call f arg label => call f arg label :: arg.parts
  | bareCall f label => [bareCall f label]

/-- An expression is a part of itself. -/
lemma self_mem_parts (e : Expr) : e ∈ e.parts := by
  cases e <;> simp [parts]

/-- A property that passes from every operation to its operands passes to all parts. -/
lemma forall_parts {P : Expr → Prop}
    (binary : ∀ op left right label, P (.binary op left right label) → P left ∧ P right)
    (negate : ∀ operand label, P (.negate operand label) → P operand)
    (call : ∀ f arg label, P (.call f arg label) → P arg) {e : Expr} (h : P e) :
    ∀ part ∈ e.parts, P part := by
  induction e with
  | literal value label => simpa [parts] using h
  | column ref label => simpa [parts] using h
  | binary op left right label ihLeft ihRight =>
    intro part hpart
    rcases List.mem_cons.mp hpart with rfl | hpart
    · exact h
    · rcases List.mem_append.mp hpart with hpart | hpart
      · exact ihLeft (binary _ _ _ _ h).1 part hpart
      · exact ihRight (binary _ _ _ _ h).2 part hpart
  | negate operand label ih =>
    intro part hpart
    rcases List.mem_cons.mp hpart with rfl | hpart
    · exact h
    · exact ih (negate _ _ h) part hpart
  | call f arg label ih =>
    intro part hpart
    rcases List.mem_cons.mp hpart with rfl | hpart
    · exact h
    · exact ih (call _ _ _ h) part hpart
  | bareCall f label => simpa [parts] using h

/-- The parts of a resolved expression are resolved. -/
lemma ResolvedIn.of_mem_parts {e : Expr} (h : e.ResolvedIn tables) :
    ∀ part ∈ e.parts, part.ResolvedIn tables := by
  refine forall_parts (fun op left right label h => ⟨?_, ?_⟩) (fun operand label h => h)
    (fun f arg label h => h) h
  · exact fun ref href => h ref (List.mem_append_left _ href)
  · exact fun ref href => h ref (List.mem_append_right _ href)

/-! ## Collected columns -/

/-- A reference is collected when it was there or is one of those found. -/
lemma mem_addNew {seen found : List ColumnRef} {ref : ColumnRef} (h : ref ∈ addNew seen found) :
    ref ∈ seen ∨ ref ∈ found := by
  induction found generalizing seen with
  | nil => exact Or.inl h
  | cons first rest ih =>
    rw [addNew, List.foldl_cons] at h
    rcases ih h with h | h
    · split at h
      · exact Or.inl h
      · rcases List.mem_append.mp h with h | h
        · exact Or.inl h
        · exact Or.inr (List.mem_cons.mpr (Or.inl (List.mem_singleton.mp h)))
    · exact Or.inr (List.mem_cons_of_mem _ h)

/-- What was there stays. -/
lemma subset_addNew (seen found : List ColumnRef) : seen ⊆ addNew seen found := by
  induction found generalizing seen with
  | nil => exact List.Subset.refl seen
  | cons first rest ih =>
    rw [addNew, List.foldl_cons]
    refine List.Subset.trans ?_ (ih _)
    split
    · exact List.Subset.refl seen
    · exact List.subset_append_left _ _

/-- Every reference that was found agrees with a collected one. -/
lemma exists_same_of_addNew {found : List ColumnRef} (seen : List ColumnRef) :
    ∀ ref ∈ found, ∃ kept ∈ addNew seen found, kept.same ref = true := by
  induction found generalizing seen with
  | nil => simp
  | cons first rest ih =>
    intro ref href
    rw [addNew, List.foldl_cons]
    rcases List.mem_cons.mp href with rfl | href
    · by_cases hseen : seen.any (·.same ref) = true
      · obtain ⟨kept, hkept, hsame⟩ := List.any_eq_true.mp hseen
        rw [if_pos hseen]
        exact ⟨kept, subset_addNew seen rest hkept, hsame⟩
      · rw [if_neg hseen]
        exact ⟨ref, subset_addNew _ rest (by simp), ColumnRef.same_refl ref⟩
    · exact ih _ ref href

/-- The collected columns of an expression are columns of it, and qualified by the table. -/
lemma mem_columnsOf {e : Expr} {table : String} {ref : ColumnRef} (h : ref ∈ e.columnsOf [table]) :
    ref ∈ e.columns ∧ ref.qualifiedBy table = true := by
  rcases mem_addNew h with h | h
  · simp at h
  · simpa using h

/-- Every column of the expression that is qualified by the table agrees with a collected one. -/
lemma exists_same_of_columnsOf {e : Expr} {table : String} {ref : ColumnRef} (h : ref ∈ e.columns)
    (hname : ref.qualifiedBy table = true) : ∃ kept ∈ e.columnsOf [table], kept.same ref = true :=
  exists_same_of_addNew [] ref (List.mem_filter.mpr ⟨h, by simpa using hname⟩)

end Expr

end RelQuery
