import RelQuery.Proofs.Expr.Lookup
import RelQuery.Proofs.Expr.Resolution
import RelQuery.Proofs.Faults.Outcomes

/-!
# What can go wrong in a resolved expression

Resolution looks at declarations and evaluation looks at rows.  They meet in a tuple that holds a
row for every table: a row with a value for each declared column, or padding.  The first row under
the name of a table is then a row of this table, since the tables have different names, and a
resolved column has a position in it.  So every column has a value, and nothing can go wrong but the
operations themselves.
-/

namespace RelQuery

variable {tables : List BoundEntry} {table : BoundEntry} {rows : List LogicalRow}

/-! ## Rows of tables -/

/-- The row is one of the table, under its reference name: a stored row with a value for each
column, or padding. -/
inductive LogicalRow.StandsFor (table : BoundEntry) : LogicalRow → Prop where
  | stored {row : StoredRow} (named : Name.same row.table table.referenceName = true)
    (width : row.values.length = table.definition.columns.length) : StandsFor table (.stored row)
  | padding {name : String} (named : Name.same name table.referenceName = true) :
    StandsFor table (.padding name)

/-- A row of a table goes under its reference name. -/
lemma LogicalRow.StandsFor.named {row : LogicalRow} (h : row.StandsFor table) :
    Name.same row.tableName table.referenceName = true := by
  cases h with
  | stored named width => exact named
  | padding named => exact named

/-- A row of a table has a value for every declared column. -/
lemma LogicalRow.StandsFor.exists_valueOf {row : LogicalRow} (h : row.StandsFor table)
    {index : Nat} {ref : ColumnRef} (hdeclares : ref.Declares table index) :
    ∃ value, row.valueOf ref = .ok value := by
  cases h with
  | padding named => exact ⟨.null, rfl⟩
  | @stored row named width =>
    obtain ⟨column, hcolumn, -⟩ := hdeclares.declared
    have hlt : index < row.values.length := by
      rw [width]
      exact (List.getElem?_eq_some_iff.mp hcolumn).1
    refine ⟨row.values[index], ?_⟩
    simp only [LogicalRow.valueOf, StoredRow.valueOf, hdeclares.index, StoredRow.valueAt, Row.at,
      List.getElem?_eq_getElem hlt]

/-- The tuple holds a row of each table, and under their names no other rows. -/
structure BoundEntry.HoldsRows (tables : List BoundEntry) (rows : List LogicalRow) : Prop where
  /-- Each table has a row. -/
  present : ∀ table ∈ tables, ∃ row ∈ rows, row.StandsFor table
  /-- What goes under the name of a table is a row of some table. -/
  fitting : ∀ row ∈ rows, ∀ table ∈ tables,
    Name.same row.tableName table.referenceName = true → ∃ own ∈ tables, row.StandsFor own

/-- One row for each table, in any order, makes a tuple that holds rows of the tables. -/
lemma BoundEntry.holdsRows_of_perm {order : List LogicalRow} (perm : rows.Perm order)
    (stand : List.Forall₂ (fun table row => row.StandsFor table) tables order) :
    HoldsRows tables rows := by
  constructor
  · intro table ht
    obtain ⟨row, hrow, hstands⟩ := exists_of_forall₂ stand ht
    exact ⟨row, perm.mem_iff.mpr hrow, hstands⟩
  · intro row hrow _ _ _
    obtain ⟨own, hown, hstands⟩ := exists_of_forall₂ stand.flip (perm.mem_iff.mp hrow)
    exact ⟨own, hown, hstands⟩

/-- The row found under the name of a table is a row of the table. -/
lemma BoundEntry.HoldsRows.exists_findRow? (holds : HoldsRows tables rows)
    (apart : BoundEntry.Apart tables) (ht : table ∈ tables) :
    ∃ row, Expr.findRow? table.referenceName rows = some row ∧ row.StandsFor table := by
  obtain ⟨present, hpresent, hstands⟩ := holds.present table ht
  obtain ⟨row, hrow⟩ := Expr.exists_findRow? hpresent hstands.named
  obtain ⟨hmem, hname⟩ := Expr.named_of_findRow? hrow
  obtain ⟨own, hown, hstandsOwn⟩ := holds.fitting row hmem table ht hname
  -- the row has the names of both tables, and these are apart
  have hsame : Name.same own.referenceName table.referenceName = true := by
    apply Name.same_trans _ hname
    rw [Name.same_comm]
    exact hstandsOwn.named
  obtain rfl : own = table := apart.eq_of_same hown ht hsame
  exact ⟨row, hrow, hstandsOwn⟩

namespace Expr

/-! ## Columns and expressions -/

/-- A resolved column has a value on a tuple that holds rows of all tables, whatever the mode. -/
lemma exists_columnOutcome (apart : BoundEntry.Apart tables)
    (holds : BoundEntry.HoldsRows tables rows) {ref : ColumnRef} (href : ref.ResolvedIn tables) :
    ∃ value, ∀ mode, columnOutcome mode rows ref = .ok (.determined value) := by
  obtain ⟨table, ht, index, hdeclares⟩ := href
  obtain ⟨row, hrow, hstands⟩ := holds.exists_findRow? apart ht
  obtain ⟨value, hvalue⟩ := hstands.exists_valueOf hdeclares
  refine ⟨value, fun mode => ?_⟩
  simp only [columnOutcome, hdeclares.table, hdeclares.index, hrow, hvalue]
  rfl

/-- What is resolved is resolvable again, so its functions have their arguments. -/
lemma resolvable_of_resolve {e resolved : Expr} (h : e.resolve tables = .ok resolved) :
    resolved.Resolvable tables := by
  obtain ⟨resolvable, resolves⟩ := resolve_eq_ok_iff.mp h
  exact (resolve_eq_ok_iff.mp (resolves.resolve_eq_self resolvable)).1

/-- On a tuple with a row for each of the tables it was resolved against, an expression fails only
by its operands.  No column is missing there, no contract is broken, nothing is left open in
prefilter mode, and both modes have the same outcome. -/
theorem resolved_evaluates {e resolved : Expr} (apart : BoundEntry.Apart tables)
    (h : e.resolve tables = .ok resolved) (holds : BoundEntry.HoldsRows tables rows) :
    (∀ error, resolved.evaluate .full rows = .error error →
        error.kind ≠ .internal ∧ error.kind ≠ .columnNotFound ∧ error.isOfOperands = true) ∧
      resolved.evaluate .prefilter rows ≠ .ok .undetermined ∧
        resolved.evaluate .prefilter rows = resolved.evaluate .full rows := by
  have hcolumns (ref : ColumnRef) (href : ref ∈ resolved.columns) :=
    exists_columnOutcome apart holds (resolvedIn_of_resolve h ref href)
  have hmodes : resolved.evaluate .prefilter rows = resolved.evaluate .full rows := by
    apply evaluate_congr
    intro ref href
    obtain ⟨value, hvalue⟩ := hcolumns ref href
    rw [hvalue, hvalue]
  have honly (error : Error) (herror : resolved.evaluate .full rows = .error error) :
      error.isOfOperands = true := by
    by_contra other
    apply evaluate_ne_error_of_parts (eq_false_of_ne_true other) _ _ herror
    · intro f label hpart
      obtain rfl := (resolvable_of_resolve h).argument f label hpart
      rintro ⟨⟩
    · intro ref href
      obtain ⟨value, hvalue⟩ := hcolumns ref href
      rw [hvalue]
      rintro ⟨⟩
  refine ⟨?_, ?_, hmodes⟩
  · intro error herror
    have hoperands := honly error herror
    obtain ⟨hinternal, hfound⟩ := Error.kind_ne_of_isOfOperands hoperands
    exact ⟨hinternal, hfound, hoperands⟩
  · intro hopen
    obtain ⟨value, hvalue⟩ := determined_of_full (hmodes ▸ hopen)
    contradiction

/-- A stored row of a table `A` beside padding for a table `u`: the sum of a column of each is
evaluated alike in both modes. -/
theorem resolved_evaluates_beside_padding :
    let tables : List BoundEntry := [⟨⟨"t", some "A"⟩, ⟨"t", [⟨"id", .integer⟩]⟩⟩,
      ⟨⟨"u", none⟩, ⟨"u", [⟨"n", .integer⟩, ⟨"m", .real⟩]⟩⟩]
    let rows : List LogicalRow := [.padding "U", .stored ⟨"A", 0, [.integer 5]⟩]
    let sum (left right : ColumnRef) : Expr :=
      .binary (.arithmetic .add) (.column left none) (.column right none) none
    let e : Expr := sum (.written (some "a") "ID") (.written none "M")
    let found : Expr :=
      sum ⟨"id", some "A", some .integer, some 0⟩ ⟨"m", some "u", some .real, some 1⟩
    e.resolve tables = .ok found ∧
      BoundEntry.Apart tables ∧ BoundEntry.HoldsRows tables rows ∧
        found.evaluate .prefilter rows ≠ .ok .undetermined ∧
          found.evaluate .prefilter rows = found.evaluate .full rows := by
  intro tables rows sum e found
  have resolved : e.resolve tables = .ok found := by cbv
  have apart : BoundEntry.Apart tables := by
    unfold BoundEntry.Apart
    decide
  have first : LogicalRow.StandsFor tables[0] rows[1] := .stored (by decide) rfl
  have second : LogicalRow.StandsFor tables[1] rows[0] := .padding (by decide)
  have holds : BoundEntry.HoldsRows tables rows :=
    BoundEntry.holdsRows_of_perm (.swap _ _ []) (.cons first (.cons second .nil))
  exact ⟨resolved, apart, holds, (resolved_evaluates apart resolved holds).2⟩

end Expr

end RelQuery
