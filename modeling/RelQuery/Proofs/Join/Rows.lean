import RelQuery.Proofs.Expr.Lookup
import RelQuery.Proofs.Join.Growth
import RelQuery.Proofs.Value.KeyOrder

/-!
# Row spaces of logical rows

In a row space of logical rows a choice stands for one row of every table, padding included, and a
condition accepts it when it is TRUE on these rows.  Tables have different names, so a column means
the row of one table, and a condition that equates columns of two tables looks at these two only and
refuses padding.
-/

namespace RelQuery

namespace Expr

/-- The two columns that a condition equates. -/
def equated? : Expr → Option (ColumnRef × ColumnRef)
  | .binary (.comparison .eq) (.column left _) (.column right _) _ => some (left, right)
  | _ => none

/-- The columns of a condition that equates two columns. -/
lemma columns_of_equated {on : Expr} {left right : ColumnRef}
    (h : on.equated? = some (left, right)) : on.columns = [left, right] := by
  unfold equated? at h
  split at h
  · obtain ⟨rfl, rfl⟩ := Prod.mk.inj (Option.some.inj h)
    rfl
  · simp at h

/-- A condition that equates two columns accepts where the comparison of the two values finds them
equal. -/
lemma accepts_of_equated {on : Expr} {left right : ColumnRef}
    (h : on.equated? = some (left, right)) {rows : List LogicalRow} {a b : Value}
    (hleft : columnOutcome .full rows left = .ok (.determined a))
    (hright : columnOutcome .full rows right = .ok (.determined b)) :
    on.accepts rows = (a.compare? b).map (· == some .eq) := by
  unfold equated? at h
  split at h
  · obtain ⟨rfl, rfl⟩ := Prod.mk.inj (Option.some.inj h)
    unfold accepts
    simp only [evaluate, hleft, hright, combine, Value.applyOp, Value.comparison]
    cases a.compare? b with
    | error error => rfl
    | ok order? =>
      cases order? with
      | none => rfl
      | some order => cases order <;> rfl
  · simp at h

/-- A condition that equates two columns holds where the two values are equal. -/
lemma holds_accepts_of_equated {on : Expr} {left right : ColumnRef}
    (h : on.equated? = some (left, right)) {rows : List LogicalRow} {a b : Value}
    (hleft : columnOutcome .full rows left = .ok (.determined a))
    (hright : columnOutcome .full rows right = .ok (.determined b)) :
    Result.holds (on.accepts rows) = a.equal b := by
  rw [accepts_of_equated h hleft hright, Value.equal, Value.ordered]
  cases a.compare? b with
  | error error => rfl
  | ok order? => cases order? <;> rfl

/-- A condition that equates two columns holds only where both have a value, the two being equal. -/
lemma exists_of_holds_equated {on : Expr} {left right : ColumnRef}
    (h : on.equated? = some (left, right)) {rows : List LogicalRow}
    (holds : Result.holds (on.accepts rows) = true) :
    ∃ a b, columnOutcome .full rows left = .ok (.determined a) ∧
      columnOutcome .full rows right = .ok (.determined b) ∧ a.equal b = true := by
  have hcolumn : ∀ ref, (∃ error, columnOutcome .full rows ref = .error error) ∨
      ∃ value, columnOutcome .full rows ref = .ok (.determined value) := by
    intro ref
    cases href : columnOutcome .full rows ref with
    | error error => exact Or.inl ⟨error, rfl⟩
    | ok outcome =>
      obtain ⟨value, rfl⟩ := determined_of_columnOutcome_full href
      exact Or.inr ⟨value, rfl⟩
  have hform := h
  unfold equated? at hform
  split at hform
  · obtain ⟨rfl, rfl⟩ := Prod.mk.inj (Option.some.inj hform)
    rename_i left labelL right labelR label
    rcases hcolumn left with ⟨error, hleft⟩ | ⟨a, hleft⟩
    · simp [accepts, evaluate, hleft] at holds
    · rcases hcolumn right with ⟨error, hright⟩ | ⟨b, hright⟩
      · simp [accepts, evaluate, hleft, hright] at holds
      · exact ⟨a, b, hleft, hright, holds_accepts_of_equated h hleft hright ▸ holds⟩
  · simp at hform

end Expr

namespace RowSpace

variable {ι : Type}

/-- The row space in which conditions are evaluated on the logical rows of a choice.  A clause
without condition accepts everything. -/
def ofRows (count : Nat) (rows : Nat → List ι) (rowOf : Nat → Option ι → LogicalRow) :
    RowSpace ι where
  rows := rows
  accepts on c :=
    match on with
    | some predicate =>
      Result.holds (predicate.accepts ((List.range count).map fun table => rowOf table (c table)))
    | none => true

/-- The logical rows carry the names of their tables, which tell the tables apart, and a table
without a row is padded. -/
structure Named (count : Nat) (names : Nat → String) (rowOf : Nat → Option ι → LogicalRow) :
    Prop where
  tableName : ∀ table slot, (rowOf table slot).tableName = names table
  padding : ∀ table, rowOf table none = .padding (names table)
  apart : ∀ p < count, ∀ q < count, Name.same (names p) (names q) = true → p = q

variable {count : Nat} {rows : Nat → List ι} {rowOf : Nat → Option ι → LogicalRow}
  {names : Nat → String}

/-- The rows of a choice are apart. -/
lemma Named.apart_rows (named : Named count names rowOf) (c : Choice ι) :
    Expr.Apart (List.range count) fun table => rowOf table (c table) := by
  intro p hp q hq hsame
  rw [named.tableName, named.tableName] at hsame
  exact named.apart p (List.mem_range.mp hp) q (List.mem_range.mp hq) hsame

/-- A column is looked up in the row of its table. -/
lemma Named.columnOutcome_eq (named : Named count names rowOf) {mode : Coverage} {ref : ColumnRef}
    {table : Nat} (htable : table < count) (hname : ref.qualifiedBy (names table) = true)
    (hindex : ref.index.isSome = true) (c : Choice ι) :
    Expr.columnOutcome mode ((List.range count).map fun table => rowOf table (c table)) ref =
      ((rowOf table (c table)).valueOf ref).map .determined :=
  Expr.columnOutcome_map (named.apart_rows c) (List.mem_range.mpr htable)
    (by rwa [named.tableName]) hindex

/-- The condition of the clause equates a column of its left table with one of its right table. -/
def EquatesOwn (names : Nat → String) (link : PendingJoin) : Prop :=
  ∃ on left right, link.clause.on = some on ∧ on.equated? = some (left, right) ∧
    (left.index.isSome = true ∧ right.index.isSome = true) ∧
      (left.qualifiedBy (names link.left) = true ∧ right.qualifiedBy (names link.right) = true ∨
        left.qualifiedBy (names link.right) = true ∧ right.qualifiedBy (names link.left) = true)

/-- A table without a row has NULL in every column. -/
lemma Named.eq_null_of_padded (named : Named count names rowOf) {c : Choice ι} {table : Nat}
    (hnone : c table = none) {ref : ColumnRef} {value : Value}
    (h : ((rowOf table (c table)).valueOf ref).map Outcome.determined = .ok (.determined value)) :
    value = .null := by
  rw [hnone, named.padding] at h
  exact (Outcome.determined.inj (Except.ok.inj h)).symm

/-- A condition that equates a column of the left table with one of the right table is local. -/
lemma local_of_equated (named : Named count names rowOf) {link : PendingJoin}
    (hleft : link.left < count) (hright : link.right < count) {on : Expr} {l r : ColumnRef}
    (hon : link.clause.on = some on) (hequated : on.equated? = some (l, r))
    (hl : l.index.isSome = true) (hr : r.index.isSome = true)
    (hnameL : l.qualifiedBy (names link.left) = true)
    (hnameR : r.qualifiedBy (names link.right) = true) : (ofRows count rows rowOf).Local link := by
  constructor
  · intro c c' hcl hcr
    have heval : on.evaluate .full ((List.range count).map fun table => rowOf table (c table)) =
        on.evaluate .full ((List.range count).map fun table => rowOf table (c' table)) := by
      refine Expr.evaluate_congr fun ref href => ?_
      rw [Expr.columns_of_equated hequated] at href
      rcases List.mem_cons.mp href with rfl | href
      · rw [named.columnOutcome_eq hleft hnameL hl, named.columnOutcome_eq hleft hnameL hl, hcl]
      · obtain rfl := List.mem_singleton.mp href
        rw [named.columnOutcome_eq hright hnameR hr, named.columnOutcome_eq hright hnameR hr, hcr]
    simp only [hon, ofRows, Expr.accepts, heval]
  · intro c haccepts
    simp only [hon, ofRows] at haccepts
    obtain ⟨a, b, ha, hb, hab⟩ := Expr.exists_of_holds_equated hequated haccepts
    rw [named.columnOutcome_eq hleft hnameL hl] at ha
    rw [named.columnOutcome_eq hright hnameR hr] at hb
    constructor
    · intro hnone
      rw [named.eq_null_of_padded hnone ha, Value.equal_null] at hab
      contradiction
    · intro hnone
      rw [named.eq_null_of_padded hnone hb, Value.equal_comm, Value.equal_null] at hab
      contradiction

/-- A condition that equates columns of the two tables is local. -/
lemma local_of_equatesOwn (named : Named count names rowOf) {link : PendingJoin}
    (hleft : link.left < count) (hright : link.right < count) (equates : EquatesOwn names link) :
    (ofRows count rows rowOf).Local link := by
  obtain ⟨on, l, r, hon, hequated, ⟨hl, hr⟩, ⟨hnameL, hnameR⟩ | ⟨hnameL, hnameR⟩⟩ := equates
  · exact local_of_equated named hleft hright hon hequated hl hr hnameL hnameR
  · have hturned : (ofRows count rows rowOf).Local link.turned :=
      local_of_equated named hright hleft hon hequated hl hr hnameL hnameR
    simpa using hturned.turned

end RowSpace

end RelQuery
