import RelQuery.Proofs.Engine.Members

/-!
# Rewritten predicates over groups

The HAVING of a plan is a predicate over projected rows.  It has the shape of the HAVING of the
query, with references to members in place of the parts that these compute, among them every
aggregate and every column.
-/

namespace RelQuery

open Projection

/-- The second predicate is the first one with references to members of the projection in place of
parts that these compute.  No aggregate and no column is left. -/
inductive Rewritten (final : Projection) : Expr → Expr → Prop
  | member {position : Nat} {e : Expr} (computes : final.ComputesAt position e) :
      Rewritten final e (reference position e)
  | literal (value : Value) (label : Option String) :
      Rewritten final (.literal value label) (.literal value label)
  | bareConversion (target : ColumnType) (label : Option String) :
      Rewritten final (.bareCall (.conversion target) label) (.bareCall (.conversion target) label)
  | conversion {arg arg' : Expr} (target : ColumnType) (label : Option String)
      (inside : Rewritten final arg arg') :
      Rewritten final (.call (.conversion target) arg label) (.call (.conversion target) arg' label)
  | negate {operand operand' : Expr} (label : Option String)
      (inside : Rewritten final operand operand') :
      Rewritten final (.negate operand label) (.negate operand' label)
  | binary {left left' right right' : Expr} (op : BinaryOp) (label : Option String)
      (first : Rewritten final left left') (second : Rewritten final right right') :
      Rewritten final (.binary op left right label) (.binary op left' right' label)

/-- HAVING is rewritten to the members of any projection that keeps those of its own. -/
theorem Query.Rewrites.rewritten {having predicate : Expr} {p q final : Projection}
    (rewrites : Rewrites p having predicate q) (grows : q.Grows (fun _ => True) final) :
    Rewritten final having predicate := by
  induction rewrites with
  | member found => exact .member (grows.computesAt (computesAt_of_agreeing? found))
  | literal new => exact .literal _ _
  | bareAggregate new => exact .member (grows.computesAt (computesAt_appendHidden _ _))
  | bareConversion new => exact .bareConversion _ _
  | aggregate new plain => exact .member (grows.computesAt (computesAt_appendHidden _ _))
  | conversion new _ ih => exact .conversion _ _ (ih grows)
  | negate new _ ih => exact .negate _ (ih grows)
  | binary new _ second ihLeft ihRight =>
    -- the members that the left operand needs stay while those for the right one are added
    have between := second.grows (Q := fun _ => True) fun _ _ _ => trivial
    exact .binary _ _ (ihLeft (between.trans grows)) (ihRight grows)

/-- The HAVING of a plan is that of the query, rewritten to the members of the plan. -/
theorem Query.Staged.having_rel {query : Query} {plan : Plan} {projection : Projection}
    {groupBy : List Expr} {having : Option Expr} {withKeys withHaving : Projection}
    (staged : Staged query plan projection groupBy having withKeys withHaving) :
    Option.Rel (Rewritten plan.projection) having plan.having := by
  rcases rewrites_of_planHaving staged.kept with ⟨hnone, hplan, -⟩ | ⟨e, predicate, he, hplan, h⟩
  · rw [hnone, hplan]
    exact .none
  · rw [he, hplan]
    exact .some (h.rewritten staged.grows_any.2.2)

/-! ## References -/

/-- The reference is to one of the first positions of projected rows. -/
def RefersBelow (width : Nat) (ref : ColumnRef) : Prop :=
  ∃ position < width, ∃ name, ref = .toProjection position name

/-- A rewritten predicate refers to members only. -/
theorem Rewritten.refersBelow {final : Projection} {having predicate : Expr}
    (rewritten : Rewritten final having predicate) :
    ∀ ref ∈ predicate.columns, RefersBelow final.length ref := by
  induction rewritten with
  | @member position e computes =>
    intro ref href
    obtain rfl := List.mem_singleton.mp href
    exact ⟨position, computes.lt, _, rfl⟩
  | literal value label => simp [Expr.columns]
  | bareConversion target label => simp [Expr.columns]
  | conversion target label _ ih => exact ih
  | negate label _ ih => exact ih
  | binary op label _ _ ihLeft ihRight =>
    intro ref href
    exact (List.mem_append.mp href).elim (ihLeft ref) (ihRight ref)

end RelQuery
