import RelQuery.Proofs.Expr.Folding
import RelQuery.Proofs.Faults.Outcomes
import RelQuery.Proofs.Group.Rewriting

/-!
# Planning raises no fault

A plan is made without faults, whatever the query says: names that are not found, ambiguous names,
misplaced aggregates and failing constants are errors of the query.  The positions that the plan
records are those of members, since members that are appended later leave the earlier ones in place.
-/

namespace RelQuery

open Result

/-! ## Resolution -/

/-- Putting a part back in its place does not change the error. -/
lemma Resolution.result_put {α β : Type} (r : Resolution α) (place : α → β) :
    (r.put place).result = r.result.map place := by
  cases r <;> rfl

/-- A column is resolved without faults. -/
lemma ColumnRef.faultless_resolve (tables : List BoundEntry) (ref : ColumnRef) :
    (ref.resolve tables).Faultless := by
  unfold resolve
  split
  · rfl
  · split
    · trivial
    · rfl
  · rfl

/-- An expression is resolved without faults. -/
lemma Expr.faultless_resolve (tables : List BoundEntry) (e : Expr) :
    (e.resolve tables).result.Faultless := by
  induction e with
  | literal value label => trivial
  | column ref label =>
    rw [resolve]
    have href := ref.faultless_resolve tables
    cases hresolve : ref.resolve tables with
    | error error => exact href.of_error hresolve
    | ok resolved => trivial
  | binary op left right label ihLeft ihRight =>
    rw [resolve]
    cases hleft : left.resolve tables with
    | error failure =>
      rw [hleft] at ihLeft
      exact ihLeft
    | ok left =>
      dsimp only
      rw [Resolution.result_put]
      exact ihRight.faultless_map _
  | negate operand label ih =>
    rw [resolve, Resolution.result_put]
    exact ih.faultless_map _
  | call f arg label ih =>
    rw [resolve, Resolution.result_put]
    exact ih.faultless_map _
  | bareCall f label =>
    rw [resolve]
    split
    · trivial
    · rfl

/-- A list of members is resolved without faults. -/
lemma Projection.faultless_resolveList (tables : List BoundEntry) (es : List Expr) :
    (resolveList tables es).result.Faultless := by
  induction es with
  | nil => trivial
  | cons e rest ih =>
    have hfirst := e.faultless_resolve tables
    rw [resolveList]
    cases he : e.resolve tables with
    | error failure =>
      rw [he] at hfirst
      exact hfirst
    | ok resolved =>
      dsimp only
      rw [Resolution.result_put]
      exact ih.faultless_map _

/-- A projection is resolved without faults. -/
lemma Projection.faultless_resolve (tables : List BoundEntry) (p : Projection) :
    (p.resolve tables).result.Faultless := by
  have hvisible := faultless_resolveList tables p.visible
  rw [resolve]
  cases hlist : resolveList tables p.visible with
  | error failure =>
    rw [hlist] at hvisible
    exact hvisible
  | ok visible =>
    dsimp only
    rw [Resolution.result_put]
    exact (faultless_resolveList tables p.hidden).faultless_map _

/-- Constants are folded without faults. -/
lemma Expr.faultless_foldConstants (e : Expr) : e.foldConstants.Faultless := by
  induction e with
  | literal value label => trivial
  | column ref label => trivial
  | binary op left right label ihLeft ihRight =>
    rw [foldConstants_binary]
    refine ihLeft.bind fun left _ _ => ihRight.bind fun right _ _ => ?_
    unfold foldBinary
    split
    · exact (Value.operandsOnly_applyOp _ _ _).faultless.faultless_map _
    · trivial
  | negate operand label ih =>
    rw [foldConstants_negate]
    refine ih.bind fun operand _ _ => ?_
    unfold foldNegate
    split
    · exact (Value.operandsOnly_negate _).faultless.faultless_map _
    · trivial
  | call f arg label ih =>
    rw [foldConstants_call]
    refine ih.bind fun arg _ _ => ?_
    unfold foldCall
    split
    · exact (Value.operandsOnly_convert _ _).faultless.faultless_map _
    · trivial
  | bareCall f label => trivial

namespace Query

open Projection

/-! ## Clauses -/

/-- An entry is bound to its definition without faults. -/
lemma faultless_bindTable (s : Store) (table : FromEntry) :
    (bindTable s.catalog table).Faultless := by
  refine Gives.faultless_map (Q := fun _ => True) (gives_inPlace.mpr ?_) _
  refine Gives.faultless_map (Q := fun _ => True) ?_ _
  unfold Store.get
  split
  · trivial
  · rfl

/-- Refusing aggregates raises no fault. -/
lemma faultless_refuseAggregate (clause : Clause) (e : Expr) :
    (refuseAggregate clause e).Faultless := by
  unfold refuseAggregate
  split
  · rfl
  · trivial

/-- The clauses that may hold no aggregate are resolved without faults. -/
lemma faultless_resolvePlain (tables : List BoundEntry) (clause : Clause) (e : Expr) :
    (resolvePlain tables clause e).Faultless := by
  refine (e.faultless_resolve tables).bind fun resolved _ _ => ?_
  exact (faultless_refuseAggregate clause resolved).bind fun _ _ _ => trivial

/-- The WHERE predicate is resolved and folded without faults. -/
lemma faultless_resolveSelection (tables : List BoundEntry) (selection : Option Expr) :
    (resolveSelection tables selection).Faultless := by
  cases selection with
  | none => trivial
  | some predicate =>
    refine (faultless_resolvePlain tables .selection predicate).bind fun resolved _ _ => ?_
    exact resolved.faultless_foldConstants.bind fun _ _ _ => trivial

/-- A join clause is resolved without faults. -/
lemma faultless_resolveClause (tables : List BoundEntry) (clause : JoinClause) :
    (resolveClause tables clause).Faultless := by
  unfold resolveClause
  split
  · trivial
  · exact (faultless_resolvePlain tables .joinCondition _).faultless_map _

/-- HAVING is resolved without faults. -/
lemma faultless_resolveHaving (tables : List BoundEntry) (having : Option Expr) :
    (resolveHaving tables having).Faultless := by
  unfold resolveHaving
  split
  · trivial
  · exact (Expr.faultless_resolve tables _).faultless_map _

/-- A member is checked without faults. -/
lemma faultless_checkMember (groupBy : List Expr) (e : Expr) :
    (checkMember groupBy e).Faultless := by
  unfold checkMember
  split
  · split
    · trivial
    · rfl
  · split
    · trivial
    · rfl

/-- The members are checked without faults. -/
lemma faultless_checkMembers (groupBy members : List Expr) :
    (checkMembers groupBy members).Faultless := by
  induction members with
  | nil => trivial
  | cons e rest ih => exact (faultless_checkMember groupBy e).bind fun _ _ _ => ih

/-- HAVING is turned into a predicate over groups without faults. -/
lemma faultless_groupedPredicate (having : Expr) (p : Projection) :
    Faultless (groupedPredicate having p).1 := by
  fun_induction groupedPredicate having p
  -- the error is that of an operand
  case case8 hinside _ ih | case10 hinside _ ih | case12 hinside _ ih =>
    rw [hinside] at ih
    exact ih
  case case13 hright _ _ ihRight =>
    rw [hright] at ihRight
    exact ihRight
  case case3 => rfl
  all_goals trivial

/-- HAVING is planned without faults. -/
lemma faultless_planHaving (p : Projection) (having : Option Expr) :
    (planHaving p having).Faultless := by
  cases having with
  | none => trivial
  | some predicate =>
    have hpredicate := faultless_groupedPredicate predicate p
    unfold planHaving
    dsimp only
    split
    · trivial
    · rename_i error _ heq
      rw [heq] at hpredicate
      exact hpredicate

/-- The output names are searched without faults. -/
lemma faultless_namedPositionFrom (name : String) (first : Option (Nat × Expr)) (position : Nat)
    (es : List Expr) : (namedPositionFrom name first position es).Faultless := by
  induction es generalizing first position with
  | nil => trivial
  | cons e rest ih =>
    unfold namedPositionFrom
    split
    · split
      · exact ih _ _
      · split
        · exact ih _ _
        · rfl
    · exact ih _ _

/-- An output name is looked up without faults. -/
lemma faultless_namedMember (p : Projection) (e : Expr) : (namedMember p e).Faultless := by
  unfold namedMember
  split
  · split
    · exact faultless_namedPositionFrom _ _ _ _
    · trivial
  · trivial

/-- The position to sort by is found without faults. -/
lemma faultless_sortPosition (tables : List BoundEntry) (groupBy : List Expr) (grouped : Bool)
    (p : Projection) (e : Expr) : (sortPosition tables groupBy grouped p e).Faultless := by
  refine (faultless_namedMember p e).bind fun found _ _ => ?_
  cases found with
  | some position => trivial
  | none =>
    refine (e.faultless_resolve tables).bind fun resolved _ _ => ?_
    split
    · trivial
    · split
      · exact (faultless_checkMember groupBy resolved).bind fun _ _ _ => trivial
      · exact (faultless_refuseAggregate .orderBy resolved).bind fun _ _ _ => trivial

/-- ORDER BY is planned without faults. -/
lemma faultless_planOrder (tables : List BoundEntry) (groupBy : List Expr) (grouped : Bool)
    (p : Projection) (terms : List SortTerm) :
    (planOrder tables groupBy grouped p terms).Faultless := by
  induction terms generalizing p with
  | nil => trivial
  | cons term rest ih =>
    refine (faultless_sortPosition tables groupBy grouped p term.expr).bind fun found _ _ => ?_
    exact (ih found.2).bind fun _ _ _ => trivial

/-- A query is planned without faults. -/
theorem faultless_plan (s : Store) (query : Query) : (query.plan s.catalog).Faultless := by
  refine (gives_mapM fun table _ => faultless_bindTable s table).bind fun tables _ _ => ?_
  refine (query.projection.faultless_resolve tables).bind fun projection _ _ => ?_
  refine (faultless_resolveSelection tables query.selection).bind fun selection _ _ => ?_
  refine (gives_mapM fun clause _ => faultless_resolveClause tables clause).bind
    fun joins _ _ => ?_
  refine (gives_mapM fun e _ => faultless_resolvePlain tables .groupBy e).bind
    fun groupBy _ _ => ?_
  refine (faultless_resolveHaving tables query.having).bind fun having _ _ => ?_
  generalize groupKeys projection groupBy = keyed
  obtain ⟨keys, withKeys⟩ := keyed
  refine gives_optional (faultless_checkMembers groupBy projection.visible) ?_
  refine (faultless_planHaving withKeys having).bind fun planned _ _ => ?_
  exact (faultless_planOrder tables groupBy _ planned.2 query.orderBy).bind fun _ _ _ => trivial

/-! ## Positions of members -/

/-- The keys of a plan are positions of members, and HAVING refers to members only. -/
theorem Planned.refers {catalog : Catalog} {query : Query} {plan : Plan}
    (planned : Planned catalog query plan) :
    (∀ key ∈ plan.keys, key < plan.projection.length) ∧
      ∀ predicate, plan.having = some predicate →
        ∀ ref ∈ predicate.columns, RefersBelow plan.projection.length ref := by
  obtain ⟨projection, groupBy, having, withKeys, withHaving, staged⟩ := planned.staged
  refine ⟨fun key hkey => ?_, fun predicate hpredicate => ?_⟩
  · obtain ⟨e, -, computes⟩ := exists_of_forall₂ staged.keysComputed.flip hkey
    exact ComputesAt.lt computes
  · have hrel := staged.having_rel
    rw [hpredicate] at hrel
    cases hrel with
    | some rewritten => exact rewritten.refersBelow

end Query

end RelQuery
