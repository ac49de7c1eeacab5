import RelQuery.Engine.Candidates
import RelQuery.Proofs.Expr.Folding
import RelQuery.Proofs.Expr.Resolved
import RelQuery.Proofs.Store.Reachable

/-!
# Successful plans

A plan that was made of a checked query has tables with different reference names, each bound to the
definition of a stored table, and every column that it reads is a declared column of one of them.
-/

namespace RelQuery

/-! ## Plans over a catalog -/

namespace Query

/-- No two of the checked entries have the same reference name. -/
lemma apart_of_duplicate? {seen tables : List FromEntry} (h : duplicate? seen tables = none) :
    (∀ old ∈ seen, ∀ table ∈ tables, old.same table = false) ∧
      tables.Pairwise fun a b => a.same b = false := by
  induction tables generalizing seen with
  | nil => simp
  | cons table rest ih =>
    rw [duplicate?] at h
    split at h
    · simp at h
    · rename_i hfresh
      obtain ⟨hold, hpairwise⟩ := ih h
      refine ⟨fun old hmem other hother => ?_, List.pairwise_cons.mpr ⟨fun other hother => ?_,
        hpairwise⟩⟩
      · rcases List.mem_cons.mp hother with rfl | hother
        · simpa using fun hsame => hfresh (List.any_eq_true.mpr ⟨old, hmem, hsame⟩)
        · exact hold old (List.mem_cons_of_mem _ hmem) other hother
      · exact hold table List.mem_cons_self other hother

/-- What the check of a query says. -/
lemma checkEntries_eq_ok {query : Query} (h : query.checkEntries = .ok ()) :
    query.tables ≠ [] ∧ query.tables.Pairwise fun a b => a.same b = false := by
  unfold checkEntries at h
  split at h
  · simp at h
  · split at h
    · simp at h
    · rename_i hnonempty
      split at h
      · simp at h
      · rename_i hduplicate
        exact ⟨by simpa using hnonempty, (apart_of_duplicate? hduplicate).2⟩

/-- The projection of a plan was made in stages: the projection of the query is resolved and
checked, and GROUP BY, HAVING and ORDER BY in turn append the hidden members that they need. -/
structure Staged (query : Query) (plan : Plan) (projection : Projection) (groupBy : List Expr)
    (having : Option Expr) (withKeys withHaving : Projection) : Prop where
  resolved : query.projection.resolve plan.tables = .ok projection
  grouping : query.groupBy.mapM (resolvePlain plan.tables .groupBy) = .ok groupBy
  condition : resolveHaving plan.tables query.having = .ok having
  checked : query.needsGrouping = true → checkMembers groupBy projection.visible = .ok ()
  keys : groupKeys projection groupBy = (plan.keys, withKeys)
  kept : planHaving withKeys having = .ok (plan.having, withHaving)
  order : planOrder plan.tables groupBy query.needsGrouping withHaving query.orderBy =
    .ok (plan.sortKeys, plan.projection)

/-- The parts of a plan are the resolved parts of the query. -/
structure Planned (catalog : Catalog) (query : Query) (plan : Plan) : Prop where
  tables : query.tables.mapM (bindTable catalog) = .ok plan.tables
  selection : resolveSelection plan.tables query.selection = .ok plan.selection
  joins : query.joins.mapM (resolveClause plan.tables) = .ok plan.joins
  distinct : plan.distinct = query.distinct
  grouped : plan.grouped = query.needsGrouping
  staged : ∃ projection groupBy having withKeys withHaving,
    Staged query plan projection groupBy having withKeys withHaving

/-- What follows an optional check succeeded, and so did the check. -/
private lemma eq_ok_of_optional {α : Type} {checked : Prop} [Decidable checked]
    {check : Result Unit} {next : Unit → Result α} {a : α}
    (h : (if checked then check >>= next else next ()) = .ok a) :
    (checked → check = .ok ()) ∧ next () = .ok a := by
  split at h
  · obtain ⟨_, hcheck, h⟩ := Result.bind_eq_ok.mp h
    exact ⟨fun _ => hcheck, h⟩
  · rename_i hunchecked
    exact ⟨fun hchecked => absurd hchecked hunchecked, h⟩

/-- A plan is made of the resolved parts of the query. -/
lemma planned_of_plan {catalog : Catalog} {query : Query} {plan : Plan}
    (h : query.plan catalog = .ok plan) : Planned catalog query plan := by
  unfold Query.plan at h
  obtain ⟨tables, htables, h⟩ := Result.bind_eq_ok.mp h
  obtain ⟨projection, hprojection, h⟩ := Result.bind_eq_ok.mp h
  obtain ⟨selection, hselection, h⟩ := Result.bind_eq_ok.mp h
  obtain ⟨joins, hjoins, h⟩ := Result.bind_eq_ok.mp h
  obtain ⟨groupBy, hgroupBy, h⟩ := Result.bind_eq_ok.mp h
  obtain ⟨having, hhaving, h⟩ := Result.bind_eq_ok.mp h
  obtain ⟨hchecked, h⟩ := eq_ok_of_optional h
  obtain ⟨⟨having', withHaving⟩, hkept, h⟩ := Result.bind_eq_ok.mp h
  obtain ⟨⟨sortKeys, final⟩, hsorted, h⟩ := Result.bind_eq_ok.mp h
  obtain rfl := Result.pure_eq_ok.mp h
  exact ⟨htables, hselection, hjoins, rfl, rfl, projection, groupBy, having,
    (groupKeys projection groupBy).2, withHaving, Resolution.result_eq_ok.mp hprojection, hgroupBy,
    hhaving, hchecked, rfl, hkept, hsorted⟩

/-- A plan depends on the definitions of the tables of the query only. -/
lemma plan_congr {catalog catalog' : Catalog} {query : Query}
    (h : ∀ table ∈ query.tables, catalog.definition table = catalog'.definition table) :
    query.plan catalog = query.plan catalog' := by
  have htables : query.tables.mapM (bindTable catalog) = query.tables.mapM (bindTable catalog') :=
    mapM_congr fun table htable => by rw [bindTable, bindTable, h table htable]
  rw [plan, plan, htables]

/-- DISTINCT changes the plan in nothing else. -/
lemma plan_withDistinct (catalog : Catalog) (query : Query) (distinct : Bool) :
    Query.plan catalog { query with distinct } =
      (query.plan catalog).map fun plan => { plan with distinct } := by
  simp only [Query.plan, Result.map_bind]
  congr 1; funext tables
  congr 1; funext projection
  congr 1; funext selection
  congr 1; funext joins
  congr 1; funext groupBy
  congr 1; funext having
  have hneeds : Query.needsGrouping { query with distinct } = query.needsGrouping := rfl
  rw [hneeds]
  cases query.needsGrouping with
  | false => simp only [Bool.false_eq_true, if_false, Result.map_bind]; rfl
  | true => simp only [if_true, Result.map_bind]; rfl

/-- Without HAVING and ORDER BY only GROUP BY adds hidden members. -/
lemma Planned.exists_staged {catalog : Catalog} {query : Query} {plan : Plan}
    (planned : Planned catalog query plan) (hhaving : query.having = none)
    (horder : query.orderBy = []) : ∃ projection groupBy,
      Staged query plan projection groupBy none plan.projection plan.projection ∧
        plan.having = none ∧ plan.sortKeys = [] := by
  obtain ⟨projection, groupBy, having, withKeys, withHaving, staged⟩ := planned.staged
  have hcondition := staged.condition
  rw [hhaving] at hcondition
  obtain rfl := Except.ok.inj hcondition
  obtain ⟨hnone, rfl⟩ := Prod.mk.inj (Except.ok.inj staged.kept)
  have hsorted := staged.order
  rw [horder] at hsorted
  obtain ⟨hunsorted, rfl⟩ := Prod.mk.inj (Except.ok.inj hsorted)
  exact ⟨projection, groupBy, staged, hnone.symm, hunsorted.symm⟩

/-- Without grouping and sorting nothing adds a hidden member. -/
lemma Planned.plain {catalog : Catalog} {query : Query} {plan : Plan}
    (planned : Planned catalog query plan) (hplain : query.needsGrouping = false)
    (horder : query.orderBy = []) :
    query.projection.resolve plan.tables = .ok plan.projection ∧ plan.sortKeys = [] := by
  simp only [needsGrouping, Bool.or_eq_false_iff, Bool.not_eq_false', List.isEmpty_iff,
    Option.isSome_eq_false_iff, Option.isNone_iff_eq_none] at hplain
  obtain ⟨⟨hgroupBy, hhaving⟩, -⟩ := hplain
  obtain ⟨projection, groupBy, staged, -, hsorted⟩ := planned.exists_staged hhaving horder
  have hkeys := staged.grouping
  rw [hgroupBy] at hkeys
  obtain rfl := Except.ok.inj hkeys
  obtain ⟨-, hprojection⟩ := Prod.mk.inj staged.keys
  exact ⟨hprojection ▸ staged.resolved, hsorted⟩

/-- What passes the check against aggregates holds none. -/
lemma hasAggregate_of_refuseAggregate {clause : Clause} {e : Expr}
    (h : refuseAggregate clause e = .ok ()) : e.hasAggregate = false := by
  unfold refuseAggregate at h
  split at h
  · simp at h
  · rename_i hnone
    simpa using hnone

/-- A resolved expression of a clause holds no aggregate. -/
lemma resolvePlain_eq_ok {tables : List BoundEntry} {clause : Clause} {e resolved : Expr}
    (h : resolvePlain tables clause e = .ok resolved) :
    (e.resolve tables).result = .ok resolved ∧ resolved.hasAggregate = false := by
  unfold resolvePlain at h
  obtain ⟨found, hfound, h⟩ := Result.bind_eq_ok.mp h
  obtain ⟨_, hplain, h⟩ := Result.bind_eq_ok.mp h
  obtain rfl := Result.pure_eq_ok.mp h
  exact ⟨hfound, hasAggregate_of_refuseAggregate hplain⟩

/-- A resolved expression of a clause has resolved columns. -/
lemma resolvedIn_of_resolvePlain {tables : List BoundEntry} {clause : Clause} {e resolved : Expr}
    (h : resolvePlain tables clause e = .ok resolved) : resolved.ResolvedIn tables :=
  Expr.resolvedIn_of_resolve (Resolution.result_eq_ok.mp (resolvePlain_eq_ok h).1)

/-- The WHERE predicate of a plan is the folded resolved one. -/
lemma resolveSelection_eq_ok {tables : List BoundEntry} {predicate : Expr} {selection : Option Expr}
    (h : resolveSelection tables (some predicate) = .ok selection) :
    ∃ resolved folded, resolvePlain tables .selection predicate = .ok resolved ∧
      resolved.foldConstants = .ok folded ∧ selection = some folded := by
  unfold resolveSelection at h
  obtain ⟨resolved, hresolved, h⟩ := Result.bind_eq_ok.mp h
  obtain ⟨folded, hfolded, h⟩ := Result.bind_eq_ok.mp h
  exact ⟨resolved, folded, hresolved, hfolded, (Result.pure_eq_ok.mp h).symm⟩

/-- The condition of a resolved clause is the resolved one. -/
lemma resolveClause_eq_ok {tables : List BoundEntry} {clause resolved : JoinClause}
    (h : resolveClause tables clause = .ok resolved) :
    resolved.left = clause.left ∧ resolved.right = clause.right ∧ resolved.kind = clause.kind ∧
      ∀ on, resolved.on = some on → ∃ written, clause.on = some written ∧
        resolvePlain tables .joinCondition written = .ok on := by
  unfold resolveClause at h
  split at h
  · rename_i hnone
    obtain rfl := Except.ok.inj h
    exact ⟨rfl, rfl, rfl, fun on hon => by simp [hnone] at hon⟩
  · rename_i written hwritten
    obtain ⟨found, hfound, rfl⟩ := Result.map_eq_ok.mp h
    refine ⟨rfl, rfl, rfl, fun on hon => ⟨written, hwritten, ?_⟩⟩
    obtain rfl := Option.some.inj hon
    exact hfound

end Query

/-- The members of a resolved list are the resolved members, in their order. -/
lemma Projection.forall₂_of_resolveList {tables : List BoundEntry} {es found : List Expr}
    (h : resolveList tables es = .ok found) :
    List.Forall₂ (fun written e => written.resolve tables = .ok e) es found := by
  induction es generalizing found with
  | nil =>
    obtain rfl := Except.ok.inj h
    exact List.Forall₂.nil
  | cons first rest ih =>
    rw [resolveList] at h
    split at h
    · simp at h
    · rename_i e he
      obtain ⟨others, hothers, rfl⟩ := Resolution.put_eq_ok.mp h
      exact List.Forall₂.cons he (ih hothers)

/-- The visible and the hidden members of a resolved projection are the resolved ones. -/
lemma Projection.forall₂_of_resolve {tables : List BoundEntry} {p resolved : Projection}
    (h : p.resolve tables = .ok resolved) :
    List.Forall₂ (fun written e => written.resolve tables = .ok e) p.visible resolved.visible ∧
      List.Forall₂ (fun written e => written.resolve tables = .ok e) p.hidden resolved.hidden := by
  rw [resolve] at h
  split at h
  · simp at h
  · rename_i visible hvisible
    obtain ⟨hidden, hhidden, rfl⟩ := Resolution.put_eq_ok.mp h
    exact ⟨forall₂_of_resolveList hvisible, forall₂_of_resolveList hhidden⟩

/-- The members of a resolved projection are the resolved members. -/
lemma Projection.exists_written_of_resolve {tables : List BoundEntry} {p resolved : Projection}
    (h : p.resolve tables = .ok resolved) :
    ∀ e ∈ resolved.members, ∃ written ∈ p.members, written.resolve tables = .ok e := by
  obtain ⟨visible, hidden⟩ := forall₂_of_resolve h
  exact fun e he => exists_of_forall₂ (List.rel_append visible hidden).flip he

/-- All members of a resolved projection have resolved columns. -/
lemma Projection.resolvedIn_of_resolve {tables : List BoundEntry} {p resolved : Projection}
    (h : p.resolve tables = .ok resolved) : ∀ e ∈ resolved.members, e.ResolvedIn tables := by
  intro e he
  obtain ⟨written, -, hresolve⟩ := exists_written_of_resolve h e he
  exact Expr.resolvedIn_of_resolve hresolve

/-! ## Plans over a store -/

namespace Plan

/-- The tables of the plan are stored ones under different names, and the conditions read declared
columns of them. -/
structure Bound (s : Store) (plan : Plan) : Prop where
  apart : BoundEntry.Apart plan.tables
  stored : ∀ b ∈ plan.tables, ∃ t, s.get b.table.name = .ok t ∧ t.definition = b.definition
  resolved : ∀ e ∈ plan.conditions, e.ResolvedIn plan.tables

/-- The entries of a plan are those of the query. -/
lemma entries_of_planned {catalog : Catalog} {query : Query} {plan : Plan}
    (planned : Query.Planned catalog query plan) :
    plan.tables.map BoundEntry.table = query.tables := by
  have htables := mapM_eq_ok.mp planned.tables
  generalize plan.tables = bound at htables ⊢
  generalize query.tables = entries at htables ⊢
  induction htables with
  | nil => rfl
  | @cons table b _ _ hb _ ih =>
    obtain ⟨definition, -, rfl⟩ := Result.map_eq_ok.mp hb
    rw [List.map_cons, ih]

/-- The tables of a plan are bound to those of the store. -/
lemma stored_of_planned {s : Store} {query : Query} {plan : Plan}
    (planned : Query.Planned s.catalog query plan) :
    ∀ b ∈ plan.tables, ∃ t, s.get b.table.name = .ok t ∧ t.definition = b.definition := by
  intro b hb
  obtain ⟨table, -, htable⟩ := source_of_mem_of_mapM planned.tables hb
  obtain ⟨definition, hdefinition, rfl⟩ := Result.map_eq_ok.mp htable
  obtain ⟨t, ht, rfl⟩ := Result.map_eq_ok.mp (Result.inPlace_eq_ok.mp hdefinition)
  exact ⟨t, ht, rfl⟩

/-- The conditions of a plan read declared columns of its tables. -/
lemma resolved_of_planned {catalog : Catalog} {query : Query} {plan : Plan}
    (planned : Query.Planned catalog query plan) :
    ∀ e ∈ plan.conditions, e.ResolvedIn plan.tables := by
  intro e he
  rcases List.mem_append.mp he with he | he
  · have hselection := planned.selection
    cases hquery : query.selection with
    | none =>
      rw [hquery] at hselection
      rw [← Except.ok.inj hselection] at he
      simp at he
    | some predicate =>
      rw [hquery] at hselection
      obtain ⟨resolved, folded, hresolved, hfolded, hplan⟩ :=
        Query.resolveSelection_eq_ok hselection
      rw [hplan] at he
      obtain rfl : e = folded := by simpa using he
      intro ref href
      rw [(Expr.isFolding_of_foldConstants hfolded).columns] at href
      exact Query.resolvedIn_of_resolvePlain hresolved ref href
  · obtain ⟨clause, hclause, hon⟩ := List.mem_filterMap.mp he
    obtain ⟨_, -, hresolved⟩ := source_of_mem_of_mapM planned.joins hclause
    obtain ⟨_, -, hcondition⟩ := (Query.resolveClause_eq_ok hresolved).2.2.2 e hon
    exact Query.resolvedIn_of_resolvePlain hcondition

/-- The plan of a checked query is bound to the store that it was made for. -/
theorem bound_of_planned {s : Store} {query : Query} {plan : Plan}
    (checked : query.checkEntries = .ok ()) (planned : Query.Planned s.catalog query plan) :
    plan.Bound s where
  apart := by
    have hapart := (Query.checkEntries_eq_ok checked).2
    rw [← entries_of_planned planned, List.pairwise_map] at hapart
    exact hapart
  stored := stored_of_planned planned
  resolved := resolved_of_planned planned

end Plan

end RelQuery
