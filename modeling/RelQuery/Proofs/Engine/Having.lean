import Mathlib
import RelQuery.Proofs.Engine.Grouped
import RelQuery.Proofs.Engine.Reference

/-!
# Queries with HAVING

The engine rewrites HAVING to refer to members, appends the aggregates that no member computes, and
cuts them off again at the end.  None of this shows: the answer is that of the query without HAVING,
less the rows of the groups on which HAVING, in its own meaning, is not TRUE.
-/

namespace RelQuery.Query

/-! ## Resolved clauses -/

/-- The clauses of a grouped query, resolved. -/
structure Resolved (catalog : Catalog) (query : Query) where
  tables : List BoundEntry
  projection : Projection
  groupBy : List Expr
  bound : query.tables.mapM (bindTable catalog) = .ok tables
  members : query.projection.resolve tables = .ok projection
  keys : query.groupBy.mapM (resolvePlain tables .groupBy) = .ok groupBy

/-- No GROUP BY expression has a real for its value on a joined row, and nothing that ORDER BY sorts
by has one over a group. -/
structure Resolved.ExactKeys {catalog : Catalog} {query : Query} (resolved : query.Resolved catalog)
    (joined : List (List LogicalRow)) : Prop where
  groupBy : ∀ e ∈ resolved.groupBy, ∀ row ∈ joined,
    Result.isReal (Projection.evaluateMember .full row e) = false
  orderBy : ∀ term ∈ query.orderBy, ∀ e, SortsBy resolved.tables resolved.projection term.expr e →
    ∀ row ∈ joined, Result.isReal (e.valueOver (groupOf resolved.groupBy joined row) row) = false

/-- A query that has a plan has its clauses resolved. -/
lemma exists_resolved {catalog : Catalog} {query : Query} {plan : Plan}
    (h : query.plan catalog = .ok plan) :
    ∃ resolved : query.Resolved catalog, resolved.tables = plan.tables := by
  have planned := planned_of_plan h
  obtain ⟨projection, groupBy, _, _, _, staged⟩ := planned.staged
  exact ⟨⟨plan.tables, projection, groupBy, planned.tables, staged.resolved, staged.grouping⟩, rfl⟩

/-- The query without its HAVING. -/
def withoutHaving (query : Query) : Query :=
  { query with having := none }

/-- A query that groups without its HAVING groups. -/
lemma needsGrouping_of_withoutHaving {query : Query}
    (h : query.withoutHaving.needsGrouping = true) : query.needsGrouping = true := by
  simp only [needsGrouping, withoutHaving, Option.isSome_none, Bool.or_false, Bool.or_eq_true]
    at h ⊢
  exact h.imp_left Or.inl

/-- The expressions of the query without its HAVING are expressions of the query. -/
lemma mem_terms_of_withoutHaving {query : Query} {e : Expr}
    (h : e ∈ query.withoutHaving.terms) : e ∈ query.terms := by
  simp only [terms, withoutHaving, Option.toList_none, List.append_nil, List.mem_append] at h ⊢
  exact h.imp_left Or.inl

/-- The clauses of the query without its HAVING are the same. -/
def Resolved.withoutHaving {catalog : Catalog} {query : Query} (resolved : query.Resolved catalog) :
    query.withoutHaving.Resolved catalog :=
  { resolved with }

section Run

variable {s : Store} {query : Query} {plan : Plan} (resolved : query.Resolved s.catalog)

/-- A plan was made of the resolved clauses. -/
lemma Resolved.exists_staged (planned : Planned s.catalog query plan) :
    plan.tables = resolved.tables ∧ ∃ having withKeys withHaving,
      Staged query plan resolved.projection resolved.groupBy having withKeys withHaving := by
  have htables : plan.tables = resolved.tables :=
    Except.ok.inj (planned.tables.symm.trans resolved.bound)
  obtain ⟨projection, groupBy, having, withKeys, withHaving, staged⟩ := planned.staged
  obtain rfl : projection = resolved.projection :=
    Except.ok.inj ((htables ▸ staged.resolved).symm.trans resolved.members)
  obtain rfl : groupBy = resolved.groupBy :=
    Except.ok.inj ((htables ▸ staged.grouping).symm.trans resolved.keys)
  exact ⟨htables, having, withKeys, withHaving, staged⟩

/-- The resolved expressions of a query have exact literals where the written ones have. -/
lemma Uses.exactLiterals (exact : ∀ e ∈ query.terms, e.ExactLiterals) {tables : List BoundEntry}
    {e : Expr} (h : query.Uses tables e) : e.ExactLiterals := by
  obtain ⟨written, hwritten, hresolve⟩ := h.exists_written
  rw [Expr.ExactLiterals, Expr.literals_resolve hresolve]
  exact exact written hwritten

/-- Without HAVING the joined rows are the same. -/
lemma joinedRows_withoutHaving {plan' : Plan} (hplan : query.plan s.catalog = .ok plan)
    (hplan' : query.withoutHaving.plan s.catalog = .ok plan') {watch : Watch} {interval : Nat} :
    query.withoutHaving.joinedRows s.catalog watch interval =
      query.joinedRows s.catalog watch interval :=
  joinedRows_of_clauses hplan hplan' rfl rfl rfl

/-! ## Answers from groups -/

/-- HAVING accepts a group, as one of the rows shows it, where no HAVING accepts all groups. -/
def acceptedBy (having : Option Expr) (group : List (List LogicalRow)) (row : List LogicalRow) :
    Result Bool :=
  match having with
  | some e => e.acceptsOver group row
  | none => .ok true

/-- The answer consists of the visible values over the groups that HAVING accepts, in the order of
the values that the terms of ORDER BY have over them. -/
structure Answers (query : Query) (resolved : query.Resolved s.catalog) (having : Option Expr)
    (joined : List (List LogicalRow)) (answer : Answer) (keys : List OrderKey)
    (rowOf : List (List LogicalRow) → Row) (accepts : List (List LogicalRow) → Bool) : Prop where
  accepted : ∀ group ∈ groupsOf resolved.groupBy joined, ∀ row ∈ group,
    acceptedBy having group row = .ok (accepts group)
  visible : ∀ group ∈ groupsOf resolved.groupBy joined, ∀ row ∈ group,
    resolved.projection.visible.mapM (·.valueOver group row) =
      .ok ((rowOf group).take resolved.projection.visible.length)
  sorted : List.Forall₂ (fun term key => key.ascending = term.ascending ∧
    ∃ e, SortsBy resolved.tables resolved.projection term.expr e ∧
      ∀ group ∈ groupsOf resolved.groupBy joined, ∀ row ∈ group,
        e.valueOver group row = .ok ((rowOf group).getD key.position .null)) query.orderBy keys
  rows : answer.rows = (inOrder (lexOrder (Plan.sortCriteria keys rowOf))
    ((groupsOf resolved.groupBy joined).filter accepts)).map fun group =>
      (rowOf group).take resolved.projection.visible.length
  columns : answer.columns = resolved.projection.outputNames

/-- HAVING keeps the rows of the groups that it accepts. -/
lemma Staged.exists_accepts {projection withKeys withHaving : Projection} {groupBy : List Expr}
    {having : Option Expr}
    (staged : Staged query plan projection groupBy having withKeys withHaving)
    (hgrouped : plan.grouped = true) {groups : List (List (List LogicalRow))}
    {rowOf : List (List LogicalRow) → Row}
    (stands : ∀ group ∈ groups, plan.projection.StandsFor group (rowOf group))
    (same : ∀ e, having = some e → ∀ part ∈ e.parts, ∀ group row,
      plan.projection.SameOver group row part)
    {watch : Watch} {rows kept : List Row}
    (hfold : foldByKeys plan.projection plan.keys watch rows = .ok (groups.map rowOf))
    (h : plan.group watch rows = .ok kept) :
    ∃ accepts : List (List LogicalRow) → Bool, kept = (groups.filter accepts).map rowOf ∧
      ∀ group ∈ groups, ∀ row ∈ group, acceptedBy having group row = .ok (accepts group) := by
  rw [Plan.group, if_pos hgrouped, hfold] at h
  have hrel := staged.having_rel
  generalize plan.having = rewrittenHaving at h hrel
  cases hrel with
  | none =>
    refine ⟨fun _ => true, ?_, fun _ _ _ _ => rfl⟩
    rw [List.filter_true]
    exact (Except.ok.inj h).symm
  | @some e predicate rewritten =>
    replace h : keepGroups predicate (groups.map rowOf) = .ok kept := h
    rw [keepGroups_eq_filterResult, filterResult_eq_ok, List.filter_map] at h
    refine ⟨fun group => Result.holds (acceptsGroup predicate (rowOf group) 0), h.2,
      fun group hgroup row hrow => ?_⟩
    obtain ⟨passed, hpassed⟩ := h.1 (rowOf group) (List.mem_map_of_mem hgroup)
    dsimp only
    rw [hpassed, Result.holds_ok]
    exact acceptsOver_of_acceptsGroup (rewritten.exists_overGroup (stands group hgroup row hrow)
      fun part hpart => same e rfl part hpart group row) hpassed

/-- The value at a sort key is the value over the group of what the term of ORDER BY sorts by. -/
lemma Staged.sortValues {projection withKeys withHaving : Projection} {groupBy : List Expr}
    {having : Option Expr}
    (staged : Staged query plan projection groupBy having withKeys withHaving)
    {groups : List (List (List LogicalRow))} {rowOf : List (List LogicalRow) → Row}
    (stands : ∀ group ∈ groups, plan.projection.StandsFor group (rowOf group))
    (same : ∀ term ∈ query.orderBy, ∀ e, SortsBy plan.tables projection term.expr e →
      ∀ group row, plan.projection.SameOver group row e) :
    List.Forall₂ (fun term key => key.ascending = term.ascending ∧
      ∃ e, SortsBy plan.tables projection term.expr e ∧ ∀ group ∈ groups, ∀ row ∈ group,
        e.valueOver group row = .ok ((rowOf group).getD key.position .null))
      query.orderBy plan.sortKeys := by
  have hterms := (List.forall₂_and_left query.orderBy plan.sortKeys).mpr
    ⟨fun _ hterm => hterm, staged.sortsComputed⟩
  refine hterms.imp ?_
  rintro term key ⟨hterm, hdirection, e, hsorts, hcomputes⟩
  refine ⟨hdirection, e, hsorts, fun group hgroup row hrow => ?_⟩
  exact (stands group hgroup row hrow).valueOver_eq (same term hterm e hsorts group row) hcomputes

/-- Whatever a grouped query answers, it answers from the groups of the joined rows. -/
theorem Resolved.exists_answers (hplan : query.plan s.catalog = .ok plan)
    (checked : query.checkEntries = .ok ()) (grouped : query.needsGrouping = true)
    (repeated : query.distinct = false) (hidden : query.projection.hidden = [])
    (exact : ∀ e ∈ query.terms, e.ExactLiterals) {watch : Watch} {interval : Nat}
    {joined : List (List LogicalRow)}
    (hjoined : query.joinedRows s.catalog watch interval = .ok joined) (inhabited : joined ≠ [])
    (exactKeys : resolved.ExactKeys joined) {answer : Answer}
    (hrun : plan.run s.catalog watch interval = .ok answer) :
    IsGrouping resolved.groupBy joined (groupsOf resolved.groupBy joined) ∧
      ∃ having keys rowOf accepts, resolveHaving resolved.tables query.having = .ok having ∧
        query.Answers resolved having joined answer keys rowOf accepts := by
  have planned := planned_of_plan hplan
  have bound := Plan.bound_of_planned checked planned
  obtain ⟨htables, having, withKeys, withHaving, staged⟩ := resolved.exists_staged planned
  have grouping := staged.toGrouping
  have hgrouped : plan.grouped = true := planned.grouped.trans grouped
  have exactGroupBy : ∀ e ∈ resolved.groupBy, e.ExactLiterals :=
    fun e he => (staged.uses_key he).1.exactLiterals exact
  have same {used part : Expr} (huses : query.Uses plan.tables used) (hpart : part ∈ used.parts)
      (group : List (List LogicalRow)) (row : List LogicalRow) :
      plan.projection.SameOver group row part :=
    bound.sameOver grouping grouped hidden (huses.resolvedIn.of_mem_parts part hpart)
      (fun _ _ => Expr.sameSigns_of_exactLiterals
        (Or.inr ((huses.exactLiterals exact).of_mem_parts part hpart))) group row
  obtain ⟨fetched, hfetched, covered, columns, rows, hrows, kept, hkept, harranged⟩ :=
    exists_joinedRows_of_run hplan hrun
  obtain rfl : joined = fetched := Except.ok.inj (hjoined.symm.trans hfetched)
  obtain ⟨values, hvalues, rfl⟩ := exists_map_of_mapM hrows
  have projects : plan.Projects joined values := ⟨covered, hvalues⟩
  have exactOn := projects.exactOn bound grouping exactGroupBy exactKeys.groupBy
  have isGrouping := exactOn.isGrouping
  obtain ⟨found, hfound⟩ : ∃ found, foldByKeys plan.projection plan.keys watch
      (joined.map values) = .ok found := by
    rw [Plan.group, if_pos hgrouped] at hkept
    obtain ⟨found, hfound, -⟩ := Result.bind_eq_ok.mp hkept
    exact ⟨found, hfound⟩
  obtain ⟨rowOf, rfl, stands⟩ := projects.exists_rowOf bound grouping grouped hidden
    exactGroupBy exactOn inhabited hfound
  obtain ⟨accepts, rfl, accepted⟩ := staged.exists_accepts hgrouped stands
    (fun e he part hpart => same (staged.uses_having he) hpart) hfound hkept
  have sorted := staged.sortValues stands fun term hterm e hsorts =>
    same (.order staged.resolved hterm hsorts) e.self_mem_parts
  rw [htables] at sorted
  have hvisible : plan.projection.visible = resolved.projection.visible := staged.visible_eq
  refine ⟨isGrouping, having, plan.sortKeys, rowOf, accepts, htables ▸ staged.condition, accepted,
    fun group hgroup row hrow => ?_, sorted, ?_, ?_⟩
  · rw [← hvisible]
    exact (stands group hgroup row hrow).visible
  · rw [← hvisible]
    refine Plan.arrange_eq_ok (planned.distinct.trans repeated) (fun group hgroup key hkey => ?_)
      harranged
    replace hgroup := (List.mem_filter.mp hgroup).1
    obtain ⟨row, hrow⟩ := List.exists_mem_of_ne_nil group (isGrouping.nonempty group hgroup)
    have hmem : row ∈ joined := isGrouping.perm.mem_iff.mp (List.mem_flatten_of_mem hgroup hrow)
    obtain ⟨term, hterm, -, e, hsorts, hvalue⟩ := exists_of_forall₂ sorted.flip hkey
    have hexact := exactKeys.orderBy term hterm e hsorts row hmem
    rwa [← isGrouping.whole group hgroup row hrow, hvalue group hgroup row hrow] at hexact
  · rw [columns, Projection.outputNames, Projection.outputNames, hvisible]

end Run

/-! ## Two answers -/

section Two

variable {s : Store} {query : Query} {resolved : query.Resolved s.catalog} {having : Option Expr}
  {joined : List (List LogicalRow)} {answer all : Answer} {keys keys' : List OrderKey}
  {rowOf rowOf' : List (List LogicalRow) → Row} {accepts accepts' : List (List LogicalRow) → Bool}

/-- With HAVING and without it the groups are sorted alike. -/
lemma Answers.lexOrder_eq
    (answers : query.Answers resolved having joined answer keys rowOf accepts)
    (alls : query.withoutHaving.Answers resolved.withoutHaving none joined all keys' rowOf'
      accepts')
    (isGrouping : IsGrouping resolved.groupBy joined (groupsOf resolved.groupBy joined))
    {a b : List (List LogicalRow)} (ha : a ∈ groupsOf resolved.groupBy joined)
    (hb : b ∈ groupsOf resolved.groupBy joined) :
    lexOrder (Plan.sortCriteria keys rowOf) a b =
      lexOrder (Plan.sortCriteria keys' rowOf') a b := by
  refine lexOrder_congr ?_
  rw [Plan.sortCriteria, Plan.sortCriteria, List.forall₂_map_left_iff, List.forall₂_map_right_iff]
  refine (forall₂_of_common answers.sorted alls.sorted).imp ?_
  rintro key key' ⟨term, -, ⟨hdirection, e, hsorts, hvalue⟩, hdirection', e', hsorts', hvalue'⟩
  obtain rfl := hsorts.unique hsorts'
  have same : ∀ group ∈ groupsOf resolved.groupBy joined,
      (rowOf group).getD key.position .null = (rowOf' group).getD key'.position .null := by
    intro group hgroup
    obtain ⟨row, hrow⟩ := List.exists_mem_of_ne_nil group (isGrouping.nonempty group hgroup)
    exact Except.ok.inj ((hvalue group hgroup row hrow).symm.trans (hvalue' group hgroup row hrow))
  exact ⟨hdirection.trans hdirection'.symm, same a ha, same b hb⟩

/-- HAVING takes rows away and leaves the others as they are and where they are. -/
lemma Answers.exists_shown
    (answers : query.Answers resolved having joined answer keys rowOf accepts)
    (alls : query.withoutHaving.Answers resolved.withoutHaving none joined all keys' rowOf'
      accepts')
    (isGrouping : IsGrouping resolved.groupBy joined (groupsOf resolved.groupBy joined)) :
    ∃ (groups : List (List (List LogicalRow))) (shown : List (List LogicalRow) → Row),
      groups.Perm (groupsOf resolved.groupBy joined) ∧
      (∀ group ∈ groups, ∀ row ∈ group,
        resolved.projection.visible.mapM (·.valueOver group row) = .ok (shown group)) ∧
      all.rows = groups.map shown ∧ answer.rows = (groups.filter accepts).map shown := by
  have hperm := inOrder_perm (lexOrder (Plan.sortCriteria keys' rowOf'))
    (groupsOf resolved.groupBy joined)
  have same : ∀ group ∈ groupsOf resolved.groupBy joined,
      (rowOf group).take resolved.projection.visible.length =
        (rowOf' group).take resolved.projection.visible.length := by
    intro group hgroup
    obtain ⟨row, hrow⟩ := List.exists_mem_of_ne_nil group (isGrouping.nonempty group hgroup)
    exact Except.ok.inj
      ((answers.visible group hgroup row hrow).symm.trans (alls.visible group hgroup row hrow))
  have hall : (groupsOf resolved.groupBy joined).filter accepts' =
      groupsOf resolved.groupBy joined := by
    refine List.filter_eq_self.mpr fun group hgroup => ?_
    obtain ⟨row, hrow⟩ := List.exists_mem_of_ne_nil group (isGrouping.nonempty group hgroup)
    exact (Except.ok.inj (alls.accepted group hgroup row hrow)).symm
  refine ⟨_, fun group => (rowOf' group).take resolved.projection.visible.length, hperm,
    fun group hgroup => alls.visible group (hperm.mem_iff.mp hgroup), ?_, ?_⟩
  · have hrows := alls.rows
    replace hrows : all.rows = (inOrder (lexOrder (Plan.sortCriteria keys' rowOf'))
        ((groupsOf resolved.groupBy joined).filter accepts')).map fun group =>
          (rowOf' group).take resolved.projection.visible.length := hrows
    rwa [hall] at hrows
  · -- sorting what HAVING keeps is keeping of what was sorted
    rw [answers.rows, filter_inOrder, inOrder_congr fun a ha b hb => answers.lexOrder_eq alls
      isGrouping (List.mem_filter.mp ha).1 (List.mem_filter.mp hb).1]
    refine List.map_congr_left fun group hgroup => same group ?_
    exact (List.mem_filter.mp ((inOrder_perm _ _).mem_iff.mp hgroup)).1

end Two

/-! ## HAVING -/

/-- The rows of the answer are those of another answer, in their order and under the same columns,
that come from the groups on which HAVING is TRUE.  Every aggregate call stands for its value over
the group, and everything else may be read off any row of the group. -/
structure FilteredBy {catalog : Catalog} {query : Query} (resolved : query.Resolved catalog)
    (having : Expr) (joined : List (List LogicalRow)) (all answer : Answer)
    (groups : List (List (List LogicalRow))) (verdict : List (List LogicalRow) → Bool)
    (shown : List (List LogicalRow) → Row) : Prop where
  grouping : IsGrouping resolved.groupBy joined groups
  accepted : ∀ group ∈ groups, ∀ row ∈ group,
    having.acceptsOver group row = .ok (verdict group)
  visible : ∀ group ∈ groups, ∀ row ∈ group,
    resolved.projection.visible.mapM (·.valueOver group row) = .ok (shown group)
  rows : all.rows = groups.map shown
  kept : answer.rows = (groups.filter verdict).map shown
  columns : answer.columns = all.columns
  widths : ∀ row ∈ all.rows, row.length = all.columns.length

/-- A query with HAVING that would group without it too answers with the rows of those groups on
which HAVING is TRUE in its own meaning, and otherwise as the query without HAVING. -/
theorem execute_having {s : Store} {query : Query} (resolved : query.Resolved s.catalog)
    {having : Expr} (condition : resolveHaving resolved.tables query.having = .ok (some having))
    (grouped : query.withoutHaving.needsGrouping = true) (repeated : query.distinct = false)
    (hidden : query.projection.hidden = []) (exact : ∀ e ∈ query.terms, e.ExactLiterals)
    {watch : Watch} {interval : Nat} {joined : List (List LogicalRow)}
    (hjoined : query.joinedRows s.catalog watch interval = .ok joined) (inhabited : joined ≠ [])
    (exactKeys : resolved.ExactKeys joined) {session session' : Nat} {locks locks' : LockTable}
    {answer all : Answer}
    (h : (query.execute s.catalog watch interval session locks).1 = .ok answer)
    (hall : (query.withoutHaving.execute s.catalog watch interval session' locks').1 = .ok all) :
    ∃ groups verdict shown, FilteredBy resolved having joined all answer groups verdict shown := by
  obtain ⟨checked, plan, hplan, hrun⟩ := run_of_execute h
  obtain ⟨checked', plan', hplan', hrun'⟩ := run_of_execute hall
  have hjoined' : query.withoutHaving.joinedRows s.catalog watch interval = .ok joined :=
    (joinedRows_withoutHaving hplan hplan').trans hjoined
  have exact' : ∀ e ∈ query.withoutHaving.terms, e.ExactLiterals :=
    fun e he => exact e (mem_terms_of_withoutHaving he)
  have exactKeys' : resolved.withoutHaving.ExactKeys joined :=
    ⟨exactKeys.groupBy, exactKeys.orderBy⟩
  obtain ⟨isGrouping, found, keys, rowOf, accepts, hfound, answers⟩ :=
    resolved.exists_answers hplan checked (needsGrouping_of_withoutHaving grouped) repeated hidden
      exact hjoined inhabited exactKeys hrun
  obtain rfl : found = some having := Except.ok.inj (hfound.symm.trans condition)
  obtain ⟨-, found', keys', rowOf', accepts', hfound', alls⟩ :=
    resolved.withoutHaving.exists_answers hplan' checked' grouped repeated hidden exact' hjoined'
      inhabited exactKeys' hrun'
  obtain rfl : found' = none := (Except.ok.inj hfound').symm
  obtain ⟨groups, shown, hperm, hshown, hrows', hrows⟩ := answers.exists_shown alls isGrouping
  have grouping := isGrouping.of_perm hperm
  refine ⟨groups, accepts, shown, grouping, fun group hgroup => ?_, hshown, hrows', hrows,
    answers.columns.trans alls.columns.symm, fun row hrow => ?_⟩
  · exact answers.accepted group (hperm.mem_iff.mp hgroup)
  · rw [hrows'] at hrow
    obtain ⟨group, hgroup, rfl⟩ := List.mem_map.mp hrow
    obtain ⟨member, hmember⟩ := List.exists_mem_of_ne_nil group (grouping.nonempty group hgroup)
    rw [length_of_mapM (hshown group hgroup member hmember), alls.columns, Projection.outputNames,
      List.length_map]
    rfl

/-- Of three groups HAVING keeps two, by a maximum that is no member and a sum that is one. -/
theorem execute_having_maximum : ∃ (s : Store) (query : Query) (resolved : query.Resolved s.catalog)
    (having : Expr) (joined : List (List LogicalRow)) (answer all : Answer),
    query.joinedRows s.catalog .never 1 = .ok joined ∧
      (query.execute s.catalog .never 1 0 .empty).1 = .ok answer ∧
      (query.withoutHaving.execute s.catalog .never 1 0 .empty).1 = .ok all ∧
      all.rows = [[.integer 1, .integer 17], [.integer 2, .integer 5], [.integer 3, .integer 3]] ∧
      answer.rows = [[.integer 1, .integer 17], [.integer 2, .integer 5]] ∧
      ∃ groups verdict shown,
        FilteredBy resolved having joined all answer groups verdict shown := by
  let table : StoredTable :=
    .ofIntegers "a" ["k", "x"] [[1, 10], [2, 5], [3, 1], [1, 7], [3, 2]]
  let s : Store := ⟨[table]⟩
  let call (f : Aggregate) (column : Expr) : Expr := .call (.aggregate f) column none
  let condition (k x : Expr) : Expr := .binary (.logical .and)
    (.binary (.comparison .lt) (.literal (.integer 2) none) (call .max x) none)
    (.binary (.comparison .lt) k (call .sum x) none) none
  let query : Query := {
    Query.selecting [.written "a" "k", call .sum (.written "a" "x")] ["a"] [] none with
    groupBy := [.written "a" "k"]
    having := some (condition (.written "a" "k") (.written "a" "x"))
    orderBy := [⟨call .sum (.written "a" "x"), false⟩] }
  let bound : BoundEntry := ⟨⟨"a", none⟩, table.definition⟩
  let k : Expr := .column (.declared bound 0 ⟨"k", .integer⟩) none
  let x : Expr := .column (.declared bound 1 ⟨"x", .integer⟩) none
  let resolved : query.Resolved s.catalog := {
    tables := [bound]
    projection := ⟨[k, call .sum x], []⟩
    groupBy := [k]
    bound := by cbv
    members := by cbv
    keys := by cbv }
  let joined : List (List LogicalRow) := table.rows.map fun row => [.stored ⟨"a", row.1, row.2⟩]
  have hjoined : query.joinedRows s.catalog .never 1 = .ok joined := by cbv
  have hcondition : resolveHaving resolved.tables query.having = .ok (some (condition k x)) := by
    cbv
  have hsorts : SortsBy resolved.tables resolved.projection (call .sum (.written "a" "x"))
      (call .sum x) := Or.inr ⟨rfl, by cbv⟩
  have exactKeys : resolved.ExactKeys joined := {
    groupBy := by decide
    orderBy := by
      intro term hterm e he
      obtain rfl := List.mem_singleton.mp hterm
      obtain rfl := he.unique hsorts
      decide }
  have ran : (query.execute s.catalog .never 1 0 .empty).1 = .ok ⟨["k", "SUM(a.x)"],
      [[.integer 1, .integer 17], [.integer 2, .integer 5]]⟩ := by
    rw [execute_of_unwritten (by decide) (by decide)]
    cbv
  have ran' : (query.withoutHaving.execute s.catalog .never 1 0 .empty).1 = .ok ⟨["k", "SUM(a.x)"],
      [[.integer 1, .integer 17], [.integer 2, .integer 5], [.integer 3, .integer 3]]⟩ := by
    rw [execute_of_unwritten (by decide) (by decide)]
    cbv
  have kept := execute_having resolved hcondition (by decide) rfl rfl (by decide) hjoined
    (by decide) exactKeys ran ran'
  exact ⟨s, query, resolved, condition k x, joined, _, _, hjoined, ran, ran', rfl, rfl, kept⟩

end RelQuery.Query
