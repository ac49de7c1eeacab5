import Mathlib
import RelQuery.Proofs.Engine.Arranged
import RelQuery.Proofs.Engine.InnerJoins

/-!
# The order of stored rows

Rows are stored in the order in which they were inserted, and a group is folded in that order from
its first row on.  The answer to a grouped query over one table does not show it.  The members of a
plan are aggregates and grouped expressions only, and without reals these have the same values
whichever row comes first; so two contents that hold the same bag of rows are grouped to the same
list, of which HAVING, ORDER BY and DISTINCT are functions.
-/

namespace RelQuery

/-! ## Queries without reals -/

/-- Resolution brings no reals into an expression, where no table has a REAL column. -/
lemma Expr.realFree_of_resolve {tables : List BoundEntry}
    (noReal : ∀ b ∈ tables, ∀ column ∈ b.definition.columns, column.columnType ≠ .real)
    {e resolved : Expr} (hfree : e.realFree = true) (h : e.resolve tables = .ok resolved) :
    resolved.realFree = true := by
  induction e generalizing resolved with
  | literal value label =>
    obtain rfl := Except.ok.inj h
    exact hfree
  | column ref label =>
    obtain ⟨found, hfound, rfl⟩ := resolve_column_eq_ok.mp h
    obtain ⟨b, hb, index, hdeclares⟩ := ColumnRef.resolvedIn_of_resolve hfound
    obtain ⟨column, hcolumn, rfl⟩ := hdeclares.declared
    have htype := noReal b hb column (List.mem_of_getElem? hcolumn)
    simpa [realFree, ColumnRef.declared] using htype
  | binary op left right label ihLeft ihRight =>
    rw [realFree, Bool.and_eq_true] at hfree
    obtain ⟨l, r, hl, hr, rfl⟩ := resolve_binary_eq_ok.mp h
    rw [realFree, ihLeft hfree.1 hl, ihRight hfree.2 hr]
    rfl
  | negate operand label ih =>
    obtain ⟨o, ho, rfl⟩ := resolve_negate_eq_ok.mp h
    rw [realFree]
    exact ih hfree ho
  | call f arg label ih =>
    simp only [realFree, Bool.and_eq_true] at hfree
    obtain ⟨a, ha, rfl⟩ := resolve_call_eq_ok.mp h
    simp only [realFree, Bool.and_eq_true]
    exact ⟨hfree.1, ih hfree.2 ha⟩
  | bareCall f label =>
    obtain ⟨-, rfl⟩ := resolve_bareCall_eq_ok.mp h
    exact hfree

/-- No column of a real-free expression is declared REAL. -/
lemma Expr.columnType_ne_real {e : Expr} (hfree : e.realFree = true) :
    ∀ ref ∈ e.columns, ref.columnType ≠ some .real := by
  induction e with
  | literal value label => simp [columns]
  | column ref label => simpa [columns, realFree] using hfree
  | binary op left right label ihLeft ihRight =>
    rw [realFree, Bool.and_eq_true] at hfree
    intro ref href
    rcases List.mem_append.mp href with href | href
    · exact ihLeft hfree.1 ref href
    · exact ihRight hfree.2 ref href
  | negate operand label ih => exact ih hfree
  | call f arg label ih =>
    simp only [realFree, Bool.and_eq_true] at hfree
    exact ih hfree.2
  | bareCall f label => simp [columns]

namespace Query

/-- The query has no REAL literal, REAL column, conversion to REAL or average in any clause. -/
def RealFree (catalog : Catalog) (query : Query) : Prop :=
  ∀ tables, query.tables.mapM (bindTable catalog) = .ok tables →
    ∀ e, query.Uses tables e → e.realFree = true

/-- Over a store without REAL columns a query is real-free when it is as it is written. -/
lemma realFree_of_terms {s : Store}
    (noReal : ∀ t ∈ s.tables, ∀ column ∈ t.definition.columns, column.columnType ≠ .real)
    {query : Query} (h : ∀ e ∈ query.terms, e.realFree = true) : query.RealFree s.catalog := by
  intro tables htables e huses
  obtain ⟨written, hwritten, hresolve⟩ := huses.exists_written
  refine Expr.realFree_of_resolve (fun b hb column hcolumn => ?_) (h written hwritten) hresolve
  obtain ⟨table, -, htable⟩ := source_of_mem_of_mapM htables hb
  obtain ⟨definition, hdefinition, rfl⟩ := Result.map_eq_ok.mp htable
  obtain ⟨t, ht, rfl⟩ := Result.map_eq_ok.mp (Result.inPlace_eq_ok.mp hdefinition)
  exact noReal t (Store.get_eq_ok ht).2 column hcolumn

/-- A real-free query equates no REAL columns. -/
lemma RealFree.keysNotReal {s : Store} {query : Query} (free : query.RealFree s.catalog) :
    query.KeysNotReal s := by
  intro plan hplan clause hclause _ on left right hon hequated
  have planned := planned_of_plan hplan
  obtain ⟨declared, hdeclared, hresolve⟩ := source_of_mem_of_mapM planned.joins hclause
  obtain ⟨written, hwritten, hplain⟩ := (resolveClause_eq_ok hresolve).2.2.2 on hon
  have hfree := free plan.tables planned.tables on
    (.condition hdeclared hwritten (resolvePlain_eq_ok hplain).1)
  have hcolumns := Expr.columns_of_equated hequated
  have typed := Expr.columnType_ne_real hfree
  exact ⟨typed left (by simp [hcolumns]), typed right (by simp [hcolumns])⟩

/-- A real-free query without hidden members of its own is folded exactly. -/
lemma RealFree.foldsExactly {s : Store} {query : Query} (free : query.RealFree s.catalog)
    (hidden : query.projection.hidden = []) : query.FoldsExactly s where
  hidden := hidden
  realFree plan hplan e he := by
    have planned := planned_of_plan hplan
    obtain ⟨projection, groupBy, having, withKeys, withHaving, staged⟩ := planned.staged
    obtain ⟨used, huses, hpart⟩ := staged.uses e he
    exact Expr.realFree_of_mem_parts (free plan.tables planned.tables used huses) e hpart

end Query

/-! ## One table -/

/-- The values of one row of the entry as expressions see them. -/
def FromEntry.showsValues (entry : FromEntry) (values : Row) : List LogicalRow :=
  [entry.shown (some (0, values))]

/-- No expression reads the id of a stored row. -/
lemma Expr.evaluate_showsValues (entry : FromEntry) (row : Nat × Row) (mode : Coverage) (e : Expr) :
    e.evaluate mode [entry.shown (some row)] = e.evaluate mode (entry.showsValues row.2) := by
  refine evaluate_congr fun ref _ => ?_
  unfold columnOutcome FromEntry.showsValues findRow?
  cases ref.table with
  | none => rfl
  | some table =>
    cases hindex : ref.index with
    | none => rfl
    | some index =>
      simp only [List.find?_cons, FromEntry.tableName_shown, List.find?_nil]
      cases Name.same entry.referenceName table with
      | true => simp [FromEntry.shown, FromEntry.named, LogicalRow.valueOf, StoredRow.valueOf,
          StoredRow.valueAt, hindex]
      | false => rfl

namespace Plan

variable {s : Store} {plan : Plan} {entry : FromEntry}

/-- WHERE and the join conditions are TRUE on the values. -/
def admits (plan : Plan) (entry : FromEntry) (values : Row) : Bool :=
  plan.joins.all (fun clause => trueOn (entry.showsValues values) clause.on) &&
    trueOn (entry.showsValues values) plan.selection

/-- Nested loops over one table are a scan of it. -/
lemma nestedLoops_singleton (s : Store) (plan : Plan) (entry : FromEntry) :
    ((nestedLoops s [entry] plan.joins).filter fun rows => trueOn rows plan.selection) =
      ((s.rowsOf entry).filter fun row => plan.admits entry row.2).map
        fun row => [entry.shown (some row)] := by
  have htrue (row : Nat × Row) (condition : Option Expr) :
      trueOn [entry.shown (some row)] condition =
        trueOn (entry.showsValues row.2) condition := by
    cases condition with
    | none => rfl
    | some e => rw [trueOn, trueOn, Expr.accepts, Expr.accepts, Expr.evaluate_showsValues]
  have hcombinations : combinations s [entry] =
      (s.rowsOf entry).map fun row => [entry.shown (some row)] := by
    simp [combinations, List.sections]
  rw [nestedLoops, hcombinations, List.filter_map, List.filter_map, List.filter_filter]
  congr 1
  refine List.filter_congr fun row _ => ?_
  simp only [Function.comp_apply, htrue, admits, Bool.and_comm]

/-- The rows that a run over one table projects are the values that the conditions admit. -/
lemma Ran.perm_values {watch : Watch} {answer : Answer} {inputs : List JoinInput}
    {pool : List PendingJoin} {output final : JoinedTuples} {rows : List Row}
    (ran : plan.Ran s watch answer inputs pool output final rows) (sound : s.Sound)
    (bound : plan.Bound s) (hentries : plan.entries = [entry]) :
    ∃ found, ((((s.rowsOf entry).map Prod.snd).filter (plan.admits entry)).mapM fun values =>
      plan.projection.evaluate .prefilter (entry.showsValues values)) = .ok found ∧
        rows.Perm found := by
  have hsingle : inputs.length ≤ 1 := by
    rw [← ran.gathered.length_eq, hentries]
    exact Nat.le_refl 1
  have hperm := ran.perm_nestedLoops sound bound (not_outer_of_single ran.executed hsingle)
  rw [hentries, nestedLoops_singleton] at hperm
  have projected : ((plan.choices s plan.earlyPredicate final).map
      (FromEntry.shownRows [entry])).mapM (plan.projection.evaluate .prefilter) = .ok rows := by
    rw [List.mapM_map, ← hentries]
    exact ran.projected
  obtain ⟨found, hfound, hrows⟩ := exists_mapM_of_perm hperm projected
  refine ⟨found, ?_, hrows⟩
  rw [List.filter_map, List.mapM_map]
  rw [List.mapM_map] at hfound
  refine (mapM_congr fun row _ => ?_).trans hfound
  exact Projection.evaluate_congr fun e _ => (Expr.evaluate_showsValues entry row _ e).symm

/-- The choices that a run projects take rows that the store has. -/
lemma Ran.valid {watch : Watch} {answer : Answer} {inputs : List JoinInput}
    {pool : List PendingJoin} {output final : JoinedTuples} {rows : List Row}
    (ran : plan.Ran s watch answer inputs pool output final rows) (sound : s.Sound) :
    ∀ σ ∈ plan.choices s plan.earlyPredicate final, (s.space plan.entries).Valid σ := by
  intro σ hσ
  rw [ran.kept] at hσ
  obtain ⟨c, hc, rfl⟩ := List.mem_map.mp (List.mem_filter.mp hσ).1
  exact (ran.gathered.embeds sound).valid (valid_of_executed ran.executed c hc)

end Plan

/-! ## Answers -/

namespace Query

/-- A grouped query over one table that uses no reals gives the same answer on two contents of the
table with the same bag of rows, in whatever orders they were inserted. -/
theorem execute_eq_of_rows_perm {s s' : Store} (reachable : s.Reachable) (reachable' : s'.Reachable)
    {query : Query} {entry : FromEntry} (single : query.tables = [entry])
    (grouped : query.needsGrouping = true) (hidden : query.projection.hidden = [])
    (free : query.RealFree s.catalog)
    (definition : s.catalog.definition entry = s'.catalog.definition entry)
    (sameRows : ((s.rowsOf entry).map Prod.snd).Perm ((s'.rowsOf entry).map Prod.snd))
    {watch watch' : Watch} {interval interval' session session' : Nat} {locks locks' : LockTable}
    {answer answer' : Answer}
    (h : (query.execute s.catalog watch interval session locks).1 = .ok answer)
    (h' : (query.execute s'.catalog watch' interval' session' locks').1 = .ok answer') :
    answer = answer' := by
  have hdefinition : ∀ table ∈ query.tables,
      s.catalog.definition table = s'.catalog.definition table := by
    rw [single]
    simpa using definition
  have samePlan := plan_congr hdefinition
  obtain ⟨checked, plan, hplan, hrun⟩ := run_of_execute h
  obtain ⟨-, plan', hplan', hrun'⟩ := run_of_execute h'
  obtain rfl : plan = plan' := Except.ok.inj ((hplan.symm.trans samePlan).trans hplan')
  have planned := planned_of_plan hplan
  have planned' := planned_of_plan hplan'
  have notReal := free.keysNotReal plan hplan
  have bound := Plan.bound_of_planned checked planned
  have bound' := Plan.bound_of_planned checked planned'
  have hentries : plan.entries = [entry] := (Plan.entries_of_planned planned).trans single
  obtain ⟨_, _, _, final, rows, ran⟩ := Plan.ran_of_run bound reachable.sound notReal hrun
  obtain ⟨_, _, _, final', rows', ran'⟩ := Plan.ran_of_run bound' reachable'.sound notReal hrun'
  -- both runs group the same bag of rows
  have hrows : rows.Perm rows' := by
    obtain ⟨found, hfound, hperm⟩ := ran.perm_values reachable.sound bound hentries
    obtain ⟨found', hfound', hperm'⟩ := ran'.perm_values reachable'.sound bound' hentries
    obtain ⟨between, hbetween, hfounds⟩ :=
      exists_mapM_of_perm (sameRows.filter (plan.admits entry)) hfound
    obtain rfl := Except.ok.inj (hbetween.symm.trans hfound')
    exact (hperm.trans hfounds).trans hperm'.symm
  obtain ⟨groups, hgroups, harranged⟩ := ran.arranged
  obtain ⟨groups', hgroups', harranged'⟩ := ran'.arranged
  obtain rfl := bound.group_eq reachable.sound hplan grouped (free.foldsExactly hidden)
    (ran.valid reachable.sound) ran.projected hrows hgroups hgroups'
  have hanswer : answer.rows = answer'.rows := Except.ok.inj (harranged.symm.trans harranged')
  have hcolumns : answer.columns = answer'.columns := ran.columns.trans ran'.columns.symm
  exact congrArg₂ Answer.mk hcolumns hanswer

/-- Sums over four rows in two orders, which differ in the first row of a group. -/
theorem execute_eq_of_rows_perm_sums : ∃ (s s' : Store) (query : Query) (answer answer' : Answer),
    s.Reachable ∧ s'.Reachable ∧
      (query.execute s.catalog .never 1 0 .empty).1 = .ok answer ∧
      (query.execute s'.catalog .never 1 0 .empty).1 = .ok answer' ∧
      answer.rows = [[.integer 2, .integer 5], [.integer 1, .integer 17]] ∧ answer = answer' := by
  let s : Store := ⟨[.ofIntegers "a" ["k", "x"] [[1, 10], [2, 5], [3, 1], [1, 7]]]⟩
  let s' : Store := ⟨[.ofIntegers "a" ["k", "x"] [[2, 5], [1, 7], [3, 1], [1, 10]]]⟩
  let call (f : Aggregate) (name : String) : Expr := .call (.aggregate f) (.written "a" name) none
  let query : Query := { Query.selecting [.written "a" "k", call .sum "x"] ["a"] [] none with
    groupBy := [.written "a" "k"]
    having := some (.binary (.comparison .lt) (.literal (.integer 3) none) (call .min "x") none)
    orderBy := [⟨call .max "x", true⟩] }
  have reachable : s.Reachable := Store.Reachable.empty.requests
    (Store.Request.fill "a" ["k", "x"] [[1, 10], [2, 5], [3, 1], [1, 7]]) (by cbv)
  have reachable' : s'.Reachable := Store.Reachable.empty.requests
    (Store.Request.fill "a" ["k", "x"] [[2, 5], [1, 7], [3, 1], [1, 10]]) (by cbv)
  have ran : (query.execute s.catalog .never 1 0 .empty).1 = .ok ⟨["k", "SUM(a.x)"],
      [[.integer 2, .integer 5], [.integer 1, .integer 17]]⟩ := by
    rw [execute_of_unwritten (by decide) (by decide)]
    cbv
  have ran' : (query.execute s'.catalog .never 1 0 .empty).1 = .ok ⟨["k", "SUM(a.x)"],
      [[.integer 2, .integer 5], [.integer 1, .integer 17]]⟩ := by
    rw [execute_of_unwritten (by decide) (by decide)]
    cbv
  have free : query.RealFree s.catalog := realFree_of_terms (by decide) (by decide)
  have single : query.tables = [{ name := "a", label := none }] := rfl
  have same := execute_eq_of_rows_perm reachable reachable' single (by decide) rfl free (by cbv)
    (by decide) ran ran'
  exact ⟨s, s', query, _, _, reachable, reachable', ran, ran', rfl, same⟩

end Query

end RelQuery
