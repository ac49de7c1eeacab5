import Mathlib
import RelQuery.Proofs.Engine.Arranged
import RelQuery.Proofs.Engine.Reference
import RelQuery.Proofs.Engine.Separable

/-!
# WHERE after the join

WHERE may be left to the joined tuples alone: every table hands all its rows to the join, and the
predicate is applied afterwards.  For clauses that may be met in any order the engine gives the same
bag of rows as this late pipeline, and likewise where it rules out no row early.

In general it does not.  A row that is ruled out early is missed by the clauses as well, and an
entry that no clause pads by name may be padded all the same, through an inner clause that the walk
meets before the outer one.  Such an entry is cut down too early.
-/

namespace RelQuery

/-! ## The late pipeline -/

namespace Plan

/-- All tables with all their rows, cut to the columns that are carried. -/
def wholeTables (catalog : Catalog) (watch : Watch) (plan : Plan) : Result (List JoinInput) :=
  plan.candidatesWith (fun _ => none) catalog watch

/-- Joins the tables and applies WHERE to the joined tuples. -/
def joinWhole (plan : Plan) (watch : Watch) (interval : Nat) (tables : List JoinInput) :
    Result JoinedTuples := do
  let output ← joinTables tables watch interval plan.joins
  let output ← match plan.selection with
    | some predicate => (output.keepAccepted tables predicate).result
    | none => .ok output
  watch.poll .joined
  return output

/-- Carries the plan out with WHERE after the join. -/
def runLate (catalog : Catalog) (watch : Watch) (interval : Nat) (plan : Plan) : Result Answer := do
  watch.poll .resolved
  let tables ← plan.wholeTables catalog watch
  let output ← plan.joinWhole watch interval tables
  let rows ← plan.memberRows catalog watch interval tables output
  let rows ← plan.group watch rows
  let rows ← plan.arrange rows
  watch.poll .finished
  return { columns := plan.projection.outputNames, rows }

end Plan

/-- Answers the query for a session with WHERE after the join. -/
def Query.executeLate (catalog : Catalog) (watch : Watch) (interval session : Nat) (query : Query)
    (locks : LockTable) : Result Answer :=
  match query.checkEntries with
  | .error error => .error error
  | .ok () =>
    match LockGuard.take session (query.tables.map FromEntry.name) locks with
    | (.error error, _) => .error error
    | (.ok _, _) => (query.plan catalog).bind (Plan.runLate catalog watch interval)

/-! ## Phases of either pipeline -/

namespace Plan

variable {s : Store} {plan : Plan} {watch : Watch} {interval : Nat} {inputs whole : List JoinInput}
  {final final' : JoinedTuples}

/-- The phases of a successful late run. -/
lemma finished_of_runLate {answer : Answer}
    (h : plan.runLate s.catalog watch interval = .ok answer) :
    ∃ whole final rows, plan.wholeTables s.catalog watch = .ok whole ∧
      plan.joinWhole watch interval whole = .ok final ∧
      plan.Finished s watch interval whole final rows answer := by
  unfold runLate at h
  obtain ⟨_, -, h⟩ := Result.bind_eq_ok.mp h
  obtain ⟨whole, hwhole, h⟩ := Result.bind_eq_ok.mp h
  obtain ⟨final, hfinal, h⟩ := Result.bind_eq_ok.mp h
  obtain ⟨rows, hrows, h⟩ := Result.bind_eq_ok.mp h
  obtain ⟨grouped, hgrouped, h⟩ := Result.bind_eq_ok.mp h
  obtain ⟨arranged, harranged, h⟩ := Result.bind_eq_ok.mp h
  obtain ⟨_, -, h⟩ := Result.bind_eq_ok.mp h
  obtain rfl := Result.pure_eq_ok.mp h
  exact ⟨whole, final, rows, hwhole, hfinal, hrows, ⟨grouped, hgrouped, harranged⟩, rfl⟩

/-- The late pipeline applies WHERE to the joined tuples, where there is one. -/
lemma joinWhole_eq_ok (h : plan.joinWhole watch interval whole = .ok final) :
    ∃ output, joinTables whole watch interval plan.joins = .ok output ∧
      ((∃ e, plan.selection = some e ∧ (output.keepAccepted whole e).result = .ok final) ∨
        (plan.selection = none ∧ final = output)) := by
  unfold joinWhole at h
  obtain ⟨output, hjoin, h⟩ := Result.bind_eq_ok.mp h
  refine ⟨output, hjoin, ?_⟩
  dsimp only at h
  split at h
  · rename_i e he
    obtain ⟨selected, hselected, h⟩ := Result.bind_eq_ok.mp h
    obtain ⟨_, -, h⟩ := Result.bind_eq_ok.mp h
    obtain rfl := Result.pure_eq_ok.mp h
    exact Or.inl ⟨e, he, hselected⟩
  · rename_i hnone
    obtain ⟨kept, hkept, h⟩ := Result.bind_eq_ok.mp h
    obtain rfl := Except.ok.inj hkept
    obtain ⟨_, -, h⟩ := Result.bind_eq_ok.mp h
    exact Or.inr ⟨hnone, (Result.pure_eq_ok.mp h).symm⟩

/-- What the late pipeline keeps of the joined rows are the choices that WHERE accepts. -/
lemma Gathered.choices_joinWhole {early : FromEntry → Option Expr}
    (gathered : plan.Gathered s early whole) (bound : plan.Bound s) (sound : s.Sound)
    (notReal : plan.KeysNotReal) (h : plan.joinWhole watch interval whole = .ok final) :
    ∃ pool output, plan.joins.mapM (PendingJoin.ofClause whole) = .ok pool ∧
      JoinInput.Executed whole pool output ∧ final.order = output.order ∧
      (∀ tuple ∈ final.tuples, tuple ∈ output.tuples) ∧
      plan.choices s early final = (plan.choices s early output).filter (plan.selects s) := by
  obtain ⟨output, hjoin, h⟩ := joinWhole_eq_ok h
  obtain ⟨pool, hpool, executed⟩ := JoinInput.executed_of_joinTables (gathered.namesApart bound)
    (gathered.clausePlain bound sound notReal) hjoin
  refine ⟨pool, output, hpool, executed, ?_⟩
  rcases h with ⟨e, he, hkept⟩ | ⟨hnone, rfl⟩
  · exact gathered.choices_keepAccepted bound executed he hkept
  · refine ⟨rfl, fun _ htuple => htuple, (List.filter_eq_self.mpr fun σ _ => ?_).symm⟩
    rw [selects, hnone]
    rfl

/-! ## Nothing ruled out -/

/-- No entry of the plan has an early predicate. -/
def RulesOutNothing (plan : Plan) : Prop :=
  ∀ b ∈ plan.tables, plan.earlyPredicate b.table = none

/-- Where nothing is ruled out the candidates are all rows. -/
lemma RulesOutNothing.candidates_eq (nothing : plan.RulesOutNothing) (catalog : Catalog)
    (watch : Watch) : plan.candidates catalog watch = plan.wholeTables catalog watch := by
  rw [candidates_eq_candidatesWith]
  refine mapM_congr fun pair hpair => ?_
  have hearly := nothing pair.1 (List.fst_mem_of_mem_zipIdx hpair)
  dsimp only
  rw [hearly]

/-- Where nothing is ruled out both pipelines keep the same tuples. -/
lemma RulesOutNothing.final_eq (nothing : plan.RulesOutNothing)
    (gathered : plan.Gathered s plan.earlyPredicate inputs) (bound : plan.Bound s) (sound : s.Sound)
    (notReal : plan.KeysNotReal) (h : plan.joinCandidates watch interval inputs = .ok final)
    (h' : plan.joinWhole watch interval inputs = .ok final') : final = final' := by
  obtain ⟨output, hjoin, h⟩ := joinCandidates_eq_ok h
  obtain ⟨output', hjoin', h'⟩ := joinWhole_eq_ok h'
  obtain rfl := Except.ok.inj (hjoin.symm.trans hjoin')
  rcases h' with ⟨e, he, hkept'⟩ | ⟨hnone', rfl⟩
  · rcases h with ⟨e', he', hkept⟩ | ⟨rfl, hnone | hsingle⟩
    · obtain rfl := Option.some.inj (he.symm.trans he')
      exact Except.ok.inj (hkept.symm.trans hkept')
    · rw [he] at hnone
      simp at hnone
    · -- one table alone would have been given the predicate early
      obtain ⟨pool, hpool, executed⟩ := JoinInput.executed_of_joinTables
        (gathered.namesApart bound) (gathered.clausePlain bound sound notReal) hjoin
      have hpositive : 0 < inputs.length := by
        obtain ⟨used, left, choices, grown, -, -⟩ := executed.grown
        have hlength := executed.covers.length_eq
        rw [JoinInput.positions, List.length_range] at hlength
        rw [← hlength]
        exact List.length_pos_iff.mpr grown.joined_ne_nil
      obtain ⟨b, hb, -, -⟩ := gathered.at_position hpositive
      have hearly := nothing b hb
      rw [earlyPredicate_of_single hpool executed hsingle, he] at hearly
      simp at hearly
  · rcases h with ⟨e', he', -⟩ | ⟨rfl, -⟩
    · rw [hnone'] at he'
      simp at he'
    · rfl

/-! ## Clauses in any order -/

/-- The choices that a pipeline keeps along separable clauses: those that fit the clauses and that
WHERE accepts, each once. -/
lemma Separable.mem_kept_iff (separable : plan.Separable) {early : FromEntry → Option Expr}
    (gathered : plan.Gathered s early inputs) (bound : plan.Bound s) (sound : s.Sound)
    (spares : plan.Spares early) {pool : List PendingJoin} {output : JoinedTuples}
    (hpool : plan.joins.mapM (PendingJoin.ofClause inputs) = .ok pool)
    (executed : JoinInput.Executed inputs pool output)
    (hkept : plan.choices s early final = (plan.choices s early output).filter (plan.selects s)) :
    (plan.choices s early final).Nodup ∧ ∀ σ, σ ∈ plan.choices s early final ↔
      ((s.space plan.entries).Valid σ ∧ σ.SupportedBy (List.range plan.entries.length) ∧
        (s.space plan.entries).Fits pool (List.range plan.entries.length) σ) ∧
      plan.selects s σ = true := by
  rw [hkept]
  refine ⟨(gathered.nodup_choices sound executed).filter _, fun σ => ?_⟩
  rw [List.mem_filter]
  refine and_congr_left fun selected => ?_
  exact gathered.mem_choices_iff bound sound spares hpool executed
    (separable.pool_compatible hpool) (separable.outerOwn gathered bound hpool) selected

/-- Both pipelines have the same bag of rows before these are grouped and arranged. -/
theorem perm_memberRows (bound : plan.Bound s) (sound : s.Sound) (notReal : plan.KeysNotReal)
    (h : plan.Separable ∨ plan.RulesOutNothing)
    (hinputs : plan.candidates s.catalog watch = .ok inputs)
    (hwhole : plan.wholeTables s.catalog watch = .ok whole)
    (hfinal : plan.joinCandidates watch interval inputs = .ok final)
    (hfinal' : plan.joinWhole watch interval whole = .ok final') {rows rows' : List Row}
    {answer answer' : Answer}
    (finished : plan.Finished s watch interval inputs final rows answer)
    (finished' : plan.Finished s watch interval whole final' rows' answer') :
    ∃ σs : List (Choice (Nat × Row)), (∀ σ ∈ σs, (s.space plan.entries).Valid σ) ∧
      (σs.mapM fun σ => plan.projection.evaluate .prefilter
        (FromEntry.shownRows plan.entries σ)) = .ok rows ∧ rows.Perm rows' := by
  have gathered := gathered_of_candidates hinputs
  obtain ⟨pool, output, hpool, executed, horder, htuples, hkept⟩ :=
    gathered.choices_joinCandidates bound sound notReal hfinal
  have projected := finished.mapM_choices gathered bound sound executed horder htuples
  refine ⟨_, fun σ hσ => ?_, projected, ?_⟩
  · rw [hkept] at hσ
    obtain ⟨c, hc, rfl⟩ := List.mem_map.mp (List.mem_filter.mp hσ).1
    exact (gathered.embeds sound).valid (valid_of_executed executed c hc)
  rcases h with separable | nothing
  · have gathered' := gathered_of_candidatesWith hwhole
    obtain ⟨pool', output', hpool', executed', horder', htuples', hkept'⟩ :=
      gathered'.choices_joinWhole bound sound notReal hfinal'
    have projected' := finished'.mapM_choices gathered' bound sound executed' horder' htuples'
    -- the clauses lie between the same entries, whichever rows these have
    obtain rfl : pool = pool' := by
      rw [ofClause_congr (gathered.entries_eq.trans gathered'.entries_eq.symm), hpool'] at hpool
      exact (Except.ok.inj hpool).symm
    obtain ⟨nodup, hmem⟩ := separable.mem_kept_iff gathered bound sound
      (spares_earlyPredicate plan) hpool executed hkept
    obtain ⟨nodup', hmem'⟩ := separable.mem_kept_iff gathered' bound sound (spares_none plan)
      hpool' executed' hkept'
    have hperm : (plan.choices s plan.earlyPredicate final).Perm
        (plan.choices s (fun _ => none) final') :=
      (List.perm_ext_iff_of_nodup nodup nodup').mpr fun σ => (hmem σ).trans (hmem' σ).symm
    obtain ⟨found, hfound, hrows⟩ := exists_mapM_of_perm hperm projected
    rwa [Except.ok.inj (projected'.symm.trans hfound)]
  · rw [nothing.candidates_eq] at hinputs
    obtain rfl := Except.ok.inj (hinputs.symm.trans hwhole)
    obtain rfl := nothing.final_eq gathered bound sound notReal hfinal hfinal'
    exact List.Perm.of_eq (Except.ok.inj (finished.projected.symm.trans finished'.projected))

end Plan

/-! ## Answers -/

namespace Query

/-- A query that was answered late had a plan, which ran. -/
lemma runLate_of_executeLate {s : Store} {query : Query} {watch : Watch} {interval session : Nat}
    {locks : LockTable} {answer : Answer}
    (h : query.executeLate s.catalog watch interval session locks = .ok answer) :
    ∃ plan, query.plan s.catalog = .ok plan ∧
      plan.runLate s.catalog watch interval = .ok answer := by
  unfold executeLate at h
  split at h
  · simp at h
  · split at h
    · simp at h
    · exact Result.bind_eq_ok'.mp h

/-- Early predicates are invisible in the answer, as a bag of rows, where the clauses may be met in
any order and where nothing is ruled out early. -/
theorem execute_perm_executeLate {s : Store} (reachable : s.Reachable) {query : Query}
    (notReal : query.KeysNotReal s)
    (orderly : ∀ plan, query.plan s.catalog = .ok plan → plan.Separable ∨ plan.RulesOutNothing)
    (folds : query.needsGrouping = true → query.FoldsExactly s) {watch : Watch}
    {interval session : Nat} {locks : LockTable} {answer late : Answer}
    (h : (query.execute s.catalog watch interval session locks).1 = .ok answer)
    (h' : query.executeLate s.catalog watch interval session locks = .ok late) :
    answer.rows.Perm late.rows := by
  obtain ⟨checked, plan, hplan, hrun⟩ := run_of_execute h
  obtain ⟨plan', hplan', hrun'⟩ := runLate_of_executeLate h'
  obtain rfl := Except.ok.inj (hplan.symm.trans hplan')
  have sound := reachable.sound
  have bound := Plan.bound_of_planned checked (planned_of_plan hplan)
  obtain ⟨inputs, final, rows, hinputs, hfinal, finished⟩ := Plan.finished_of_run hrun
  obtain ⟨whole, final', rows', hwhole, hfinal', finished'⟩ := Plan.finished_of_runLate hrun'
  obtain ⟨σs, valid, projected, hrows⟩ := Plan.perm_memberRows bound sound (notReal plan hplan)
    (orderly plan hplan) hinputs hwhole hfinal hfinal' finished finished'
  obtain ⟨grouped, hgrouped, harranged⟩ := finished.arranged
  obtain ⟨grouped', hgrouped', harranged'⟩ := finished'.arranged
  have hgroups := bound.perm_of_group sound hplan folds valid projected hrows hgrouped hgrouped'
  exact Plan.perm_of_arrange hgroups harranged harranged'

/-- Where nobody writes, a query with proper entries is answered late. -/
lemma executeLate_of_unwritten {t : LockTable} (unwritten : ∀ lock ∈ t.locks, lock.writer = none)
    {query : Query} (checked : query.checkEntries = .ok ()) (catalog : Catalog) (watch : Watch)
    (interval session : Nat) : query.executeLate catalog watch interval session t =
      (query.plan catalog).bind (Plan.runLate catalog watch interval) := by
  obtain ⟨guard, t', taken⟩ := LockGuard.exists_extend_of_unwritten unwritten ⟨session, []⟩
    (query.tables.map FromEntry.name)
  rw [executeLate, checked, LockGuard.take, taken]

/-! ### Three tables in a row -/

/-- The requests that fill the tables `a` and `c` with columns `k` and `x`, and `b` with a column
`k`. -/
def chainRequests (first second third : List (List Int64)) : List Store.Request :=
  Store.Request.fill "a" ["k", "x"] first ++ Store.Request.fill "b" ["k"] second ++
    Store.Request.fill "c" ["k", "x"] third

/-- The store of these tables. -/
def chainStore (first second third : List (List Int64)) : Store :=
  ⟨[.ofIntegers "a" ["k", "x"] first, .ofIntegers "b" ["k"] second,
    .ofIntegers "c" ["k", "x"] third]⟩

/-- The query that joins these tables in a row by their columns `k`. -/
def chainQuery (kind kind' : JoinKind) (selection : Expr) : Query :=
  selecting [.written "a" "k", .written "c" "x"] ["a", "b", "c"]
    [.between "a" "b" kind (.equates (.written "a" "k") (.written "b" "k")),
      .between "b" "c" kind' (.equates (.written "b" "k") (.written "c" "k"))] (some selection)

/-- The clauses of the query, resolved. -/
def chainClauses (kind kind' : JoinKind) : List JoinClause :=
  let key (table : String) : Expr := .column ⟨"k", some table, some .integer, some 0⟩ none
  [.between "a" "b" kind (.equates (key "a") (key "b")),
    .between "b" "c" kind' (.equates (key "b") (key "c"))]

/-- The condition that a column is less than 9. -/
def belowNine (table name : String) : Expr :=
  .binary (.comparison .lt) (.written table name) (.literal (.integer 9) none) none

/-- The condition that a column is NULL. -/
def isNull (table name : String) : Expr :=
  .binary .is (.written table name) (.literal .null none) none

/-- Rows of the first table are ruled out early, and the engine starts from it. -/
lemma execute_below : ((chainQuery .inner .left (belowNine "a" "x")).execute
    (chainStore [[1, 4], [2, 4], [3, 9]] [[2], [1]] [[2, 5], [3, 6]]).catalog .never 1 0 .empty).1 =
      .ok ⟨["k", "x"], [[.integer 1, .null], [.integer 2, .integer 5]]⟩ := by
  rw [execute_of_unwritten (by decide) (by decide)]
  cbv

/-- The late pipeline starts from the second table. -/
lemma executeLate_below : (chainQuery .inner .left (belowNine "a" "x")).executeLate
    (chainStore [[1, 4], [2, 4], [3, 9]] [[2], [1]] [[2, 5], [3, 6]]).catalog .never 1 0 .empty =
      .ok ⟨["k", "x"], [[.integer 2, .integer 5], [.integer 1, .null]]⟩ := by
  rw [executeLate_of_unwritten (by decide) (by decide)]
  cbv

/-- An INNER clause and a LEFT clause after it may be met in any order. -/
theorem execute_perm_executeLate_left : ∃ (s : Store) (query : Query) (answer late : Answer),
    s.Reachable ∧ (query.execute s.catalog .never 1 0 .empty).1 = .ok answer ∧
      query.executeLate s.catalog .never 1 0 .empty = .ok late ∧
      answer.rows = [[.integer 1, .null], [.integer 2, .integer 5]] ∧
      late.rows = [[.integer 2, .integer 5], [.integer 1, .null]] ∧
      answer.rows.Perm late.rows := by
  let s : Store := chainStore [[1, 4], [2, 4], [3, 9]] [[2], [1]] [[2, 5], [3, 6]]
  let query := chainQuery .inner .left (belowNine "a" "x")
  have reachable : s.Reachable := Store.Reachable.empty.requests
    (chainRequests [[1, 4], [2, 4], [3, 9]] [[2], [1]] [[2, 5], [3, 6]]) (by cbv)
  have notReal : query.KeysNotReal s := keysNotReal_of_columns (by decide) query
  have hjoins : (query.plan s.catalog).map Plan.joins = .ok (chainClauses .inner .left) := by cbv
  have separable : ∀ plan, query.plan s.catalog = .ok plan → plan.Separable := by
    intro plan hplan
    rw [hplan] at hjoins
    have hclauses := Except.ok.inj hjoins
    refine ⟨?_, fun clause hclause houter => ?_⟩
    · rw [hclauses]
      decide
    · rw [hclauses, chainClauses, List.mem_cons, List.mem_singleton] at hclause
      rcases hclause with rfl | rfl
      · exact absurd houter (by decide)
      · exact ⟨_, _, _, rfl, rfl, Or.inl (by decide)⟩
  have hperm := execute_perm_executeLate reachable notReal
    (fun plan hplan => Or.inl (separable plan hplan))
    (fun hgrouping => absurd hgrouping (by decide)) execute_below executeLate_below
  exact ⟨s, query, _, _, reachable, execute_below, executeLate_below, rfl, rfl, hperm⟩

/-- The only row of the last table is ruled out early, and the row of the first table is padded. -/
lemma execute_isNull : ((chainQuery .left .inner (isNull "c" "x")).execute
    (chainStore [[1, 4]] [[1]] [[1, 5]]).catalog .never 1 0 .empty).1 =
      .ok ⟨["k", "x"], [[.integer 1, .null]]⟩ := by
  rw [execute_of_unwritten (by decide) (by decide)]
  cbv

/-- With all rows at hand the row of the first table has its partners. -/
lemma executeLate_isNull : (chainQuery .left .inner (isNull "c" "x")).executeLate
    (chainStore [[1, 4]] [[1]] [[1, 5]]).catalog .never 1 0 .empty = .ok ⟨["k", "x"], []⟩ := by
  rw [executeLate_of_unwritten (by decide) (by decide)]
  cbv

/-- An INNER clause after a LEFT one lets early predicates be seen: no clause pads the last table,
its only row is ruled out, the engine starts from it, and the row of the first table is padded where
it had partners. -/
theorem not_forall_perm_executeLate : ¬∀ (s : Store) (query : Query) (answer late : Answer),
    s.Reachable → query.KeysNotReal s →
      (query.execute s.catalog .never 1 0 .empty).1 = .ok answer →
      query.executeLate s.catalog .never 1 0 .empty = .ok late →
      answer.rows.Perm late.rows := by
  intro h
  have reachable : (chainStore [[1, 4]] [[1]] [[1, 5]]).Reachable := Store.Reachable.empty.requests
    (chainRequests [[1, 4]] [[1]] [[1, 5]]) (by cbv)
  have notReal := keysNotReal_of_columns (s := chainStore [[1, 4]] [[1]] [[1, 5]]) (by decide)
    (chainQuery .left .inner (isNull "c" "x"))
  have hperm := h _ _ _ _ reachable notReal execute_isNull executeLate_isNull
  exact absurd hperm.length_eq (by decide)

end Query

end RelQuery
