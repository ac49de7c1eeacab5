import Mathlib
import RelQuery.Proofs.Engine.InnerJoins
import RelQuery.Proofs.Faults.Grouping
import RelQuery.Proofs.Faults.Reading
import RelQuery.Proofs.Join.Covering
import RelQuery.Proofs.Lock.Restored

/-!
# Queries raise no fault

A query that selects something from tables connected by its joins raises no fault: every phase finds
what the earlier phases have promised it.  The joins are read as a graph on the FROM list, in which
the walk reaches every table exactly when the graph is connected.
-/

namespace RelQuery

open Result

/-! ## The graph of the joins -/

namespace Query

/-- The FROM list as a graph: two entries are adjacent when a clause joins them. -/
def joinGraph (query : Query) : SimpleGraph (Fin query.tables.length) :=
  SimpleGraph.fromRel fun a b => ∃ clause ∈ query.joins,
    query.tables[a].same clause.left = true ∧ query.tables[b].same clause.right = true

/-- The clauses of a plan join the same entries as those of its query. -/
lemma graph_eq_of_planned {catalog : Catalog} {query : Query} {plan : Plan}
    (planned : Planned catalog query plan) :
    FromEntry.graph query.tables plan.joins = query.joinGraph := by
  have hsides (a b : FromEntry) : (∃ clause ∈ plan.joins, a.same clause.left = true ∧
      b.same clause.right = true) ↔ ∃ clause ∈ query.joins, a.same clause.left = true ∧
        b.same clause.right = true := by
    constructor
    · rintro ⟨resolved, hresolved, hboth⟩
      obtain ⟨clause, hclause, hresolve⟩ := source_of_mem_of_mapM planned.joins hresolved
      obtain ⟨hl, hr, -, -⟩ := resolveClause_eq_ok hresolve
      exact ⟨clause, hclause, by rwa [← hl, ← hr]⟩
    · rintro ⟨clause, hclause, hboth⟩
      obtain ⟨resolved, hresolved, hresolve⟩ := ok_of_mem_of_mapM planned.joins hclause
      obtain ⟨hl, hr, -, -⟩ := resolveClause_eq_ok hresolve
      exact ⟨resolved, hresolved, by rwa [hl, hr]⟩
  unfold FromEntry.graph joinGraph
  congr 1
  funext a b
  exact propext (hsides _ _)

/-- In a connected graph every part of the tables is left by a clause. -/
lemma connected_pool {catalog : Catalog} {query : Query} {plan : Plan}
    (planned : Planned catalog query plan) {inputs : List JoinInput}
    (htables : inputs.map JoinInput.table = query.tables) (apart : JoinInput.NamesApart inputs)
    {pool : List PendingJoin} (hpool : plan.joins.mapM (PendingJoin.ofClause inputs) = .ok pool)
    (connected : query.joinGraph.Connected) : JoinInput.Connected inputs.length pool :=
  JoinInput.connected_of_graph htables apart hpool (graph_eq_of_planned planned ▸ connected)

end Query

/-! ## The phases -/

namespace Plan

variable {s : Store} {plan : Plan} {early : FromEntry → Option Expr} {inputs : List JoinInput}

/-- WHERE is applied to joined tuples without faults. -/
lemma gives_joinCandidates {watch : Watch} {interval : Nat}
    (joined : (joinTables inputs watch interval plan.joins).Gives (JoinInput.Complete inputs))
    (serves : ∀ e, plan.selection = some e → JoinInput.Serves inputs e) :
    (plan.joinCandidates watch interval inputs).Gives (JoinInput.Complete inputs) := by
  have kept {predicate : Expr} (hserves : JoinInput.Serves inputs predicate)
      {output : JoinedTuples} (complete : JoinInput.Complete inputs output) :
      (output.keepAccepted inputs predicate).result.Gives (JoinInput.Complete inputs) := by
    have hfilter := gives_filterResult fun tuple htuple =>
      hserves.faultless_acceptsTuple complete.inside (complete.fits tuple htuple)
    unfold JoinedTuples.keepAccepted
    split
    · rename_i kept hkept
      exact ⟨complete.inside, complete.covers,
        fun tuple htuple => complete.fits tuple (hfilter.of_ok hkept htuple)⟩
    · rename_i error herror
      exact hfilter.of_error herror
  have polled {output : JoinedTuples} (complete : JoinInput.Complete inputs output) :
      (watch.poll .joined >>= fun _ => pure output).Gives (JoinInput.Complete inputs) :=
    (faultless_poll watch _).bind fun _ _ _ => complete
  refine joined.bind fun output _ complete => ?_
  dsimp only
  split
  · rename_i predicate hpredicate
    split
    · exact (kept (serves predicate hpredicate) complete).bind fun _ _ kept => polled kept
    · exact polled complete
  · exact polled complete

/-- Rows are sorted and cut without faults, and duplicates among rows of short texts are removed
without faults. -/
lemma faultless_arrange {rows : List Row} (short : plan.distinct = true →
    ∀ row ∈ cutToVisible plan.projection rows, row.ShortTexts) : (plan.arrange rows).Faultless := by
  rw [arrange]
  cases hdistinct : plan.distinct with
  | false => trivial
  | true =>
    rw [if_pos rfl]
    refine faultless_distinctRows fun row hrow => short hdistinct row ?_
    obtain ⟨whole, hwhole, rfl⟩ := List.mem_map.mp hrow
    refine List.mem_map_of_mem ?_
    split at hwhole
    · exact hwhole
    · exact mem_stableSort.mp hwhole

end Plan

namespace LockGuard

/-- A guard that cannot be had is no fault. -/
lemma faultless_take (session : Nat) (tables : List String) (t : LockTable) :
    (take session tables t).1.Faultless := by
  have extend (guard : LockGuard) (t : LockTable) : (guard.extend t tables).1.Faultless := by
    induction tables generalizing guard t with
    | nil => trivial
    | cons table rest ih =>
      rw [LockGuard.extend, LockTable.tryShared_eq]
      split
      · rename_i hrefused
        split at hrefused
        · simp at hrefused
        · exact ih _ _
      · rename_i hrefused
        split at hrefused
        · obtain ⟨herror, -⟩ := Prod.mk.inj hrefused
          rw [← Except.error.inj herror]
          rfl
        · simp at hrefused
  exact extend ⟨session, []⟩ t

end LockGuard

namespace Query

/-- The texts of all rows among which DISTINCT looks for duplicates are shorter than 4 GiB. -/
def ShortTexts (s : Store) (watch : Watch) (interval : Nat) (query : Query) : Prop :=
  ∀ plan inputs output rows grouped, query.plan s.catalog = .ok plan →
    plan.candidates s.catalog watch = .ok inputs →
    plan.joinCandidates watch interval inputs = .ok output →
    plan.memberRows s.catalog watch interval inputs output = .ok rows →
    plan.group watch rows = .ok grouped → plan.distinct = true →
    ∀ row ∈ cutToVisible plan.projection grouped, row.ShortTexts

/-- A query that selects something from some tables is checked without faults. -/
lemma faultless_checkEntries {query : Query} (hmembers : query.projection.isEmpty = false)
    (htables : query.tables ≠ []) : query.checkEntries.Faultless := by
  have hsome : query.tables.isEmpty = false := by simpa using htables
  rw [checkEntries, hmembers, hsome]
  simp only [Bool.false_eq_true, if_false]
  split
  · rfl
  · split
    · rfl
    · trivial

/-- Each side of a clause is an entry of a checked query. -/
lemma known_of_checked {query : Query} (checked : query.checkEntries = .ok ()) {clause : JoinClause}
    (hclause : clause ∈ query.joins) : (∃ entry ∈ query.tables, entry.same clause.left = true) ∧
      ∃ entry ∈ query.tables, entry.same clause.right = true := by
  have hknown : query.joins.findSome? (unknownSide? query.tables) = none := by
    unfold checkEntries at checked
    repeat' split at checked
    all_goals first | assumption | simp at checked
  have hsides := List.find?_eq_none.mp (List.findSome?_eq_none_iff.mp hknown clause hclause)
  have side (ref : FromEntry) (href : ref ∈ [clause.left, clause.right]) :
      ∃ entry ∈ query.tables, entry.same ref = true := by
    simpa using hsides ref href
  exact ⟨side _ (by simp), side _ (by simp)⟩

/-- A checked query over connected tables is answered without faults. -/
lemma faultless_answer {s : Store} (sound : s.Sound) {query : Query}
    (checked : query.checkEntries = .ok ()) (connected : query.joinGraph.Connected) {watch : Watch}
    {interval : Nat} (short : query.ShortTexts s watch interval) :
    (query.answer s.catalog watch interval).Faultless := by
  refine Gives.bind (faultless_plan s query) fun plan hplan _ => ?_
  have planned := planned_of_plan hplan
  have bound := Plan.bound_of_planned checked planned
  obtain ⟨hkeys, hhaving⟩ := planned.refers
  obtain ⟨groupBy, grouping⟩ := planned.exists_grouping
  refine (faultless_poll watch _).bind fun _ _ _ => ?_
  refine (bound.faultless_candidates sound watch).bind fun inputs hinputs _ => ?_
  have gathered := Plan.gathered_of_candidates hinputs
  have htables : inputs.map JoinInput.table = query.tables :=
    gathered.entries_eq.trans (Plan.entries_of_planned planned)
  have joined : (joinTables inputs watch interval plan.joins).Gives
      (JoinInput.Complete inputs) := by
    refine JoinInput.gives_joinTables ?_ (fun clause hclause => ?_) (fun clause hclause e he => ?_)
      fun pool hpool => connected_pool planned htables (gathered.namesApart bound) hpool connected
    · rintro rfl
      exact (checkEntries_eq_ok checked).1 htables.symm
    · obtain ⟨declared, hdeclared, hresolve⟩ := source_of_mem_of_mapM planned.joins hclause
      obtain ⟨hl, hr, -, -⟩ := resolveClause_eq_ok hresolve
      simpa [hl, hr, ← htables] using known_of_checked checked hdeclared
    · exact gathered.serves bound
        (List.mem_append_right _ (List.mem_filterMap.mpr ⟨clause, hclause, he⟩))
  have serves : ∀ e, plan.selection = some e → JoinInput.Serves inputs e := fun e he =>
    gathered.serves bound (List.mem_append_left _ (by simp [he]))
  refine (Plan.gives_joinCandidates joined serves).bind fun output houtput complete => ?_
  refine (gathered.gives_memberRows bound sound grouping.resolved complete).bind
    fun rows hrows hwidths => ?_
  refine (Plan.faultless_group hwidths hkeys hhaving).bind fun grouped hgrouped _ => ?_
  refine (Plan.faultless_arrange ?_).bind fun _ _ _ =>
    (faultless_poll watch _).bind fun _ _ _ => trivial
  exact short plan inputs output rows grouped hplan hinputs houtput hrows hgrouped

/-- A fault of a query comes from an empty projection, an empty FROM list or a FROM list that the
clauses leave in several parts. -/
theorem execute_fault_only_unconnected {s : Store} (reachable : s.Reachable) {query : Query}
    {watch : Watch} {interval : Nat} (short : query.ShortTexts s watch interval) (session : Nat)
    (locks : LockTable) {error : Error}
    (h : (query.execute s.catalog watch interval session locks).1 = .error error)
    (fault : error.isFault = true) :
    query.projection.isEmpty = true ∨ query.tables = [] ∨ ¬ query.joinGraph.Connected := by
  by_contra hnone
  rw [not_or, not_or, not_not] at hnone
  obtain ⟨hmembers, htables, connected⟩ := hnone
  have faultless : (query.execute s.catalog watch interval session locks).1.Faultless := by
    unfold execute
    split
    · rename_i error herror
      exact (faultless_checkEntries (by simpa using hmembers) htables).of_error herror
    · rename_i checked
      split
      · rename_i herror
        exact (LockGuard.faultless_take _ _ _).of_error (congrArg Prod.fst herror)
      · exact faultless_answer reachable.sound checked connected short
  exact absurd fault (by rw [faultless.of_error h]; decide)

/-- Two joined tables, and a third one that no clause joins to them. -/
theorem execute_fault_only_unconnected_three : ∃ (s : Store) (query : Query) (error : Error),
    s.Reachable ∧ query.ShortTexts s .never 1 ∧
      (query.execute s.catalog .never 1 0 .empty).1 = .error error ∧
      error = .fault (.disconnected ["c"]) ∧ error.isFault = true ∧
      query.projection.isEmpty = false ∧ query.tables.length = 3 ∧
      ¬ query.joinGraph.Connected := by
  let s : Store := ⟨[.ofIntegers "a" ["k"] [[1]], .ofIntegers "b" ["k"] [[1]],
    .ofIntegers "c" ["x"] [[8], [9]]]⟩
  let query := Query.selecting [.written "a" "k", .written "c" "x"] ["a", "b", "c"]
    [.between "a" "b" .inner (.equates (.written "a" "k") (.written "b" "k"))] none
  have reachable : s.Reachable := Store.Reachable.empty.requests
    (Store.Request.fill "a" ["k"] [[1]] ++ Store.Request.fill "b" ["k"] [[1]] ++
      Store.Request.fill "c" ["x"] [[8], [9]]) (by cbv)
  have ran : (query.execute s.catalog .never 1 0 .empty).1 =
      .error (.fault (.disconnected ["c"])) := by
    rw [execute_of_unwritten (by decide) (by decide)]
    cbv
  have short : query.ShortTexts s .never 1 := by
    intro plan _ _ _ _ hplan _ _ _ _ hdistinct
    exact absurd ((planned_of_plan hplan).distinct.symm.trans hdistinct) (by decide)
  have hcause := execute_fault_only_unconnected reachable short 0 .empty ran rfl
  exact ⟨s, query, _, reachable, short, ran, rfl, rfl, rfl, rfl,
    (hcause.resolve_left (by decide)).resolve_left (by decide)⟩

end Query

end RelQuery
