import RelQuery.Proofs.Engine.Projected
import RelQuery.Proofs.Lock.Restored

/-!
# The reference result of a query

A query that neither groups, sorts nor removes duplicates means the joined rows on which WHERE is
TRUE, projected.  The reference evaluates everything in full mode on whole stored rows and leaves
open what the joined rows are, so that each way of joining can be put in its place.
-/

namespace RelQuery

/-- The condition is TRUE on the rows in full mode, where no condition is TRUE on all rows. -/
def trueOn (rows : List LogicalRow) : Option Expr → Bool
  | some condition => Result.holds (condition.accepts rows)
  | none => true

/-- A row space of stored rows accepts what is TRUE on the rows shown. -/
lemma Store.accepts_eq_trueOn (s : Store) (entries : List FromEntry) (on : Option Expr)
    (σ : Choice (Nat × Row)) :
    (s.space entries).accepts on σ = trueOn (FromEntry.shownRows entries σ) on := by
  cases on <;> rfl

/-- A folded condition is TRUE where the condition is. -/
lemma trueOn_foldConstants {e folded : Expr} (h : e.foldConstants = .ok folded)
    (rows : List LogicalRow) : trueOn rows (some folded) = trueOn rows (some e) := by
  simp only [trueOn, Expr.accepts, (Expr.isFolding_of_foldConstants h).outcome]
  cases e.evaluate .full rows with
  | error error => rfl
  | ok outcome => cases outcome <;> rfl

/-- Along compatible clauses a run joins the choices that fit the clauses, each once, and keeps
those that WHERE accepts. -/
theorem Plan.Ran.perm_shown {s : Store} {plan : Plan} {watch : Watch} {answer : Answer}
    {inputs : List JoinInput} {pool : List PendingJoin} {output final : JoinedTuples}
    {rows : List Row} (ran : plan.Ran s watch answer inputs pool output final rows)
    (sound : s.Sound) (bound : plan.Bound s)
    (compatible : pool.Pairwise PendingJoin.Compatible) (own : plan.OuterOwn pool)
    {joined : List (List LogicalRow)} (nodup : joined.Nodup)
    (fits : ∀ shown, shown ∈ joined ↔ ∃ σ : Choice (Nat × Row),
      (s.space plan.entries).Valid σ ∧ σ.SupportedBy (List.range plan.entries.length) ∧
        (s.space plan.entries).Fits pool (List.range plan.entries.length) σ ∧
          FromEntry.shownRows plan.entries σ = shown) :
    ((plan.choices s plan.earlyPredicate final).map (FromEntry.shownRows plan.entries)).Perm
      (joined.filter fun rows => trueOn rows plan.selection) := by
  have hchoices := fun σ => ran.mem_choices_iff bound sound compatible own (σ := σ)
  refine (List.perm_ext_iff_of_nodup ?_ (nodup.filter _)).mpr fun shown => ?_
  · refine List.Nodup.map_on (fun σ hσ σ' hσ' heq => ?_) (ran.nodup sound)
    have supported := ((hchoices σ).mp hσ).1.2.1
    have supported' := ((hchoices σ').mp hσ').1.2.1
    exact FromEntry.shownRows_inj supported supported' heq
  · rw [List.mem_filter, fits, List.mem_map]
    constructor
    · rintro ⟨σ, hσ, rfl⟩
      obtain ⟨⟨valid, supported, hfits⟩, selected⟩ := (hchoices σ).mp hσ
      rw [Plan.selects, Store.accepts_eq_trueOn] at selected
      exact ⟨⟨σ, valid, supported, hfits, rfl⟩, selected⟩
    · rintro ⟨⟨σ, valid, supported, hfits, rfl⟩, selected⟩
      refine ⟨σ, (hchoices σ).mpr ⟨⟨valid, supported, hfits⟩, ?_⟩, rfl⟩
      rwa [Plan.selects, Store.accepts_eq_trueOn]

namespace Query

/-- The query neither groups, sorts nor removes duplicates. -/
structure Unarranged (query : Query) : Prop where
  ungrouped : query.needsGrouping = false
  unsorted : query.orderBy = []
  repeated : query.distinct = false

/-- The WHERE predicate, resolved. -/
def resolveWhere (tables : List BoundEntry) : Option Expr → Result (Option Expr)
  | none => .ok none
  | some predicate => (resolvePlain tables .selection predicate).map some

/-- The joined rows on which WHERE is TRUE, projected.  What the rows are is a function of the
resolved join clauses. -/
def resultOf (s : Store) (query : Query) (joined : List JoinClause → List (List LogicalRow)) :
    Result (List Row) := do
  let tables ← query.tables.mapM (bindTable s.catalog)
  let projection ← (query.projection.resolve tables).result
  let selection ← resolveWhere tables query.selection
  let joins ← query.joins.mapM (resolveClause tables)
  ((joined joins).filter fun rows => trueOn rows selection).mapM fun rows =>
    projection.visible.mapM (Projection.evaluateMember .full rows)

/-- The WHERE predicate of a plan is TRUE where the resolved one is. -/
lemma Planned.exists_resolveWhere {catalog : Catalog} {query : Query} {plan : Plan}
    (planned : Planned catalog query plan) :
    ∃ selection, resolveWhere plan.tables query.selection = .ok selection ∧
      ∀ rows, trueOn rows plan.selection = trueOn rows selection := by
  have hselection := planned.selection
  cases hquery : query.selection with
  | none =>
    rw [hquery] at hselection
    rw [← Except.ok.inj hselection]
    exact ⟨none, rfl, fun _ => rfl⟩
  | some predicate =>
    rw [hquery] at hselection
    obtain ⟨resolved, folded, hresolved, hfolded, hplan⟩ := resolveSelection_eq_ok hselection
    refine ⟨some resolved, ?_, fun rows => ?_⟩
    · rw [resolveWhere, hresolved]
      rfl
    · rw [hplan]
      exact trueOn_foldConstants hfolded rows

/-- The visible members of a row in full mode, where all members have their values early. -/
lemma Planned.visible_of_evaluate {s : Store} {query : Query} {plan : Plan}
    (planned : Planned s.catalog query plan) (bound : plan.Bound s) (unarranged : query.Unarranged)
    {σ : Choice (Nat × Row)} {row : Row}
    (h : plan.projection.evaluate .prefilter (FromEntry.shownRows plan.entries σ) = .ok row) :
    (plan.projection.visible.mapM
        (Projection.evaluateMember .full (FromEntry.shownRows plan.entries σ))) =
      .ok (row.take plan.projection.visible.length) := by
  obtain ⟨hresolve, -⟩ := planned.plain unarranged.ungrouped unarranged.unsorted
  have resolved := Projection.resolvedIn_of_resolve hresolve
  rw [Projection.evaluate, Projection.members, List.mapM_append] at h
  obtain ⟨visible, hvisible, h⟩ := Result.bind_eq_ok.mp h
  obtain ⟨hidden, -, h⟩ := Result.bind_eq_ok.mp h
  obtain rfl := Result.pure_eq_ok.mp h
  rw [← length_of_mapM hvisible, List.take_left]
  refine (mapM_congr fun e he => ?_).trans hvisible
  unfold Projection.evaluateMember
  rw [bound.evaluate_mode (resolved e (List.mem_append_left _ he)) .full .prefilter]

/-- A run gives the reference result on joined rows that are those of its choices. -/
theorem exists_resultOf {s : Store} {query : Query} {plan : Plan}
    (planned : Planned s.catalog query plan) (bound : plan.Bound s) (unarranged : query.Unarranged)
    {watch : Watch} {answer : Answer} {inputs : List JoinInput} {pool : List PendingJoin}
    {output final : JoinedTuples} {rows : List Row}
    (ran : plan.Ran s watch answer inputs pool output final rows)
    {joined : List JoinClause → List (List LogicalRow)}
    (hjoined : ((plan.choices s plan.earlyPredicate final).map
        (FromEntry.shownRows plan.entries)).Perm
      ((joined plan.joins).filter fun rows => trueOn rows plan.selection)) :
    ∃ result, query.resultOf s joined = .ok result ∧ answer.rows.Perm result := by
  obtain ⟨hresolve, hsort⟩ := planned.plain unarranged.ungrouped unarranged.unsorted
  obtain ⟨selection, hselection, hsame⟩ := planned.exists_resolveWhere
  -- the answer is the rows, cut to the visible members
  have hanswer : answer.rows = rows.map (·.take plan.projection.visible.length) := by
    obtain ⟨grouped, hgrouped, harranged⟩ := ran.arranged
    have hungrouped : plan.grouped = false := planned.grouped.trans unarranged.ungrouped
    have hrepeated : plan.distinct = false := planned.distinct.trans unarranged.repeated
    rw [Plan.group, hungrouped] at hgrouped
    obtain rfl := Except.ok.inj hgrouped
    rw [Plan.arrange, hsort, hrepeated] at harranged
    exact (Except.ok.inj harranged).symm
  have hprojected : (((plan.choices s plan.earlyPredicate final).map
      (FromEntry.shownRows plan.entries)).mapM fun rows =>
        plan.projection.visible.mapM (Projection.evaluateMember .full rows)) = .ok answer.rows := by
    rw [List.mapM_map, hanswer, mapM_eq_ok, List.forall₂_map_right_iff]
    exact List.Forall₂.imp (fun σ row h => planned.visible_of_evaluate bound unarranged h)
      (mapM_eq_ok.mp ran.projected)
  obtain ⟨result, hresult, hperm⟩ := exists_mapM_of_perm hjoined hprojected
  refine ⟨result, ?_, hperm⟩
  unfold resultOf
  refine Result.bind_eq_ok.mpr ⟨_, planned.tables, Result.bind_eq_ok.mpr ⟨_,
    Resolution.result_eq_ok.mpr hresolve, Result.bind_eq_ok.mpr ⟨_, hselection,
      Result.bind_eq_ok.mpr ⟨_, planned.joins, ?_⟩⟩⟩⟩
  simp only [hsame] at hresult
  exact hresult

/-- Along compatible clauses a run gives the reference result on joined rows that show the choices
that fit the clauses, each once. -/
theorem exists_resultOf_of_fits {s : Store} (sound : s.Sound) {query : Query} {plan : Plan}
    (planned : Planned s.catalog query plan) (bound : plan.Bound s) (unarranged : query.Unarranged)
    {watch : Watch} {answer : Answer} {inputs : List JoinInput} {pool : List PendingJoin}
    {output final : JoinedTuples} {rows : List Row}
    (ran : plan.Ran s watch answer inputs pool output final rows)
    (compatible : pool.Pairwise PendingJoin.Compatible) (own : plan.OuterOwn pool)
    {joined : List JoinClause → List (List LogicalRow)} (nodup : (joined plan.joins).Nodup)
    (fits : ∀ shown, shown ∈ joined plan.joins ↔ ∃ σ : Choice (Nat × Row),
      (s.space plan.entries).Valid σ ∧ σ.SupportedBy (List.range plan.entries.length) ∧
        (s.space plan.entries).Fits pool (List.range plan.entries.length) σ ∧
          FromEntry.shownRows plan.entries σ = shown) :
    ∃ result, query.resultOf s joined = .ok result ∧ answer.rows.Perm result :=
  exists_resultOf planned bound unarranged ran
    (ran.perm_shown sound bound compatible own nodup fits)

/-- No matched clause of the query equates a column that is declared REAL. -/
def KeysNotReal (s : Store) (query : Query) : Prop :=
  ∀ plan, query.plan s.catalog = .ok plan → plan.KeysNotReal

/-- A store without REAL columns has none to equate. -/
lemma keysNotReal_of_columns {s : Store}
    (h : ∀ t ∈ s.tables, ∀ column ∈ t.definition.columns, column.columnType ≠ .real)
    (query : Query) : query.KeysNotReal s := by
  intro plan hplan clause hclause _ on left right hon hequated
  have planned := planned_of_plan hplan
  have he : on ∈ plan.conditions :=
    List.mem_append_right _ (List.mem_filterMap.mpr ⟨clause, hclause, hon⟩)
  have typed : ∀ ref ∈ on.columns, ref.columnType ≠ some .real := by
    intro ref href
    obtain ⟨b, hb, index, hdeclares⟩ := Plan.resolved_of_planned planned on he ref href
    obtain ⟨column, hcolumn, rfl⟩ := hdeclares.declared
    obtain ⟨t, ht, hdefinition⟩ := Plan.stored_of_planned planned b hb
    rw [← hdefinition] at hcolumn
    have := h t (Store.get_eq_ok ht).2 column (List.mem_of_getElem? hcolumn)
    simpa [ColumnRef.declared] using this
  have hcolumns := Expr.columns_of_equated hequated
  exact ⟨typed left (by simp [hcolumns]), typed right (by simp [hcolumns])⟩

/-- A query that was answered had proper entries and a plan, which ran. -/
lemma run_of_execute {s : Store} {query : Query} {watch : Watch} {interval session : Nat}
    {locks : LockTable} {answer : Answer}
    (h : (query.execute s.catalog watch interval session locks).1 = .ok answer) :
    query.checkEntries = .ok () ∧ ∃ plan, query.plan s.catalog = .ok plan ∧
      plan.run s.catalog watch interval = .ok answer := by
  unfold execute at h
  split at h
  · simp at h
  · rename_i checked
    split at h
    · simp at h
    · exact ⟨checked, Result.bind_eq_ok'.mp h⟩

/-- What a query that was answered has done. -/
theorem exists_ran_of_execute {s : Store} (sound : s.Sound) {query : Query}
    (notReal : query.KeysNotReal s) {watch : Watch} {interval session : Nat} {locks : LockTable}
    {answer : Answer}
    (h : (query.execute s.catalog watch interval session locks).1 = .ok answer) :
    ∃ plan, Planned s.catalog query plan ∧ plan.Bound s ∧
      ∃ inputs pool output final rows,
        plan.Ran s watch answer inputs pool output final rows := by
  obtain ⟨checked, plan, hplan, hrun⟩ := run_of_execute h
  have planned := planned_of_plan hplan
  have bound := Plan.bound_of_planned checked planned
  exact ⟨plan, planned, bound, Plan.ran_of_run bound sound (notReal plan hplan) hrun⟩

end Query

/-! ## Small queries -/

/-- A column as it is written in a query. -/
def Expr.written (table name : String) : Expr :=
  .column (.written (some table) name) none

/-- The condition that two written columns are equal. -/
def Expr.equates (left right : Expr) : Expr :=
  .binary (.comparison .eq) left right none

/-- A clause between tables that go by their own names. -/
def JoinClause.between (left right : String) (kind : JoinKind) (on : Expr) : JoinClause where
  left := { name := left, label := none }
  right := { name := right, label := none }
  kind := kind
  on := some on

/-- A query that selects some columns from tables that go by their own names. -/
def Query.selecting (members : List Expr) (tables : List String) (joins : List JoinClause)
    (selection : Option Expr) : Query where
  tables := tables.map fun name => { name, label := none }
  projection := { visible := members, hidden := [] }
  distinct := false
  selection := selection
  groupBy := []
  having := none
  orderBy := []
  joins := joins

/-- Such a query is unarranged when no member is an aggregate. -/
lemma Query.unarranged_selecting {members : List Expr} {tables : List String}
    {joins : List JoinClause} {selection : Option Expr}
    (h : members.any Expr.hasAggregate = false) :
    (Query.selecting members tables joins selection).Unarranged where
  ungrouped := by
    simpa [needsGrouping, selecting, Projection.hasAggregate, Projection.members] using h
  unsorted := rfl
  repeated := rfl

end RelQuery
