import Mathlib
import RelQuery.Proofs.Engine.Grouped
import RelQuery.Proofs.Engine.Reference
import RelQuery.Proofs.Group.Representatives

/-!
# DISTINCT and GROUP BY

Selecting columns with DISTINCT and grouping by the same columns are two ways to ask for the
different rows of a table.  Both start from the rows that the query has without them.  The answers
agree, as values are alike, exactly when those rows have no NaN and no two of them differ only in
the signs of zeros: DISTINCT goes by the records of the rows, in which a zero has a sign and a NaN
is like itself, and GROUP BY by comparison.
-/

namespace RelQuery

/-! ## The rows of the members -/

namespace Plan

section Runs

variable {s : Store} {plan plan' : Plan} {watch : Watch} {interval : Nat}

/-- The rows are as wide as the projection. -/
lemma length_of_projectedRows {rows : List Row}
    (h : plan.projectedRows s.catalog watch interval = .ok rows) :
    ∀ row ∈ rows, row.length = plan.projection.length := by
  obtain ⟨inputs, -, h⟩ := Result.bind_eq_ok.mp h
  obtain ⟨output, -, hrows⟩ := Result.bind_eq_ok.mp h
  obtain ⟨joined, -, hprojected⟩ := exists_joined_of_memberRows hrows
  intro row hrow
  obtain ⟨source, -, hvalues⟩ := source_of_mem_of_mapM hprojected hrow
  rw [length_of_mapM hvalues, Projection.length_members]

/-- Without hidden members and sort keys the rows are arranged by removing duplicates at most. -/
lemma arrange_eq_of_unsorted (hsorted : plan.sortKeys = []) (hhidden : plan.projection.hidden = [])
    {rows : List Row} (widths : ∀ row ∈ rows, row.length = plan.projection.length) :
    plan.arrange rows = if plan.distinct then distinctRows rows else .ok rows := by
  have hvisible : cutToVisible plan.projection rows = rows := by
    refine (List.map_congr_left fun row hrow => ?_).trans (List.map_id rows)
    refine List.take_of_length_le (Nat.le_of_eq ?_)
    rw [widths row hrow, Projection.length, hhidden]
    rfl
  rw [arrange, hsorted]
  dsimp only [List.isEmpty_nil]
  rw [if_pos rfl, hvisible]

/-- The rows depend on the tables, WHERE, the joins and the members only. -/
lemma projectedRows_congr {catalog : Catalog} (tables : plan.tables = plan'.tables)
    (selection : plan.selection = plan'.selection) (joins : plan.joins = plan'.joins)
    (projection : plan.projection = plan'.projection) :
    plan.projectedRows catalog watch interval = plan'.projectedRows catalog watch interval := by
  cases plan
  cases plan'
  obtain rfl := tables
  obtain rfl := selection
  obtain rfl := joins
  obtain rfl := projection
  rfl

/-- The rows are the values of the members on joined rows, on which a resolved column has values of
its type. -/
lemma exists_projects {rows : List Row} (bound : plan.Bound s) (sound : s.Sound)
    (h : plan.projectedRows s.catalog watch interval = .ok rows) :
    ∃ joined values, rows = joined.map values ∧ plan.Projects joined values ∧
      ∀ row ∈ joined, ∀ ref : ColumnRef, ref.ResolvedIn plan.tables → ∀ type,
        ref.columnType = some type → ∀ value, Expr.columnOutcome .prefilter row ref =
          .ok (.determined value) → value.Fits type := by
  obtain ⟨inputs, hinputs, h⟩ := Result.bind_eq_ok.mp h
  obtain ⟨output, houtput, hrows⟩ := Result.bind_eq_ok.mp h
  obtain ⟨joined, hjoined, hprojected⟩ := exists_joined_of_memberRows hrows
  obtain ⟨values, hvalues, rfl⟩ := exists_map_of_mapM hprojected
  have gathered := gathered_of_candidates hinputs
  have complete := complete_of_joinCandidates houtput
  refine ⟨joined, values, rfl, ⟨fun row hrow => ?_, hvalues⟩,
    fun row hrow ref href type htype value hvalue => ?_⟩
  · obtain ⟨tuple, htuple, hfetch⟩ := source_of_mem_of_mapM hjoined hrow
    exact gathered.covered_of_fetchTuple complete htuple hfetch
  · obtain ⟨tuple, -, hfetch⟩ := source_of_mem_of_mapM hjoined hrow
    exact gathered.fits_of_fetchTuple bound sound complete hfetch href htype hvalue

end Runs

end Plan

/-! ## Rows of columns -/

/-- The expression is a resolved column. -/
def Expr.IsColumnOf (tables : List BoundEntry) (e : Expr) : Prop :=
  ∃ ref label, e = .column ref label ∧ ref.ResolvedIn tables

/-- An alias has no part in the outcome. -/
lemma Expr.evaluate_withLabel (label : Option String) (e : Expr) {mode : Coverage}
    {rows : List LogicalRow} : (e.withLabel label).evaluate mode rows = e.evaluate mode rows := by
  cases e <;> rfl

/-- The output name of a member that is a column, with the type of the column. -/
def Expr.outputColumn (e : Expr) : Column where
  name := e.outputName
  columnType := (e.column?.bind ColumnRef.columnType).getD .integer

namespace Plan

variable {s : Store} {query : Query} {plan : Plan} {groupBy : List Expr}
  {joined : List (List LogicalRow)} {values : List LogicalRow → Row}

/-- Where all members are columns, the rows of their values are typed. -/
lemma Projects.typed (projects : plan.Projects joined values)
    (columns : ∀ e ∈ plan.projection.members, e.IsColumnOf plan.tables)
    (fits : ∀ row ∈ joined, ∀ ref : ColumnRef, ref.ResolvedIn plan.tables → ∀ type,
      ref.columnType = some type → ∀ value, Expr.columnOutcome .prefilter row ref =
        .ok (.determined value) → value.Fits type) :
    ∀ row ∈ joined.map values,
      row.Typed (plan.projection.members.map Expr.outputColumn) := by
  intro row hrow
  obtain ⟨source, hsource, rfl⟩ := List.mem_map.mp hrow
  have hvalues := projects.projected source hsource
  rw [Row.Typed, List.forall₂_map_left_iff, List.forall₂_iff_get]
  refine ⟨(length_of_mapM hvalues).symm, fun position hmember hvalue => ?_⟩
  obtain ⟨ref, label, he, hresolved⟩ := columns _ (List.get_mem _ ⟨position, hmember⟩)
  have houtcome := getD_of_evaluate hvalues (List.getElem?_eq_getElem hmember)
  rw [List.get_eq_getElem] at he
  rw [he, List.getD_eq_getElem?_getD, List.getElem?_eq_getElem hvalue] at houtcome
  obtain ⟨b, -, index, hdeclares⟩ := id hresolved
  obtain ⟨column, -, hrefers⟩ := hdeclares.declared
  have htype : ref.columnType = some column.columnType := by rw [hrefers]; rfl
  have hcolumn : (plan.projection.members.get ⟨position, hmember⟩).outputColumn.columnType =
      column.columnType := by
    rw [List.get_eq_getElem, he, Expr.outputColumn, Expr.column?, Option.bind_some, htype]
    rfl
  rw [hcolumn]
  exact fits source hsource ref hresolved _ htype _ houtcome

/-- Where the GROUP BY expressions are the members under other aliases, a row has at a key the value
of the member. -/
lemma Projects.getD_key_eq (projects : plan.Projects joined values) (bound : plan.Bound s)
    (grouping : Query.Grouping query plan groupBy) (columns : ∀ e ∈ groupBy, e.literals = [])
    (same : List.Forall₂ (fun e member => e.withLabel none = member.withLabel none) groupBy
      plan.projection.members) :
    plan.keys.length = plan.projection.members.length ∧
      ∀ (position : Nat) (hkey : position < plan.keys.length), ∀ row ∈ joined,
        (values row).getD plan.keys[position] .null = (values row).getD position .null := by
  have exact : ∀ e ∈ groupBy, e.ExactLiterals := by
    intro e he
    simp [Expr.ExactLiterals, columns e he]
  have hkeys := forall₂_of_common same (projects.keys_eq bound grouping exact)
  refine ⟨hkeys.length_eq.symm, fun position hkey row hrow => ?_⟩
  have hmember : position < plan.projection.members.length := hkeys.length_eq ▸ hkey
  obtain ⟨e, -, halias, hvalue⟩ := hkeys.get hmember hkey
  have hown := projects.evaluateMember_eq grouping.resolved (List.getElem?_eq_getElem hmember) hrow
  -- the alias has no part in the value
  have houtcome := Projection.evaluateMember_eq_ok.mp (hvalue row hrow).1
  rw [← Expr.evaluate_withLabel none, halias, Expr.evaluate_withLabel] at houtcome
  exact Except.ok.inj ((Projection.evaluateMember_eq_ok.mpr houtcome).symm.trans hown)

/-- Where the GROUP BY expressions are the members under other aliases, rows agree in the keys when
they are alike. -/
lemma Projects.agreeOn_iff_alike (projects : plan.Projects joined values) (bound : plan.Bound s)
    (grouping : Query.Grouping query plan groupBy) (columns : ∀ e ∈ groupBy, e.literals = [])
    (same : List.Forall₂ (fun e member => e.withLabel none = member.withLabel none) groupBy
      plan.projection.members) :
    ∀ a ∈ joined.map values, ∀ b ∈ joined.map values,
      agreeOn plan.keys a b = true ↔ Row.Alike a b := by
  rw [List.forall_mem_map]
  intro a ha
  rw [List.forall_mem_map]
  intro b hb
  obtain ⟨hlength, hkey⟩ := projects.getD_key_eq bound grouping columns same
  have hlengthA : (values a).length = plan.keys.length :=
    (length_of_mapM (projects.projected a ha)).trans hlength.symm
  have hlengthB : (values b).length = plan.keys.length :=
    (length_of_mapM (projects.projected b hb)).trans hlength.symm
  have hvalue (row : Row) (position : Nat) (h : position < row.length) :
      row.getD position .null = row[position] := by
    rw [List.getD_eq_getElem?_getD, List.getElem?_eq_getElem h, Option.getD_some]
  rw [agreeOn, List.all_eq_true, Row.Alike, List.forall₂_iff_get]
  constructor
  · refine fun h => ⟨hlengthA.trans hlengthB.symm, fun position hlt hlt' => ?_⟩
    have hposition : position < plan.keys.length := hlengthA ▸ hlt
    have halike := h _ (List.getElem_mem hposition)
    rw [hkey position hposition a ha, hkey position hposition b hb, hvalue _ _ hlt,
      hvalue _ _ hlt'] at halike
    exact halike
  · rintro ⟨-, h⟩ key hmem
    obtain ⟨position, hposition, rfl⟩ := List.getElem_of_mem hmem
    rw [hkey position hposition a ha, hkey position hposition b hb,
      hvalue _ _ (hlengthA ▸ hposition), hvalue _ _ (hlengthB ▸ hposition)]
    exact h position (hlengthA ▸ hposition) (hlengthB ▸ hposition)

end Plan

/-! ## Queries for columns -/

namespace Query

/-- The query that selects columns of one table, each under an alias or none. -/
def ofColumns (table : FromEntry) (columns : List (ColumnRef × Option String))
    (selection : Option Expr) : Query where
  tables := [table]
  projection := { visible := columns.map fun column => .column column.1 column.2, hidden := [] }
  distinct := false
  selection := selection
  groupBy := []
  having := none
  orderBy := []
  joins := []

/-- The query with DISTINCT. -/
def distinctly (query : Query) : Query :=
  { query with distinct := true }

/-- DISTINCT groups nothing. -/
lemma needsGrouping_distinctly (query : Query) :
    query.distinctly.needsGrouping = query.needsGrouping := rfl

/-- The query with its visible members for GROUP BY expressions, without their aliases. -/
def byMembers (query : Query) : Query :=
  { query with groupBy := query.projection.visible.map (Expr.withLabel none) }

/-- Keys that members compute add no members. -/
lemma groupKeys_eq_self {p : Projection} {groupBy : List Expr}
    (h : ∀ e ∈ groupBy, ∃ member ∈ p.members, member.agrees e = true) :
    (groupKeys p groupBy).2 = p := by
  induction groupBy with
  | nil => rfl
  | cons e rest ih =>
    obtain ⟨hfirst, hrest⟩ := List.forall_mem_cons.mp h
    obtain ⟨position, hposition⟩ : ∃ position, p.agreeing? e = some position := by
      rw [← Option.isSome_iff_exists, Projection.agreeing?, List.findIdx?_isSome, List.any_eq_true]
      exact hfirst
    have hsame : p.positionOf e = (position, p) := by rw [Projection.positionOf, hposition]
    rw [groupKeys, hsame]
    exact ih hrest

/-- A query with the tables of one that was answered takes the same locks. -/
lemma execute_of_answer {catalog : Catalog} {watch : Watch} {interval session : Nat}
    {locks : LockTable} {query query' : Query} {answer answer' : Answer}
    (h : (query.execute catalog watch interval session locks).1 = .ok answer)
    (checked : query'.checkEntries = query.checkEntries) (tables : query'.tables = query.tables)
    (h' : query'.answer catalog watch interval = .ok answer') :
    (query'.execute catalog watch interval session locks).1 = .ok answer' := by
  unfold execute at h ⊢
  rw [checked, tables]
  split at h
  · simp at h
  · split at h
    · simp at h
    · exact h'

section OfColumns

variable {table : FromEntry} {columns : List (ColumnRef × Option String)}
  {selection : Option Expr} {tables : List BoundEntry} {p : Projection}

/-- The resolved members are resolved columns, all visible. -/
lemma columns_of_resolve
    (h : (ofColumns table columns selection).projection.resolve tables = .ok p) :
    p.hidden = [] ∧ p.members.length = columns.length ∧ ∀ e ∈ p.members, e.IsColumnOf tables := by
  obtain ⟨visible, hidden⟩ := Projection.forall₂_of_resolve h
  have hhidden : p.hidden = [] := List.forall₂_nil_left_iff.mp hidden
  refine ⟨hhidden, ?_, fun e he => ?_⟩
  · rw [Projection.members, hhidden, List.append_nil, ← visible.length_eq, ofColumns,
      List.length_map]
  obtain ⟨written, hwritten, hresolve⟩ := Projection.exists_written_of_resolve h e he
  rw [ofColumns, Projection.members, List.append_nil] at hwritten
  obtain ⟨column, -, rfl⟩ := List.mem_map.mp hwritten
  obtain ⟨resolved, hresolved, rfl⟩ := Expr.resolve_column_eq_ok.mp hresolve
  exact ⟨resolved, column.2, rfl, ColumnRef.resolvedIn_of_resolve hresolved⟩

/-- The resolved GROUP BY expressions are the resolved members without their aliases. -/
lemma keys_of_resolve
    (h : (ofColumns table columns selection).projection.resolve tables = .ok p)
    {groupBy : List Expr} (hkeys : (ofColumns table columns selection).byMembers.groupBy.mapM
      (resolvePlain tables .groupBy) = .ok groupBy) :
    List.Forall₂ (fun e member => ∃ ref label, e = .column ref none ∧ member = .column ref label)
      groupBy p.members := by
  have hvisible := (Projection.forall₂_of_resolve h).1
  rw [mapM_eq_ok] at hkeys
  simp only [byMembers, ofColumns, List.map_map, List.forall₂_map_left_iff] at hkeys hvisible
  rw [Projection.members, (columns_of_resolve h).1, List.append_nil]
  refine (forall₂_of_common hkeys hvisible).imp fun e member hboth => ?_
  obtain ⟨column, -, hkey, hmember⟩ := hboth
  have hresolve := Resolution.result_eq_ok.mp (resolvePlain_eq_ok hkey).1
  obtain ⟨ref, href, rfl⟩ := Expr.resolve_column_eq_ok.mp hresolve
  obtain ⟨ref', href', rfl⟩ := Expr.resolve_column_eq_ok.mp hmember
  obtain rfl := Except.ok.inj (href.symm.trans href')
  exact ⟨ref, column.2, rfl, rfl⟩

/-- A query for columns does not group. -/
lemma needsGrouping_ofColumns : (ofColumns table columns selection).needsGrouping = false := by
  simp [needsGrouping, ofColumns, Projection.hasAggregate, Projection.members, Expr.hasAggregate]

end OfColumns

/-! ## Answers -/

section Answers

variable {s : Store} {query : Query} {plan : Plan} {watch : Watch} {interval : Nat}
  {answer : Answer}

/-- A query that neither groups nor sorts and has no hidden members answers with the rows of its
members, each once if it has DISTINCT. -/
lemma Planned.run_plain_iff (planned : Planned s.catalog query plan)
    (hplain : query.needsGrouping = false) (horder : query.orderBy = [])
    (hhidden : plan.projection.hidden = []) :
    plan.run s.catalog watch interval = .ok answer ↔
      watch.poll .resolved = .ok () ∧ watch.poll .finished = .ok () ∧
        answer.columns = plan.projection.outputNames ∧
          ∃ rows, plan.projectedRows s.catalog watch interval = .ok rows ∧
            (if query.distinct then distinctRows rows else .ok rows) = .ok answer.rows := by
  have hgrouped : plan.grouped = false := planned.grouped.trans hplain
  obtain ⟨-, hsorted⟩ := planned.plain hplain horder
  have hgroup (rows : List Row) : plan.group watch rows = .ok rows := by
    rw [Plan.group, if_neg (by simp [hgrouped])]
  have harrange (rows : List Row)
      (hrows : plan.projectedRows s.catalog watch interval = .ok rows) :
      plan.arrange rows = if query.distinct then distinctRows rows else .ok rows := by
    rw [← planned.distinct]
    exact Plan.arrange_eq_of_unsorted hsorted hhidden (Plan.length_of_projectedRows hrows)
  rw [Plan.run_eq_ok_iff]
  refine and_congr_right fun _ => and_congr_right fun _ => and_congr_right fun _ =>
    exists_congr fun rows => and_congr_right fun hrows => ?_
  rw [← harrange rows hrows]
  constructor
  · rintro ⟨grouped, hgrouped, harranged⟩
    obtain rfl := Except.ok.inj ((hgroup rows).symm.trans hgrouped)
    exact harranged
  · exact fun harranged => ⟨rows, hgroup rows, harranged⟩

/-- A query that groups without HAVING, does not sort and has no hidden members answers with the
groups of the rows of its members. -/
lemma Planned.foldByKeys_of_run (planned : Planned s.catalog query plan)
    (hgroups : query.needsGrouping = true) (hdistinct : query.distinct = false)
    (hhaving : plan.having = none) (hsorted : plan.sortKeys = [])
    (hhidden : plan.projection.hidden = []) (h : plan.run s.catalog watch interval = .ok answer) :
    ∃ rows, plan.projectedRows s.catalog watch interval = .ok rows ∧
      foldByKeys plan.projection plan.keys watch rows = .ok answer.rows := by
  obtain ⟨-, -, -, rows, hrows, grouped, hgrouped, harranged⟩ := Plan.run_eq_ok_iff.mp h
  rw [Plan.group, if_pos (planned.grouped.trans hgroups), hhaving] at hgrouped
  obtain ⟨found, hfound, hkept⟩ := Result.bind_eq_ok.mp hgrouped
  obtain rfl := Result.pure_eq_ok.mp hkept
  rw [Plan.arrange_eq_of_unsorted hsorted hhidden (length_of_foldByKeys hfound),
    if_neg (by simp [planned.distinct, hdistinct])] at harranged
  rw [← Except.ok.inj harranged]
  exact ⟨rows, hrows, hfound⟩

end Answers

/-! ## Agreement -/

section Agreement

variable {s : Store} {table : FromEntry} {columns : List (ColumnRef × Option String)}
  {selection : Option Expr} {watch : Watch} {interval : Nat}

/-- The plan of a query for columns that groups by them has the members of the query without GROUP
BY, and a key for every member. -/
lemma Planned.byMembers {plan plan' : Plan}
    (planned : Planned s.catalog (ofColumns table columns selection) plan)
    (planned' : Planned s.catalog (ofColumns table columns selection).byMembers plan') :
    plan'.projection = plan.projection ∧ plan'.having = none ∧ plan'.sortKeys = [] ∧
      ∃ groupBy, Grouping (ofColumns table columns selection).byMembers plan' groupBy ∧
        List.Forall₂ (fun e member => ∃ ref label, e = .column ref none ∧
          member = .column ref label) groupBy plan'.projection.members := by
  obtain ⟨hresolve, -⟩ := planned.plain needsGrouping_ofColumns rfl
  obtain ⟨projection, groupBy, staged, hhaving, hsorted⟩ := planned'.exists_staged rfl rfl
  have htables : plan'.tables = plan.tables :=
    Except.ok.inj (planned'.tables.symm.trans planned.tables)
  have hprojection : plan.projection = projection :=
    Except.ok.inj ((htables ▸ hresolve).symm.trans staged.resolved)
  have hkeys := keys_of_resolve staged.resolved staged.grouping
  have hsame : plan'.projection = projection := by
    have hself : (groupKeys projection groupBy).2 = projection := by
      refine groupKeys_eq_self fun e he => ?_
      obtain ⟨member, hmember, ref, label, rfl, rfl⟩ := exists_of_forall₂ hkeys he
      exact ⟨_, hmember, ColumnRef.same_refl ref⟩
    rwa [staged.keys] at hself
  exact ⟨hsame.trans hprojection.symm, hhaving, hsorted, groupBy, staged.toGrouping, hsame ▸ hkeys⟩

/-- A query for columns has the same rows whether it groups by them or not. -/
lemma Planned.projectedRows_byMembers {plan plan' : Plan}
    (planned : Planned s.catalog (ofColumns table columns selection) plan)
    (planned' : Planned s.catalog (ofColumns table columns selection).byMembers plan') :
    plan.projectedRows s.catalog watch interval = plan'.projectedRows s.catalog watch interval := by
  obtain ⟨hprojection, -⟩ := planned.byMembers planned'
  have htables : plan.tables = plan'.tables :=
    Except.ok.inj (planned.tables.symm.trans planned'.tables)
  have hselection : plan.selection = plan'.selection :=
    Except.ok.inj (planned.selection.symm.trans (htables ▸ planned'.selection))
  have hjoins : plan.joins = plan'.joins :=
    Except.ok.inj (planned.joins.symm.trans (htables ▸ planned'.joins))
  exact Plan.projectedRows_congr htables hselection hjoins hprojection.symm

/-- The rows of a query for columns without duplicates agree with their groups when they are
exact. -/
lemma Planned.agree_iff_exact {plan plan' : Plan}
    (planned : Planned s.catalog (ofColumns table columns selection) plan)
    (planned' : Planned s.catalog (ofColumns table columns selection).byMembers plan')
    (bound : plan'.Bound s) (sound : s.Sound) (nonempty : columns ≠ []) {rows : List Row}
    (hrows : plan'.projectedRows s.catalog watch interval = .ok rows) {found grouped : List Row}
    (hfound : distinctRows rows = .ok found)
    (hgrouped : foldByKeys plan'.projection plan'.keys watch rows = .ok grouped) :
    Row.Agree found grouped ↔ Row.Exact rows := by
  obtain ⟨hresolve, -⟩ := planned.plain needsGrouping_ofColumns rfl
  obtain ⟨-, hlength, hcolumns⟩ := columns_of_resolve hresolve
  obtain ⟨hprojection, -, -, groupBy, grouping, hkeys⟩ := planned.byMembers planned'
  have htables : plan.tables = plan'.tables :=
    Except.ok.inj (planned.tables.symm.trans planned'.tables)
  rw [htables, ← hprojection] at hcolumns
  obtain ⟨joined, values, rfl, projects, fits⟩ := Plan.exists_projects bound sound hrows
  have inhabited : plan'.keys ≠ [] := by
    rw [← List.length_pos_iff, ← grouping.keysComputed.length_eq, hkeys.length_eq, hprojection,
      hlength]
    exact List.length_pos_iff.mpr nonempty
  have plain : ∀ f ∈ plan'.projection.aggregates, f = none := by
    intro f hf
    obtain ⟨e, he, rfl⟩ := List.mem_map.mp hf
    obtain ⟨ref, label, rfl, -⟩ := hcolumns e he
    rfl
  have literals : ∀ e ∈ groupBy, e.literals = [] := by
    intro e he
    obtain ⟨member, -, ref, label, rfl, -⟩ := exists_of_forall₂ hkeys he
    rfl
  have same : List.Forall₂ (fun e member => e.withLabel none = member.withLabel none) groupBy
      plan'.projection.members := by
    refine hkeys.imp ?_
    rintro e member ⟨ref, label, rfl, rfl⟩
    rfl
  exact RelQuery.agree_iff_exact plain inhabited (projects.typed hcolumns fits)
    (projects.agreeOn_iff_alike bound grouping literals same) hfound hgrouped

end Agreement

/-- Selecting columns of a table with DISTINCT agrees with grouping by the same columns exactly when
the selected rows have no NaN and no two of them differ only in the signs of zeros. -/
theorem execute_distinct_agree_iff {s : Store} (reachable : s.Reachable) {table : FromEntry}
    {columns : List (ColumnRef × Option String)} {selection : Option Expr} {watch : Watch}
    {interval session session' : Nat} {locks locks' : LockTable} {found grouped : Answer}
    (h : ((ofColumns table columns selection).distinctly.execute s.catalog watch interval session
      locks).1 = .ok found)
    (h' : ((ofColumns table columns selection).byMembers.execute s.catalog watch interval session'
      locks').1 = .ok grouped) :
    ∃ all, ((ofColumns table columns selection).execute s.catalog watch interval session
        locks).1 = .ok all ∧ (Row.Agree found.rows grouped.rows ↔ Row.Exact all.rows) := by
  obtain ⟨checked, plan, hplan, hrun⟩ := run_of_execute h
  obtain ⟨checked', plan', hplan', hrun'⟩ := run_of_execute h'
  obtain ⟨plain, hplain, rfl⟩ := Result.map_eq_ok.mp
    ((plan_withDistinct s.catalog (ofColumns table columns selection) true).symm.trans hplan)
  have planned := planned_of_plan hplain
  have planned' := planned_of_plan hplan'
  have nonempty : columns ≠ [] := by
    rintro rfl
    exact absurd checked (by simp [checkEntries, ofColumns, distinctly, Projection.isEmpty,
      Projection.length])
  obtain ⟨hresolve, -⟩ := planned.plain needsGrouping_ofColumns rfl
  obtain ⟨hhidden, -⟩ := columns_of_resolve hresolve
  -- without DISTINCT the query shows the rows from which DISTINCT removes duplicates
  obtain ⟨hresolved, hfinished, -, rows, hrows, hdistinct⟩ :=
    ((planned_of_plan hplan).run_plain_iff
      ((needsGrouping_distinctly _).trans needsGrouping_ofColumns) rfl hhidden).mp hrun
  have hall : plain.run s.catalog watch interval = .ok ⟨plain.projection.outputNames, rows⟩ :=
    (planned.run_plain_iff needsGrouping_ofColumns rfl hhidden).mpr
      ⟨hresolved, hfinished, rfl, rows, hrows, rfl⟩
  refine ⟨_, execute_of_answer h rfl rfl (Result.bind_eq_ok'.mpr ⟨plain, hplain, hall⟩), ?_⟩
  -- the same rows are grouped
  obtain ⟨hprojection, hhaving, hsorted, -⟩ := planned.byMembers planned'
  have hgroups : (ofColumns table columns selection).byMembers.needsGrouping = true := by
    simp [needsGrouping, byMembers, ofColumns, nonempty]
  obtain ⟨rows', hrows', hgrouped⟩ := planned'.foldByKeys_of_run hgroups rfl hhaving hsorted
    (hprojection ▸ hhidden) hrun'
  obtain rfl : rows = rows' :=
    Except.ok.inj (hrows.symm.trans ((planned.projectedRows_byMembers planned').trans hrows'))
  exact planned.agree_iff_exact planned' (Plan.bound_of_planned checked' planned') reachable.sound
    nonempty hrows' hdistinct hgrouped

/-- Six rows, of which WHERE selects five and three are different: reals, one of them a negative
zero, and NULL beside an integer. -/
theorem execute_distinct_agree_iff_nulls : ∃ (s : Store) (table : FromEntry)
    (columns : List (ColumnRef × Option String)) (selection : Option Expr)
    (found grouped : Answer), s.Reachable ∧
      ((ofColumns table columns selection).distinctly.execute s.catalog .never 1 0 .empty).1 =
        .ok found ∧
      ((ofColumns table columns selection).byMembers.execute s.catalog .never 1 0 .empty).1 =
        .ok grouped ∧
      found.rows = [[.real ⟨0x3FF8000000000000⟩, .integer 7], [.null, .integer 7],
        [.real ⟨0x8000000000000000⟩, .integer 7]] ∧
      grouped.rows = [[.real ⟨0x8000000000000000⟩, .integer 7],
        [.real ⟨0x3FF8000000000000⟩, .integer 7], [.null, .integer 7]] ∧
      Row.Agree found.rows grouped.rows := by
  let more : Row := [.real ⟨0x3FF8000000000000⟩, .integer 7]
  let absent : Row := [.null, .integer 7]
  let zero : Row := [.real ⟨0x8000000000000000⟩, .integer 7]
  let left : Row := [.real ⟨0x3FF8000000000000⟩, .integer 8]
  let definition : TableSchema := ⟨"t", [⟨"x", .real⟩, ⟨"k", .integer⟩]⟩
  let rows : List Row := [more, absent, zero, more, absent, left]
  let s : Store := ⟨[⟨definition, (rows.zipIdx 1).map Prod.swap, 7⟩]⟩
  have reachable : s.Reachable := Store.Reachable.empty.requests
    (.addTable definition :: rows.map (.addRow "t")) (by cbv)
  let k : ColumnRef := .written none "k"
  let columns := [(.written none "x", some "y"), (k, none)]
  let condition : Expr :=
    .binary (.comparison .lt) (.column k none) (.literal (.integer 8) none) none
  let query := ofColumns ⟨"t", none⟩ columns (some condition)
  have ran : (query.distinctly.execute s.catalog .never 1 0 .empty).1 =
      .ok ⟨["y", "k"], [more, absent, zero]⟩ := by
    rw [execute_of_unwritten (by decide) (by decide)]
    cbv
  have ran' : (query.byMembers.execute s.catalog .never 1 0 .empty).1 =
      .ok ⟨["y", "k"], [zero, more, absent]⟩ := by
    rw [execute_of_unwritten (by decide) (by decide)]
    cbv
  have ranAll : (query.execute s.catalog .never 1 0 .empty).1 =
      .ok ⟨["y", "k"], [more, absent, zero, more, absent]⟩ := by
    rw [execute_of_unwritten (by decide) (by decide)]
    cbv
  obtain ⟨all, hall, hagree⟩ := execute_distinct_agree_iff reachable ran ran'
  obtain rfl := Except.ok.inj (ranAll.symm.trans hall)
  have exact : Row.Exact [more, absent, zero, more, absent] := ⟨by decide, by decide⟩
  exact ⟨s, _, columns, some condition, _, _, reachable, ran, ran', rfl, rfl, hagree.mpr exact⟩

/-- Not every two answers agree: of the two zeros DISTINCT keeps both and GROUP BY one. -/
theorem not_forall_execute_distinct_agree :
    ¬∀ (s : Store) (table : FromEntry) (columns : List (ColumnRef × Option String))
      (selection : Option Expr) (found grouped : Answer), s.Reachable →
      ((ofColumns table columns selection).distinctly.execute s.catalog .never 1 0 .empty).1 =
        .ok found →
      ((ofColumns table columns selection).byMembers.execute s.catalog .never 1 0 .empty).1 =
        .ok grouped →
      Row.Agree found.rows grouped.rows := by
  intro h
  let zero : Row := [.real ⟨0⟩]
  let negative : Row := [.real ⟨0x8000000000000000⟩]
  let definition : TableSchema := ⟨"t", [⟨"x", .real⟩]⟩
  let s : Store := ⟨[⟨definition, [(1, zero), (2, negative)], 3⟩]⟩
  have reachable : s.Reachable := Store.Reachable.empty.requests
    [.addTable definition, .addRow "t" zero, .addRow "t" negative] (by cbv)
  let columns : List (ColumnRef × Option String) := [(.written none "x", none)]
  let query := ofColumns ⟨"t", none⟩ columns none
  have ran : (query.distinctly.execute s.catalog .never 1 0 .empty).1 =
      .ok ⟨["x"], [zero, negative]⟩ := by
    rw [execute_of_unwritten (by decide) (by decide)]
    cbv
  have ran' : (query.byMembers.execute s.catalog .never 1 0 .empty).1 = .ok ⟨["x"], [zero]⟩ := by
    rw [execute_of_unwritten (by decide) (by decide)]
    cbv
  have agree := h s ⟨"t", none⟩ columns none _ _ reachable ran ran'
  exact absurd agree.length (by decide)

end Query

end RelQuery
