import RelQuery.Proofs.Engine.Having
import RelQuery.Proofs.Engine.Sources

/-!
# ORDER BY

ORDER BY appends hidden members for the keys that no member computes, sorts the rows by the
positions of the keys, and cuts the hidden members off.  The rows of the query without ORDER BY are
the same, less the hidden members: they stand for the same joined rows, and HAVING reads none of the
positions that ORDER BY has added.

So ORDER BY only permutes.  Each row goes to the place that the values of the ORDER BY expressions
on the joined rows behind it give it, as long as a member that is found for an expression has its
value.  A member is found by comparing literals as numbers, so it may have a zero of the other sign
in it.
-/

namespace RelQuery

/-! ## Fewer members -/

section Fewer

variable {p p' : Projection} {Q : Expr → Prop} {width : Nat}

/-- On references to the first positions only these positions of a row matter. -/
lemma evaluate_take {predicate : Expr} (h : ∀ ref ∈ predicate.columns, RefersBelow width ref)
    (index : Nat) (row : Row) : predicate.evaluate .full [.projected index (row.take width)] =
      predicate.evaluate .full [.projected index row] := by
  rcases Nat.le_total row.length width with hshort | hlong
  · rw [List.take_of_length_le hshort]
  refine Expr.evaluate_congr fun ref href => ?_
  obtain ⟨position, hlt, name, rfl⟩ := h ref href
  have hvalue : row[position]? = some row[position] := List.getElem?_eq_getElem (by omega)
  have htaken : (row.take width)[position]? = some row[position] := by
    rw [List.getElem?_take_of_lt hlt, hvalue]
  have reference {found : Row} (hfound : found[position]? = some row[position]) :=
    Projection.evaluate_reference hfound (.column (.written none name) none) index
  exact (reference htaken).trans (reference hvalue).symm

/-- Keys below the number of members stay with more members. -/
lemma Projection.keyValues_of_grows (grows : p.Grows Q p') {keys : List Nat}
    (below : ∀ key ∈ keys, key < p.length) : p'.keyValues keys = p.keyValues keys := by
  refine List.map_congr_left fun key hkey => ?_
  have hlt : key < p.members.length := by simpa using below key hkey
  have hmember : p.members[key]? = some p.members[key] := List.getElem?_eq_getElem hlt
  rw [List.getD_eq_getElem?_getD, List.getD_eq_getElem?_getD, grows.getElem? hmember, hmember]

end Fewer

namespace Query

/-- The query without its ORDER BY. -/
def unordered (query : Query) : Query :=
  { query with orderBy := [] }

/-- The written expressions that members come from. -/
def memberTerms (query : Query) : List Expr :=
  query.projection.members ++ query.groupBy ++ query.having.toList ++
    query.orderBy.map SortTerm.expr

/-- The literals in HAVING have the signs of those that members before ORDER BY are written with,
and the query hides no member. -/
structure PlainHaving (query : Query) : Prop where
  hidden : query.projection.hidden = []
  signs : ∀ condition ∈ query.having, ∀ written ∈ query.unordered.memberTerms,
    written.SameSigns condition

section Clauses

variable {catalog : Catalog} {query : Query} (resolved : query.Resolved catalog)

/-- The clauses of the query without its ORDER BY are the same. -/
def Resolved.unordered : query.unordered.Resolved catalog :=
  { resolved with }

/-- The joined rows behind each row before HAVING.  In a grouped query these are the runs of joined
rows by the values of the members that compute the GROUP BY expressions, and otherwise the single
joined rows. -/
def Resolved.sources (joined : List (List LogicalRow)) : List (List (List LogicalRow)) :=
  if query.needsGrouping then
    let (keys, p) := groupKeys resolved.projection resolved.groupBy
    runsBy (p.keyValues keys) joined
  else joined.map fun row => [row]

/-- The verdict of HAVING on the joined rows behind a row, by the values of the members over them:
what a member computes is read there, and every aggregate is a member.  Without HAVING all rows are
accepted. -/
def Resolved.passes (group : List (List LogicalRow)) : Result Bool := do
  let having ← resolveHaving resolved.tables query.having
  let (predicate?, p) ← planHaving (groupKeys resolved.projection resolved.groupBy).2 having
  match predicate? with
  | some predicate => acceptsGroup predicate (← p.rowOver group) 0
  | none => .ok true

end Clauses

section Staged

variable {catalog : Catalog} {query : Query} {plan plan' : Plan} {projection : Projection}
  {groupBy : List Expr} {having : Option Expr}
  {withKeys withHaving withKeys' withHaving' : Projection}

/-- Without ORDER BY the plan sorts by nothing, and has no member after those for HAVING. -/
lemma Staged.unordered (staged : Staged query plan projection groupBy having withKeys withHaving)
    (staged' : Staged query.unordered plan' projection groupBy having withKeys' withHaving') :
    plan'.sortKeys = [] ∧ plan'.projection.Grows (fun _ => True) plan.projection := by
  obtain ⟨-, rfl⟩ := Prod.mk.inj (staged'.keys.symm.trans staged.keys)
  obtain ⟨-, rfl⟩ := Prod.mk.inj (Except.ok.inj (staged'.kept.symm.trans staged.kept))
  obtain ⟨hsorted, hprojection⟩ := Prod.mk.inj (Except.ok.inj staged'.order)
  refine ⟨hsorted.symm, ?_⟩
  rw [← hprojection]
  exact staged.grows_any.2.2

/-- The plan groups as the resolved clauses say. -/
lemma Staged.sources_eq {resolved : query.Resolved catalog}
    (staged : Staged query plan resolved.projection resolved.groupBy having withKeys withHaving)
    (hgrouped : plan.grouped = query.needsGrouping) (joined : List (List LogicalRow)) :
    plan.sources joined = resolved.sources joined := by
  have hcomputed := (groupKeys_spec (Q := fun _ => True)
    (fun (e : Expr) (_ : e ∈ resolved.groupBy) => trivial) resolved.projection).2
  rw [staged.keys] at hcomputed
  replace hcomputed : List.Forall₂ (fun e position => withKeys.ComputesAt position e)
    resolved.groupBy plan.keys := hcomputed
  obtain ⟨-, second, third⟩ := staged.grows_any
  have below : ∀ key ∈ plan.keys, key < withKeys.length := by
    intro key hkey
    obtain ⟨e, -, hcomputes⟩ := exists_of_forall₂ hcomputed.flip hkey
    exact Projection.ComputesAt.lt hcomputes
  rw [Plan.sources, Resolved.sources, staged.keys, hgrouped]
  dsimp only
  rw [Projection.keyValues_of_grows (second.trans third) below]

/-- HAVING reads no position that ORDER BY has added, so its verdict on a row is that on the values
of the members before ORDER BY. -/
lemma Staged.passes_eq {resolved : query.Resolved catalog} (htables : plan.tables = resolved.tables)
    (staged : Staged query plan resolved.projection resolved.groupBy having withKeys withHaving)
    {group : List (List LogicalRow)} {found : Row}
    (hrows : plan.projection.rowOver group = .ok found) :
    resolved.passes group = plan.passes found := by
  have hfewer := Projection.rowOver_of_grows staged.grows_any.2.2 hrows
  simp only [Resolved.passes, ← htables, staged.condition, staged.keys, staged.kept, hfewer, bind,
    Except.bind]
  rw [Plan.passes]
  rcases rewrites_of_planHaving staged.kept with ⟨-, hnone, -⟩ | ⟨e, predicate, -, hsome, rewrites⟩
  · rw [hnone]
  · have rewritten := rewrites.rewritten (Projection.Grows.refl _ _)
    rw [hsome]
    dsimp only
    rw [acceptsGroup, acceptsGroup, evaluate_take rewritten.refersBelow]

/-- What is behind the rows that HAVING keeps. -/
lemma Staged.keptSources_eq {resolved : query.Resolved catalog}
    (htables : plan.tables = resolved.tables)
    (staged : Staged query plan resolved.projection resolved.groupBy having withKeys withHaving)
    (hgrouped : plan.grouped = query.needsGrouping) {joined : List (List LogicalRow)}
    {rowOf : List (List LogicalRow) → Row} {answer : Answer}
    (shows : plan.Shows joined rowOf answer) : plan.keptSources joined rowOf =
      (resolved.sources joined).filter fun group => Result.holds (resolved.passes group) := by
  rw [Plan.keptSources, ← staged.sources_eq hgrouped]
  refine List.filter_congr fun group hgroup => ?_
  rw [staged.passes_eq htables (shows.rows group hgroup)]

/-- HAVING has a verdict on everything that is behind a row. -/
lemma Staged.exists_passes {resolved : query.Resolved catalog}
    (htables : plan.tables = resolved.tables)
    (staged : Staged query plan resolved.projection resolved.groupBy having withKeys withHaving)
    (hgrouped : plan.grouped = query.needsGrouping) {joined : List (List LogicalRow)}
    {rowOf : List (List LogicalRow) → Row} {answer : Answer}
    (shows : plan.Shows joined rowOf answer) : ∀ group ∈ resolved.sources joined,
      plan.projection.rowOver group = .ok (rowOf group) ∧ ∃ verdict,
        plan.passes (rowOf group) = .ok verdict ∧ resolved.passes group = .ok verdict := by
  intro group hgroup
  rw [← staged.sources_eq hgrouped] at hgroup
  have hrows := shows.rows group hgroup
  obtain ⟨verdict, hverdict⟩ := shows.tested group hgroup
  exact ⟨hrows, verdict, hverdict, (staged.passes_eq htables hrows).trans hverdict⟩

/-- Only an aggregate at the top of a visible member is one. -/
lemma Staged.topAggregate_of_visible
    (staged : Staged query plan projection groupBy having withKeys withHaving) :
    ∀ e ∈ projection.visible, e.TopAggregate := by
  intro e he
  cases hgrouped : query.needsGrouping with
  | true => exact (groupedBy_of_checkMembers (staged.checked hgrouped) e he).topAggregate
  | false =>
    rw [← staged.visible_eq] at he
    exact Or.inr ((staged.plain hgrouped).2 e (List.mem_append_left _ he))

/-- The visible values are those that the visible members take on the joined rows behind the
rows. -/
lemma Staged.visible_behind
    (staged : Staged query plan projection groupBy having withKeys withHaving)
    {groups : List (List (List LogicalRow))} {rowOf : List (List LogicalRow) → Row}
    (hrows : ∀ group ∈ groups, plan.projection.rowOver group = .ok (rowOf group)) :
    ∀ group ∈ groups, projection.visible.mapM (Expr.valueBehind group) =
      .ok ((rowOf group).take plan.projection.visible.length) := by
  intro group hgroup
  have hfolded := Projection.visible_of_rowOver (hrows group hgroup)
  rw [staged.visible_eq] at hfolded ⊢
  refine mapM_congr_of_ok hfolded fun e he value hvalue => ?_
  exact Expr.valueBehind_eq_ok (staged.topAggregate_of_visible e he) hvalue

/-- What ORDER BY sorts by has its aggregates at the top where the written terms have. -/
lemma Staged.topAggregate_of_sortsBy
    (staged : Staged query plan projection groupBy having withKeys withHaving) {written e : Expr}
    (top : written.TopAggregate) (h : SortsBy plan.tables projection written e) :
    e.TopAggregate := by
  rcases h with ⟨position, -, hvisible⟩ | ⟨-, hresolved⟩
  · exact staged.topAggregate_of_visible e (List.mem_of_getElem? hvisible)
  · have resolves := (Expr.resolve_eq_ok_iff.mp (Resolution.result_eq_ok.mp hresolved)).2
    rwa [Expr.TopAggregate, resolves.aggregate?_eq, resolves.hasAggregate_eq]

end Staged

/-- The literals of a member are written ones. -/
lemma Staged.exists_memberTerm {query : Query} {plan : Plan} {projection : Projection}
    {groupBy : List Expr} {having : Option Expr} {withKeys withHaving : Projection}
    (staged : Staged query plan projection groupBy having withKeys withHaving) :
    ∀ member ∈ plan.projection.members, ∃ written ∈ query.memberTerms,
      member.literals ⊆ written.literals := by
  have ofResolved {written e : Expr} (h : (written.resolve plan.tables).result = .ok e) :
      e.literals ⊆ written.literals :=
    Expr.literals_resolve (Resolution.result_eq_ok.mp h) ▸ List.Subset.refl _
  have ofMember {e : Expr} (he : e ∈ projection.members) : ∃ written ∈ query.memberTerms,
      e.literals ⊆ written.literals := by
    obtain ⟨written, hwritten, hresolve⟩ :=
      Projection.exists_written_of_resolve staged.resolved e he
    exact ⟨written, by simp [memberTerms, hwritten],
      ofResolved (Resolution.result_eq_ok.mpr hresolve)⟩
  obtain ⟨first, second, third⟩ := staged.grows
    (Q := fun e => ∃ written ∈ query.memberTerms, e.literals ⊆ written.literals)
    (fun e he => by
      obtain ⟨written, hwritten, hresolve⟩ := source_of_mem_of_mapM staged.grouping he
      exact ⟨written, by simp [memberTerms, hwritten], ofResolved (resolvePlain_eq_ok hresolve).1⟩)
    (fun e he part hpart _ => by
      obtain ⟨written, hwritten, hresolved⟩ := staged.exists_written_having he
      exact ⟨written, by simp [memberTerms, hwritten],
        List.Subset.trans (e.literals_subset_of_mem_parts part hpart) (ofResolved hresolved)⟩)
    (fun term hterm e hsorts _ => by
      rcases hsorts with ⟨position, -, hvisible⟩ | ⟨-, hresolved⟩
      · exact ofMember (List.mem_append_left _ (List.mem_of_getElem? hvisible))
      · have hwritten : term.expr ∈ query.orderBy.map SortTerm.expr := List.mem_map_of_mem hterm
        exact ⟨term.expr, by simp only [memberTerms, List.mem_append, hwritten, or_true],
          ofResolved hresolved⟩)
  intro member hmember
  rcases ((first.trans second).trans third).mem hmember with hmember | hadded
  · exact ofMember hmember
  · exact hadded

/-- A resolved expression has the signs of the members, where the written one has those of the
expressions that members come from. -/
lemma Staged.sameSigns {query : Query} {plan : Plan} {projection : Projection}
    {groupBy : List Expr} {having : Option Expr} {withKeys withHaving : Projection}
    (staged : Staged query plan projection groupBy having withKeys withHaving) {written e : Expr}
    (hresolved : (written.resolve plan.tables).result = .ok e)
    (signs : ∀ term ∈ query.memberTerms, term.SameSigns written) :
    ∀ member ∈ plan.projection.members, member.SameSigns e := by
  intro member hmember
  obtain ⟨term, hterm, hsubset⟩ := staged.exists_memberTerm member hmember
  have hliterals := Expr.literals_resolve (Resolution.result_eq_ok.mp hresolved)
  exact (signs term hterm).mono hsubset (hliterals ▸ List.Subset.refl _)

/-- Where HAVING accepts the values of the members over some joined rows, or refuses them, it does
so in its own meaning for these rows. -/
lemma Staged.acceptsOver_of_passes {s : Store} {query : Query} {plan : Plan}
    {projection : Projection} {groupBy : List Expr} {having : Option Expr}
    {withKeys withHaving : Projection}
    (staged : Staged query plan projection groupBy having withKeys withHaving)
    (bound : plan.Bound s) (hidden : query.projection.hidden = [])
    (signs : ∀ condition ∈ query.having, ∀ written ∈ query.memberTerms, written.SameSigns condition)
    {e : Expr} (he : having = some e)
    {row : List LogicalRow} {rest : List (List LogicalRow)} {found : Row}
    (hrows : plan.projection.rowOver (row :: rest) = .ok found) {verdict : Bool}
    (h : plan.passes found = .ok verdict) : e.acceptsOver (row :: rest) row = .ok verdict := by
  obtain ⟨written, hwritten, hresolved⟩ := staged.exists_written_having he
  have grouped : query.needsGrouping = true := by simp [needsGrouping, hwritten]
  have huses := staged.uses_having he
  have top : ∀ member ∈ plan.projection.members, member.TopAggregate :=
    fun member hmember => (staged.groupedBy grouped hidden member hmember).topAggregate
  have shown := Projection.shownBy_of_rowOver top hrows
  have same : ∀ part ∈ e.parts, plan.projection.SameOver (row :: rest) row part := by
    intro part hpart
    refine bound.sameOver staged.toGrouping grouped hidden
      (huses.resolvedIn.of_mem_parts part hpart) (fun member hmember => ?_) _ _
    have hsigns := staged.sameSigns hresolved (signs written hwritten) member hmember
    exact hsigns.mono (List.Subset.refl _) (e.literals_subset_of_mem_parts part hpart)
  have hrel := staged.having_rel
  rw [he] at hrel
  rw [Plan.passes] at h
  generalize plan.having = rewrittenHaving at h hrel
  cases hrel with
  | some rewritten => exact acceptsOver_of_acceptsGroup (rewritten.exists_overGroup shown same) h

/-- At a sort key stand the values that the expression of the term takes on the joined rows behind
the rows. -/
lemma Staged.sortValues_behind {s : Store} {query : Query} {plan : Plan} {projection : Projection}
    {groupBy : List Expr} {having : Option Expr} {withKeys withHaving : Projection}
    (staged : Staged query plan projection groupBy having withKeys withHaving)
    (bound : plan.Bound s) (top : ∀ term ∈ query.orderBy, term.expr.TopAggregate)
    (signs : ∀ term ∈ query.orderBy, ∀ written ∈ query.memberTerms, written.SameSigns term.expr)
    {groups : List (List (List LogicalRow))} {rowOf : List (List LogicalRow) → Row}
    (hrows : ∀ group ∈ groups, plan.projection.rowOver group = .ok (rowOf group)) :
    List.Forall₂ (fun term key => key.ascending = term.ascending ∧
      ∃ e, SortsBy plan.tables projection term.expr e ∧ ∀ group ∈ groups,
        e.valueBehind group = .ok ((rowOf group).getD key.position .null))
      query.orderBy plan.sortKeys := by
  have hterms := (List.forall₂_and_left query.orderBy plan.sortKeys).mpr
    ⟨fun _ hterm => hterm, staged.sortsAt⟩
  refine hterms.imp ?_
  rintro term key ⟨hterm, hdirection, e, hsorts, hposition⟩
  refine ⟨hdirection, e, hsorts, fun group hgroup => ?_⟩
  refine Expr.valueBehind_eq_ok (staged.topAggregate_of_sortsBy (top term hterm) hsorts) ?_
  rcases hposition with hmember | ⟨hresolved, member, hmember, hagrees⟩
  · exact Projection.foldedOver_of_rowOver (hrows group hgroup) hmember
  · -- the member that was found agrees with the expression, and has its signs
    have hmem := List.mem_of_getElem? hmember
    have hsigns := staged.sameSigns hresolved (signs term hterm) member hmem
    rw [← Projection.foldedOver_of_rowOver (hrows group hgroup) hmember]
    refine Expr.foldedOver_congr (Expr.agree_of_agrees hagrees).aggregate?_eq.symm fun row _ => ?_
    have hresolvedIn := Expr.resolvedIn_of_resolve (Resolution.result_eq_ok.mp hresolved)
    exact (bound.evaluate_eq_of_agrees (staged.toGrouping.resolved member hmem) hresolvedIn hsigns
      hagrees .full row).symm

/-! ## Two answers -/

/-- Both plans were made of the resolved clauses, with the same HAVING. -/
lemma Resolved.exists_staged_unordered {s : Store} {query : Query} {plan plan' : Plan}
    (resolved : query.Resolved s.catalog) (planned : Planned s.catalog query plan)
    (planned' : Planned s.catalog query.unordered plan') :
    plan.tables = resolved.tables ∧ plan'.tables = resolved.unordered.tables ∧
      ∃ having withKeys withHaving withKeys' withHaving',
        Staged query plan resolved.projection resolved.groupBy having withKeys withHaving ∧
        Staged query.unordered plan' resolved.unordered.projection resolved.unordered.groupBy having
          withKeys' withHaving' := by
  obtain ⟨htables, having, withKeys, withHaving, staged⟩ := resolved.exists_staged planned
  obtain ⟨htables', having', withKeys', withHaving', staged'⟩ :=
    resolved.unordered.exists_staged planned'
  have hsame : plan'.tables = plan.tables := htables'.trans htables.symm
  obtain rfl : having' = having :=
    Except.ok.inj ((hsame ▸ staged'.condition).symm.trans staged.condition)
  exact ⟨htables, htables', _, withKeys, withHaving, withKeys', withHaving', staged, staged'⟩

/-- Without ORDER BY the joined rows are the same. -/
lemma joinedRows_unordered {s : Store} {query : Query} {plan plan' : Plan}
    (hplan : query.plan s.catalog = .ok plan)
    (hplan' : query.unordered.plan s.catalog = .ok plan') {watch : Watch} {interval : Nat} :
    query.unordered.joinedRows s.catalog watch interval =
      query.joinedRows s.catalog watch interval :=
  joinedRows_of_clauses hplan hplan' rfl rfl rfl

/-- Without ORDER BY the answer has the same visible values over what HAVING keeps. -/
lemma Staged.rows_unordered {query : Query} {plan plan' : Plan} {projection : Projection}
    {groupBy : List Expr} {having : Option Expr}
    {withKeys withHaving withKeys' withHaving' : Projection}
    (staged : Staged query plan projection groupBy having withKeys withHaving)
    (staged' : Staged query.unordered plan' projection groupBy having withKeys' withHaving')
    (hdistinct : plan'.distinct = false) {joined : List (List LogicalRow)}
    {rowOf rowOf' : List (List LogicalRow) → Row} {answer plain : Answer}
    (shows : plan.Shows joined rowOf answer) (shows' : plan'.Shows joined rowOf' plain)
    (hkept : plan'.keptSources joined rowOf' = plan.keptSources joined rowOf) :
    plain.rows = (plan.keptSources joined rowOf).map fun group =>
      (rowOf group).take plan.projection.visible.length := by
  obtain ⟨hunsorted, grows⟩ := staged.unordered staged'
  have harranged := shows'.arranged
  rw [Plan.arrange_of_repeated hdistinct, hunsorted, Plan.sortRows_nil, hkept] at harranged
  rw [← Except.ok.inj harranged, cutToVisible, List.map_map]
  refine List.map_congr_left fun group hgroup => ?_
  have hgroup' : group ∈ plan'.keptSources joined rowOf' := hkept ▸ hgroup
  have hfewer := Projection.rowOver_of_grows grows (shows.rows group (List.mem_filter.mp hgroup).1)
  have hrow : rowOf' group = (rowOf group).take plan'.projection.length :=
    Except.ok.inj ((shows'.rows group (List.mem_filter.mp hgroup').1).symm.trans hfewer)
  -- the visible members are among those that the row is cut to
  have hvisible : plan.projection.visible = plan'.projection.visible := grows.visible_eq
  have hle : plan.projection.visible.length ≤ plan'.projection.length := by
    rw [hvisible]
    exact Nat.le_add_right _ _
  rw [Function.comp_apply, hrow, List.take_take, hvisible, Nat.min_eq_left (hvisible ▸ hle)]

/-- An answer of a plan, from the rows of its members. -/
lemma execute_of_projectedRows {s : Store} {query : Query} {plan : Plan} {rows arranged : List Row}
    (checked : query.checkEntries = .ok ()) (hplan : query.plan s.catalog = .ok plan)
    (hrows : plan.projectedRows s.catalog .never 1 = .ok rows) (hgrouped : plan.grouped = false)
    (harranged : plan.arrange rows = .ok arranged) :
    (query.execute s.catalog .never 1 0 .empty).1 =
      .ok ⟨plan.projection.outputNames, arranged⟩ := by
  rw [execute_of_unwritten (by decide) checked]
  refine Result.bind_eq_ok'.mpr ⟨plan, hplan, Plan.run_eq_ok_iff.mpr ⟨rfl, rfl, rfl, rows, hrows,
    rows, ?_, harranged⟩⟩
  rw [Plan.group, hgrouped]
  rfl

/-- The rows of the second answer are those of the first, under the same columns, stably sorted by
the values that the ORDER BY expressions take on the joined rows behind each row.  They are compared
key by key, NULL after all values in ascending order and before them in descending order.  Both
answers have a row for everything that HAVING keeps. -/
structure OrderedBy {catalog : Catalog} {query : Query} (resolved : query.Resolved catalog)
    (joined : List (List LogicalRow)) (plain answer : Answer)
    (groups : List (List (List LogicalRow))) (shown : List (List LogicalRow) → Row)
    (criteria : List (Criterion (List (List LogicalRow)))) : Prop where
  /-- The joined rows behind the rows, in the order of the first answer. -/
  behind : groups =
    (resolved.sources joined).filter fun group => Result.holds (resolved.passes group)
  tested : ∀ group ∈ resolved.sources joined, ∃ verdict, resolved.passes group = .ok verdict
  /-- HAVING keeps what it accepts in its own meaning. -/
  accepted : query.PlainHaving → ∀ having,
    resolveHaving resolved.tables query.having = .ok (some having) →
      ∀ row rest, row :: rest ∈ resolved.sources joined →
        having.acceptsOver (row :: rest) row = resolved.passes (row :: rest)
  visible : ∀ group ∈ groups,
    resolved.projection.visible.mapM (Expr.valueBehind group) = .ok (shown group)
  keys : List.Forall₂ (fun term criterion => criterion.ascending = term.ascending ∧
    ∃ e, SortsBy resolved.tables resolved.projection term.expr e ∧
      ∀ group ∈ groups, e.valueBehind group = .ok (criterion.value group)) query.orderBy criteria
  rows : plain.rows = groups.map shown
  perm : answer.rows.Perm plain.rows
  /-- Where no key is a real, the rows are in the order of the keys. -/
  sorted : (∀ criterion ∈ criteria, ∀ group ∈ groups, (criterion.value group).isReal = false) →
    answer.rows = (inOrder (lexOrder criteria) groups).map shown
  columns : answer.columns = plain.columns
  widths : ∀ row ∈ plain.rows, row.length = plain.columns.length

/-- ORDER BY only permutes, and sorts by the values of its expressions, where members that are found
for these have no zeros of the other sign in them, and aggregates stand at the top. -/
theorem execute_orderBy {s : Store} {query : Query} (resolved : query.Resolved s.catalog)
    (repeated : query.distinct = false) (top : ∀ term ∈ query.orderBy, term.expr.TopAggregate)
    (signs : ∀ term ∈ query.orderBy, ∀ written ∈ query.memberTerms, written.SameSigns term.expr)
    {watch : Watch} {interval : Nat} {joined : List (List LogicalRow)}
    (hjoined : query.joinedRows s.catalog watch interval = .ok joined)
    {session session' : Nat} {locks locks' : LockTable} {answer plain : Answer}
    (h : (query.execute s.catalog watch interval session locks).1 = .ok answer)
    (hplain : (query.unordered.execute s.catalog watch interval session' locks').1 = .ok plain) :
    ∃ groups shown criteria, OrderedBy resolved joined plain answer groups shown criteria := by
  obtain ⟨checked, plan, hplan, hrun⟩ := run_of_execute h
  obtain ⟨checked', plan', hplan', hrun'⟩ := run_of_execute hplain
  have planned := planned_of_plan hplan
  have planned' := planned_of_plan hplan'
  obtain ⟨htables, htables', having, withKeys, withHaving, withKeys', withHaving', staged,
    staged'⟩ := resolved.exists_staged_unordered planned planned'
  obtain ⟨rowOf, shows⟩ := exists_shows hplan hjoined hrun
  obtain ⟨rowOf', shows'⟩ :=
    exists_shows hplan' ((joinedRows_unordered hplan hplan').trans hjoined) hrun'
  have hdistinct : plan.distinct = false := planned.distinct.trans repeated
  have hdistinct' : plan'.distinct = false := planned'.distinct.trans repeated
  -- HAVING keeps the same with ORDER BY and without it
  have behind := staged.keptSources_eq htables planned.grouped shows
  have hkept : plan'.keptSources joined rowOf' = plan.keptSources joined rowOf :=
    (staged'.keptSources_eq htables' planned'.grouped shows').trans behind.symm
  have tested : ∀ group ∈ resolved.sources joined,
      plan'.projection.rowOver group = .ok (rowOf' group) ∧ ∃ verdict,
        plan'.passes (rowOf' group) = .ok verdict ∧ resolved.passes group = .ok verdict :=
    staged'.exists_passes htables' planned'.grouped shows'
  have hrows := staged.rows_unordered staged' hdistinct' shows shows' hkept
  have rows : ∀ group ∈ plan.keptSources joined rowOf,
      plan.projection.rowOver group = .ok (rowOf group) :=
    fun group hgroup => shows.rows group (List.mem_filter.mp hgroup).1
  have values := staged.sortValues_behind (Plan.bound_of_planned checked planned) top signs rows
  rw [htables] at values
  refine ⟨plan.keptSources joined rowOf, fun group =>
    (rowOf group).take plan.projection.visible.length, Plan.sortCriteria plan.sortKeys rowOf, {
      behind := behind
      tested := fun group hgroup => (tested group hgroup).2.imp fun verdict => And.right
      accepted := fun plain e he row rest hgroup => ?_
      visible := staged.visible_behind rows
      keys := ?_
      rows := hrows
      perm := hrows ▸ shows.rows_perm hdistinct
      sorted := fun notReal => ?_
      columns := ?_
      widths := shows'.widths hdistinct' }⟩
  · obtain ⟨hrow, verdict, hverdict, hpasses⟩ := tested _ hgroup
    have hhaving : having = some e := Except.ok.inj ((htables ▸ staged.condition).symm.trans he)
    rw [hpasses]
    exact staged'.acceptsOver_of_passes (Plan.bound_of_planned checked' planned') plain.hidden
      plain.signs hhaving hrow hverdict
  · rwa [Plan.sortCriteria, List.forall₂_map_right_iff]
  · refine Plan.arrange_eq_ok hdistinct (fun group hgroup key hkey => ?_) shows.arranged
    exact notReal _ (List.mem_map_of_mem hkey) group hgroup
  · have hvisible' : plan'.projection.visible = resolved.projection.visible := staged'.visible_eq
    rw [shows.columns, shows'.columns, Projection.outputNames, Projection.outputNames,
      staged.visible_eq, hvisible']

/-- Three groups in the order of a sum that is no member, the group without a sum at the end. -/
theorem execute_orderBy_sum : ∃ (s : Store) (query : Query) (resolved : query.Resolved s.catalog)
    (joined : List (List LogicalRow)) (answer plain : Answer),
    query.joinedRows s.catalog .never 1 = .ok joined ∧
      (query.execute s.catalog .never 1 0 .empty).1 = .ok answer ∧
      (query.unordered.execute s.catalog .never 1 0 .empty).1 = .ok plain ∧
      plain.rows = [[.integer 1], [.integer 2], [.integer 3]] ∧
      answer.rows = [[.integer 3], [.integer 1], [.integer 2]] ∧
      ∃ groups shown criteria, OrderedBy resolved joined plain answer groups shown criteria := by
  let definition : TableSchema := ⟨"a", [⟨"k", .integer⟩, ⟨"x", .integer⟩]⟩
  let rows : List (Nat × Row) := [(1, [.integer 1, .integer 4]), (2, [.integer 2, .null]),
    (3, [.integer 3, .integer 5]), (4, [.integer 1, .integer 3])]
  let s : Store := ⟨[⟨definition, rows, 5⟩]⟩
  let sum (x : Expr) : Expr := .call (.aggregate .sum) x none
  let query : Query := {
    Query.selecting [.written "a" "k"] ["a"] [] none with
    groupBy := [.written "a" "k"]
    orderBy := [⟨sum (.written "a" "x"), true⟩] }
  let bound : BoundEntry := ⟨⟨"a", none⟩, definition⟩
  let k : Expr := .column (.declared bound 0 ⟨"k", .integer⟩) none
  let resolved : query.Resolved s.catalog := {
    tables := [bound]
    projection := ⟨[k], []⟩
    groupBy := [k]
    bound := by cbv
    members := by cbv
    keys := by cbv }
  let joined : List (List LogicalRow) := rows.map fun row => [.stored ⟨"a", row.1, row.2⟩]
  have hjoined : query.joinedRows s.catalog .never 1 = .ok joined := by cbv
  have ran : (query.execute s.catalog .never 1 0 .empty).1 = .ok ⟨["k"],
      [[.integer 3], [.integer 1], [.integer 2]]⟩ := by
    rw [execute_of_unwritten (by decide) (by decide)]
    cbv
  have ran' : (query.unordered.execute s.catalog .never 1 0 .empty).1 = .ok ⟨["k"],
      [[.integer 1], [.integer 2], [.integer 3]]⟩ := by
    rw [execute_of_unwritten (by decide) (by decide)]
    cbv
  have ordered := execute_orderBy resolved rfl (by decide) (by decide) hjoined ran ran'
  exact ⟨s, query, resolved, joined, _, _, hjoined, ran, ran', rfl, rfl, ordered⟩

/-- Not every ORDER BY sorts by its expression: a member with a zero of the other sign is taken for
it, and its texts are sorted instead. -/
theorem not_forall_execute_orderBy :
    ¬∀ (s : Store) (query : Query) (resolved : query.Resolved s.catalog)
      (joined : List (List LogicalRow)) (answer plain : Answer), query.distinct = false →
      query.joinedRows s.catalog .never 1 = .ok joined →
      (query.execute s.catalog .never 1 0 .empty).1 = .ok answer →
      (query.unordered.execute s.catalog .never 1 0 .empty).1 = .ok plain →
      ∃ groups shown criteria, OrderedBy resolved joined plain answer groups shown criteria := by
  intro h
  let table : StoredTable := .ofIntegers "t" ["c"] [[1], [-1]]
  let s : Store := ⟨[table]⟩
  let times (c : Expr) (zero : Binary64) (label : Option String) : Expr := .call (.conversion .text)
    (.binary (.arithmetic .multiply) c (.literal (.real zero) none) none) label
  let query : Query := {
    Query.selecting [times (.written "t" "c") ⟨0⟩ (some "x")] ["t"] [] none with
    orderBy := [⟨times (.written "t" "c") ⟨0x8000000000000000⟩ none, true⟩] }
  let bound : BoundEntry := ⟨⟨"t", none⟩, table.definition⟩
  let c : Expr := .column (.declared bound 0 ⟨"c", .integer⟩) none
  let projection : Projection := ⟨[times c ⟨0⟩ (some "x")], []⟩
  let key : Expr := times c ⟨0x8000000000000000⟩ none
  let resolved : query.Resolved s.catalog := {
    tables := [bound]
    projection := projection
    groupBy := []
    bound := by cbv
    members := by cbv
    keys := by cbv }
  let first : List LogicalRow := [.stored ⟨"t", 1, [.integer 1]⟩]
  let second : List LogicalRow := [.stored ⟨"t", 2, [.integer (-1)]⟩]
  have hjoined : query.joinedRows s.catalog .never 1 = .ok [first, second] := by cbv
  let plan (sortKeys : List OrderKey) : Plan :=
    ⟨[bound], projection, false, none, [], false, [], none, sortKeys⟩
  have projected : (plan [⟨0, true⟩]).projectedRows s.catalog .never 1 =
      .ok [[.text "0.0"], [.text "-0.0"]] := by
    decide +kernel
  have projected' : (plan []).projectedRows s.catalog .never 1 =
      .ok [[.text "0.0"], [.text "-0.0"]] := by
    decide +kernel
  have ran : (query.execute s.catalog .never 1 0 .empty).1 =
      .ok ⟨projection.outputNames, [[.text "-0.0"], [.text "0.0"]]⟩ :=
    execute_of_projectedRows (by decide) (by cbv) projected rfl (by cbv)
  have ran' : (query.unordered.execute s.catalog .never 1 0 .empty).1 =
      .ok ⟨projection.outputNames, [[.text "0.0"], [.text "-0.0"]]⟩ :=
    execute_of_projectedRows (by decide) (by cbv) projected' rfl (by cbv)
  obtain ⟨groups, shown, criteria, ordered⟩ := h s query resolved _ _ _ rfl hjoined ran ran'
  obtain rfl : groups = [[first], [second]] := ordered.behind
  obtain ⟨criterion, rest, ⟨hascending, e, hsorts, hvalues⟩, hrest, rfl⟩ :=
    List.forall₂_cons_left_iff.mp ordered.keys
  obtain rfl := List.forall₂_nil_left_iff.mp hrest
  obtain rfl : e = key := hsorts.unique (Or.inr ⟨rfl, by cbv⟩)
  have hfirst : criterion.value [first] = .text "-0.0" := by
    have hvalue : key.valueBehind [first] = .ok (.text "-0.0") := by decide +kernel
    exact Except.ok.inj ((hvalues [first] (by simp)).symm.trans hvalue)
  have hsecond : criterion.value [second] = .text "0.0" := by
    have hvalue : key.valueBehind [second] = .ok (.text "0.0") := by decide +kernel
    exact Except.ok.inj ((hvalues [second] (by simp)).symm.trans hvalue)
  have hsorted := ordered.sorted (by simp [hfirst, hsecond, Value.isReal])
  have hkept : inOrder (lexOrder [criterion]) [[first], [second]] = [[first], [second]] := by
    have hle : (lexOrder [criterion] [first] [second]).isLE := by
      rw [lexOrder, lexOrder, compareLex, Criterion.order, hfirst, hsecond, hascending]
      decide
    exact List.mergeSort_of_pairwise (by simpa using hle)
  rw [hkept, ← ordered.rows] at hsorted
  exact absurd hsorted (by decide)
end Query

end RelQuery
