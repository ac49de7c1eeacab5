import RelQuery.Proofs.Engine.Widening

/-!
# HAVING and a further literal

With a literal as a further visible member a query has the same joined rows behind its rows, and
HAVING keeps the same of these, so its answer is the answer without the literal, with one more value
in each row.  ORDER BY may take the literal for what it sorts by, when the literal has the name that
ORDER BY means; otherwise the rows are in the same order.

HAVING reads a literal of its own from the member that agrees with it.  So it reads another value
where this member has a zero of the other sign, and NULL where there is no joined row behind the
row.
-/

namespace RelQuery

/-- The name of an unqualified column. -/
def Expr.bareName? : Expr → Option String
  | column ref _ => if ref.table.isNone then some ref.name else none
  | _ => none

namespace Query

open Projection

/-- The query with a literal as a further visible member. -/
def withLiteral (query : Query) (value : Value) (label : Option String) : Query :=
  { query with projection := query.projection.push (.literal value label) }

/-! ## ORDER BY -/

section Order

variable {value : Value} {label : Option String} {p p' q q' : Projection}

/-- A member of another name is not found by the name. -/
lemma namedPositionFrom_append {name : String} {e : Expr}
    (other : Name.same e.outputName name = false) (first : Option (Nat × Expr)) (start : Nat)
    (es : List Expr) :
    namedPositionFrom name first start (es ++ [e]) = namedPositionFrom name first start es := by
  fun_induction namedPositionFrom name first start es with
  | case1 first start => simp [namedPositionFrom, other]
  | case2 start e' rest hsame ih => simp [namedPositionFrom, hsame, ih]
  | case3 start e' rest hsame position found hagrees ih =>
    simp [namedPositionFrom, hsame, hagrees, ih]
  | case4 start e' rest hsame position found hagrees =>
    simp [namedPositionFrom, hsame, hagrees]
  | case5 first start e' rest hother ih => simp [namedPositionFrom, hother, ih]

/-- An expression that does not have the name of the literal names the same member. -/
lemma namedMember_of_widens (widens : Widens value label p p') {e : Expr}
    (unnamed : ∀ name, e.bareName? = some name →
      Name.same (Expr.literal value label).outputName name = false) :
    namedMember p' e = namedMember p e := by
  cases e with
  | column ref written =>
    cases hbare : ref.table.isNone with
    | true =>
      have other := unnamed ref.name (by rw [Expr.bareName?, if_pos hbare])
      simp only [namedMember, hbare, if_true, namedPosition, widens.visible,
        namedPositionFrom_append other]
    | false => simp only [namedMember, hbare, Bool.false_eq_true, if_false]
  | _ => rfl

/-- A sort position is that of a named member, or of one that computes the expression. -/
lemma sortPosition_cases {tables : List BoundEntry} {groupBy : List Expr} {grouped : Bool}
    {e : Expr} {position : Nat}
    (h : sortPosition tables groupBy grouped p e = .ok (position, q)) :
    (namedMember p e = .ok (some position) ∧ q = p) ∨ (namedMember p e = .ok none ∧
      ∃ resolved, (e.resolve tables).result = .ok resolved ∧
        p.positionOf resolved = (position, q)) := by
  unfold sortPosition at h
  obtain ⟨named, hnamed, h⟩ := Result.bind_eq_ok.mp h
  cases named with
  | some found =>
    obtain ⟨rfl, rfl⟩ := Prod.mk.inj (Result.pure_eq_ok.mp h)
    exact Or.inl ⟨hnamed, rfl⟩
  | none =>
    obtain ⟨resolved, hresolved, h⟩ := Result.bind_eq_ok.mp h
    refine Or.inr ⟨hnamed, resolved, hresolved, ?_⟩
    unfold positionOf
    cases hagreeing : p.agreeing? resolved with
    | some found =>
      rw [hagreeing] at h
      exact Result.pure_eq_ok.mp h
    | none =>
      rw [hagreeing] at h
      dsimp only at h ⊢
      split at h
      all_goals
        obtain ⟨_, -, h⟩ := Result.bind_eq_ok.mp h
        exact Result.pure_eq_ok.mp h

/-- A term of ORDER BY that does not have the name of the literal sorts by twins. -/
lemma sortPosition_widens (widens : Widens value label p p') {tables : List BoundEntry}
    {groupBy : List Expr} {grouped : Bool} {e : Expr} {position position' : Nat}
    (unnamed : ∀ name, e.bareName? = some name →
      Name.same (Expr.literal value label).outputName name = false)
    (h : sortPosition tables groupBy grouped p e = .ok (position, q))
    (h' : sortPosition tables groupBy grouped p' e = .ok (position', q')) :
    Widens value label q q' ∧ q.TwinsAt q' position position' := by
  have hsame := namedMember_of_widens widens unnamed
  rcases sortPosition_cases h with ⟨hnamed, rfl⟩ | ⟨hnamed, resolved, hresolved, hposition⟩ <;>
    rcases sortPosition_cases h' with ⟨hnamed', rfl⟩ | ⟨hnamed', resolved', hresolved', hposition'⟩
    <;> rw [hsame, hnamed] at hnamed'
  · -- a visible member stays at its position
    obtain rfl := Option.some.inj (Except.ok.inj hnamed')
    have hlt := lt_of_namedMember hnamed
    have hmember : q.members[position]? = some q.visible[position] := by
      rw [members, List.getElem?_append_left hlt, List.getElem?_eq_getElem hlt]
    have hmember' : q'.members[position]? = some q.visible[position] := by
      rw [members, widens.visible, List.append_assoc, List.getElem?_append_left hlt,
        List.getElem?_eq_getElem hlt]
    exact ⟨widens, _, _, hmember, hmember', .refl _⟩
  · simp at hnamed'
  · simp at hnamed'
  · obtain rfl := Except.ok.inj (hresolved'.symm.trans hresolved)
    have hpositions := widens.positionOf resolved'
    rwa [hposition, hposition'] at hpositions

/-- Without the name of the literal ORDER BY has twins for its keys. -/
lemma planOrder_widens (widens : Widens value label p p') {tables : List BoundEntry}
    {groupBy : List Expr} {grouped : Bool} {terms : List SortTerm} {keys keys' : List OrderKey}
    (unnamed : ∀ term ∈ terms, ∀ name, term.expr.bareName? = some name →
      Name.same (Expr.literal value label).outputName name = false)
    (h : planOrder tables groupBy grouped p terms = .ok (keys, q))
    (h' : planOrder tables groupBy grouped p' terms = .ok (keys', q')) :
    List.Forall₂ (fun key key' => key.ascending = key'.ascending ∧
      q.TwinsAt q' key.position key'.position) keys keys' := by
  induction terms generalizing p p' keys keys' with
  | nil =>
    obtain ⟨rfl, rfl⟩ := Prod.mk.inj (Except.ok.inj h)
    obtain ⟨rfl, rfl⟩ := Prod.mk.inj (Except.ok.inj h')
    exact .nil
  | cons term rest ih =>
    rw [planOrder] at h h'
    obtain ⟨⟨position, between⟩, hfirst, h⟩ := Result.bind_eq_ok.mp h
    obtain ⟨⟨others, final⟩, hrest, h⟩ := Result.bind_eq_ok.mp h
    obtain ⟨rfl, rfl⟩ := Prod.mk.inj (Result.pure_eq_ok.mp h)
    obtain ⟨⟨position', between'⟩, hfirst', h'⟩ := Result.bind_eq_ok.mp h'
    obtain ⟨⟨others', final'⟩, hrest', h'⟩ := Result.bind_eq_ok.mp h'
    obtain ⟨rfl, rfl⟩ := Prod.mk.inj (Result.pure_eq_ok.mp h')
    obtain ⟨hbetween, twins⟩ :=
      sortPosition_widens widens (unnamed term List.mem_cons_self) hfirst hfirst'
    have grows := (planOrder_spec (Q := fun _ => True) hrest fun _ _ _ _ _ => trivial).1
    have grows' := (planOrder_spec (Q := fun _ => True) hrest' fun _ _ _ _ _ => trivial).1
    exact .cons ⟨rfl, twins.grows grows grows'⟩
      (ih hbetween (fun term hterm => unnamed term (List.mem_cons_of_mem _ hterm)) hrest hrest')

end Order

/-! ## Plans -/

/-- A literal does not change whether the query groups. -/
lemma needsGrouping_withLiteral (query : Query) (value : Value) (label : Option String) :
    (query.withLiteral value label).needsGrouping = query.needsGrouping := by
  simp [needsGrouping, withLiteral, push, Projection.hasAggregate, members, Expr.hasAggregate]

section Staged

variable {query : Query} {plan plan' : Plan} {value : Value} {label : Option String}
  {projection : Projection} {groupBy : List Expr} {having : Option Expr}
  {withKeys withHaving withKeys' withHaving' : Projection}

/-- A further literal is its own resolution. -/
lemma resolve_push {tables : List BoundEntry} {p resolved : Projection}
    (h : p.resolve tables = .ok resolved) (value : Value) (label : Option String) :
    (p.push (.literal value label)).resolve tables =
      .ok (resolved.push (.literal value label)) := by
  have list {es found : List Expr} (h : resolveList tables es = .ok found) :
      resolveList tables (es ++ [.literal value label]) =
        .ok (found ++ [.literal value label]) := by
    induction es generalizing found with
    | nil =>
      obtain rfl := Except.ok.inj h
      rfl
    | cons first rest ih =>
      rw [resolveList] at h
      split at h
      · simp at h
      · rename_i e he
        obtain ⟨others, hothers, rfl⟩ := Resolution.put_eq_ok.mp h
        rw [List.cons_append, resolveList, he, ih hothers]
        rfl
  unfold Projection.resolve at h
  split at h
  · simp at h
  · rename_i visible hvisible
    obtain ⟨hidden, hhidden, rfl⟩ := Resolution.put_eq_ok.mp h
    unfold Projection.resolve push
    rw [list hvisible]
    exact Resolution.put_eq_ok.mpr ⟨hidden, hhidden, rfl⟩

/-- The plans of the query without and with the literal have the same clauses. -/
lemma exists_staged_withLiteral {catalog : Catalog} (planned : Planned catalog query plan)
    (planned' : Planned catalog (query.withLiteral value label) plan') :
    plan'.tables = plan.tables ∧
      ∃ projection groupBy having withKeys withHaving withKeys' withHaving',
        Staged query plan projection groupBy having withKeys withHaving ∧
        Staged (query.withLiteral value label) plan' (projection.push (.literal value label))
          groupBy having withKeys' withHaving' := by
  have htables : plan'.tables = plan.tables :=
    Except.ok.inj (planned'.tables.symm.trans planned.tables)
  obtain ⟨projection, groupBy, having, withKeys, withHaving, staged⟩ := planned.staged
  obtain ⟨projection', groupBy', having', withKeys', withHaving', staged'⟩ := planned'.staged
  obtain rfl : projection' = projection.push (.literal value label) :=
    Except.ok.inj ((htables ▸ staged'.resolved).symm.trans
      (resolve_push staged.resolved value label))
  obtain rfl : groupBy' = groupBy :=
    Except.ok.inj ((htables ▸ staged'.grouping).symm.trans staged.grouping)
  obtain rfl : having' = having :=
    Except.ok.inj ((htables ▸ staged'.condition).symm.trans staged.condition)
  exact ⟨htables, projection, groupBy', having', withKeys, withHaving, withKeys', withHaving',
    staged, staged'⟩

variable (staged : Staged query plan projection groupBy having withKeys withHaving)
  (staged' : Staged (query.withLiteral value label) plan' (projection.push (.literal value label))
    groupBy having withKeys' withHaving')
include staged staged'

/-- The keys are twins. -/
lemma Staged.keys_withLiteral : Widens value label withKeys withKeys' ∧
    List.Forall₂ (withKeys.TwinsAt withKeys') plan.keys plan'.keys := by
  have h := groupKeys_widens (widens_push projection value label) groupBy
  rwa [staged.keys, staged'.keys] at h

/-- With the literal there is one more visible member. -/
lemma Staged.visible_withLiteral :
    plan'.projection.visible = plan.projection.visible ++ [.literal value label] := by
  rw [staged'.visible_eq, staged.visible_eq]
  rfl

/-- HAVING is absent from both plans, or rewritten to the members of both. -/
lemma Staged.having_withLiteral : Widens value label withHaving withHaving' ∧
    (plan.having = none ∧ plan'.having = none ∨ ∃ e predicate predicate',
      having = some e ∧ plan.having = some predicate ∧ plan'.having = some predicate' ∧
        RewrittenTwice value plan.projection plan'.projection e predicate predicate') := by
  have widens := (staged.keys_withLiteral staged').1
  rcases rewrites_of_planHaving staged.kept with
    ⟨rfl, hplan, rfl⟩ | ⟨e, predicate, rfl, hplan, rewrites⟩ <;>
  rcases rewrites_of_planHaving staged'.kept with
    ⟨hhaving, hplan', rfl⟩ | ⟨e', predicate', hhaving, hplan', rewrites'⟩
  · exact ⟨widens, Or.inl ⟨hplan, hplan'⟩⟩
  · simp at hhaving
  · simp at hhaving
  · obtain rfl := Option.some.inj hhaving
    obtain ⟨hwidens, rewritten⟩ := rewrittenTwice_of_rewrites widens rewrites rewrites'
    exact ⟨hwidens, Or.inr ⟨e, predicate, predicate', rfl, hplan, hplan',
      rewritten _ _ staged.grows_any.2.2 staged'.grows_any.2.2⟩⟩

/-- The same joined rows are behind the rows. -/
lemma Staged.sources_withLiteral (hgrouped : plan'.grouped = plan.grouped)
    (joined : List (List LogicalRow)) : plan'.sources joined = plan.sources joined := by
  obtain ⟨-, second, third⟩ := staged.grows_any
  obtain ⟨-, second', third'⟩ := staged'.grows_any
  have twins := (staged.keys_withLiteral staged').2.imp fun _ _ twins =>
    twins.grows (second.trans third) (second'.trans third')
  have hruns : runsBy (plan.projection.keyValues plan.keys) joined =
      runsBy (plan'.projection.keyValues plan'.keys) joined := by
    refine runsBy_congr ?_
    rw [keyValues, keyValues, List.forall₂_map_left_iff, List.forall₂_map_right_iff]
    refine twins.imp ?_
    rintro key key' ⟨member, member', hmember, hmember', twin⟩ a - b -
    rw [List.getD_eq_getElem?_getD, List.getD_eq_getElem?_getD, hmember, hmember',
      Option.getD_some, Option.getD_some, ← Value.sortOrder_unsigned, ← Value.alike_unsigned,
      twin.valueOn a, twin.valueOn b, Value.sortOrder_unsigned, Value.alike_unsigned]
    exact ⟨rfl, rfl⟩
  rw [Plan.sources, Plan.sources, hgrouped, hruns]

/-- With the literal there is one more value behind the visible ones. -/
lemma Staged.rows_withLiteral {group : List (List LogicalRow)} {found found' : Row}
    (h : plan.projection.rowOver group = .ok found)
    (h' : plan'.projection.rowOver group = .ok found') :
    (found'.take plan'.projection.visible.length).dropLast =
      found.take plan.projection.visible.length := by
  have hvisible := Projection.visible_of_rowOver h
  have hvisible' := Projection.visible_of_rowOver h'
  rw [staged.visible_withLiteral staged', List.mapM_append] at hvisible'
  obtain ⟨first, hfirst, hvisible'⟩ := Result.bind_eq_ok.mp hvisible'
  obtain ⟨second, hsecond, hvisible'⟩ := Result.bind_eq_ok.mp hvisible'
  obtain rfl := Except.ok.inj (hfirst.symm.trans hvisible)
  obtain ⟨last, rfl⟩ := List.length_eq_one_iff.mp (length_of_mapM hsecond)
  rw [staged.visible_withLiteral staged', ← Result.pure_eq_ok.mp hvisible', List.dropLast_concat]

/-- HAVING has the same outcome on the rows of both plans. -/
lemma Staged.passes_withLiteral {group : List (List LogicalRow)} {found found' : Row}
    (h : plan.projection.rowOver group = .ok found)
    (h' : plan'.projection.rowOver group = .ok found')
    (shared : ∀ e, having = some e → ∀ w ∈ e.outerLiterals, value.same w = true →
      (group ≠ [] ∨ w = .null) ∧ ∀ v label,
        .literal v label ∈ plan.projection.members ++ plan'.projection.members →
          v.same w = true → v = w) :
    plan'.passes found' = plan.passes found := by
  rcases (staged.having_withLiteral staged').2 with
    ⟨hnone, hnone'⟩ | ⟨e, predicate, predicate', rfl, hsome, hsome', rewritten⟩
  · rw [Plan.passes, Plan.passes, hnone, hnone']
  · rw [Plan.passes, Plan.passes, hsome, hsome']
    exact (acceptsGroup_congr (rewritten.evaluate_eq h h' (shared e rfl) 0)).symm

end Staged

/-- HAVING reads its literals alike whether or not the value is a member.  Where it has a literal
that is the same as the value, nothing that members come from has a zero of the other sign, and
joined rows are behind every row, unless the value is NULL, as which it is read over no rows too. -/
def ReadsAlike (query : Query) (value : Value) (joined : List (List LogicalRow)) : Prop :=
  ∀ written, query.having = some written → ∀ w ∈ written.outerLiterals, value.same w = true →
    (∀ term ∈ query.memberTerms, term.SameSigns (.literal value none)) ∧
      (value = .null ∨ query.groupBy ≠ [] ∨ joined ≠ [])

section Answers

variable {query : Query} {plan plan' : Plan} {value : Value} {label : Option String}
  {projection : Projection} {groupBy : List Expr} {having : Option Expr}
  {withKeys withHaving withKeys' withHaving' : Projection} {joined : List (List LogicalRow)}

/-- Only the literal is new among the expressions that members come from. -/
lemma mem_memberTerms_withLiteral {term : Expr}
    (h : term ∈ (query.withLiteral value label).memberTerms) :
    term ∈ query.memberTerms ∨ term = .literal value label := by
  simp only [memberTerms, withLiteral, members, push, List.mem_append, List.mem_singleton] at h ⊢
  tauto

/-- Joined rows are behind every row, where there are any or GROUP BY has keys. -/
lemma Staged.ne_nil_of_mem_sources
    (staged : Staged query plan projection groupBy having withKeys withHaving)
    {group : List (List LogicalRow)} (hgroup : group ∈ plan.sources joined)
    (inhabited : query.groupBy ≠ [] ∨ joined ≠ []) : group ≠ [] := by
  unfold Plan.sources at hgroup
  split at hgroup
  · refine ne_nil_of_mem_runsBy hgroup (inhabited.imp_left fun hwritten hkeys => hwritten ?_)
    have hlength := staged.keysComputed.length_eq
    rw [List.map_eq_nil_iff.mp hkeys, length_of_mapM staged.grouping] at hlength
    exact List.length_eq_zero_iff.mp hlength
  · obtain ⟨row, -, rfl⟩ := List.mem_map.mp hgroup
    exact List.cons_ne_nil _ _

/-- Where the literal is read alike, it has the value of every literal of HAVING that is the same,
and these are read as they are written. -/
lemma ReadsAlike.shared (reads : query.ReadsAlike value joined)
    (staged : Staged query plan projection groupBy having withKeys withHaving)
    (staged' : Staged (query.withLiteral value label) plan'
      (projection.push (.literal value label)) groupBy having withKeys' withHaving')
    {group : List (List LogicalRow)} (hgroup : group ∈ plan.sources joined) :
    ∀ e, having = some e → ∀ w ∈ e.outerLiterals, value.same w = true →
      (group ≠ [] ∨ w = .null) ∧ ∀ v label',
        .literal v label' ∈ plan.projection.members ++ plan'.projection.members →
          v.same w = true → v = w := by
  rintro e rfl w hw hsame
  obtain ⟨written, hwritten, hresolve⟩ := staged.exists_written_having rfl
  have resolves := (Expr.resolve_eq_ok_iff.mp (Resolution.result_eq_ok.mp hresolve)).2
  rw [resolves.outerLiterals_eq] at hw
  obtain ⟨signs, hbehind⟩ := reads written hwritten w hw hsame
  have hown : w ∈ written.literals := written.outerLiterals_subset hw
  obtain rfl : w = value := signs written (by simp [memberTerms, hwritten]) w hown value
    (List.mem_singleton.mpr rfl) (Value.same_comm hsame)
  refine ⟨?_, fun v label' hv hvw => ?_⟩
  · rcases hbehind with hnull | hinhabited
    · exact Or.inr hnull
    · exact Or.inl (staged.ne_nil_of_mem_sources hgroup hinhabited)
  · have ofTerm {term : Expr} (hterm : term ∈ query.memberTerms) (hin : v ∈ term.literals) :
        v = w := signs term hterm v hin w (List.mem_singleton.mpr rfl) hvw
    rcases List.mem_append.mp hv with hv | hv
    · obtain ⟨term, hterm, hsubset⟩ := staged.exists_memberTerm _ hv
      exact ofTerm hterm (hsubset (List.mem_singleton.mpr rfl))
    · obtain ⟨term, hterm, hsubset⟩ := staged'.exists_memberTerm _ hv
      have hin : v ∈ term.literals := hsubset (List.mem_singleton.mpr rfl)
      rcases mem_memberTerms_withLiteral hterm with hterm | rfl
      · exact ofTerm hterm hin
      · exact List.mem_singleton.mp hin

/-- Before ORDER BY the two answers show the same joined rows. -/
lemma Staged.kept_withLiteral (reads : query.ReadsAlike value joined)
    (staged : Staged query plan projection groupBy having withKeys withHaving)
    (staged' : Staged (query.withLiteral value label) plan'
      (projection.push (.literal value label)) groupBy having withKeys' withHaving')
    (hgrouped : plan'.grouped = plan.grouped) {rowOf rowOf' : List (List LogicalRow) → Row}
    {answer wider : Answer} (shows : plan.Shows joined rowOf answer)
    (shows' : plan'.Shows joined rowOf' wider) :
    plan'.keptSources joined rowOf' = plan.keptSources joined rowOf := by
  have hsources := staged.sources_withLiteral staged' hgrouped joined
  rw [Plan.keptSources, Plan.keptSources, hsources]
  refine List.filter_congr fun group hgroup => ?_
  rw [staged.passes_withLiteral staged' (shows.rows group hgroup)
    (shows'.rows group (hsources ▸ hgroup)) (reads.shared staged staged' hgroup)]

/-- Where no term of ORDER BY has the name of the literal, both plans bring rows that are behind the
same joined rows into the same order. -/
lemma Staged.sorted_withLiteral
    (staged : Staged query plan projection groupBy having withKeys withHaving)
    (staged' : Staged (query.withLiteral value label) plan'
      (projection.push (.literal value label)) groupBy having withKeys' withHaving')
    (htables : plan'.tables = plan.tables)
    (unnamed : ∀ term ∈ query.orderBy, ∀ name, term.expr.bareName? = some name →
      Name.same (Expr.literal value label).outputName name = false)
    {groups : List (List (List LogicalRow))} {rowOf rowOf' : List (List LogicalRow) → Row}
    (h : ∀ group ∈ groups, plan.projection.rowOver group = .ok (rowOf group))
    (h' : ∀ group ∈ groups, plan'.projection.rowOver group = .ok (rowOf' group)) :
    ∃ sorted : List (List (List LogicalRow)), sorted.Perm groups ∧
      OrderKey.sortRows plan.sortKeys (groups.map rowOf) = sorted.map rowOf ∧
      OrderKey.sortRows plan'.sortKeys (groups.map rowOf') = sorted.map rowOf' := by
  have horder' := staged'.order
  rw [htables, needsGrouping_withLiteral] at horder'
  have twins := planOrder_widens (staged.having_withLiteral staged').1 unnamed staged.order horder'
  have values : ∀ group ∈ groups, ∀ {position position'},
      plan.projection.TwinsAt plan'.projection position position' →
        ((rowOf group).getD position .null).unsigned =
          ((rowOf' group).getD position' .null).unsigned := by
    rintro group hgroup position position' ⟨member, member', hmember, hmember', twin⟩
    exact twin.foldedOver (foldedOver_of_rowOver (h group hgroup) hmember)
      (foldedOver_of_rowOver (h' group hgroup) hmember')
  refine ⟨stableSort (fun a b => OrderKey.compareAll (rowOf a) (rowOf b) plan.sortKeys) groups,
    stableSort_perm _ _, ?_, ?_⟩
  · rw [OrderKey.sortRows]
    exact (map_stableSort (f := rowOf) fun _ _ _ _ => rfl).symm
  · rw [OrderKey.sortRows]
    refine (map_stableSort fun a ha b hb => ?_).symm
    rw [OrderKey.compareAll_congr (twins.imp fun _ _ key =>
      ⟨key.1, values a ha key.2, values b hb key.2⟩)]

end Answers

/-- With the literal there is one more column, and HAVING keeps the same rows, where it reads its
literals alike.  They are in the same order, unless ORDER BY names the literal. -/
theorem execute_withLiteral {s : Store} {query : Query} (repeated : query.distinct = false)
    {value : Value} {label : Option String} {watch : Watch} {interval : Nat}
    {joined : List (List LogicalRow)}
    (hjoined : query.joinedRows s.catalog watch interval = .ok joined)
    (reads : query.ReadsAlike value joined) {session session' : Nat} {locks locks' : LockTable}
    {answer wider : Answer}
    (h : (query.execute s.catalog watch interval session locks).1 = .ok answer)
    (h' : ((query.withLiteral value label).execute s.catalog watch interval session' locks').1 =
      .ok wider) :
    wider.columns = answer.columns ++ [(Expr.literal value label).outputName] ∧
      (∀ row ∈ wider.rows, row.length = wider.columns.length) ∧
      (wider.rows.map List.dropLast).Perm answer.rows ∧
      ((∀ term ∈ query.orderBy, ∀ name, term.expr.bareName? = some name →
        Name.same (Expr.literal value label).outputName name = false) →
        wider.rows.map List.dropLast = answer.rows) := by
  obtain ⟨-, plan, hplan, hrun⟩ := run_of_execute h
  obtain ⟨-, plan', hplan', hrun'⟩ := run_of_execute h'
  have planned := planned_of_plan hplan
  have planned' := planned_of_plan hplan'
  obtain ⟨htables, projection, groupBy, having, withKeys, withHaving, withKeys', withHaving',
    staged, staged'⟩ := exists_staged_withLiteral planned planned'
  obtain ⟨rowOf, shows⟩ := exists_shows hplan hjoined hrun
  obtain ⟨rowOf', shows'⟩ := exists_shows hplan'
    ((joinedRows_of_clauses hplan hplan' rfl rfl rfl).trans hjoined) hrun'
  have hgrouped : plan'.grouped = plan.grouped :=
    planned'.grouped.trans ((needsGrouping_withLiteral ..).trans planned.grouped.symm)
  have hdistinct : plan.distinct = false := planned.distinct.trans repeated
  have hdistinct' : plan'.distinct = false := planned'.distinct.trans repeated
  have hkept := Staged.kept_withLiteral reads staged staged' hgrouped shows shows'
  have hsources := staged.sources_withLiteral staged' hgrouped joined
  have rows : ∀ group ∈ plan.keptSources joined rowOf,
      plan.projection.rowOver group = .ok (rowOf group) :=
    fun group hgroup => shows.rows group (List.mem_filter.mp hgroup).1
  have rows' : ∀ group ∈ plan.keptSources joined rowOf,
      plan'.projection.rowOver group = .ok (rowOf' group) :=
    fun group hgroup => shows'.rows group (hsources ▸ (List.mem_filter.mp hgroup).1)
  have visible : ∀ group ∈ plan.keptSources joined rowOf,
      ((rowOf' group).take plan'.projection.visible.length).dropLast =
        (rowOf group).take plan.projection.visible.length :=
    fun group hgroup => staged.rows_withLiteral staged' (rows group hgroup) (rows' group hgroup)
  refine ⟨?_, shows'.widths hdistinct', ?_, fun unnamed => ?_⟩
  · rw [shows.columns, shows'.columns, outputNames, outputNames,
      staged.visible_withLiteral staged', List.map_append, List.map_singleton]
  · have hperm := (shows'.rows_perm hdistinct').map List.dropLast
    rw [hkept, List.map_map] at hperm
    exact (hperm.trans (List.Perm.of_eq (List.map_congr_left visible))).trans
      (shows.rows_perm hdistinct).symm
  · have harranged := shows.arranged
    have harranged' := shows'.arranged
    rw [Plan.arrange_of_repeated hdistinct] at harranged
    rw [Plan.arrange_of_repeated hdistinct', hkept] at harranged'
    obtain ⟨sorted, hperm, hsorted, hsorted'⟩ :=
      staged.sorted_withLiteral staged' htables unnamed rows rows'
    rw [← Except.ok.inj harranged, ← Except.ok.inj harranged', hsorted, hsorted', cutToVisible,
      cutToVisible, List.map_map, List.map_map, List.map_map]
    exact List.map_congr_left fun group hgroup => visible group (hperm.mem_iff.mp hgroup)

/-- HAVING keeps the group of two rows, with and without the literal 1 that it compares with. -/
theorem execute_withLiteral_one : ∃ (s : Store) (query : Query) (joined : List (List LogicalRow))
    (answer wider : Answer), query.distinct = false ∧
      query.joinedRows s.catalog .never 1 = .ok joined ∧
      query.ReadsAlike (.integer 1) joined ∧
      (query.execute s.catalog .never 1 0 .empty).1 = .ok answer ∧
      ((query.withLiteral (.integer 1) none).execute s.catalog .never 1 0 .empty).1 = .ok wider ∧
      answer.rows = [[.integer 2]] ∧ wider.rows.map List.dropLast = answer.rows := by
  let table : StoredTable := .ofIntegers "t" ["k"] [[1], [2], [2]]
  let s : Store := ⟨[table]⟩
  let k : Expr := .written "t" "k"
  let query : Query := {
    Query.selecting [k] ["t"] [] none with
    groupBy := [k]
    having := some (.binary (.comparison .gt) (.call (.aggregate .count) k none)
      (.literal (.integer 1) none) none) }
  let joined : List (List LogicalRow) :=
    [[.stored ⟨"t", 1, [.integer 1]⟩], [.stored ⟨"t", 2, [.integer 2]⟩],
      [.stored ⟨"t", 3, [.integer 2]⟩]]
  have hjoined : query.joinedRows s.catalog .never 1 = .ok joined := by cbv
  have reads : query.ReadsAlike (.integer 1) joined := by
    intro written hwritten w hw hsame
    obtain rfl := Option.some.inj hwritten
    exact ⟨by decide, Or.inr (Or.inl (by decide))⟩
  have ran : (query.execute s.catalog .never 1 0 .empty).1 = .ok ⟨["k"], [[.integer 2]]⟩ := by
    rw [execute_of_unwritten (by decide) (by decide)]
    cbv
  have ran' : ((query.withLiteral (.integer 1) none).execute s.catalog .never 1 0 .empty).1 =
      .ok ⟨["k", "1"], [[.integer 2, .integer 1]]⟩ := by
    rw [execute_of_unwritten (by decide) (by decide)]
    cbv
  obtain ⟨-, -, -, same⟩ := execute_withLiteral rfl hjoined reads ran ran'
  exact ⟨s, query, joined, _, _, rfl, hjoined, reads, ran, ran', rfl, same (by decide)⟩

/-- Not every literal leaves the groups that HAVING keeps: over no rows HAVING TRUE reads NULL from
a further member TRUE. -/
theorem not_forall_execute_withLiteral :
    ¬∀ (s : Store) (query : Query) (value : Value) (label : Option String) (answer wider : Answer),
      query.having.isSome = true → query.distinct = false →
      (query.execute s.catalog .never 1 0 .empty).1 = .ok answer →
      ((query.withLiteral value label).execute s.catalog .never 1 0 .empty).1 = .ok wider →
      (wider.rows.map List.dropLast).Perm answer.rows := by
  intro h
  let s : Store := ⟨[.ofIntegers "t" ["k"] []]⟩
  let query : Query := {
    Query.selecting [.bareCall (.aggregate .count) none] ["t"] [] none with
    having := some (.literal (.boolean true) none) }
  have ran : (query.execute s.catalog .never 1 0 .empty).1 = .ok ⟨["COUNT()"], [[.integer 0]]⟩ := by
    rw [execute_of_unwritten (by decide) (by decide)]
    cbv
  have ran' : ((query.withLiteral (.boolean true) none).execute s.catalog .never 1 0 .empty).1 =
      .ok ⟨["COUNT()", "TRUE"], []⟩ := by
    rw [execute_of_unwritten (by decide) (by decide)]
    cbv
  have hperm := h s query (.boolean true) none _ _ rfl rfl ran ran'
  exact absurd hperm.length_eq (by decide)

end Query

end RelQuery
