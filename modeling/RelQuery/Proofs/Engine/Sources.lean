import RelQuery.Proofs.Engine.Grouped
import RelQuery.Proofs.Engine.Reference
import RelQuery.Proofs.Expr.Resolution
import RelQuery.Proofs.Group.KeyRuns

/-!
# What stands behind the rows

Every row before ORDER BY stands for some joined rows: in a grouped query for a run of joined rows
with the same keys, and otherwise for a single joined row.  The values in it are those of the
members over these joined rows, where an aggregate is folded and everything else is read off the
first row.

Nothing is assumed about the values here.  Keys may be real, and members need not be constant on a
group, so this describes the rows of every run.
-/

namespace RelQuery

/-! ## Members over joined rows -/

section Members

variable {group : List (List LogicalRow)} {value : Value}

/-- The value of a member over some joined rows: an aggregate is folded from its values on them, and
anything else has its value on the first of them. -/
def Expr.foldedOver (group : List (List LogicalRow)) (e : Expr) : Result Value := do
  let values ← group.mapM fun row => Projection.evaluateMember .full row e
  MemberFold.foldMember e.aggregate? values

/-- The value that the expression takes on the joined rows behind a row, which are a group of them
or a single one: its aggregates are folded over the rows, and the rest is read off the first row.
Where there are no rows COUNT is 0 and everything else is NULL. -/
def Expr.valueBehind (group : List (List LogicalRow)) (e : Expr) : Result Value :=
  match group with
  | [] => .ok (if e.aggregate? = some .count then .integer 0 else .null)
  | row :: _ => e.valueOver group row

/-- The fold over no values. -/
lemma MemberFold.foldMember_nil (f : Option Aggregate) :
    foldMember f [] = .ok (if f = some .count then .integer 0 else .null) := by
  cases f with
  | none => rfl
  | some f => cases f <;> rfl

/-- The value of a member over joined rows is folded from its values on them. -/
lemma Expr.foldedOver_eq {e : Expr} {values : List LogicalRow → Value}
    (h : ∀ row ∈ group, Projection.evaluateMember .full row e = .ok (values row)) :
    e.foldedOver group = MemberFold.foldMember e.aggregate? (group.map values) := by
  rw [foldedOver, mapM_eq_ok_map h]
  rfl

/-- Expressions of the same aggregate and with the same outcomes have the same value over joined
rows. -/
lemma Expr.foldedOver_congr {a b : Expr} (haggregate : a.aggregate? = b.aggregate?)
    (h : ∀ row ∈ group, a.evaluate .full row = b.evaluate .full row) :
    a.foldedOver group = b.foldedOver group := by
  have hvalues : (group.mapM fun row => Projection.evaluateMember .full row a) =
      group.mapM fun row => Projection.evaluateMember .full row b :=
    mapM_congr fun row hrow => by
      have hsame := h row hrow
      cases hb : b.evaluate .full row with
      | error error => simp [Projection.evaluateMember, hsame, hb]
      | ok outcome =>
        obtain ⟨value, rfl⟩ := Expr.determined_of_full hb
        simp [Projection.evaluateMember, hsame, hb]
  rw [foldedOver, foldedOver, hvalues, haggregate]

/-- The value of a member is the value that it takes behind the row, where its aggregates stand at
the top. -/
lemma Expr.valueBehind_eq_ok {e : Expr} (top : e.TopAggregate)
    (h : e.foldedOver group = .ok value) : e.valueBehind group = .ok value := by
  obtain ⟨found, hfound, hfold⟩ := Result.bind_eq_ok.mp h
  have : Inhabited Value := ⟨.null⟩
  obtain ⟨values, hvalues, rfl⟩ := exists_map_of_mapM hfound
  cases group with
  | nil => rwa [List.map_nil, MemberFold.foldMember_nil] at hfold
  | cons row rest =>
    rcases top with haggregate | hnone
    · obtain ⟨f, hf⟩ := Option.isSome_iff_exists.mp haggregate
      rw [hf] at hfold
      exact valueOver_of_fold hf hvalues hfold row
    · rw [aggregate?_eq_none hnone, List.map_cons, MemberFold.foldMember_none] at hfold
      rw [valueBehind, valueOver_eq_evaluateMember hnone, hvalues row List.mem_cons_self, hfold]

end Members

namespace Projection

variable {p p' : Projection} {joined group : List (List LogicalRow)}
  {values : List LogicalRow → Row} {found : Row}

/-- The row of the members over some joined rows. -/
def rowOver (p : Projection) (group : List (List LogicalRow)) : Result Row :=
  p.members.mapM (Expr.foldedOver group)

/-- The value of a member stands at its position. -/
lemma foldedOver_of_rowOver (h : p.rowOver group = .ok found) {position : Nat} {e : Expr}
    (he : p.members[position]? = some e) :
    e.foldedOver group = .ok (found.getD position .null) := by
  obtain ⟨value, hvalue, hfolded⟩ := getElem?_of_mapM h he
  rw [hfolded, List.getD_eq_getElem?_getD, hvalue]
  rfl

/-- Over some joined rows the row of the members is shown by the first of them. -/
lemma shownBy_of_rowOver (top : ∀ e ∈ p.members, e.TopAggregate) {row : List LogicalRow}
    {rest : List (List LogicalRow)} (h : p.rowOver (row :: rest) = .ok found) :
    p.ShownBy (row :: rest) row found := by
  intro position e he
  obtain ⟨value, hvalue, hfolded⟩ := getElem?_of_mapM h he
  exact ⟨value, hvalue, Expr.valueBehind_eq_ok (top e (List.mem_of_getElem? he)) hfolded⟩

/-- Over no rows the members have the values of an empty group. -/
lemma rowOver_nil (p : Projection) : p.rowOver [] = .ok (emptyGroup p.aggregates) := by
  rw [emptyGroup, aggregates, List.map_map]
  exact mapM_eq_ok_map fun e _ => MemberFold.foldMember_nil e.aggregate?

/-- The row that is folded from the rows of a group is the row of the members over it. -/
lemma rowOver_of_foldGroup (nonempty : group ≠ [])
    (hvalues : ∀ row ∈ group, p.evaluate .full row = .ok (values row))
    (h : foldGroup p.aggregates (group.map values) = .ok found) : p.rowOver group = .ok found := by
  have haggregates : p.aggregates.length = p.members.length := by simp [aggregates]
  have widths : ∀ row ∈ group.map values, row.length = p.aggregates.length := by
    intro row hrow
    obtain ⟨source, hsource, rfl⟩ := List.mem_map.mp hrow
    rw [length_of_mapM (hvalues source hsource), haggregates]
  obtain ⟨hlength, hmembers⟩ := foldGroup_eq_ok (by simpa using nonempty) widths h
  refine mapM_eq_ok.mpr (List.forall₂_iff_get.mpr
    ⟨by rw [hlength, haggregates], fun position hmember hvalue => ?_⟩)
  have he : p.members[position]? = some p.members[position] := List.getElem?_eq_getElem hmember
  obtain ⟨value, hfound, hfold⟩ := hmembers position p.members[position].aggregate?
    (by rw [aggregates, List.getElem?_map, he]; rfl)
  rw [List.getElem?_eq_getElem hvalue, Option.some.injEq] at hfound
  rw [List.get_eq_getElem, List.get_eq_getElem, hfound, ← hfold, List.map_map]
  refine Expr.foldedOver_eq fun row hrow => ?_
  exact evaluateMember_eq_ok.mpr (Plan.getD_of_evaluate (hvalues row hrow) he)

/-- Over a single row the members have their values on it, where no member is an aggregate. -/
lemma rowOver_singleton (plain : ∀ e ∈ p.members, e.hasAggregate = false) {row : List LogicalRow}
    (h : p.evaluate .full row = .ok found) : p.rowOver [row] = .ok found := by
  refine mapM_congr_of_ok h fun e he value hvalue => ?_
  have hsingle : ∀ r ∈ [row], evaluateMember .full r e = .ok value := by
    simpa using hvalue
  rw [Expr.foldedOver_eq hsingle, Expr.aggregate?_eq_none (plain e he)]
  exact MemberFold.foldMember_none value []

/-- The row of fewer members is the beginning of the row of all. -/
lemma rowOver_of_grows {Q : Expr → Prop} (grows : p.Grows Q p') (h : p'.rowOver group = .ok found) :
    p.rowOver group = .ok (found.take p.length) := by
  obtain ⟨added, hmembers, -⟩ := grows.exists_members
  rw [rowOver, hmembers, List.mapM_append] at h
  obtain ⟨first, hfirst, h⟩ := Result.bind_eq_ok.mp h
  obtain ⟨second, -, h⟩ := Result.bind_eq_ok.mp h
  obtain rfl := Result.pure_eq_ok.mp h
  rw [← length_members, ← length_of_mapM hfirst, List.take_left]
  exact hfirst

/-- The values of the visible members come first. -/
lemma visible_of_rowOver (h : p.rowOver group = .ok found) :
    p.visible.mapM (Expr.foldedOver group) = .ok (found.take p.visible.length) := by
  rw [rowOver, members, List.mapM_append] at h
  obtain ⟨visible, hvisible, h⟩ := Result.bind_eq_ok.mp h
  obtain ⟨hidden, -, h⟩ := Result.bind_eq_ok.mp h
  obtain rfl := Result.pure_eq_ok.mp h
  rwa [← length_of_mapM hvisible, List.take_left]

/-- The keys of joined rows: the values on them of the members at some positions. -/
def keyValues (p : Projection) (keys : List Nat) : List (List LogicalRow → Value) :=
  keys.map fun position => (p.members.getD position (.literal .null none)).valueOn

/-- The keys are the values in the rows of the members. -/
lemma runsBy_keyValues (hvalues : ∀ row ∈ joined, p.evaluate .full row = .ok (values row))
    (keys : List Nat) : runsBy (p.keyValues keys) joined = runsBy (keysAt values keys) joined := by
  have hkey (position : Nat) : ∀ row ∈ joined,
      (p.members.getD position (.literal .null none)).valueOn row =
        (values row).getD position .null := by
    intro row hrow
    cases he : p.members[position]? with
    | some e =>
      rw [List.getD_eq_getElem?_getD, he, Option.getD_some, Expr.valueOn,
        evaluateMember_eq_ok.mpr (Plan.getD_of_evaluate (hvalues row hrow) he)]
      rfl
    | none =>
      -- past the members there is NULL on both sides
      rw [List.getElem?_eq_none_iff, ← length_of_mapM (hvalues row hrow)] at he
      have hmember : p.members.getD position (.literal .null none) = .literal .null none :=
        List.getD_eq_default _ _ (by rwa [← length_of_mapM (hvalues row hrow)])
      rw [hmember, List.getD_eq_default _ _ he]
      rfl
  refine runsBy_congr ?_
  rw [keyValues, keysAt, List.forall₂_map_left_iff, List.forall₂_map_right_iff, List.forall₂_same]
  intro position _ a ha b hb
  rw [hkey position a ha, hkey position b hb]
  exact ⟨rfl, rfl⟩

/-- Grouping gives the rows of the members over the runs of the joined rows. -/
theorem rowOver_runs_of_foldByKeys
    (hvalues : ∀ row ∈ joined, p.evaluate .full row = .ok (values row)) {keys : List Nat}
    {watch : Watch} {rows : List Row} (h : foldByKeys p keys watch (joined.map values) = .ok rows) :
    (runsBy (p.keyValues keys) joined).mapM p.rowOver = .ok rows := by
  by_cases hjoined : joined = []
  · subst hjoined
    obtain rfl := Except.ok.inj h
    cases keys with
    | nil => exact mapM_eq_ok.mpr (.cons (rowOver_nil p) .nil)
    | cons key keys =>
      have hnone : runsBy (p.keyValues (key :: keys)) [] = [] := by simp [runsBy, keyValues]
      rw [hnone]
      rfl
  · obtain ⟨-, hgroups⟩ := foldByKeys_eq_ok (by simpa using hjoined) h
    rw [runsBy_keyValues hvalues]
    rw [← map_runsBy values keys hjoined, List.mapM_map] at hgroups
    refine mapM_congr_of_ok hgroups fun group hgroup found hfound => ?_
    exact rowOver_of_foldGroup (ne_nil_of_mem_runsBy hgroup (.inr hjoined))
      (fun row hrow => hvalues row (mem_of_mem_runsBy hgroup hrow)) hfound

end Projection

/-! ## Rows of a run -/

namespace Plan

/-- The joined rows behind each row before HAVING: the runs of joined rows with the same keys, or
the single joined rows. -/
def sources (plan : Plan) (joined : List (List LogicalRow)) : List (List (List LogicalRow)) :=
  if plan.grouped then runsBy (plan.projection.keyValues plan.keys) joined
  else joined.map fun row => [row]

/-- HAVING accepts the row, where no HAVING accepts all rows. -/
def passes (plan : Plan) (row : Row) : Result Bool :=
  match plan.having with
  | some predicate => acceptsGroup predicate row 0
  | none => .ok true

/-- What is behind the rows that HAVING keeps. -/
def keptSources (plan : Plan) (joined : List (List LogicalRow))
    (rowOf : List (List LogicalRow) → Row) : List (List (List LogicalRow)) :=
  (plan.sources joined).filter fun group => Result.holds (plan.passes (rowOf group))

/-- The answer arranges the rows of the members over what is behind them, as far as HAVING accepts
them. -/
structure Shows (plan : Plan) (joined : List (List LogicalRow))
    (rowOf : List (List LogicalRow) → Row) (answer : Answer) : Prop where
  rows : ∀ group ∈ plan.sources joined, plan.projection.rowOver group = .ok (rowOf group)
  tested : ∀ group ∈ plan.sources joined, ∃ passed, plan.passes (rowOf group) = .ok passed
  arranged : plan.arrange ((plan.keptSources joined rowOf).map rowOf) = .ok answer.rows
  columns : answer.columns = plan.projection.outputNames

/-- Without keys the rows stay where they are. -/
lemma sortRows_nil (rows : List Row) : OrderKey.sortRows [] rows = rows :=
  stableSort_of_tied fun _ _ _ _ => rfl

/-- Without DISTINCT the rows are sorted and cut to the visible members. -/
lemma arrange_of_repeated {plan : Plan} (hdistinct : plan.distinct = false) (rows : List Row) :
    plan.arrange rows =
      .ok (cutToVisible plan.projection (OrderKey.sortRows plan.sortKeys rows)) := by
  rw [arrange, hdistinct]
  cases plan.sortKeys with
  | nil => rw [sortRows_nil]; rfl
  | cons key keys => rfl

section Shows

variable {plan : Plan} {joined : List (List LogicalRow)}
  {rowOf : List (List LogicalRow) → Row} {answer : Answer} (shows : plan.Shows joined rowOf answer)
  (hdistinct : plan.distinct = false)
include shows hdistinct

/-- Without DISTINCT the answer has the visible values over everything that HAVING keeps. -/
lemma Shows.rows_perm : answer.rows.Perm ((plan.keptSources joined rowOf).map fun group =>
    (rowOf group).take plan.projection.visible.length) := by
  have harranged := shows.arranged
  rw [arrange_of_repeated hdistinct] at harranged
  rw [← Except.ok.inj harranged]
  exact ((stableSort_perm _ _).map _).trans (List.Perm.of_eq (List.map_map ..))

/-- Every row has a value for each column. -/
lemma Shows.widths : ∀ row ∈ answer.rows, row.length = answer.columns.length := by
  intro row hrow
  obtain ⟨group, hgroup, rfl⟩ := List.mem_map.mp ((shows.rows_perm hdistinct).mem_iff.mp hrow)
  have hvisible := Projection.visible_of_rowOver (shows.rows group (List.mem_filter.mp hgroup).1)
  rw [length_of_mapM hvisible, shows.columns, Projection.outputNames, List.length_map]

end Shows

end Plan

namespace Query

variable {s : Store} {query : Query} {plan : Plan}

section Staged

variable {projection : Projection} {groupBy : List Expr} {having : Option Expr}
  {withKeys withHaving : Projection}

/-- Without grouping there is no HAVING, and no member holds an aggregate. -/
lemma Staged.plain (staged : Staged query plan projection groupBy having withKeys withHaving)
    (ungrouped : query.needsGrouping = false) :
    plan.having = none ∧ ∀ e ∈ plan.projection.members, e.hasAggregate = false := by
  have hplain := ungrouped
  simp only [needsGrouping, Bool.or_eq_false_iff, Option.isSome_eq_false_iff,
    Option.isNone_iff_eq_none] at hplain
  obtain ⟨⟨-, hhaving⟩, hmembers⟩ := hplain
  have hnone : having = none := by
    have hcondition := staged.condition
    rw [hhaving] at hcondition
    exact (Except.ok.inj hcondition).symm
  subst hnone
  refine ⟨(Prod.mk.inj (Except.ok.inj staged.kept)).1.symm, fun e he => ?_⟩
  obtain ⟨first, second, third⟩ := staged.grows (Q := fun e => e.hasAggregate = false)
    (fun e he => (staged.uses_key he).2) (by simp)
    (fun term _ e _ hsortable => by simpa [Sortable, ungrouped] using hsortable)
  rcases ((first.trans second).trans third).mem he with he | hadded
  · obtain ⟨written, hwritten, hresolve⟩ :=
      Projection.exists_written_of_resolve staged.resolved e he
    rw [(Expr.resolve_eq_ok_iff.mp hresolve).2.hasAggregate_eq]
    simpa using List.any_eq_false.mp hmembers written hwritten
  · exact hadded

/-- The rows of the members over what is behind them are those that HAVING is tried on. -/
lemma Staged.rowOver_sources
    (staged : Staged query plan projection groupBy having withKeys withHaving)
    (hgrouped : plan.grouped = query.needsGrouping) {joined : List (List LogicalRow)}
    {values : List LogicalRow → Row}
    (hvalues : ∀ row ∈ joined, plan.projection.evaluate .full row = .ok (values row))
    {watch : Watch} {kept : List Row} (h : plan.group watch (joined.map values) = .ok kept) :
    ∃ rows, (plan.sources joined).mapM plan.projection.rowOver = .ok rows ∧
      filterResult plan.passes rows = .ok kept := by
  unfold Plan.group at h
  unfold Plan.sources
  split at h
  · rename_i grouped
    obtain ⟨rows, hrows, h⟩ := Result.bind_eq_ok.mp h
    rw [if_pos grouped]
    refine ⟨rows, Projection.rowOver_runs_of_foldByKeys hvalues hrows, ?_⟩
    unfold Plan.passes
    cases hhaving : plan.having with
    | some predicate =>
      rw [hhaving] at h
      dsimp only at h ⊢
      rwa [keepGroups_eq_filterResult] at h
    | none =>
      rw [hhaving] at h
      obtain rfl := Except.ok.inj h
      rw [filterResult_eq_ok]
      simp
  · rename_i ungrouped
    obtain rfl := Except.ok.inj h
    rw [Bool.not_eq_true] at ungrouped
    obtain ⟨hhaving, plain⟩ := staged.plain (hgrouped.symm.trans ungrouped)
    rw [ungrouped, if_neg (by simp)]
    refine ⟨joined.map values, ?_, ?_⟩
    · rw [List.mapM_map]
      exact mapM_eq_ok_map fun row hrow => Projection.rowOver_singleton plain (hvalues row hrow)
    · rw [filterResult_eq_ok]
      simp [Plan.passes, hhaving]

end Staged

/-- A run shows what is behind its rows. -/
theorem exists_shows (hplan : query.plan s.catalog = .ok plan) {watch : Watch} {interval : Nat}
    {joined : List (List LogicalRow)}
    (hjoined : query.joinedRows s.catalog watch interval = .ok joined) {answer : Answer}
    (hrun : plan.run s.catalog watch interval = .ok answer) :
    ∃ rowOf, plan.Shows joined rowOf answer := by
  have planned := planned_of_plan hplan
  obtain ⟨projection, groupBy, having, withKeys, withHaving, staged⟩ := planned.staged
  obtain ⟨fetched, hfetched, covered, columns, rows, hrows, kept, hkept, harranged⟩ :=
    exists_joinedRows_of_run hplan hrun
  obtain rfl : joined = fetched := Except.ok.inj (hjoined.symm.trans hfetched)
  obtain ⟨values, hvalues, rfl⟩ := exists_map_of_mapM hrows
  have hfull : ∀ row ∈ joined, plan.projection.evaluate .full row = .ok (values row) := by
    intro row hrow
    refine (mapM_congr fun e he => ?_).trans (hvalues row hrow)
    unfold Projection.evaluateMember
    rw [(covered row hrow).evaluate_mode (staged.toGrouping.resolved e he)]
  obtain ⟨found, hfound, hfilter⟩ := staged.rowOver_sources planned.grouped hfull hkept
  obtain ⟨rowOf, hrowOf, rfl⟩ := exists_map_of_mapM hfound
  obtain ⟨tested, rfl⟩ := filterResult_eq_ok.mp hfilter
  refine ⟨rowOf, hrowOf, fun group hgroup => tested _ (List.mem_map_of_mem hgroup), ?_, columns⟩
  rw [List.filter_map] at harranged
  exact harranged

end Query

end RelQuery
