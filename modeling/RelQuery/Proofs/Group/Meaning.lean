import RelQuery.Proofs.Expr.Agreement
import RelQuery.Proofs.Group.Folding
import RelQuery.Proofs.Group.Rewriting

/-!
# The meaning of expressions over groups

Over a group of joined rows an aggregate call means the fold of its argument over the group, and
everything else means what it does on any row of the group.  The engine computes this differently:
members of the projection are folded once, and HAVING refers to them by their positions.  Where a
row holds the values of the members over a group, the rewritten HAVING has on it the outcome that
HAVING has over the group.
-/

namespace RelQuery

/-- The value of an aggregate over the values of its argument. -/
def Aggregate.fold (f : Aggregate) (values : List Value) : Result Value :=
  MemberFold.foldMember (some f) values

namespace Expr

/-- The expression with the value over the group in place of every aggregate call.  A call without
argument has NULL for its argument. -/
def overGroup (group : List (List LogicalRow)) : Expr → Result Expr
  | literal value label => .ok (literal value label)
  | column ref label => .ok (column ref label)
  | binary op left right label => do
    let left ← left.overGroup group
    let right ← right.overGroup group
    return binary op left right label
  | negate operand label => do
    let operand ← operand.overGroup group
    return negate operand label
  | call (.aggregate f) arg label => do
    let values ← group.mapM fun row => Projection.evaluateMember .full row arg
    let value ← f.fold values
    return literal value label
  | call (.conversion target) arg label => do
    let arg ← arg.overGroup group
    return call (.conversion target) arg label
  | bareCall (.aggregate f) label => do
    let value ← f.fold (group.map fun _ => .null)
    return literal value label
  | bareCall (.conversion target) label => .ok (bareCall (.conversion target) label)

/-- The value of the expression over a group, as one of the rows shows it. -/
def valueOver (e : Expr) (group : List (List LogicalRow)) (row : List LogicalRow) : Result Value :=
  (e.overGroup group).bind (Projection.evaluateMember .full row)

/-- The predicate accepts a group, as one of the rows shows it. -/
def acceptsOver (e : Expr) (group : List (List LogicalRow)) (row : List LogicalRow) : Result Bool :=
  (e.overGroup group).bind (·.accepts row)

end Expr

/-! ## Values -/

/-- A member has the value to which it evaluates. -/
lemma Projection.evaluateMember_eq_ok {mode : Coverage} {rows : List LogicalRow} {e : Expr}
    {value : Value} :
    evaluateMember mode rows e = .ok value ↔ e.evaluate mode rows = .ok (.determined value) := by
  unfold evaluateMember
  cases e.evaluate mode rows with
  | error error => simp
  | ok outcome => cases outcome <;> simp

namespace Expr

variable {group : List (List LogicalRow)} {row : List LogicalRow} {value : Value}

/-- The value over a group is what the expression evaluates to with its aggregates replaced. -/
lemma valueOver_eq_ok {e : Expr} : e.valueOver group row = .ok value ↔
    ∃ replaced, e.overGroup group = .ok replaced ∧
      replaced.evaluate .full row = .ok (.determined value) := by
  simp only [valueOver, Result.bind_eq_ok', Projection.evaluateMember_eq_ok]

/-- An expression without aggregates is none. -/
lemma aggregate?_eq_none {e : Expr} (h : e.hasAggregate = false) : e.aggregate? = none := by
  cases e with
  | call f arg label =>
    cases f with
    | aggregate f => simp [hasAggregate, Function.isAggregate] at h
    | conversion target => rfl
  | bareCall f label =>
    cases f with
    | aggregate f => simp [hasAggregate, Function.isAggregate] at h
    | conversion target => rfl
  | _ => rfl

/-- An expression without aggregates stays as it is. -/
lemma overGroup_eq_self {e : Expr} (h : e.hasAggregate = false)
    (group : List (List LogicalRow)) : e.overGroup group = .ok e := by
  induction e with
  | literal value label => rfl
  | column ref label => rfl
  | binary op left right label ihLeft ihRight =>
    rw [hasAggregate, Bool.or_eq_false_iff] at h
    rw [overGroup, ihLeft h.1, ihRight h.2]
    rfl
  | negate operand label ih =>
    rw [overGroup, ih h]
    rfl
  | call f arg label ih =>
    rw [hasAggregate, Bool.or_eq_false_iff] at h
    cases f with
    | aggregate f => simp [Function.isAggregate] at h
    | conversion target =>
      rw [overGroup, ih h.2]
      rfl
  | bareCall f label =>
    cases f with
    | aggregate f => simp [hasAggregate, Function.isAggregate] at h
    | conversion target => rfl

/-- An expression without aggregates has its value on the row. -/
lemma valueOver_eq_evaluateMember {e : Expr} (h : e.hasAggregate = false)
    (group : List (List LogicalRow)) (row : List LogicalRow) :
    e.valueOver group row = Projection.evaluateMember .full row e := by
  rw [valueOver, overGroup_eq_self h]
  rfl

/-- An aggregate call passes on the outcome of its argument. -/
lemma evaluate_aggregate (f : Aggregate) (arg : Expr) (label : Option String) (mode : Coverage)
    (rows : List LogicalRow) :
    (call (.aggregate f) arg label).evaluate mode rows = arg.evaluate mode rows := by
  rw [evaluate_call]
  cases arg.evaluate mode rows with
  | error error => rfl
  | ok outcome => cases outcome <;> rfl

/-- The value of an aggregate over a group is folded from its values on the rows. -/
lemma valueOver_of_fold {e : Expr} {f : Aggregate} (hf : e.aggregate? = some f)
    {values : List LogicalRow → Value}
    (hvalues : ∀ row ∈ group, Projection.evaluateMember .full row e = .ok (values row))
    (hfold : f.fold (group.map values) = .ok value) (row : List LogicalRow) :
    e.valueOver group row = .ok value := by
  rw [valueOver_eq_ok]
  refine ⟨literal value e.label, ?_, rfl⟩
  cases e with
  | call g arg label =>
    obtain rfl : g = .aggregate f := by
      cases g <;> simp_all [aggregate?, function?, Function.aggregate?]
    have harg : (group.mapM fun row => Projection.evaluateMember .full row arg) =
        .ok (group.map values) := by
      refine mapM_eq_ok_map fun row hrow => ?_
      have hvalue := hvalues row hrow
      rwa [Projection.evaluateMember_eq_ok, evaluate_aggregate,
        ← Projection.evaluateMember_eq_ok] at hvalue
    exact Result.bind_eq_ok.mpr ⟨_, harg, Result.bind_eq_ok.mpr ⟨value, hfold, rfl⟩⟩
  | bareCall g label =>
    obtain rfl : g = .aggregate f := by
      cases g <;> simp_all [aggregate?, function?, Function.aggregate?]
    have hnull : group.map values = group.map fun _ => .null := by
      refine List.map_congr_left fun row hrow => ?_
      have hvalue := Projection.evaluateMember_eq_ok.mp (hvalues row hrow)
      rw [evaluate, applyBare] at hvalue
      split at hvalue
      · exact (Outcome.determined.inj (Except.ok.inj hvalue)).symm
      · simp at hvalue
    rw [hnull] at hfold
    exact Result.bind_eq_ok.mpr ⟨value, hfold, rfl⟩
  | _ => simp [aggregate?, function?] at hf

/-- Agreement keeps the aggregate at the top. -/
lemma Agree.aggregate?_eq {a b : Expr} (h : Agree a b) : a.aggregate? = b.aggregate? := by
  cases h <;> rfl

/-- Agreement keeps the aggregates. -/
lemma Agree.hasAggregate_eq {a b : Expr} (h : Agree a b) : a.hasAggregate = b.hasAggregate := by
  induction h with
  | literal label label' same => rfl
  | column label label' same => rfl
  | binary op label label' _ _ ihLeft ihRight =>
    rw [hasAggregate, hasAggregate, ihLeft, ihRight]
  | negate label label' _ ih => exact ih
  | call f label label' _ ih => rw [hasAggregate, hasAggregate, ih]
  | bareCall f label label' => rfl

/-- An aggregate stands at the top of the expression or nowhere in it. -/
def TopAggregate (e : Expr) : Prop :=
  e.aggregate?.isSome = true ∨ e.hasAggregate = false

instance (e : Expr) : Decidable e.TopAggregate :=
  inferInstanceAs (Decidable (e.aggregate?.isSome = true ∨ e.hasAggregate = false))

/-- Expressions that agree and have equal outcomes on rows have equal values over groups, where one
of them is an aggregate or has none. -/
lemma Agree.valueOver {a b : Expr} (agree : Agree a b) (top : a.TopAggregate)
    (hsame : ∀ rows, a.evaluate .full rows = b.evaluate .full rows)
    (h : a.valueOver group row = .ok value) : b.valueOver group row = .ok value := by
  rcases top with haggregate | hnone
  · obtain ⟨replaced, hover, hevaluate⟩ := valueOver_eq_ok.mp h
    cases agree with
    | @call f arg arg' label label' inside =>
      cases f with
      | aggregate f =>
        obtain ⟨values, hvalues, hover⟩ := Result.bind_eq_ok.mp hover
        obtain ⟨found, hfold, hover⟩ := Result.bind_eq_ok.mp hover
        obtain rfl := Result.pure_eq_ok.mp hover
        refine valueOver_eq_ok.mpr ⟨Expr.literal found label', Result.bind_eq_ok.mpr ⟨values, ?_,
          Result.bind_eq_ok.mpr ⟨found, hfold, rfl⟩⟩, hevaluate⟩
        -- the arguments have the outcomes of the calls
        refine mapM_congr_of_ok hvalues fun row _ v hv => ?_
        rw [Projection.evaluateMember_eq_ok] at hv ⊢
        rw [← evaluate_aggregate f arg' label', ← hsame, evaluate_aggregate, hv]
      | conversion target => simp [aggregate?, function?, Function.aggregate?] at haggregate
    | bareCall f label label' =>
      cases f with
      | aggregate f =>
        obtain ⟨found, hfold, hover⟩ := Result.bind_eq_ok.mp hover
        obtain rfl := Result.pure_eq_ok.mp hover
        exact valueOver_eq_ok.mpr ⟨Expr.literal found label',
          Result.bind_eq_ok.mpr ⟨found, hfold, rfl⟩, hevaluate⟩
      | conversion target => simp [aggregate?, function?, Function.aggregate?] at haggregate
    | _ => simp [aggregate?, function?] at haggregate
  · rw [valueOver_eq_evaluateMember hnone, Projection.evaluateMember_eq_ok, hsame] at h
    rw [valueOver_eq_evaluateMember (agree.hasAggregate_eq.symm.trans hnone),
      Projection.evaluateMember_eq_ok, h]

end Expr

/-! ## Rows of groups -/

/-- The row holds the values of the members over the group, as one of the joined rows shows them. -/
def Projection.ShownBy (p : Projection) (group : List (List LogicalRow)) (row : List LogicalRow)
    (found : Row) : Prop :=
  ∀ (position : Nat) (e : Expr), p.members[position]? = some e → ∃ value,
    found[position]? = some value ∧ e.valueOver group row = .ok value

/-- The row holds the values of the members over the group, whichever row shows them. -/
def Projection.StandsFor (p : Projection) (group : List (List LogicalRow)) (found : Row) : Prop :=
  ∀ row ∈ group, p.ShownBy group row found

/-- A reference to a position has the value that a projected row has there. -/
lemma Projection.evaluate_reference {found : Row} {position : Nat} {value : Value}
    (h : found[position]? = some value) (e : Expr) (index : Nat) :
    (reference position e).evaluate .full [.projected index found] = .ok (.determined value) := by
  have hname : Name.same (LogicalRow.projected index found).tableName ColumnRef.projectionTable =
      true := Name.same_refl _
  simp [reference, Expr.evaluate, Expr.columnOutcome, ColumnRef.toProjection, Expr.findRow?, hname,
    LogicalRow.valueOf, Row.at, h, Except.map]

section Having

variable {final : Projection} {group : List (List LogicalRow)} {found : Row}
  {row : List LogicalRow}

/-- What a member computes has the value of the member over the group. -/
def Projection.SameOver (final : Projection) (group : List (List LogicalRow))
    (row : List LogicalRow) (e : Expr) : Prop :=
  ∀ member ∈ final.members, Computes member e →
    ∀ value, member.valueOver group row = .ok value → e.valueOver group row = .ok value

/-- What is computed at a position has over a group the value there of the row that is shown. -/
lemma Projection.ShownBy.exists_value (shown : final.ShownBy group row found) {e : Expr}
    (same : final.SameOver group row e) {position : Nat} (h : final.ComputesAt position e) :
    ∃ value, found[position]? = some value ∧ e.valueOver group row = .ok value := by
  obtain ⟨member, hmember, hcomputes⟩ := h
  obtain ⟨value, hvalue, hover⟩ := shown position member hmember
  exact ⟨value, hvalue, same member (List.mem_of_getElem? hmember) hcomputes value hover⟩

/-- What is computed at a position has its value over a group in the row that is shown. -/
lemma Projection.ShownBy.valueOver_eq (shown : final.ShownBy group row found) {e : Expr}
    (same : final.SameOver group row e) {position : Nat} (h : final.ComputesAt position e) :
    e.valueOver group row = .ok (found.getD position .null) := by
  obtain ⟨value, hvalue, hover⟩ := shown.exists_value same h
  rw [List.getD_eq_getElem?_getD, hvalue]
  exact hover

/-- The visible members have over a group the first values of the row that is shown. -/
lemma Projection.ShownBy.visible (shown : final.ShownBy group row found) :
    final.visible.mapM (·.valueOver group row) = .ok (found.take final.visible.length) := by
  have hvisible (position : Nat) (h : position < final.visible.length) : ∃ value,
      found[position]? = some value ∧
        final.visible[position].valueOver group row = .ok value :=
    shown position final.visible[position]
      (by rw [members, List.getElem?_append_left h, List.getElem?_eq_getElem h])
  have hlength : (found.take final.visible.length).length = final.visible.length := by
    refine List.length_take_of_le (Nat.not_lt.mp fun hlt => ?_)
    obtain ⟨value, hvalue, -⟩ := hvisible found.length hlt
    simp at hvalue
  refine mapM_eq_ok.mpr (List.forall₂_iff_get.mpr ⟨hlength.symm, fun position h h' => ?_⟩)
  obtain ⟨value, hvalue, hover⟩ := hvisible position h
  obtain ⟨hlt, rfl⟩ := List.getElem?_eq_some_iff.mp hvalue
  simpa using hover

/-- On a row that is shown a reference to a position has the outcome over the group of what is
computed there. -/
lemma Projection.ShownBy.evaluate_reference (shown : final.ShownBy group row found) {e : Expr}
    (same : final.SameOver group row e) {position : Nat} (h : final.ComputesAt position e) :
    ∃ replaced, e.overGroup group = .ok replaced ∧ ∀ index,
      (reference position e).evaluate .full [.projected index found] =
        replaced.evaluate .full row := by
  obtain ⟨value, hvalue, hover⟩ := shown.exists_value same h
  obtain ⟨replaced, hreplaced, hevaluate⟩ := Expr.valueOver_eq_ok.mp hover
  refine ⟨replaced, hreplaced, fun index => ?_⟩
  rw [Projection.evaluate_reference hvalue, hevaluate]

/-- On a row that is shown a rewritten predicate has the outcome of the written one over the
group. -/
theorem Rewritten.exists_overGroup {having predicate : Expr}
    (rewritten : Rewritten final having predicate) (shown : final.ShownBy group row found)
    (same : ∀ part ∈ having.parts, final.SameOver group row part) :
    ∃ replaced, having.overGroup group = .ok replaced ∧ ∀ index,
      predicate.evaluate .full [.projected index found] = replaced.evaluate .full row := by
  induction rewritten with
  | member computes => exact shown.evaluate_reference (same _ (Expr.self_mem_parts _)) computes
  | literal value label => exact ⟨_, rfl, fun _ => rfl⟩
  | bareConversion target label => exact ⟨_, rfl, fun _ => rfl⟩
  | conversion target label _ ih =>
    obtain ⟨replaced, hreplaced, hsame⟩ :=
      ih fun part hpart => same part (List.mem_cons_of_mem _ hpart)
    refine ⟨_, Result.bind_eq_ok.mpr ⟨replaced, hreplaced, rfl⟩, fun index => ?_⟩
    rw [Expr.evaluate, Expr.evaluate, hsame]
  | negate label _ ih =>
    obtain ⟨replaced, hreplaced, hsame⟩ :=
      ih fun part hpart => same part (List.mem_cons_of_mem _ hpart)
    refine ⟨_, Result.bind_eq_ok.mpr ⟨replaced, hreplaced, rfl⟩, fun index => ?_⟩
    rw [Expr.evaluate, Expr.evaluate, hsame]
  | binary op label _ _ ihLeft ihRight =>
    obtain ⟨l, hl, hsameLeft⟩ := ihLeft fun part hpart =>
      same part (List.mem_cons_of_mem _ (List.mem_append_left _ hpart))
    obtain ⟨r, hr, hsameRight⟩ := ihRight fun part hpart =>
      same part (List.mem_cons_of_mem _ (List.mem_append_right _ hpart))
    refine ⟨_, Result.bind_eq_ok.mpr ⟨l, hl, Result.bind_eq_ok.mpr ⟨r, hr, rfl⟩⟩, fun index => ?_⟩
    rw [Expr.evaluate, Expr.evaluate, hsameLeft, hsameRight]

/-- Where the rewritten HAVING accepts a row that is shown, or refuses it, so does HAVING for the
group. -/
lemma acceptsOver_of_acceptsGroup {having predicate : Expr} {index : Nat} {verdict : Bool}
    (h : ∃ replaced, having.overGroup group = .ok replaced ∧ ∀ index,
      predicate.evaluate .full [.projected index found] = replaced.evaluate .full row)
    (haccepts : acceptsGroup predicate found index = .ok verdict) :
    having.acceptsOver group row = .ok verdict := by
  obtain ⟨replaced, hreplaced, hsame⟩ := h
  refine Result.bind_eq_ok'.mpr ⟨replaced, hreplaced, ?_⟩
  rw [acceptsGroup, hsame] at haccepts
  rw [Expr.accepts]
  cases hevaluate : replaced.evaluate .full row with
  | error error => simp [hevaluate] at haccepts
  | ok outcome =>
    cases outcome with
    | determined value => simpa [hevaluate] using haccepts
    | undetermined => simp [hevaluate] at haccepts

end Having

/-- HAVING keeps the grouped rows that it accepts, wherever they stand. -/
lemma keepGroups_eq_filterResult (predicate : Expr) (rows : List Row) :
    keepGroups predicate rows = filterResult (acceptsGroup predicate · 0) rows := by
  have anywhere (row : Row) (position : Nat) :
      acceptsGroup predicate row position = acceptsGroup predicate row 0 := by
    have hcolumn (ref : ColumnRef) : Expr.columnOutcome .full [.projected position row] ref =
        Expr.columnOutcome .full [.projected 0 row] ref := by
      unfold Expr.columnOutcome Expr.findRow?
      cases ref.table <;> cases ref.index <;> try rfl
      rename_i table _
      have hname (position : Nat) :
          (LogicalRow.projected position row).tableName = ColumnRef.projectionTable := rfl
      cases hsame : Name.same ColumnRef.projectionTable table <;>
        simp [hname, hsame, LogicalRow.valueOf]
    rw [acceptsGroup, acceptsGroup, Expr.evaluate_congr fun ref _ => hcolumn ref]
  have counted (position : Nat) : keepGroupsFrom predicate position rows =
      filterResult (acceptsGroup predicate · 0) rows := by
    induction rows generalizing position with
    | nil => rfl
    | cons row rest ih =>
      cases hverdict : acceptsGroup predicate row 0 <;>
        simp [keepGroupsFrom, filterResult, anywhere row position, hverdict, ih]
  exact counted 0

end RelQuery
