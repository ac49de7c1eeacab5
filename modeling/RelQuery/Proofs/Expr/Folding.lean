import RelQuery.Expr.Folding
import RelQuery.Proofs.Expr.Evaluation

/-!
# Folding and evaluation

Folding computes a part of what evaluation computes, at an earlier time.  Where it succeeds the
folded expression has the outcomes and the alias of the expression, and nothing is left
in it to fold.  Where it fails, an operation on literals failed.  Evaluation comes to that operation
whatever rows it is given, unless it fails before, so the expression has no outcome at all.

The error need not be the same one: evaluation may fail earlier, at a column that folding passes
over.
-/

namespace RelQuery.Expr

variable {e other operand left right arg folded : Expr} {op : BinaryOp} {f : Function}
  {label : Option String} {mode : Coverage} {rows : List LogicalRow} {error : Error}

/-! ## Folded expressions -/

/-- Nothing is left to fold: no operation and no conversion has literals only. -/
def isFolded : Expr → Bool
  | literal .. | column .. | bareCall .. => true
  | binary _ left right _ =>
    left.isFolded && right.isFolded && !(left.literal?.isSome && right.literal?.isSome)
  | negate operand _ => operand.isFolded && operand.literal?.isNone
  | call f arg _ => arg.isFolded && (f.target?.isNone || arg.literal?.isNone)

/-- A literal expression has the outcome that its value is. -/
lemma evaluate_of_literal? {value : Value} (h : e.literal? = some value) (mode : Coverage)
    (rows : List LogicalRow) : e.evaluate mode rows = .ok (.determined value) := by
  cases e with
  | literal v label =>
    obtain rfl := Option.some.inj h
    rfl
  | _ => simp [literal?] at h

/-- A literal expression reads no column. -/
lemma columns_of_literal? {value : Value} (h : e.literal? = some value) : e.columns = [] := by
  cases e with
  | literal v label => rfl
  | _ => simp [literal?] at h

/-- An expression in which nothing is left to fold is folded to itself. -/
lemma foldConstants_of_isFolded (h : e.isFolded = true) : e.foldConstants = .ok e := by
  induction e with
  | literal value label => rfl
  | column ref label => rfl
  | binary op left right label ihLeft ihRight =>
    simp only [isFolded, Bool.and_eq_true, Bool.not_eq_true'] at h
    obtain ⟨⟨hleft, hright⟩, hopen⟩ := h
    simp only [foldConstants, ihLeft hleft, ihRight hright, foldBinary]
    split
    · rename_i l r hl hr
      simp [hl, hr] at hopen
    · rfl
  | negate operand label ih =>
    simp only [isFolded, Bool.and_eq_true, Option.isNone_iff_eq_none] at h
    obtain ⟨hoperand, hopen⟩ := h
    simp only [foldConstants, ih hoperand, foldNegate, hopen]
  | call f arg label ih =>
    simp only [isFolded, Bool.and_eq_true, Bool.or_eq_true, Option.isNone_iff_eq_none] at h
    obtain ⟨harg, hopen⟩ := h
    simp only [foldConstants, ih harg, foldCall]
    split
    · rename_i target value ht ha
      simp [ht, ha] at hopen
    · rfl
  | bareCall f label => rfl

/-! ## Folding step by step -/

/-- The operands of an operation are folded in turn, and then the operation on them. -/
lemma foldConstants_binary (op : BinaryOp) (left right : Expr) (label : Option String) :
    (binary op left right label).foldConstants =
      left.foldConstants >>= fun l => right.foldConstants >>= fun r => foldBinary op l r label := by
  rw [foldConstants]
  cases left.foldConstants with
  | error error => rfl
  | ok l => cases right.foldConstants <;> rfl

/-- The operand of a negation is folded, and then the negation of it. -/
lemma foldConstants_negate (operand : Expr) (label : Option String) :
    (negate operand label).foldConstants =
      operand.foldConstants >>= fun o => foldNegate o label := by
  rw [foldConstants]
  cases operand.foldConstants <;> rfl

/-- The argument of a call is folded, and then the call on it. -/
lemma foldConstants_call (f : Function) (arg : Expr) (label : Option String) :
    (call f arg label).foldConstants = arg.foldConstants >>= fun a => foldCall f a label := by
  rw [foldConstants]
  cases arg.foldConstants <;> rfl

/-! ## One node -/

/-- The expression has no outcome, however much of the tuple must be present and whatever rows are
in it. -/
def Fails (e : Expr) : Prop :=
  ∀ mode rows, ∃ error, e.evaluate mode rows = .error error

/-- The second expression is the first one with its constant parts computed. -/
structure IsFolding (e folded : Expr) : Prop where
  /-- The outcomes are the same: value, undetermined or error. -/
  outcome : ∀ mode rows, folded.evaluate mode rows = e.evaluate mode rows
  /-- The columns are the same. -/
  columns : folded.columns = e.columns
  /-- The alias is kept. -/
  label : folded.label = e.label
  /-- Nothing is left to fold. -/
  isFolded : folded.isFolded = true

/-- How the top node of an expression is folded, its operands being folded already. -/
inductive FoldsAtTop (e : Expr) (r : Result Expr) : Prop
  /-- The node is computed from literals.  Its outcome is the same on all rows, and the literal of
  it takes the place of the node. -/
  | computed (result : Result Value)
      (outcome : ∀ mode rows, e.evaluate mode rows = result.map .determined)
      (columns : e.columns = []) (eq : r = result.map fun value => literal value e.label)
  /-- Nothing is to be folded in the node. -/
  | kept (isFolded : e.isFolded = true) (eq : r = .ok e)

/-- A node that is folded keeps its meaning. -/
lemma FoldsAtTop.isFolding (h : e.FoldsAtTop (.ok folded)) : e.IsFolding folded := by
  cases h with
  | computed result outcome columns eq =>
    obtain ⟨value, rfl, rfl⟩ := Result.map_eq_ok.mp eq.symm
    exact ⟨fun mode rows => (outcome mode rows).symm, columns.symm, rfl, rfl⟩
  | kept isFolded eq =>
    obtain rfl := Except.ok.inj eq
    exact ⟨fun _ _ => rfl, rfl, rfl, isFolded⟩

/-- A node that cannot be folded cannot be evaluated. -/
lemma FoldsAtTop.fails (h : e.FoldsAtTop (.error error)) : e.Fails := by
  cases h with
  | computed result outcome columns eq =>
    intro mode rows
    obtain rfl := Result.map_eq_error.mp eq.symm
    exact ⟨error, outcome mode rows⟩
  | kept isFolded eq => cases eq

/-- An operation on folded operands. -/
lemma foldsAtTop_binary (op : BinaryOp) (label : Option String) (hleft : left.isFolded = true)
    (hright : right.isFolded = true) :
    (binary op left right label).FoldsAtTop (foldBinary op left right label) := by
  unfold foldBinary
  split
  · rename_i l r hl hr
    refine .computed (Value.applyOp op l r) (fun mode rows => ?_) ?_ rfl
    · rw [evaluate_binary, evaluate_of_literal? hl, evaluate_of_literal? hr]
      rfl
    · rw [columns, columns_of_literal? hl, columns_of_literal? hr, List.append_nil]
  · rename_i hopen
    refine .kept ?_ rfl
    cases hl : left.literal? with
    | none => simp [isFolded, hleft, hright, hl]
    | some l =>
      cases hr : right.literal? with
      | none => simp [isFolded, hleft, hright, hr]
      | some r => exact (hopen l r hl hr).elim

/-- A negation of a folded operand. -/
lemma foldsAtTop_negate (label : Option String) (hoperand : operand.isFolded = true) :
    (negate operand label).FoldsAtTop (foldNegate operand label) := by
  unfold foldNegate
  split
  · rename_i value hvalue
    refine .computed value.negate (fun mode rows => ?_) ?_ rfl
    · rw [evaluate_negate, evaluate_of_literal? hvalue]
      rfl
    · rw [columns, columns_of_literal? hvalue]
  · rename_i hopen
    exact .kept (by simp [isFolded, hoperand, hopen]) rfl

/-- A call of a folded argument. -/
lemma foldsAtTop_call (f : Function) (label : Option String) (harg : arg.isFolded = true) :
    (call f arg label).FoldsAtTop (foldCall f arg label) := by
  unfold foldCall
  split
  · rename_i target value htarget hvalue
    obtain rfl : f = .conversion target := by
      cases f <;> simp_all [Function.target?]
    refine .computed (value.convert target) (fun mode rows => ?_) ?_ rfl
    · rw [evaluate_call, evaluate_of_literal? hvalue]
      rfl
    · rw [columns, columns_of_literal? hvalue]
  · rename_i hopen
    refine .kept ?_ rfl
    cases ht : f.target? with
    | none => simp [isFolded, harg, ht]
    | some target =>
      cases ha : arg.literal? with
      | none => simp [isFolded, harg, ha]
      | some value => exact (hopen target value ht ha).elim

/-! ## Where folding succeeds -/

/-- An expression that was folded keeps its meaning. -/
lemma isFolding_of_foldConstants (h : e.foldConstants = .ok folded) : e.IsFolding folded := by
  induction e generalizing folded with
  | literal value label =>
    obtain rfl := Except.ok.inj h
    exact ⟨fun _ _ => rfl, rfl, rfl, rfl⟩
  | column ref label =>
    obtain rfl := Except.ok.inj h
    exact ⟨fun _ _ => rfl, rfl, rfl, rfl⟩
  | binary op left right label ihLeft ihRight =>
    rw [foldConstants_binary] at h
    obtain ⟨l, hleft, h⟩ := Result.bind_eq_ok.mp h
    obtain ⟨r, hright, h⟩ := Result.bind_eq_ok.mp h
    have hl := ihLeft hleft
    have hr := ihRight hright
    have top := (h ▸ foldsAtTop_binary op label hl.isFolded hr.isFolded).isFolding
    refine ⟨fun mode rows => ?_, ?_, top.label, top.isFolded⟩
    · rw [top.outcome, evaluate_binary, evaluate_binary, hl.outcome, hr.outcome]
    · rw [top.columns, columns, columns, hl.columns, hr.columns]
  | negate operand label ih =>
    rw [foldConstants_negate] at h
    obtain ⟨o, hoperand, h⟩ := Result.bind_eq_ok.mp h
    have ho := ih hoperand
    have top := (h ▸ foldsAtTop_negate label ho.isFolded).isFolding
    refine ⟨fun mode rows => ?_, top.columns.trans ho.columns, top.label, top.isFolded⟩
    rw [top.outcome, evaluate_negate, evaluate_negate, ho.outcome]
  | call f arg label ih =>
    rw [foldConstants_call] at h
    obtain ⟨a, harg, h⟩ := Result.bind_eq_ok.mp h
    have ha := ih harg
    have top := (h ▸ foldsAtTop_call f label ha.isFolded).isFolding
    refine ⟨fun mode rows => ?_, top.columns.trans ha.columns, top.label, top.isFolded⟩
    rw [top.outcome, evaluate_call, evaluate_call, ha.outcome]
  | bareCall f label =>
    obtain rfl := Except.ok.inj h
    exact ⟨fun _ _ => rfl, rfl, rfl, rfl⟩

/-! ## Where folding fails -/

/-- What has the outcomes of an expression that fails fails. -/
lemma Fails.of_evaluate (h : e.Fails)
    (same : ∀ mode rows, e.evaluate mode rows = other.evaluate mode rows) : other.Fails :=
  fun mode rows => same mode rows ▸ h mode rows

/-- An operation fails with its left operand. -/
lemma Fails.binary_left (h : left.Fails) (op : BinaryOp) (right : Expr) (label : Option String) :
    (binary op left right label).Fails := by
  intro mode rows
  obtain ⟨error, herror⟩ := h mode rows
  exact ⟨error, by rw [evaluate, herror]⟩

/-- An operation fails with its right operand, if not before. -/
lemma Fails.binary_right (h : right.Fails) (op : BinaryOp) (left : Expr) (label : Option String) :
    (binary op left right label).Fails := by
  intro mode rows
  obtain ⟨error, herror⟩ := h mode rows
  cases hleft : left.evaluate mode rows with
  | error first => exact ⟨first, by rw [evaluate, hleft]⟩
  | ok outcome => exact ⟨error, by rw [evaluate, hleft, herror]⟩

/-- A negation fails with its operand. -/
lemma Fails.negate (h : operand.Fails) (label : Option String) :
    (negate operand label).Fails := by
  intro mode rows
  obtain ⟨error, herror⟩ := h mode rows
  exact ⟨error, by rw [evaluate, herror]⟩

/-- A call fails with its argument. -/
lemma Fails.call (h : arg.Fails) (f : Function) (label : Option String) :
    (call f arg label).Fails := by
  intro mode rows
  obtain ⟨error, herror⟩ := h mode rows
  exact ⟨error, by rw [evaluate, herror]⟩

/-- Where folding fails there is no outcome. -/
lemma fails_of_foldConstants (h : e.foldConstants = .error error) : e.Fails := by
  induction e generalizing error with
  | literal value label => simp [foldConstants] at h
  | column ref label => simp [foldConstants] at h
  | binary op left right label ihLeft ihRight =>
    rw [foldConstants_binary] at h
    rcases Result.bind_eq_error.mp h with hleft | ⟨l, hleft, h⟩
    · exact (ihLeft hleft).binary_left op right label
    rcases Result.bind_eq_error.mp h with hright | ⟨r, hright, h⟩
    · exact (ihRight hright).binary_right op left label
    -- the operands were folded, and the operation on their values is what fails
    have hl := isFolding_of_foldConstants hleft
    have hr := isFolding_of_foldConstants hright
    refine (h ▸ foldsAtTop_binary op label hl.isFolded hr.isFolded).fails.of_evaluate ?_
    intro mode rows
    rw [evaluate_binary, evaluate_binary, hl.outcome, hr.outcome]
  | negate operand label ih =>
    rw [foldConstants_negate] at h
    rcases Result.bind_eq_error.mp h with hoperand | ⟨o, hoperand, h⟩
    · exact (ih hoperand).negate label
    have ho := isFolding_of_foldConstants hoperand
    refine (h ▸ foldsAtTop_negate label ho.isFolded).fails.of_evaluate fun mode rows => ?_
    rw [evaluate_negate, evaluate_negate, ho.outcome]
  | call f arg label ih =>
    rw [foldConstants_call] at h
    rcases Result.bind_eq_error.mp h with harg | ⟨a, harg, h⟩
    · exact (ih harg).call f label
    have ha := isFolding_of_foldConstants harg
    refine (h ▸ foldsAtTop_call f label ha.isFolded).fails.of_evaluate fun mode rows => ?_
    rw [evaluate_call, evaluate_call, ha.outcome]
  | bareCall f label => simp [foldConstants] at h

/-! ## Folding as a whole -/

/-- The second expression stands for the first with its constant parts computed. -/
structure FoldsTo (e folded : Expr) : Prop where
  /-- The outcomes are the same: value, undetermined or error. -/
  outcome : ∀ mode rows, folded.evaluate mode rows = e.evaluate mode rows
  /-- The alias is kept. -/
  label : folded.label = e.label
  /-- Folding again changes nothing. -/
  stable : folded.foldConstants = .ok folded

/-- Folding never changes what an expression evaluates to: it gives an expression with the same
outcomes, or the expression has none. -/
theorem folds_or_fails (e : Expr) :
    match e.foldConstants with
    | .ok folded => e.FoldsTo folded
    | .error _ => e.Fails := by
  cases h : e.foldConstants with
  | ok folded =>
    have folding := isFolding_of_foldConstants h
    exact ⟨folding.outcome, folding.label, foldConstants_of_isFolded folding.isFolded⟩
  | error error => exact fails_of_foldConstants h

/-- A column beside a folded part stays open, and the part is computed. -/
example : foldConstants (.binary (.arithmetic .add) (.column (.written none "x") none)
    (.negate (.literal (.integer 2) none) none) (some "y")) =
    .ok (.binary (.arithmetic .add) (.column (.written none "x") none)
      (.literal (.integer (-2)) none) (some "y")) := by
  decide

end RelQuery.Expr
