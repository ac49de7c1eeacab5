import RelQuery.Deadline.Watch
import RelQuery.Join.Input
import RelQuery.Proofs.Expr.Evaluation
import RelQuery.Proofs.Expr.Resolved

/-!
# Results without faults

A fault is an error whose innermost cause is a broken contract.  Here a result is good when it gives
a value of some sort or fails with an error that is no fault.  Good results compose: what is bound,
mapped or collected from good parts is good, and placing an error does not change its innermost
cause.  Operations on values raise only errors that come of their operands, and beside these an
expression raises only what its columns and its functions without argument raise.
-/

namespace RelQuery

/-! ## Runtime errors -/

namespace Error

/-- The error may be caused by the data or by the time: a value of the wrong type or out of range,
or an expired deadline. -/
def isRuntime (error : Error) : Bool :=
  match error.kind with
  | .typeMismatch | .meaningless | .divisionByZero | .overflow | .conversion | .timeout => true
  | _ => false

/-- The error comes of the operands of an operation: a value of the wrong type or out of range, a
division by zero, or a text that is negated. -/
def isOfOperands : Error → Bool
  | typeMismatch _ | meaningless (.negatedText _) | divisionByZero | overflow _ | conversion .. =>
    true
  | _ => false

/-- What comes of operands is a runtime error. -/
lemma isRuntime_of_isOfOperands {error : Error} (h : error.isOfOperands = true) :
    error.isRuntime = true := by
  cases error <;> first | rfl | exact absurd h Bool.false_ne_true

/-- What comes of operands is neither a broken contract nor a missing column. -/
lemma kind_ne_of_isOfOperands {error : Error} (h : error.isOfOperands = true) :
    error.kind ≠ .internal ∧ error.kind ≠ .columnNotFound := by
  cases error <;> simp_all [isOfOperands, kind]

/-- A fault is no runtime error. -/
lemma isRuntime_of_isFault {error : Error} (fault : error.isFault = true) :
    error.isRuntime = false := by
  cases error <;> first | rfl | exact absurd fault Bool.false_ne_true

end Error

/-! ## Results -/

namespace Result

variable {α β : Type} {Q : α → Prop} {R : β → Prop}

/-- The result is a value of the given sort, or an error that is no fault. -/
def Gives (Q : α → Prop) : Result α → Prop
  | .ok a => Q a
  | .error error => error.isFault = false

/-- The result is a value or an error that is no fault. -/
abbrev Faultless : Result α → Prop :=
  Gives fun _ => True

/-- A value of the sort. -/
@[simp] lemma gives_ok {a : α} : Gives Q (.ok a) ↔ Q a := Iff.rfl

/-- An error that is no fault. -/
@[simp] lemma gives_error {error : Error} : Gives Q (.error error) ↔ error.isFault = false :=
  Iff.rfl

/-- A value that was given is of the sort. -/
lemma Gives.of_ok {r : Result α} (h : r.Gives Q) {a : α} (ha : r = .ok a) : Q a := by
  rwa [ha] at h

/-- A failure of a good result is no fault. -/
lemma Gives.of_error {r : Result α} (h : r.Gives Q) {error : Error} (he : r = .error error) :
    error.isFault = false := by
  rwa [he] at h

/-- What is known of the value may be used for its sort. -/
lemma Gives.imp {Q' : α → Prop} {r : Result α} (h : r.Gives Q) (hQ : ∀ a, r = .ok a → Q a → Q' a) :
    r.Gives Q' := by
  cases r with
  | error error => exact h
  | ok a => exact hQ a rfl h

/-- A computation that goes on after a good result. -/
lemma Gives.bind {r : Result α} {f : α → Result β} (h : r.Gives Q)
    (hf : ∀ a, r = .ok a → Q a → (f a).Gives R) : (r >>= f).Gives R := by
  cases r with
  | error error => exact h
  | ok a => exact hf a rfl h

/-- A mapped good result. -/
lemma Gives.map {r : Result α} {f : α → β} (h : r.Gives Q) (hf : ∀ a, r = .ok a → Q a → R (f a)) :
    Gives R (r.map f) := by
  cases r with
  | error error => exact h
  | ok a => exact hf a rfl h

/-- A good result raises no fault, whatever fault is looked for. -/
lemma Gives.ne_error {r : Result α} (h : r.Gives Q) {error : Error} (fault : error.isFault = true) :
    r ≠ .error error := by
  rintro rfl
  exact absurd fault (by rw [h.of_error rfl]; decide)

/-- A result is good if its value is of the sort and it raises no fault. -/
lemma gives_of_ok {r : Result α} (hok : ∀ a, r = .ok a → Q a)
    (herror : ∀ error : Error, error.isFault = true → r ≠ .error error) : r.Gives Q := by
  cases r with
  | error error =>
    rw [gives_error, ← Bool.not_eq_true]
    exact fun fault => herror error fault rfl
  | ok a => exact hok a rfl

/-- A good result raises no fault. -/
lemma Gives.faultless {r : Result α} (h : r.Gives Q) : r.Faultless :=
  h.imp fun _ _ _ => trivial

/-- Mapping raises no fault. -/
lemma Gives.faultless_map {r : Result α} (h : r.Gives Q) (f : α → β) : Faultless (r.map f) :=
  h.map fun _ _ _ => trivial

/-- A computation that goes on after a check, which may be left out. -/
lemma gives_optional {checked : Prop} [Decidable checked] {check : Result Unit}
    {next : Unit → Result α} (hcheck : check.Faultless) (hnext : (next ()).Gives Q) :
    Gives Q (if checked then check >>= next else next ()) := by
  split
  · exact hcheck.bind fun _ _ _ => hnext
  · exact hnext

/-- The place of an error does not make it a fault. -/
@[simp] lemma gives_inPlace {r : Result α} {place : Place} :
    (r.inPlace place).Gives Q ↔ r.Gives Q := by
  cases r <;> rfl

/-- The result is a value or one of the allowed errors. -/
def RaisesOnly (allowed : Error → Bool) : Result α → Prop
  | .ok _ => True
  | .error error => allowed error = true

/-- The result is a value or an error that the data or the time may cause. -/
abbrev RuntimeOnly : Result α → Prop :=
  RaisesOnly Error.isRuntime

/-- The result is a value or an error that comes of operands. -/
abbrev OperandsOnly : Result α → Prop :=
  RaisesOnly Error.isOfOperands

variable {allowed allowed' : Error → Bool}

/-- A failure of such a result is an allowed error. -/
lemma RaisesOnly.of_error {r : Result α} (h : r.RaisesOnly allowed) {error : Error}
    (he : r = .error error) : allowed error = true := by
  rwa [he] at h

/-- A mapped result raises the same errors. -/
lemma RaisesOnly.map {r : Result α} (h : r.RaisesOnly allowed) (f : α → β) :
    RaisesOnly allowed (Except.map f r) := by
  cases r with
  | error error => exact h
  | ok a => trivial

/-- Such a result raises no other error. -/
lemma RaisesOnly.ne_error {r : Result α} (h : r.RaisesOnly allowed) {error : Error}
    (other : allowed error = false) : r ≠ .error error := by
  rintro rfl
  exact absurd other (by rw [h.of_error rfl]; decide)

/-- What raises only errors of operands raises only runtime errors. -/
lemma OperandsOnly.runtimeOnly {r : Result α} (h : r.OperandsOnly) : r.RuntimeOnly := by
  cases r with
  | error error => exact Error.isRuntime_of_isOfOperands h
  | ok a => trivial

/-- Runtime errors are no faults. -/
lemma RuntimeOnly.faultless {r : Result α} (h : r.RuntimeOnly) : r.Faultless :=
  gives_of_ok (fun _ _ => trivial) fun _ fault => h.ne_error (Error.isRuntime_of_isFault fault)

/-- Errors of operands are no faults. -/
lemma OperandsOnly.faultless {r : Result α} (h : r.OperandsOnly) : r.Faultless :=
  h.runtimeOnly.faultless

/-- A poll raises at most a timeout. -/
lemma runtimeOnly_poll (watch : Watch) (point : Checkpoint) : (watch.poll point).RuntimeOnly := by
  unfold Watch.poll
  split
  · rfl
  · trivial

/-- A poll now and then raises at most a timeout. -/
lemma runtimeOnly_pollEvery (watch : Watch) (interval count : Nat) (point : Checkpoint) :
    (watch.pollEvery interval count point).RuntimeOnly := by
  unfold Watch.pollEvery
  split
  · exact runtimeOnly_poll watch point
  · trivial

/-- A poll raises no fault. -/
lemma faultless_poll (watch : Watch) (point : Checkpoint) : (watch.poll point).Faultless :=
  (runtimeOnly_poll watch point).faultless

/-- A poll now and then raises no fault. -/
lemma faultless_pollEvery (watch : Watch) (interval count : Nat) (point : Checkpoint) :
    (watch.pollEvery interval count point).Faultless :=
  (runtimeOnly_pollEvery watch interval count point).faultless

/-- Good results of all elements are collected. -/
lemma gives_mapM {f : α → Result β} {l : List α} (h : ∀ a ∈ l, (f a).Gives R) :
    (l.mapM f).Gives fun bs => bs.length = l.length ∧ ∀ b ∈ bs, R b := by
  induction l with
  | nil => exact ⟨rfl, by simp⟩
  | cons a rest ih =>
    rw [List.mapM_cons]
    refine (h a List.mem_cons_self).bind fun b _ hb => ?_
    refine (ih fun a' ha' => h a' (List.mem_cons_of_mem _ ha')).bind fun bs _ hbs => ?_
    exact ⟨congrArg (· + 1) hbs.1, List.forall_mem_cons.mpr ⟨hb, hbs.2⟩⟩

/-- A fold whose steps are good keeps its invariant. -/
lemma gives_foldlM {f : β → α → Result β} {l : List α} {b : β} (start : R b)
    (step : ∀ b, R b → ∀ a ∈ l, (f b a).Gives R) : (l.foldlM f b).Gives R := by
  induction l generalizing b with
  | nil => exact start
  | cons a rest ih =>
    rw [List.foldlM_cons]
    refine (step b start a List.mem_cons_self).bind fun b' _ hb' => ?_
    exact ih hb' fun b hb a' ha' => step b hb a' (List.mem_cons_of_mem _ ha')

/-- A filter whose tests are good keeps some of the elements. -/
lemma gives_filterResult {test : α → Result Bool} {l : List α}
    (h : ∀ a ∈ l, (test a).Faultless) : (filterResult test l).Gives (· ⊆ l) := by
  induction l with
  | nil => exact List.Subset.refl []
  | cons a rest ih =>
    have hfirst := h a List.mem_cons_self
    rw [filterResult]
    cases htest : test a with
    | error error => exact hfirst.of_error htest
    | ok kept =>
      refine (ih fun a' ha' => h a' (List.mem_cons_of_mem _ ha')).map fun others _ hothers => ?_
      split
      · exact List.cons_subset_cons a hothers
      · exact List.subset_cons_of_subset a hothers

end Result

open Result

/-! ## Values -/

namespace Value

/-- A truth value or a mismatch. -/
lemma operandsOnly_truth? (value : Value) : value.truth?.OperandsOnly := by
  cases value <;> trivial

/-- Acceptance raises only errors of its operands. -/
lemma operandsOnly_isTrue (value : Value) : value.isTrue.OperandsOnly :=
  (operandsOnly_truth? value).map _

/-- A number that fits, or an overflow. -/
lemma operandsOnly_checked (cause : Overflow) (n : Int) : (checked cause n).OperandsOnly := by
  unfold checked
  split
  · trivial
  · rfl

/-- Arithmetic raises only errors of its operands. -/
lemma operandsOnly_arithmetic (op : ArithmeticOp) (l r : Value) :
    (arithmetic op l r).OperandsOnly := by
  have integers (l r : Int64) : (integerArithmetic op l r).OperandsOnly := by
    unfold integerArithmetic
    cases op with
    | add | subtract | multiply => exact operandsOnly_checked _ _
    | divide =>
      dsimp only
      split
      · rfl
      · exact operandsOnly_checked _ _
    | modulo =>
      dsimp only
      split
      · rfl
      · split
        · trivial
        · rfl
  have reals (l r : Binary64) : (realArithmetic op l r).OperandsOnly := by
    cases op with
    | add | subtract | multiply => trivial
    | divide | modulo =>
      unfold realArithmetic
      dsimp only
      split
      · rfl
      · trivial
  unfold arithmetic
  split <;> first | trivial | exact integers _ _ | exact reals _ _

/-- The opposite raises only errors of its operands. -/
lemma operandsOnly_negate (value : Value) : value.negate.OperandsOnly := by
  cases value with
  | integer n => exact operandsOnly_checked _ _
  | text s => rfl
  | _ => trivial

/-- Comparison raises only errors of its operands. -/
lemma operandsOnly_compare? (l r : Value) : (l.compare? r).OperandsOnly := by
  unfold compare?
  split <;> trivial

/-- Conversion raises only errors of its operands. -/
lemma operandsOnly_convert (value : Value) (target : ColumnType) :
    (value.convert target).OperandsOnly := by
  unfold convert
  split
  · trivial
  · split
    · trivial
    · rfl

/-- An operator raises only errors of its operands. -/
lemma operandsOnly_applyOp (op : BinaryOp) (l r : Value) : (applyOp op l r).OperandsOnly := by
  cases op with
  | arithmetic op => exact operandsOnly_arithmetic op l r
  | comparison op => exact (operandsOnly_compare? l r).map _
  | logical op =>
    unfold applyOp
    dsimp only
    split
    · rename_i error herror
      exact (operandsOnly_truth? l).of_error herror
    · split
      · rename_i error herror
        exact (operandsOnly_truth? r).of_error herror
      · trivial
  | _ => trivial

end Value

/-! ## Expressions -/

namespace Expr

/-- An operation on outcomes raises only errors of its operands. -/
lemma operandsOnly_combine (op : BinaryOp) (l r : Outcome) : (combine op l r).OperandsOnly := by
  have alone (op : LogicalOp) (known : Value) : (decideAlone op known).OperandsOnly :=
    (Value.operandsOnly_truth? known).map _
  cases l with
  | determined lv =>
    cases r with
    | determined rv => exact (Value.operandsOnly_applyOp op lv rv).map _
    | undetermined =>
      cases op with
      | logical op => exact alone op lv
      | _ => trivial
  | undetermined =>
    cases r with
    | determined rv =>
      cases op with
      | logical op => exact alone op rv
      | _ => trivial
    | undetermined => trivial

/-- The negation of an outcome raises only errors of its operand. -/
lemma operandsOnly_negateOutcome (outcome : Outcome) : (negateOutcome outcome).OperandsOnly := by
  cases outcome with
  | determined value => exact (Value.operandsOnly_negate value).map _
  | undetermined => trivial

/-- A function of an outcome raises only errors of its argument. -/
lemma operandsOnly_applyFunction (f : Function) (outcome : Outcome) :
    (applyFunction f outcome).OperandsOnly := by
  cases outcome with
  | determined value =>
    cases f with
    | aggregate f => trivial
    | conversion target => exact (Value.operandsOnly_convert value target).map _
  | undetermined => trivial

/-- A function without argument raises only runtime errors. -/
lemma runtimeOnly_applyBare (f : Function) : (applyBare f).RuntimeOnly := by
  unfold applyBare
  split
  · trivial
  · rfl

/-- Beside errors of operands an expression raises only those of its columns and of its functions
without argument. -/
lemma evaluate_ne_error_of_parts {mode : Coverage} {rows : List LogicalRow} {e : Expr}
    {error : Error} (other : error.isOfOperands = false)
    (hbare : ∀ f label, bareCall f label ∈ e.parts → applyBare f ≠ .error error)
    (h : ∀ ref ∈ e.columns, columnOutcome mode rows ref ≠ .error error) :
    e.evaluate mode rows ≠ .error error := by
  induction e with
  | literal value label => simp [evaluate]
  | column ref label => exact h ref (by simp [columns])
  | binary op left right label ihLeft ihRight =>
    obtain ⟨hl, hr⟩ := List.forall_mem_append.mp h
    have hleft := ihLeft (fun f l hpart => hbare f l (by simp [parts, hpart])) hl
    have hright := ihRight (fun f l hpart => hbare f l (by simp [parts, hpart])) hr
    rw [evaluate_binary]
    refine bind_ne_error hleft fun l _ => bind_ne_error hright fun r _ => ?_
    exact (operandsOnly_combine op l r).ne_error other
  | negate operand label ih =>
    have hoperand := ih (fun f l hpart => hbare f l (by simp [parts, hpart])) h
    rw [evaluate_negate]
    exact bind_ne_error hoperand fun o _ => (operandsOnly_negateOutcome o).ne_error other
  | call f arg label ih =>
    have harg := ih (fun f l hpart => hbare f l (by simp [parts, hpart])) h
    rw [evaluate_call]
    exact bind_ne_error harg fun a _ => (operandsOnly_applyFunction f a).ne_error other
  | bareCall f label => exact hbare f label (self_mem_parts _)

/-- Beside runtime errors an expression raises only those of its columns. -/
lemma evaluate_ne_error {mode : Coverage} {rows : List LogicalRow} {e : Expr} {error : Error}
    (other : error.isRuntime = false)
    (h : ∀ ref ∈ e.columns, columnOutcome mode rows ref ≠ .error error) :
    e.evaluate mode rows ≠ .error error := by
  have notOfOperands : error.isOfOperands = false := by
    by_contra hoperands
    rw [Error.isRuntime_of_isOfOperands (eq_true_of_ne_false hoperands)] at other
    contradiction
  apply evaluate_ne_error_of_parts notOfOperands _ h
  intro f label _
  exact (runtimeOnly_applyBare f).ne_error other

/-- An expression raises no fault where its columns raise none. -/
lemma faultless_evaluate {mode : Coverage} {rows : List LogicalRow} {e : Expr}
    (h : ∀ ref ∈ e.columns, (columnOutcome mode rows ref).Faultless) :
    (e.evaluate mode rows).Faultless :=
  gives_of_ok (fun _ _ => trivial) fun _ fault =>
    evaluate_ne_error (Error.isRuntime_of_isFault fault) fun ref href => (h ref href).ne_error fault

end Expr

end RelQuery
