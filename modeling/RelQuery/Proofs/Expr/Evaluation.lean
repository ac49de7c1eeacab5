import RelQuery.Expr.Evaluate
import RelQuery.Proofs.Result

/-!
# What an evaluation depends on

An expression looks at a tuple of rows through its columns only.  Two evaluations are therefore
compared column by column: where the second finds what the first found, it gives the same outcome,
and where the first left columns undetermined, a determined outcome of the first is already that of
the second.  The second statement is what allows a predicate to be tried on one table of a join.

Every step of the evaluation of a node has to succeed for the node to have an outcome.  The proofs
on outcomes take a node apart at these steps.
-/

namespace RelQuery.Expr

/-! ## Outcomes step by step -/

section Steps

variable {left right operand arg : Expr} {label : Option String} {mode : Coverage}
  {rows : List LogicalRow} {outcome : Outcome}

/-- The negation of an outcome. -/
def negateOutcome : Outcome → Result Outcome
  | .undetermined => .ok .undetermined
  | .determined value => value.negate.map .determined

/-- The operands of an operation are evaluated in turn, and their outcomes are combined. -/
lemma evaluate_binary (op : BinaryOp) (left right : Expr) (label : Option String)
    (mode : Coverage) (rows : List LogicalRow) :
    (binary op left right label).evaluate mode rows =
      left.evaluate mode rows >>= fun l => right.evaluate mode rows >>= combine op l := by
  rw [evaluate]
  cases left.evaluate mode rows with
  | error error => rfl
  | ok l => cases right.evaluate mode rows <;> rfl

/-- A negation negates the outcome of its operand. -/
lemma evaluate_negate (operand : Expr) (label : Option String) (mode : Coverage)
    (rows : List LogicalRow) :
    (negate operand label).evaluate mode rows = operand.evaluate mode rows >>= negateOutcome := by
  rw [evaluate]
  cases operand.evaluate mode rows with
  | error error => rfl
  | ok outcome => cases outcome <;> rfl

/-- A call applies its function to the outcome of its argument. -/
lemma evaluate_call (f : Function) (arg : Expr) (label : Option String) (mode : Coverage)
    (rows : List LogicalRow) :
    (call f arg label).evaluate mode rows = arg.evaluate mode rows >>= applyFunction f := by
  rw [evaluate]
  cases arg.evaluate mode rows <;> rfl

/-- An operation has an outcome where both operands have outcomes that can be combined. -/
lemma evaluate_binary_eq_ok {op : BinaryOp} :
    (binary op left right label).evaluate mode rows = .ok outcome ↔
      ∃ l r, left.evaluate mode rows = .ok l ∧ right.evaluate mode rows = .ok r ∧
        combine op l r = .ok outcome := by
  simp only [evaluate_binary, Result.bind_eq_ok, exists_and_left]

/-- A negation has an outcome where its operand has one that can be negated. -/
lemma evaluate_negate_eq_ok :
    (negate operand label).evaluate mode rows = .ok outcome ↔
      ∃ o, operand.evaluate mode rows = .ok o ∧ negateOutcome o = .ok outcome := by
  rw [evaluate_negate, Result.bind_eq_ok]

/-- A call has an outcome where its argument has one that the function applies to. -/
lemma evaluate_call_eq_ok {f : Function} :
    (call f arg label).evaluate mode rows = .ok outcome ↔
      ∃ a, arg.evaluate mode rows = .ok a ∧ applyFunction f a = .ok outcome := by
  rw [evaluate_call, Result.bind_eq_ok]

end Steps

/-! ## The same columns -/

/-- Where every column found in one tuple is found alike in another, so is every outcome. -/
lemma evaluate_of_columns {mode mode' : Coverage} {rows rows' : List LogicalRow} {e : Expr}
    (h : ∀ ref ∈ e.columns, ∀ found, columnOutcome mode rows ref = .ok found →
      columnOutcome mode' rows' ref = .ok found) {outcome : Outcome}
    (he : e.evaluate mode rows = .ok outcome) : e.evaluate mode' rows' = .ok outcome := by
  induction e generalizing outcome with
  | literal value label => exact he
  | column ref label => exact h ref (by simp [columns]) outcome he
  | binary op left right label ihLeft ihRight =>
    obtain ⟨hl, hr⟩ := List.forall_mem_append.mp h
    obtain ⟨l, r, hleft, hright, hcombine⟩ := evaluate_binary_eq_ok.mp he
    exact evaluate_binary_eq_ok.mpr ⟨l, r, ihLeft hl hleft, ihRight hr hright, hcombine⟩
  | negate operand label ih =>
    obtain ⟨o, hoperand, hnegate⟩ := evaluate_negate_eq_ok.mp he
    exact evaluate_negate_eq_ok.mpr ⟨o, ih h hoperand, hnegate⟩
  | call f arg label ih =>
    obtain ⟨a, harg, hcall⟩ := evaluate_call_eq_ok.mp he
    exact evaluate_call_eq_ok.mpr ⟨a, ih h harg, hcall⟩
  | bareCall f label => exact he

/-- Evaluations that look up every column alike are alike. -/
lemma evaluate_congr {mode mode' : Coverage} {rows rows' : List LogicalRow} {e : Expr}
    (h : ∀ ref ∈ e.columns, columnOutcome mode rows ref = columnOutcome mode' rows' ref) :
    e.evaluate mode rows = e.evaluate mode' rows' := by
  induction e with
  | literal value label => rfl
  | column ref label => exact h ref (by simp [columns])
  | binary op left right label ihLeft ihRight =>
    obtain ⟨hl, hr⟩ := List.forall_mem_append.mp h
    rw [evaluate, evaluate, ihLeft hl, ihRight hr]
  | negate operand label ih => rw [evaluate, evaluate, ih h]
  | call f arg label ih => rw [evaluate, evaluate, ih h]
  | bareCall f label => rfl

/-! ## Full outcomes -/

/-- In full mode a column that is found is determined. -/
lemma determined_of_columnOutcome_full {rows : List LogicalRow} {ref : ColumnRef}
    {outcome : Outcome} (h : columnOutcome .full rows ref = .ok outcome) :
    ∃ value, outcome = .determined value := by
  unfold columnOutcome at h
  split at h
  · split at h
    · obtain ⟨value, -, rfl⟩ := Result.map_eq_ok.mp h
      exact ⟨value, rfl⟩
    · simp at h
  · simp at h

/-- A function of a determined argument is determined. -/
lemma determined_of_applyFunction {f : Function} {value : Value} {outcome : Outcome}
    (h : applyFunction f (.determined value) = .ok outcome) :
    ∃ result, outcome = .determined result := by
  cases f with
  | aggregate f => exact ⟨value, (Except.ok.inj h).symm⟩
  | conversion target =>
    obtain ⟨result, -, rfl⟩ := Result.map_eq_ok.mp h
    exact ⟨result, rfl⟩

/-- In full mode every outcome is determined. -/
lemma determined_of_full {rows : List LogicalRow} {e : Expr} {outcome : Outcome}
    (h : e.evaluate .full rows = .ok outcome) : ∃ value, outcome = .determined value := by
  induction e generalizing outcome with
  | literal value label => exact ⟨value, (Except.ok.inj h).symm⟩
  | column ref label => exact determined_of_columnOutcome_full h
  | binary op left right label ihLeft ihRight =>
    obtain ⟨l, r, hleft, hright, hcombine⟩ := evaluate_binary_eq_ok.mp h
    obtain ⟨l, rfl⟩ := ihLeft hleft
    obtain ⟨r, rfl⟩ := ihRight hright
    obtain ⟨result, -, rfl⟩ := Result.map_eq_ok.mp hcombine
    exact ⟨result, rfl⟩
  | negate operand label ih =>
    obtain ⟨o, hoperand, hnegate⟩ := evaluate_negate_eq_ok.mp h
    obtain ⟨value, rfl⟩ := ih hoperand
    obtain ⟨negated, -, rfl⟩ := Result.map_eq_ok.mp hnegate
    exact ⟨negated, rfl⟩
  | call f arg label ih =>
    obtain ⟨a, harg, hcall⟩ := evaluate_call_eq_ok.mp h
    obtain ⟨value, rfl⟩ := ih harg
    exact determined_of_applyFunction hcall
  | bareCall f label =>
    rw [evaluate, applyBare] at h
    split at h
    · exact ⟨.null, (Except.ok.inj h).symm⟩
    · simp at h

/-! ## Trying an expression early -/

/-- An operand that decides AND or OR alone is the result with any other operand. -/
lemma applyOp_of_decideAlone {op : LogicalOp} {known other value result : Value}
    (h : decideAlone op known = .ok (.determined value))
    (hleft : Value.applyOp (.logical op) known other = .ok result ∨
      Value.applyOp (.logical op) other known = .ok result) : result = value := by
  obtain ⟨truth, htruth, h⟩ := Result.map_eq_ok.mp h
  split at h
  · rename_i habsorbing
    obtain rfl : known = value := by simpa using h
    -- the known operand is the truth value that absorbs
    have hknown : known = .boolean (Value.absorbing op) := by
      cases known <;> simp_all [Value.truth?]
    subst hknown
    rcases hleft with hleft | hleft
    · simp only [Value.applyOp, htruth] at hleft
      cases hother : other.truth? with
      | error error => simp [hother] at hleft
      | ok right => simpa [hother, habsorbing, Value.connect, Value.ofTruth, eq_comm] using hleft
    · simp only [Value.applyOp, htruth] at hleft
      cases hother : other.truth? with
      | error error => simp [hother] at hleft
      | ok right => simpa [hother, habsorbing, Value.connect, Value.ofTruth, eq_comm] using hleft
  · simp at h

/-- A determined outcome of an operation, one operand possibly open, is the outcome with all
operands known. -/
lemma eq_of_combine {op : BinaryOp} {l r : Outcome} {l' r' value : Value} {outcome : Outcome}
    (hl : ∀ v, l = .determined v → l' = v) (hr : ∀ v, r = .determined v → r' = v)
    (hearly : combine op l r = .ok (.determined value))
    (hfull : combine op (.determined l') (.determined r') = .ok outcome) :
    outcome = .determined value := by
  obtain ⟨result, happly, rfl⟩ := Result.map_eq_ok.mp hfull
  congr 1
  cases l with
  | determined lv =>
    obtain rfl := hl lv rfl
    cases r with
    | determined rv =>
      obtain rfl := hr rv rfl
      rw [combine, happly] at hearly
      simpa [Except.map] using hearly
    | undetermined =>
      cases op with
      | logical op => exact applyOp_of_decideAlone hearly (Or.inl happly)
      | _ => simp [combine] at hearly
  | undetermined =>
    cases r with
    | determined rv =>
      obtain rfl := hr rv rfl
      cases op with
      | logical op => exact applyOp_of_decideAlone hearly (Or.inr happly)
      | _ => simp [combine] at hearly
    | undetermined => simp [combine] at hearly

/-- What an expression already gives on some rows, with columns left open, it gives on all rows,
where it gives anything. -/
lemma evaluate_full_of_early {rows rows' : List LogicalRow} {e : Expr} {mode : Coverage}
    (h : ∀ ref ∈ e.columns, ∀ value found,
      columnOutcome mode rows ref = .ok (.determined value) →
      columnOutcome .full rows' ref = .ok found → found = .determined value)
    {value : Value} (hearly : e.evaluate mode rows = .ok (.determined value)) {outcome : Outcome}
    (hfull : e.evaluate .full rows' = .ok outcome) : outcome = .determined value := by
  induction e generalizing value outcome with
  | literal v label => exact Except.ok.inj (hfull.symm.trans hearly)
  | column ref label => exact h ref (by simp [columns]) value outcome hearly hfull
  | binary op left right label ihLeft ihRight =>
    obtain ⟨hl, hr⟩ := List.forall_mem_append.mp h
    obtain ⟨l, r, hleft, hright, hcombine⟩ := evaluate_binary_eq_ok.mp hearly
    obtain ⟨l', r', hleft', hright', hcombine'⟩ := evaluate_binary_eq_ok.mp hfull
    obtain ⟨l', rfl⟩ := determined_of_full hleft'
    obtain ⟨r', rfl⟩ := determined_of_full hright'
    refine eq_of_combine ?_ ?_ hcombine hcombine'
    · rintro v rfl
      exact Outcome.determined.inj (ihLeft hl hleft hleft')
    · rintro v rfl
      exact Outcome.determined.inj (ihRight hr hright hright')
  | negate operand label ih =>
    obtain ⟨o, hoperand, hnegate⟩ := evaluate_negate_eq_ok.mp hearly
    obtain ⟨o', hoperand', hnegate'⟩ := evaluate_negate_eq_ok.mp hfull
    cases o with
    | undetermined => simp [negateOutcome] at hnegate
    | determined v =>
      obtain rfl := ih h hoperand hoperand'
      exact Except.ok.inj (hnegate'.symm.trans hnegate)
  | call f arg label ih =>
    obtain ⟨a, harg, hcall⟩ := evaluate_call_eq_ok.mp hearly
    obtain ⟨a', harg', hcall'⟩ := evaluate_call_eq_ok.mp hfull
    cases a with
    | undetermined => simp [applyFunction] at hcall
    | determined v =>
      obtain rfl := ih h harg harg'
      exact Except.ok.inj (hcall'.symm.trans hcall)
  | bareCall f label => exact Except.ok.inj (hfull.symm.trans hearly)

end RelQuery.Expr
