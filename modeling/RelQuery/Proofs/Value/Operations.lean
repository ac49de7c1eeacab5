import RelQuery.Proofs.Result
import RelQuery.Proofs.Value.KeyOrder
import RelQuery.Value.Convert
import RelQuery.Value.Operation

/-!
# Operations without reals

Integers that are combined give an integer of the exact value or an overflow.  No operation on
values that are not real gives a real, and neither does a conversion to another type.
-/

namespace RelQuery.Value

/-! ## Integers -/

/-- An integer that fits is kept by the conversion to 64 bits. -/
lemma toInt_ofInt_of_fits {n : Int} (h : fitsInt64 n = true) : (Int64.ofInt n).toInt = n := by
  unfold fitsInt64 at h
  rw [Bool.and_eq_true, decide_eq_true_iff, decide_eq_true_iff] at h
  exact Int64.toInt_ofInt_of_le h.1 h.2

/-- A checked integer is the exact one. -/
lemma checked_eq_ok {cause : Overflow} {n : Int} {value : Value} (h : checked cause n = .ok value) :
    ∃ found, value = .integer found ∧ found.toInt = n := by
  unfold checked at h
  split at h
  · rename_i hfits
    exact ⟨_, (Except.ok.inj h).symm, toInt_ofInt_of_fits hfits⟩
  · simp at h

/-- A checked integer is no real. -/
lemma not_real_of_checked {cause : Overflow} {n : Int} {value : Value}
    (h : checked cause n = .ok value) : value.isReal = false := by
  obtain ⟨found, rfl, -⟩ := checked_eq_ok h
  rfl

/-- Arithmetic on integers gives no real. -/
lemma not_real_of_integerArithmetic {op : ArithmeticOp} {l r : Int64} {value : Value}
    (h : integerArithmetic op l r = .ok value) : value.isReal = false := by
  cases op with
  | add => exact not_real_of_checked h
  | subtract => exact not_real_of_checked h
  | multiply => exact not_real_of_checked h
  | divide =>
    simp only [integerArithmetic] at h
    split at h
    · simp at h
    · exact not_real_of_checked h
  | modulo =>
    simp only [integerArithmetic] at h
    split at h
    · simp at h
    · split at h
      · rw [← Except.ok.inj h]
        rfl
      · simp at h

/-! ## Operators -/

/-- Arithmetic on values that are not real gives no real. -/
lemma not_real_of_arithmetic {op : ArithmeticOp} {l r value : Value} (hl : l.isReal = false)
    (hr : r.isReal = false) (h : arithmetic op l r = .ok value) : value.isReal = false := by
  unfold arithmetic at h
  split at h
  · rw [← Except.ok.inj h]
    rfl
  · rw [← Except.ok.inj h]
    rfl
  · exact not_real_of_integerArithmetic h
  · simp [isReal] at hr
  · simp [isReal] at hl
  · simp [isReal] at hl
  · simp at h

/-- No operator but arithmetic makes a real, and arithmetic makes none of values that are not
real. -/
lemma not_real_of_applyOp {op : BinaryOp} {l r value : Value}
    (operands : ∀ f, op = .arithmetic f → l.isReal = false ∧ r.isReal = false)
    (h : applyOp op l r = .ok value) : value.isReal = false := by
  cases op with
  | arithmetic op =>
    obtain ⟨hl, hr⟩ := operands op rfl
    exact not_real_of_arithmetic hl hr h
  | concat =>
    rw [← Except.ok.inj h]
    unfold concat
    split <;> rfl
  | comparison op =>
    obtain ⟨order?, -, rfl⟩ := Result.map_eq_ok.mp h
    cases order? <;> rfl
  | logical op =>
    simp only [applyOp] at h
    split at h
    · simp at h
    · split at h
      · simp at h
      · rw [← Except.ok.inj h]
        rename_i left _ _ right _
        cases connect op left right <;> rfl
  | is =>
    rw [← Except.ok.inj h]
    rfl
  | isNot =>
    rw [← Except.ok.inj h]
    rfl

/-- The opposite of a value that is not real is not real. -/
lemma not_real_of_negate {value result : Value} (hvalue : value.isReal = false)
    (h : value.negate = .ok result) : result.isReal = false := by
  cases value with
  | null =>
    rw [← Except.ok.inj h]
    rfl
  | integer n => exact not_real_of_checked h
  | real x => simp [isReal] at hvalue
  | text s => simp [negate] at h
  | boolean b =>
    rw [← Except.ok.inj h]
    rfl

/-- A conversion to another type gives no real. -/
lemma not_real_of_convert {value result : Value} {target : ColumnType} (htarget : target ≠ .real)
    (h : value.convert target = .ok result) : result.isReal = false := by
  rcases type?_of_convert h with ⟨-, rfl⟩ | ⟨-, htype⟩
  · rfl
  · cases result with
    | real x => exact absurd (Option.some.inj htype).symm htarget
    | _ => rfl

end RelQuery.Value
