import Mathlib
import RelQuery.Proofs.Value.Operations

/-!
# Arithmetic on integers

An operation on two integers has an exact result of any size, except that nothing is divided by
zero.  The operation gives this result where a 64-bit integer has its value and overflows where none
has, with one exception: a remainder is refused together with its quotient, so the least integer
modulo minus one overflows although its remainder is zero.
-/

namespace RelQuery.Value

/-! ## Exact results -/

/-- The quotient is cut off toward zero and the remainder is what is left: it is smaller than the
divisor and has the sign of the dividend. -/
structure IsDivision (dividend divisor quotient remainder : Int) : Prop where
  whole : dividend = quotient * divisor + remainder
  smaller : |remainder| < |divisor|
  nonneg : 0 ≤ dividend → 0 ≤ remainder
  nonpos : dividend ≤ 0 → remainder ≤ 0

/-- The integer is the exact result of the operation, whatever its size. -/
inductive IsExact (l r : Int) : ArithmeticOp → Int → Prop
  | add : IsExact l r .add (l + r)
  | subtract : IsExact l r .subtract (l - r)
  | multiply : IsExact l r .multiply (l * r)
  | divide {quotient remainder : Int} (h : IsDivision l r quotient remainder) :
    IsExact l r .divide quotient
  | modulo {quotient remainder : Int} (h : IsDivision l r quotient remainder) :
    IsExact l r .modulo remainder

variable {l r n : Int}

/-- A divisor is not zero, and there is one quotient with one remainder. -/
lemma isDivision_iff {quotient remainder : Int} :
    IsDivision l r quotient remainder ↔
      r ≠ 0 ∧ l.tdiv r = quotient ∧ l.tmod r = remainder := by
  constructor
  · rintro ⟨whole, smaller, nonneg, nonpos⟩
    have hr : r ≠ 0 := by
      rintro rfl
      exact absurd smaller (by simp)
    have hwhole : remainder + r * quotient = l := by rw [whole]; ring
    rw [Int.abs_eq_natAbs, Int.abs_eq_natAbs] at smaller
    refine ⟨hr, ?_⟩
    rcases le_total 0 l with hl | hl
    · exact (Int.tdiv_tmod_unique hl hr).mpr ⟨hwhole, nonneg hl, by have := nonneg hl; omega⟩
    · exact (Int.tdiv_tmod_unique' hl hr).mpr ⟨hwhole, by have := nonpos hl; omega, nonpos hl⟩
  · rintro ⟨hr, rfl, rfl⟩
    refine ⟨by rw [mul_comm, Int.mul_tdiv_add_tmod], ?_, Int.tmod_nonneg r, fun hl => ?_⟩
    · rw [Int.abs_eq_natAbs, Int.abs_eq_natAbs, Int.natAbs_tmod, Int.ofNat_lt]
      exact Nat.mod_lt _ (Int.natAbs_pos.mpr hr)
    · exact ((Int.tdiv_tmod_unique' hl hr).mp ⟨rfl, rfl⟩).2.2

/-- A quotient is exact when it is the one cut off toward zero. -/
lemma isExact_divide_iff : IsExact l r .divide n ↔ r ≠ 0 ∧ l.tdiv r = n := by
  constructor
  · rintro ⟨⟩
    rename_i remainder h
    exact ⟨(isDivision_iff.mp h).1, (isDivision_iff.mp h).2.1⟩
  · rintro ⟨hr, rfl⟩
    exact .divide (isDivision_iff.mpr ⟨hr, rfl, rfl⟩)

/-- A remainder is exact when it is that of the quotient cut off toward zero. -/
lemma isExact_modulo_iff : IsExact l r .modulo n ↔ r ≠ 0 ∧ l.tmod r = n := by
  constructor
  · rintro ⟨⟩
    rename_i quotient h
    exact ⟨(isDivision_iff.mp h).1, (isDivision_iff.mp h).2.2⟩
  · rintro ⟨hr, rfl⟩
    exact .modulo (isDivision_iff.mpr ⟨hr, rfl, rfl⟩)

/-- Every operation has at most one exact result. -/
lemma IsExact.unique {op : ArithmeticOp} {m : Int} (hm : IsExact l r op m) (hn : IsExact l r op n) :
    m = n := by
  cases op with
  | add => cases hm; cases hn; rfl
  | subtract => cases hm; cases hn; rfl
  | multiply => cases hm; cases hn; rfl
  | divide => exact (isExact_divide_iff.mp hm).2.symm.trans (isExact_divide_iff.mp hn).2
  | modulo => exact (isExact_modulo_iff.mp hm).2.symm.trans (isExact_modulo_iff.mp hn).2

/-! ## Results that fit -/

/-- An integer fits when a word has its value. -/
lemma fitsInt64_iff : fitsInt64 n = true ↔ ∃ word : Int64, word.toInt = n := by
  constructor
  · exact fun h => ⟨_, toInt_ofInt_of_fits h⟩
  · rintro ⟨word, rfl⟩
    have hlow := word.le_toInt
    have hhigh := word.toInt_lt
    simp only [fitsInt64, Bool.and_eq_true, decide_eq_true_eq]
    omega

/-- A checked integer is the word that has its value. -/
lemma checked_eq_ok_iff {cause : Overflow} {value : Value} :
    checked cause n = .ok value ↔ ∃ word, value = integer word ∧ word.toInt = n := by
  refine ⟨checked_eq_ok, ?_⟩
  rintro ⟨word, rfl, rfl⟩
  rw [checked, if_pos (fitsInt64_iff.mpr ⟨word, rfl⟩), Int64.ofInt_toInt]

/-- A checked integer overflows when no word has its value. -/
lemma checked_eq_error_iff {cause : Overflow} {error : Error} :
    checked cause n = .error error ↔ error = .overflow cause ∧ ∀ word : Int64, word.toInt ≠ n := by
  by_cases hfits : fitsInt64 n = true
  · rw [checked, if_pos hfits]
    obtain ⟨word, hword⟩ := fitsInt64_iff.mp hfits
    simp only [reduceCtorEq, false_iff, not_and, not_forall, not_not]
    exact fun _ => ⟨word, hword⟩
  · rw [checked, if_neg hfits, Except.error.injEq, eq_comm, iff_self_and]
    exact fun _ word hword => hfits (fitsInt64_iff.mpr ⟨word, hword⟩)

/-- The one pair of operands whose remainder is refused although it is zero. -/
def RemainderRefused (op : ArithmeticOp) (l r : Int64) : Prop :=
  op = .modulo ∧ l = Int64.minValue ∧ r = -1

/-- Only the quotient of the least integer by minus one does not fit. -/
lemma fitsInt64_tdiv_iff {l r : Int64} :
    fitsInt64 (l.toInt.tdiv r.toInt) = true ↔ ¬RemainderRefused .modulo l r := by
  have hlow := l.le_toInt
  have hhigh := l.toInt_lt
  have hleast : l = Int64.minValue ↔ l.toInt = -0x8000000000000000 := Int64.toInt_inj.symm
  have hminus : r = -1 ↔ r.toInt = -1 := Int64.toInt_inj.symm
  simp only [RemainderRefused, true_and, hleast, hminus, fitsInt64, Bool.and_eq_true,
    decide_eq_true_eq]
  by_cases hsmall : r.toInt.natAbs < 2
  · -- the quotient is zero, the dividend or its opposite
    obtain hr | hr | hr : r.toInt = 0 ∨ r.toInt = 1 ∨ r.toInt = -1 := by omega
    · rw [hr, Int.tdiv_zero]
      omega
    · rw [hr, Int.tdiv_one]
      omega
    · rw [hr, Int.tdiv_neg, Int.tdiv_one]
      omega
  · have hhalf : (l.toInt.tdiv r.toInt).natAbs ≤ l.toInt.natAbs / 2 := by
      rw [Int.natAbs_tdiv]
      exact Nat.div_le_div_left (by omega) (by decide)
    omega

/-- A remainder always fits, as it is no larger than the dividend and has its sign. -/
lemma fitsInt64_tmod {l r : Int64} : fitsInt64 (l.toInt.tmod r.toInt) = true := by
  have hlow := l.le_toInt
  have hhigh := l.toInt_lt
  have hsize : (l.toInt.tmod r.toInt).natAbs ≤ l.toInt.natAbs := by
    rw [Int.natAbs_tmod]
    exact Nat.mod_le _ _
  have hsign : l.toInt ≤ 0 → l.toInt.tmod r.toInt ≤ 0 := fun hl => by
    have := Int.tmod_nonneg r.toInt (Int.neg_nonneg_of_nonpos hl)
    rw [Int.neg_tmod] at this
    omega
  simp only [fitsInt64, Bool.and_eq_true, decide_eq_true_eq]
  omega

/-! ## Operations -/

variable {op : ArithmeticOp} {l r : Int64}

/-- Only division by zero has no exact result. -/
lemma exists_isExact_iff :
    (∃ n, IsExact l.toInt r.toInt op n) ↔ ¬((op = .divide ∨ op = .modulo) ∧ r = 0) := by
  have hzero : r.toInt ≠ 0 ↔ r ≠ 0 := not_congr (Int64.toInt_inj (y := 0))
  cases op with
  | add => simpa using ⟨_, IsExact.add⟩
  | subtract => simpa using ⟨_, IsExact.subtract⟩
  | multiply => simpa using ⟨_, IsExact.multiply⟩
  | divide => simp [isExact_divide_iff, hzero]
  | modulo => simp [isExact_modulo_iff, hzero]

/-- An operation with an exact result that is not refused checks that the result fits. -/
lemma applyOp_eq_checked {n : Int} (h : IsExact l.toInt r.toInt op n)
    (hrefused : ¬RemainderRefused op l r) :
    applyOp (.arithmetic op) (integer l) (integer r) = checked (.operation l op r) n := by
  have hzero (hr : r.toInt ≠ 0) : r ≠ 0 := fun heq => hr (congrArg Int64.toInt heq)
  cases op with
  | add => cases h; rfl
  | subtract => cases h; rfl
  | multiply => cases h; rfl
  | divide =>
    obtain ⟨hr, rfl⟩ := isExact_divide_iff.mp h
    simp only [applyOp, arithmetic, integerArithmetic, if_neg (hzero hr)]
  | modulo =>
    obtain ⟨hr, rfl⟩ := isExact_modulo_iff.mp h
    simp only [applyOp, arithmetic, integerArithmetic, if_neg (hzero hr),
      if_pos (fitsInt64_tdiv_iff.mpr hrefused), checked, if_pos fitsInt64_tmod]

/-- The refused remainder overflows. -/
lemma applyOp_of_refused (h : RemainderRefused op l r) :
    applyOp (.arithmetic op) (integer l) (integer r) = .error (.overflow (.operation l op r)) := by
  obtain ⟨rfl, rfl, rfl⟩ := h
  rfl

/-- Division by zero is an error for quotients and remainders. -/
lemma applyOp_of_zero (hop : op = .divide ∨ op = .modulo) :
    applyOp (.arithmetic op) (integer l) (integer 0) = .error .divisionByZero := by
  rcases hop with rfl | rfl <;> rfl

/-- On two integers an operation gives the 64-bit integer that is its exact result, and no other
value.  It fails with a division by zero when the divisor of a quotient or remainder is zero, and
with an overflow when no 64-bit integer has the exact result, or where the remainder is refused. -/
theorem applyOp_integers (op : ArithmeticOp) (l r : Int64) :
    (∀ value, applyOp (.arithmetic op) (integer l) (integer r) = .ok value ↔
      ¬RemainderRefused op l r ∧
        ∃ n, value = integer n ∧ IsExact l.toInt r.toInt op n.toInt) ∧
    ∀ error, applyOp (.arithmetic op) (integer l) (integer r) = .error error ↔
      (error = .divisionByZero ∧ (op = .divide ∨ op = .modulo) ∧ r = 0) ∨
      (error = .overflow (.operation l op r) ∧ (RemainderRefused op l r ∨
        ∃ n, IsExact l.toInt r.toInt op n ∧ ∀ word : Int64, word.toInt ≠ n)) := by
  by_cases hzero : (op = .divide ∨ op = .modulo) ∧ r = 0
  · have nothing (n : Int) : ¬IsExact l.toInt r.toInt op n :=
      fun h => exists_isExact_iff.mp ⟨n, h⟩ hzero
    have taken : ¬RemainderRefused op l r := by
      rintro ⟨-, -, hr⟩
      exact absurd (hzero.2.symm.trans hr) (by decide)
    have ran : applyOp (.arithmetic op) (integer l) (integer r) = .error .divisionByZero :=
      hzero.2 ▸ applyOp_of_zero hzero.1
    simp only [ran, nothing, taken, Except.error.injEq, reduceCtorEq, and_false, false_and,
      exists_false, or_false, not_false_eq_true, implies_true, true_and]
    exact fun error => ⟨fun h => ⟨h.symm, hzero⟩, fun h => h.1.symm⟩
  · obtain ⟨n, hn⟩ := exists_isExact_iff.mpr hzero
    by_cases hrefused : RemainderRefused op l r
    · simp [applyOp_of_refused hrefused, hrefused, hzero, eq_comm]
    · have only (m : Int) : IsExact l.toInt r.toInt op m ↔ m = n :=
        ⟨fun hm => hm.unique hn, fun hm => hm ▸ hn⟩
      simp [applyOp_eq_checked hn hrefused, checked_eq_ok_iff, checked_eq_error_iff, hrefused,
        hzero, only]

/-- Not every exact result that fits is returned: the least integer modulo minus one overflows, and
its remainder is zero. -/
theorem not_forall_applyOp_integers :
    ¬∀ (op : ArithmeticOp) (l r n : Int64), IsExact l.toInt r.toInt op n.toInt →
      applyOp (.arithmetic op) (integer l) (integer r) = .ok (integer n) := by
  intro h
  have remainder : IsExact Int64.minValue.toInt (-1 : Int64).toInt .modulo (0 : Int64).toInt :=
    isExact_modulo_iff.mpr (by decide)
  exact absurd (h .modulo Int64.minValue (-1) 0 remainder) (by decide)

end RelQuery.Value
