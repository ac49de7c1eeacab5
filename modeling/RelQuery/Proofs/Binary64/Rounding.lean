import Mathlib
import RelQuery.Binary64.Rounding

/-!
# Rounding keeps the order of integers

A quotient of two integers is rounded to the nearest one, which keeps the order for a fixed
denominator.  Where the exponent grows, the magnitude of the rounded number goes to the next binade,
and so the double nearest to an integer grows with the integer.
-/

namespace RelQuery.Binary64

/-! ## Rounding to an integer -/

/-- The rounded quotient is one of the two integers around the quotient. -/
lemma nearestEven_cases (num den : Nat) :
    nearestEven num den = num / den ∨ nearestEven num den = num / den + 1 := by
  unfold nearestEven
  dsimp only
  split
  · exact .inl rfl
  · exact .inr rfl

/-- Rounding a quotient keeps the order of the numerators. -/
lemma nearestEven_mono {m n : Nat} (den : Nat) (h : m ≤ n) :
    nearestEven m den ≤ nearestEven n den := by
  have hquotient : m / den ≤ n / den := Nat.div_le_div_right h
  rcases Nat.lt_or_eq_of_le hquotient with hlt | heq
  · rcases nearestEven_cases m den with hm | hm <;> rcases nearestEven_cases n den with hn | hn <;>
      omega
  · -- with one quotient the remainders are in order
    have hremainder : m % den ≤ n % den := by
      have hm := Nat.div_add_mod m den
      have hn := Nat.div_add_mod n den
      rw [heq] at hm
      omega
    unfold nearestEven
    simp only [heq, Bool.or_eq_true, Bool.and_eq_true, decide_eq_true_eq, beq_iff_eq]
    split <;> split <;> omega

/-! ## Rounding to a double -/

/-- A number is below the power of two after the significand of its exponent. -/
lemma lt_of_exponentFor (n : Nat) : n < 2 ^ (exponentFor n + 53) := by
  have hexponent : Nat.log2 n + 1 ≤ exponentFor n + 53 := by
    unfold exponentFor
    omega
  exact Nat.lt_of_lt_of_le Nat.lt_log2_self (Nat.pow_le_pow_right (by decide) hexponent)

/-- A number whose exponent is not the least has a significand of full length. -/
lemma le_of_exponentFor {n : Nat} (h : 0 < exponentFor n) : 2 ^ (exponentFor n + 52) ≤ n := by
  have hexponent : exponentFor n + 52 = Nat.log2 n := by
    unfold exponentFor at h ⊢
    omega
  rw [hexponent]
  exact Nat.log2_self_le fun hzero => by simp [exponentFor, hzero] at h

/-- The exponent grows with the number. -/
lemma exponentFor_mono {m n : Nat} (h : m ≤ n) : exponentFor m ≤ exponentFor n := by
  refine Nat.le_of_not_lt fun hless => ?_
  have hlow : 2 ^ (exponentFor m + 52) ≤ m := le_of_exponentFor (by omega)
  have hhigh : n < 2 ^ (exponentFor n + 53) := lt_of_exponentFor n
  have hpowers : 2 ^ (exponentFor n + 53) ≤ 2 ^ (exponentFor m + 52) :=
    Nat.pow_le_pow_right (by decide) (by omega)
  omega

/-- The rounded significand is at most the next power of two. -/
lemma nearestEven_le (n : Nat) : nearestEven n (2 ^ exponentFor n) ≤ 2 * binade := by
  have hquotient : n / 2 ^ exponentFor n < 2 ^ 53 := by
    rw [Nat.div_lt_iff_lt_mul (Nat.two_pow_pos _), ← Nat.pow_add, Nat.add_comm]
    exact lt_of_exponentFor n
  have hbinade : 2 * binade = 2 ^ 53 := rfl
  rcases nearestEven_cases n (2 ^ exponentFor n) with h | h <;> omega

/-- The rounded significand has full length if the exponent is not the least. -/
lemma le_nearestEven {n : Nat} (h : 0 < exponentFor n) :
    binade ≤ nearestEven n (2 ^ exponentFor n) := by
  have hquotient : 2 ^ 52 ≤ n / 2 ^ exponentFor n := by
    rw [Nat.le_div_iff_mul_le (Nat.two_pow_pos _), ← Nat.pow_add, Nat.add_comm]
    exact le_of_exponentFor h
  have hbinade : binade = 2 ^ 52 := rfl
  rcases nearestEven_cases n (2 ^ exponentFor n) with h | h <;> omega

/-- The magnitude of the rounded number grows with the number. -/
lemma roundedMagnitude_mono {m n : Nat} (h : m ≤ n) :
    roundedMagnitude m 1 ≤ roundedMagnitude n 1 := by
  have hexponent := exponentFor_mono h
  have hmagnitude : exponentFor m * binade + nearestEven m (2 ^ exponentFor m) ≤
      exponentFor n * binade + nearestEven n (2 ^ exponentFor n) := by
    rcases Nat.lt_or_eq_of_le hexponent with hlt | heq
    · -- the larger number starts a binade at which the smaller one has ended
      have hsmall := nearestEven_le m
      have hlarge := le_nearestEven (n := n) (by omega)
      have hbinades : (exponentFor m + 1) * binade ≤ exponentFor n * binade :=
        Nat.mul_le_mul_right _ hlt
      rw [Nat.succ_mul] at hbinades
      omega
    · rw [heq]
      exact Nat.add_le_add_left (nearestEven_mono _ h) _
  unfold roundedMagnitude
  simp only [Nat.div_one, Nat.one_mul]
  exact Nat.le_min.mpr ⟨Nat.le_trans (Nat.min_le_left _ _) hmagnitude, Nat.min_le_right _ _⟩

/-! ## Doubles of integers -/

/-- A rounded magnitude is no more than that of an infinity. -/
lemma roundedMagnitude_le (num den : Nat) : roundedMagnitude num den ≤ infiniteMagnitude :=
  Nat.min_le_right _ _

/-- The fields of the number with a magnitude up to that of an infinity. -/
lemma fields_ofMagnitude {size : Nat} (h : size ≤ infiniteMagnitude) (negative : Bool) :
    (ofMagnitude negative size).isNegative = negative ∧
      (ofMagnitude negative size).magnitude = size := by
  have hsize : size ≤ 0x7FF0000000000000 := h
  have hword : (ofMagnitude negative size).bits.toNat =
      if negative then 0x8000000000000000 + size else size := by
    rw [ofMagnitude, UInt64.toNat_ofNat']
    cases negative <;> simp only [Bool.false_eq_true, if_false, if_true] <;> omega
  unfold isNegative magnitude
  rw [hword]
  cases negative <;> simp only [Bool.false_eq_true, if_false, if_true, decide_eq_true_eq,
    decide_eq_false_iff_not] <;> omega

/-- The double nearest to an integer is a number. -/
lemma isNaN_ofInt (n : Int) : (ofInt n).isNaN = false := by
  have hle := roundedMagnitude_le (n.natAbs * unitsPerOne) 1
  rw [isNaN, ofInt, ofQuotient, (fields_ofMagnitude hle _).2]
  simpa using hle

/-- The rank of the double nearest to an integer. -/
lemma rank_ofInt (n : Int) : (ofInt n).rank =
    if n < 0 then -(roundedMagnitude (n.natAbs * unitsPerOne) 1 : Int)
    else roundedMagnitude (n.natAbs * unitsPerOne) 1 := by
  obtain ⟨hnegative, hmagnitude⟩ :=
    fields_ofMagnitude (roundedMagnitude_le (n.natAbs * unitsPerOne) 1) (n < 0)
  rw [ofInt, ofQuotient, rank, hnegative, hmagnitude]
  simp only [decide_eq_true_eq]

/-- The double nearest to an integer grows with the integer. -/
theorem rank_ofInt_mono {m n : Int} (h : m ≤ n) : (ofInt m).rank ≤ (ofInt n).rank := by
  have hmagnitude {a b : Int} (hab : a.natAbs ≤ b.natAbs) :
      roundedMagnitude (a.natAbs * unitsPerOne) 1 ≤ roundedMagnitude (b.natAbs * unitsPerOne) 1 :=
    roundedMagnitude_mono (Nat.mul_le_mul_right _ hab)
  rw [rank_ofInt, rank_ofInt]
  split <;> split
  · have := hmagnitude (show n.natAbs ≤ m.natAbs by omega)
    omega
  · omega
  · omega
  · have := hmagnitude (show m.natAbs ≤ n.natAbs by omega)
    omega

end RelQuery.Binary64
