import RelQuery.Proofs.Store.Reachable
import RelQuery.Proofs.Value.KeyOrder

/-!
# Ranks of reals

The values of a column are NULL or of one type.  Among such values only NaNs break the order of
sorting, and only the two zeros are alike without being the same.  A real that is not a NaN is
sorted by its rank, which is an integer, so the other values of a column are ordered and told apart
as values without reals are.
-/

namespace RelQuery

namespace Binary64

/-- The number with the sign of a zero taken away. -/
def unsigned (x : Binary64) : Binary64 :=
  if x.isZero then zero false else x

/-- The word of the number with the sign of a zero taken away. -/
lemma toNat_unsigned (x : Binary64) :
    x.unsigned.bits.toNat = if x.bits.toNat % 0x8000000000000000 = 0 then 0 else x.bits.toNat := by
  unfold unsigned isZero magnitude
  by_cases hzero : x.bits.toNat % 0x8000000000000000 = 0
  · rw [if_pos (by simpa using hzero), if_pos hzero]
    rfl
  · rw [if_neg (by simpa using hzero), if_neg hzero]

/-- Numbers of one rank differ at most in the sign of a zero. -/
lemma rank_eq_iff {x y : Binary64} : x.rank = y.rank ↔ x.unsigned = y.unsigned := by
  have hword : x.unsigned = y.unsigned ↔ x.unsigned.bits.toNat = y.unsigned.bits.toNat := by
    rw [UInt64.toNat_inj]
    exact ⟨fun h => congrArg bits h, fun h => congrArg Binary64.mk h⟩
  have hx := x.bits.toNat_lt
  have hy := y.bits.toNat_lt
  rw [hword, toNat_unsigned, toNat_unsigned]
  simp only [rank, isNegative, magnitude, decide_eq_true_eq]
  split <;> split <;> split <;> split <;> omega

/-- A rank fits a signed 64-bit word. -/
lemma toInt_ofInt_rank (x : Binary64) : (Int64.ofInt x.rank).toInt = x.rank := by
  have hx := x.bits.toNat_lt
  refine Int64.toInt_ofInt_of_le ?_ ?_ <;>
    simp only [rank, isNegative, magnitude, decide_eq_true_eq] <;> split <;> omega

/-- A number keeps its rank without the sign of a zero. -/
lemma rank_unsigned (x : Binary64) : x.unsigned.rank = x.rank := by
  unfold unsigned
  split
  · rename_i hzero
    have hmagnitude : x.magnitude = 0 := by simpa [isZero] using hzero
    have hzeroRank : (zero false).rank = 0 := by decide
    rw [hzeroRank, rank, hmagnitude]
    split <;> rfl
  · rfl

/-- Only a NaN is a NaN without the sign of a zero. -/
lemma isNaN_unsigned (x : Binary64) : x.unsigned.isNaN = x.isNaN := by
  unfold unsigned
  split
  · rename_i hzero
    have hmagnitude : x.magnitude = 0 := by simpa [isZero] using hzero
    have hzeroNaN : (zero false).isNaN = false := by decide
    rw [hzeroNaN, isNaN, hmagnitude]
    rfl
  · rfl

/-- Numbers that are not NaNs are ordered by their ranks. -/
lemma compare?_eq_rank {x y : Binary64} (hx : x.isNaN = false) (hy : y.isNaN = false) :
    x.compare? y = some (compare x.rank y.rank) := by
  rw [compare?, hx, hy]
  rfl

end Binary64

namespace Value

/-! ## Values of one type -/

/-- The value is a NaN. -/
def isNaN : Value → Bool
  | real x => x.isNaN
  | _ => false

/-- The value with the sign of a zero taken away. -/
def unsigned : Value → Value
  | real x => real x.unsigned
  | value => value

/-- The value with its rank in the place of a real. -/
def ranked : Value → Value
  | real x => integer (.ofInt x.rank)
  | value => value

/-- Ranks are not real. -/
@[simp] lemma isReal_ranked (a : Value) : a.ranked.isReal = false := by
  cases a <;> rfl

/-- A value that is not real is its own rank. -/
lemma ranked_eq_self {a : Value} (h : a.isReal = false) : a.ranked = a := by
  cases a <;> first | rfl | exact absurd h Bool.noConfusion

/-- A value that is not real has no sign to take away. -/
lemma unsigned_eq_self {a : Value} (h : a.isReal = false) : a.unsigned = a := by
  cases a <;> first | rfl | exact absurd h Bool.noConfusion

/-- A value that fits a type other than REAL is not real. -/
lemma Fits.isReal_eq_false {value : Value} {type : ColumnType} (h : value.Fits type)
    (hreal : type ≠ .real) : value.isReal = false := by
  cases value with
  | real x => exact absurd (h .real rfl).symm hreal
  | _ => rfl

/-- Beside a real the values of its type are reals and NULL. -/
lemma Fits.beside_real {x : Binary64} {b : Value} {type : ColumnType} (ha : (real x).Fits type)
    (hb : b.Fits type) : b = null ∨ ∃ y, b = real y := by
  obtain rfl : ColumnType.real = type := ha .real rfl
  cases b with
  | null => exact Or.inl rfl
  | real y => exact Or.inr ⟨y, rfl⟩
  | integer n => exact absurd (hb .integer rfl) (by decide)
  | text s => exact absurd (hb .text rfl) (by decide)
  | boolean v => exact absurd (hb .boolean rfl) (by decide)

/-- Two values of one type are both without reals, both reals, or a real and NULL. -/
lemma Fits.cases {a b : Value} {type : ColumnType} (ha : a.Fits type) (hb : b.Fits type) :
    (a.isReal = false ∧ b.isReal = false) ∨ (∃ x y, a = real x ∧ b = real y) ∨
      (∃ x, a = real x ∧ b = null) ∨ ∃ y, a = null ∧ b = real y := by
  by_cases hreal : a.isReal = true
  · obtain ⟨x, rfl⟩ : ∃ x, a = real x := by
      cases a <;> first | exact ⟨_, rfl⟩ | exact absurd hreal Bool.noConfusion
    rcases ha.beside_real hb with rfl | ⟨y, rfl⟩
    · exact Or.inr (Or.inr (Or.inl ⟨x, rfl, rfl⟩))
    · exact Or.inr (Or.inl ⟨x, y, rfl, rfl⟩)
  · rw [Bool.not_eq_true] at hreal
    cases b with
    | real y =>
      rcases hb.beside_real ha with rfl | ⟨x, rfl⟩
      · exact Or.inr (Or.inr (Or.inr ⟨y, rfl, rfl⟩))
      · exact absurd hreal Bool.noConfusion
    | _ => exact Or.inl ⟨hreal, rfl⟩

/-- Two values of one type, or two numbers, can be compared. -/
lemma Fits.exists_compare? {a b : Value} {type type' : ColumnType} (ha : a.Fits type)
    (hb : b.Fits type') (htypes : type = type' ∨ type.isNumeric = true ∧ type'.isNumeric = true) :
    ∃ order, a.compare? b = .ok order := by
  cases a <;> cases b
  -- values of two kinds other than numbers are of two types
  all_goals first
    | exact ⟨_, rfl⟩
    | obtain rfl := ha _ rfl
      obtain rfl := hb _ rfl
      simp [ColumnType.isNumeric] at htypes

/-! ## Order and equality by ranks -/

section Typed

variable {a b : Value} {type : ColumnType}

/-- Values of one type are sorted by their ranks, NaNs apart. -/
theorem sortOrder_eq_ranked (ha : a.Fits type) (hb : b.Fits type) (hnanA : a.isNaN = false)
    (hnanB : b.isNaN = false) : a.sortOrder b = a.ranked.keyOrder b.ranked := by
  rcases ha.cases hb with ⟨hrealA, hrealB⟩ | ⟨x, y, rfl, rfl⟩ | ⟨x, rfl, rfl⟩ | ⟨y, rfl, rfl⟩
  · rw [ranked_eq_self hrealA, ranked_eq_self hrealB, sortOrder_eq_keyOrder hrealA hrealB]
  · have hsort : (real x).sortOrder (real y) = compare x.rank y.rank := by
      simp only [sortOrder, compare?, Binary64.compare?_eq_rank hnanA hnanB]
    have hkey : (real x).ranked.keyOrder (real y).ranked = compare x.rank y.rank := by
      rw [← sortOrder_eq_keyOrder (isReal_ranked _) (isReal_ranked _)]
      simp only [ranked, sortOrder, compare?, Binary64.toInt_ofInt_rank]
    rw [hsort, hkey]
  · rfl
  · rfl

/-- Values of one type are alike when they have the same rank, NaNs apart. -/
theorem alike_iff_ranked (ha : a.Fits type) (hb : b.Fits type) (hnanA : a.isNaN = false)
    (hnanB : b.isNaN = false) : a.alike b = true ↔ a.ranked = b.ranked := by
  rcases ha.cases hb with ⟨hrealA, hrealB⟩ | ⟨x, y, rfl, rfl⟩ | ⟨x, rfl, rfl⟩ | ⟨y, rfl, rfl⟩
  · rw [ranked_eq_self hrealA, ranked_eq_self hrealB, alike_iff hrealA hrealB]
  · have halike : (real x).alike (real y) = (compare x.rank y.rank == .eq) := by
      simp only [alike, equal, ordered, compare?, Binary64.compare?_eq_rank hnanA hnanB]
    rw [halike, beq_iff_eq, Std.LawfulEqOrd.compare_eq_iff_eq]
    simp only [ranked, integer.injEq]
    rw [← Int64.toInt_inj, Binary64.toInt_ofInt_rank, Binary64.toInt_ofInt_rank]
  · simp [alike, equal, ordered, compare?, ranked]
  · simp [alike, equal, ordered, compare?, ranked]

/-- Values of one type have the same rank when they differ at most in the sign of a zero. -/
lemma ranked_eq_iff_unsigned (ha : a.Fits type) (hb : b.Fits type) :
    a.ranked = b.ranked ↔ a.unsigned = b.unsigned := by
  rcases ha.cases hb with ⟨hrealA, hrealB⟩ | ⟨x, y, rfl, rfl⟩ | ⟨x, rfl, rfl⟩ | ⟨y, rfl, rfl⟩
  · rw [ranked_eq_self hrealA, ranked_eq_self hrealB, unsigned_eq_self hrealA,
      unsigned_eq_self hrealB]
  · simp only [ranked, unsigned, integer.injEq, real.injEq]
    rw [← Int64.toInt_inj, Binary64.toInt_ofInt_rank, Binary64.toInt_ofInt_rank,
      Binary64.rank_eq_iff]
  · simp [ranked, unsigned]
  · simp [ranked, unsigned]

/-- What is alike to something is no NaN. -/
lemma isNaN_eq_false_of_alike (h : a.alike b = true) : a.isNaN = false := by
  cases a with
  | real x =>
    by_contra hnan
    have hx : x.isNaN = true := by simpa [isNaN] using hnan
    cases b <;> simp [alike, equal, ordered, compare?, Binary64.compare?, hx] at h
  | _ => rfl

end Typed

/-! ## Signs of zeros -/

/-- A comparison does not see the sign of a zero. -/
lemma compare?_unsigned (a b : Value) : a.unsigned.compare? b.unsigned = a.compare? b := by
  have numbers (x y : Binary64) : x.unsigned.compare? y = x.compare? y ∧
      x.compare? y.unsigned = x.compare? y := by
    rw [Binary64.compare?, Binary64.compare?, Binary64.compare?, Binary64.isNaN_unsigned,
      Binary64.isNaN_unsigned, Binary64.rank_unsigned, Binary64.rank_unsigned]
    exact ⟨rfl, rfl⟩
  cases a <;> cases b <;>
    simp only [unsigned, compare?, type?, (numbers _ _).1, (numbers _ _).2]

/-- Sorting does not see the sign of a zero. -/
lemma sortOrder_unsigned (a b : Value) : a.unsigned.sortOrder b.unsigned = a.sortOrder b := by
  have h := compare?_unsigned a b
  cases a <;> cases b <;> first | rfl | simp only [sortOrder, unsigned, kindOrder, h] at h ⊢

/-- Grouping does not see the sign of a zero. -/
lemma alike_unsigned (a b : Value) : a.unsigned.alike b.unsigned = a.alike b := by
  have h := compare?_unsigned a b
  cases a <;> cases b <;> first | rfl | simp only [alike, equal, ordered, unsigned, h] at h ⊢

/-- Values are the same when they are no NaNs and differ at most in the sign of a zero. -/
lemma same_iff {a b : Value} :
    a.same b = true ↔ a.isNaN = false ∧ a.unsigned = b.unsigned := by
  have numbers (x y : Binary64) : x.compare? y = some .eq ↔
      x.isNaN = false ∧ x.unsigned = y.unsigned := by
    rw [Binary64.compare?, ← Binary64.rank_eq_iff]
    constructor
    · intro h
      split at h
      · contradiction
      · rename_i hnan
        simp only [Bool.or_eq_true, not_or, Bool.not_eq_true] at hnan
        exact ⟨hnan.1, Std.LawfulEqOrd.compare_eq_iff_eq.mp (Option.some.inj h)⟩
    · rintro ⟨hnan, hrank⟩
      have hother : y.isNaN = false := by
        rw [← Binary64.isNaN_unsigned, ← Binary64.rank_eq_iff.mp hrank, Binary64.isNaN_unsigned,
          hnan]
      rw [hnan, hother, hrank]
      simp
  cases a <;> cases b <;> simp [same, isNaN, unsigned, numbers]

/-- Being the same does not depend on the order of the values. -/
lemma same_comm {a b : Value} (h : a.same b = true) : b.same a = true := by
  obtain ⟨hnan, hunsigned⟩ := same_iff.mp h
  refine same_iff.mpr ⟨?_, hunsigned.symm⟩
  have hkept (c : Value) : c.unsigned.isNaN = c.isNaN := by
    cases c <;> first | rfl | exact Binary64.isNaN_unsigned _
  rw [← hkept, ← hunsigned, hkept, hnan]

/-- What is the same as a third value is the same. -/
lemma same_trans {a b c : Value} (hab : a.same b = true) (hbc : b.same c = true) :
    a.same c = true := by
  rw [same_iff] at hab hbc ⊢
  exact ⟨hab.1, hab.2.trans hbc.2⟩

end Value

end RelQuery
