import RelQuery.Proofs.Value.Numbers

/-!
# How far sorting is a total order

Values of different kinds are sorted by their kinds, and so are values that cannot be compared.
Exchanging two values always turns their order around.  Two things keep the order from being total,
and both happen among numbers only.  A NaN ties with every number without being alike to it.  And a
real ties with all integers that round to it, while these are in order among themselves.  Numbers
that are in the wrong order then stand on both sides of the real, which is in order with each.
-/

namespace RelQuery.Value

variable {a b c : Value}

/-- The value is an integer or a real. -/
def isNumber : Value → Bool
  | integer _ | real _ => true
  | _ => false

/-! ## Kinds -/

/-- Where a comparison finds no order, values are sorted by their kinds. -/
lemma sortOrder_of_not_compared (h : ∀ order, a.compare? b ≠ .ok (some order)) :
    a.sortOrder b = compare a.kindOrder b.kindOrder := by
  have hnone (order : Ordering) : ¬a.compare? b = .ok (some order) := h order
  -- the equation of the last case asks for `hnone`
  cases a <;> cases b <;> first | rfl | simp only [sortOrder]

/-- Values that can be compared are of one kind. -/
lemma kindOrder_eq_of_compare? {order : Ordering} (h : a.compare? b = .ok (some order)) :
    a.kindOrder = b.kindOrder := by
  cases a <;> cases b <;> first | rfl | simp [compare?] at h

/-- Values of different kinds are sorted by their kinds. -/
lemma sortOrder_of_kindOrder_ne (h : a.kindOrder ≠ b.kindOrder) :
    a.sortOrder b = compare a.kindOrder b.kindOrder := by
  apply sortOrder_of_not_compared
  intro order horder
  exact h (kindOrder_eq_of_compare? horder)

/-- What need not come after another value is of no later kind. -/
lemma kindOrder_le_of_sortOrder (h : a.sortOrder b ≠ .gt) : a.kindOrder ≤ b.kindOrder := by
  by_contra hlt
  apply h
  rw [sortOrder_of_kindOrder_ne (by omega), Nat.compare_eq_gt]
  omega

/-- Exchanging two values turns their order around. -/
lemma sortOrder_swap (a b : Value) : b.sortOrder a = (a.sortOrder b).swap := by
  by_cases h : ∃ order, a.compare? b = .ok (some order)
  · obtain ⟨order, horder⟩ := h
    rw [sortOrder_of_compare? horder, sortOrder_of_compare? (compare?_swap horder)]
  · have hback : ∀ order, b.compare? a ≠ .ok (some order) := by
      intro order horder
      exact h ⟨_, compare?_swap horder⟩
    push Not at h
    rw [sortOrder_of_not_compared h, sortOrder_of_not_compared hback]
    exact Std.OrientedCmp.eq_swap

/-! ## Numbers -/

/-- The numbers are a kind of their own. -/
lemma isNumber_iff : a.isNumber = true ↔ a.kindOrder = 1 := by
  cases a <;> simp [isNumber, kindOrder]

/-- Only a number is a NaN. -/
lemma isNumber_of_isNaN (h : a.isNaN = true) : a.isNumber = true := by
  cases a <;> first | rfl | exact absurd h Bool.noConfusion

/-- A number that is no NaN is one of its type. -/
lemma exists_numberOf (h : a.isNumber = true) (hnan : a.isNaN = false) :
    ∃ type, NumberOf type a := by
  cases a with
  | integer n => exact ⟨_, .integer n⟩
  | real x => exact ⟨_, .real hnan⟩
  | _ => exact absurd h Bool.noConfusion

/-- Nothing is compared with a NaN. -/
lemma not_compared_of_isNaN (h : a.isNaN = true ∨ b.isNaN = true) (order : Ordering) :
    a.compare? b ≠ .ok (some order) := by
  have hleft (x y : Binary64) (hx : x.isNaN = true) : x.compare? y = none := by
    simp [Binary64.compare?, hx]
  have hright (x y : Binary64) (hy : y.isNaN = true) : x.compare? y = none := by
    simp [Binary64.compare?, hy]
  rcases h with h | h
  · cases a with
    | real x => cases b <;> simp [compare?, hleft x _ h]
    | _ => exact absurd h Bool.noConfusion
  · cases b with
    | real y => cases a <;> simp [compare?, hright _ y h]
    | _ => exact absurd h Bool.noConfusion

/-- Numbers tie if one of them is a NaN. -/
lemma sortOrder_of_isNaN (ha : a.isNumber = true) (hb : b.isNumber = true)
    (h : a.isNaN = true ∨ b.isNaN = true) : a.sortOrder b = .eq := by
  rw [sortOrder_of_not_compared (not_compared_of_isNaN h), isNumber_iff.mp ha, isNumber_iff.mp hb]
  rfl

/-- Numbers of which none is of type REAL are integers. -/
lemma NumberOf.exists_integers {type type' : ColumnType} (ha : NumberOf type a)
    (hb : NumberOf type' b) (h : ¬(type = .real ∨ type' = .real)) :
    ∃ m n : Int64, a = Value.integer m ∧ b = Value.integer n := by
  cases ha with
  | real hx => exact absurd (Or.inl rfl) h
  | integer m =>
    cases hb with
    | real hy => exact absurd (Or.inr rfl) h
    | integer n => exact ⟨m, n, rfl, rfl⟩

/-- Numbers that are no NaNs can be compared. -/
lemma exists_order_of_numbers (ha : a.isNumber = true) (hb : b.isNumber = true)
    (hnanA : a.isNaN = false) (hnanB : b.isNaN = false) :
    ∃ order, a.compare? b = .ok (some order) := by
  obtain ⟨type, hA⟩ := exists_numberOf ha hnanA
  obtain ⟨type', hB⟩ := exists_numberOf hb hnanB
  by_cases hreal : type = .real ∨ type' = .real
  · exact ⟨_, compare?_realRank hA hB hreal⟩
  · obtain ⟨m, n, rfl, rfl⟩ := hA.exists_integers hB hreal
    exact ⟨_, rfl⟩

/-- Values of one kind that cannot be compared are both NULL, or numbers of which one is a NaN. -/
lemma of_not_compared (hkind : a.kindOrder = b.kindOrder)
    (h : ∀ order, a.compare? b ≠ .ok (some order)) :
    (a = null ∧ b = null) ∨
      (a.isNumber = true ∧ b.isNumber = true ∧ (a.isNaN = true ∨ b.isNaN = true)) := by
  by_cases ha : a.isNumber = true
  · right
    have hb : b.isNumber = true := by
      rw [isNumber_iff] at ha ⊢
      rw [← hkind, ha]
    refine ⟨ha, hb, ?_⟩
    by_contra hnan
    simp only [not_or, Bool.not_eq_true] at hnan
    obtain ⟨order, horder⟩ := exists_order_of_numbers ha hb hnan.1 hnan.2
    exact h order horder
  · left
    cases a <;> cases b <;> simp [kindOrder, isNumber] at hkind ha ⊢
    · exact h _ rfl
    · exact h _ rfl

/-- In order of sorting, the doubles of two numbers are in order. -/
lemma realRank_le_of_sortOrder {type type' : ColumnType} (ha : NumberOf type a)
    (hb : NumberOf type' b) (h : a.sortOrder b ≠ .gt) : a.realRank ≤ b.realRank := by
  by_cases hreal : type = .real ∨ type' = .real
  · rw [sortOrder_of_compare? (compare?_realRank ha hb hreal)] at h
    exact Std.isLE_compare.mp (Ordering.isLE_iff_ne_gt.mpr h)
  · obtain ⟨m, n, rfl, rfl⟩ := ha.exists_integers hb hreal
    apply Binary64.rank_ofInt_mono
    exact Std.isLE_compare.mp (Ordering.isLE_iff_ne_gt.mpr h)

/-- Numbers of which one is of type REAL are equal when their doubles are. -/
lemma equal_of_realRank_eq {type type' : ColumnType} (ha : NumberOf type a) (hb : NumberOf type' b)
    (hreal : type = .real ∨ type' = .real) (h : a.realRank = b.realRank) : a.equal b = true := by
  rw [equal_eq_true, compare?_realRank ha hb hreal, Std.LawfulEqOrd.compare_eq_iff_eq.mpr h]

/-! ## Ties -/

/-- Values are alike when they are equal or both NULL. -/
lemma alike_iff_equal : a.alike b = true ↔ a.equal b = true ∨ (a = null ∧ b = null) := by
  cases a <;> cases b <;> simp [alike]

/-- Equal values tie. -/
lemma sortOrder_of_equal (h : a.equal b = true) : a.sortOrder b = .eq :=
  sortOrder_of_compare? (equal_eq_true.mp h)

/-- Values tie when they are alike, or when they are numbers of which one is a NaN. -/
lemma sortOrder_eq_iff : a.sortOrder b = .eq ↔ a.alike b = true ∨
    (a.isNumber = true ∧ b.isNumber = true ∧ (a.isNaN = true ∨ b.isNaN = true)) := by
  rw [alike_iff_equal]
  constructor
  · intro htie
    by_cases h : ∃ order, a.compare? b = .ok (some order)
    · obtain ⟨order, horder⟩ := h
      rw [sortOrder_of_compare? horder] at htie
      left
      left
      rw [equal_eq_true, horder, htie]
    · push Not at h
      have hkind : a.kindOrder = b.kindOrder := by
        rw [sortOrder_of_not_compared h] at htie
        exact Nat.compare_eq_eq.mp htie
      rcases of_not_compared hkind h with hnull | hnan
      · exact Or.inl (Or.inr hnull)
      · exact Or.inr hnan
  · rintro ((hequal | ⟨rfl, rfl⟩) | ⟨ha, hb, hnan⟩)
    · exact sortOrder_of_equal hequal
    · rfl
    · exact sortOrder_of_isNaN ha hb hnan

/-! ## Values in the wrong order -/

/-- The first value is in order with the second and the second with the third, but the first value
comes after the third. -/
def Disorders (a b c : Value) : Prop :=
  a.sortOrder b ≠ .gt ∧ b.sortOrder c ≠ .gt ∧ a.sortOrder c = .gt

instance : Decidable (Disorders a b c) :=
  inferInstanceAs (Decidable (_ ∧ _ ∧ _))

/-- Only numbers are in disorder. -/
lemma Disorders.isNumber (h : Disorders a b c) :
    a.isNumber = true ∧ b.isNumber = true ∧ c.isNumber = true := by
  obtain ⟨hab, hbc, hac⟩ := h
  have hleft : a.kindOrder ≤ b.kindOrder := kindOrder_le_of_sortOrder hab
  have hright : b.kindOrder ≤ c.kindOrder := kindOrder_le_of_sortOrder hbc
  have hback : c.kindOrder ≤ a.kindOrder := by
    apply kindOrder_le_of_sortOrder
    rw [sortOrder_swap, hac]
    decide
  -- values of any other kind are not real, and these are ordered by their keys
  have hkind : b.kindOrder = 1 := by
    by_contra hother
    have hreal (value : Value) (hvalue : value.kindOrder ≠ 1) : value.isReal = false := by
      cases value <;> first | rfl | exact absurd rfl hvalue
    have ha : a.isReal = false := hreal a (by omega)
    have hb : b.isReal = false := hreal b hother
    have hc : c.isReal = false := hreal c (by omega)
    rw [sortOrder_eq_keyOrder ha hb] at hab
    rw [sortOrder_eq_keyOrder hb hc] at hbc
    rw [sortOrder_eq_keyOrder ha hc] at hac
    have htrans : (a.keyOrder c).isLE :=
      Std.TransCmp.isLE_trans (Ordering.isLE_iff_ne_gt.mpr hab) (Ordering.isLE_iff_ne_gt.mpr hbc)
    rw [hac] at htrans
    exact absurd htrans (by decide)
  simp only [isNumber_iff]
  omega

/-- Integers are in order among themselves. -/
lemma not_disorders_integers (l m n : Int64) : ¬Disorders (integer l) (integer m) (integer n) := by
  rintro ⟨hlm, hmn, hln⟩
  have hlm : (compare l.toInt m.toInt).isLE := Ordering.isLE_iff_ne_gt.mpr hlm
  have hmn : (compare m.toInt n.toInt).isLE := Ordering.isLE_iff_ne_gt.mpr hmn
  have hln : compare l.toInt n.toInt = .gt := hln
  have htrans : (compare l.toInt n.toInt).isLE := Std.TransCmp.isLE_trans hlm hmn
  rw [hln] at htrans
  exact absurd htrans (by decide)

/-- Numbers in disorder that are no NaNs are two integers on both sides of a real that equals
them. -/
lemma Disorders.equal {type type' type'' : ColumnType} (h : Disorders a b c)
    (ha : NumberOf type a) (hb : NumberOf type' b) (hc : NumberOf type'' c) :
    b.isReal = true ∧ a.equal b = true ∧ b.equal c = true := by
  have hleft : a.realRank ≤ b.realRank := realRank_le_of_sortOrder ha hb h.1
  have hright : b.realRank ≤ c.realRank := realRank_le_of_sortOrder hb hc h.2.1
  have hback : c.realRank ≤ a.realRank := by
    apply realRank_le_of_sortOrder hc ha
    rw [sortOrder_swap, h.2.2]
    decide
  -- the doubles are the same, so the outer values are told apart as integers
  have hsame : compare a.realRank c.realRank = .eq := by
    rw [Std.LawfulEqOrd.compare_eq_iff_eq]
    omega
  have houter : ¬(type = .real ∨ type'' = .real) := by
    intro hreal
    have hac := sortOrder_of_compare? (compare?_realRank ha hc hreal)
    rw [hsame, h.2.2] at hac
    contradiction
  cases hb with
  | integer m =>
    obtain ⟨l, n, rfl, rfl⟩ := ha.exists_integers hc houter
    exact absurd h (not_disorders_integers l m n)
  | real hy =>
    refine ⟨rfl, ?_, ?_⟩
    · apply equal_of_realRank_eq ha (.real hy) (.inr rfl)
      omega
    · apply equal_of_realRank_eq (.real hy) hc (.inl rfl)
      omega

/-- Values are in disorder when the outer ones are numbers, the last less than the first, and the
middle one is a NaN or a real that equals both. -/
lemma disorders_iff : Disorders a b c ↔
    a.isNumber = true ∧ c.isNumber = true ∧ c.isLess a = true ∧
      (b.isNaN = true ∨ (b.isReal = true ∧ a.equal b = true ∧ b.equal c = true)) := by
  constructor
  · intro h
    obtain ⟨ha, hb, hc⟩ := h.isNumber
    -- the outer values are compared, so they are no NaNs
    have houter : a.isNaN = false ∧ c.isNaN = false := by
      by_contra hnan
      rw [← Bool.not_eq_true, ← Bool.not_eq_true, ← not_or, not_not] at hnan
      have htie := sortOrder_of_isNaN ha hc hnan
      rw [h.2.2] at htie
      contradiction
    obtain ⟨order, horder⟩ := exists_order_of_numbers hc ha houter.2 houter.1
    have hless : order = .lt := by
      rw [← sortOrder_of_compare? horder, sortOrder_swap, h.2.2]
      rfl
    rw [hless] at horder
    refine ⟨ha, hc, ordered_eq_true.mpr horder, ?_⟩
    by_cases hnan : b.isNaN = true
    · exact Or.inl hnan
    · right
      rw [Bool.not_eq_true] at hnan
      obtain ⟨type, hA⟩ := exists_numberOf ha houter.1
      obtain ⟨type', hB⟩ := exists_numberOf hb hnan
      obtain ⟨type'', hC⟩ := exists_numberOf hc houter.2
      exact h.equal hA hB hC
  · rintro ⟨ha, hc, hless, hmiddle⟩
    have hac : a.sortOrder c = .gt := by
      rw [sortOrder_swap, sortOrder_of_compare? (ordered_eq_true.mp hless)]
      rfl
    rcases hmiddle with hnan | ⟨-, hab, hbc⟩
    · have hb := isNumber_of_isNaN hnan
      refine ⟨?_, ?_, hac⟩
      · rw [sortOrder_of_isNaN ha hb (.inr hnan)]
        decide
      · rw [sortOrder_of_isNaN hb hc (.inl hnan)]
        decide
    · refine ⟨?_, ?_, hac⟩
      · rw [sortOrder_of_equal hab]
        decide
      · rw [sortOrder_of_equal hbc]
        decide

/-- The integers 2⁵³ + 1 and 2⁵³ are both equal to the real 2⁵³ between them. -/
example : Disorders (integer 9007199254740993) (real ⟨0x4340000000000000⟩)
    (integer 9007199254740992) := by
  decide +kernel

/-! ## The order as a whole -/

/-- Exchanging two values turns their order around.  They tie when they are alike or when they are
numbers of which one is a NaN.  Three values are in disorder when the outer ones are numbers, the
last less than the first, and the middle one is a NaN or a real that equals both. -/
theorem sortOrder_laws (a b c : Value) :
    b.sortOrder a = (a.sortOrder b).swap ∧
      (a.sortOrder b = .eq ↔ a.alike b = true ∨
        (a.isNumber = true ∧ b.isNumber = true ∧ (a.isNaN = true ∨ b.isNaN = true))) ∧
      ((a.sortOrder b ≠ .gt ∧ b.sortOrder c ≠ .gt ∧ a.sortOrder c = .gt) ↔
        a.isNumber = true ∧ c.isNumber = true ∧ c.isLess a = true ∧
          (b.isNaN = true ∨ (b.isReal = true ∧ a.equal b = true ∧ b.equal c = true))) :=
  ⟨sortOrder_swap a b, sortOrder_eq_iff, disorders_iff⟩

/-- The order is not total: a NaN ties with itself, and it is not alike to itself. -/
theorem not_forall_sortOrder_total :
    ¬∀ a b c : Value, b.sortOrder a = (a.sortOrder b).swap ∧
      (a.sortOrder b ≠ .gt → b.sortOrder c ≠ .gt → a.sortOrder c ≠ .gt) ∧
      (a.sortOrder b = .eq ↔ a.alike b = true) := by
  intro htotal
  have hties := (htotal (real ⟨0x7ff8000000000000⟩) (real ⟨0x7ff8000000000000⟩) null).2.2
  have htie : (real ⟨0x7ff8000000000000⟩).sortOrder (real ⟨0x7ff8000000000000⟩) = .eq := by decide
  exact absurd (hties.mp htie) (by decide)

end RelQuery.Value
