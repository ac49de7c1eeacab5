import Mathlib.Tactic.Lemma
import RelQuery.Value.Compare

/-!
# The order of keys

Reals break the order of sorting: a NaN ties with every number, and integers beyond the precision of
a double tie with reals without being equal.  Values that are not real are ordered totally, first by
their kind and then as numbers or texts, ties are identities, and the comparison of predicates finds
the same order.  So a list of such values can be sorted and searched.
-/

namespace RelQuery.Value

/-- The value is a real. -/
def isReal : Value → Bool
  | real _ => true
  | _ => false

/-- The number by which integers and truth values are sorted. -/
def sortNumber : Value → Int
  | integer n => n.toInt
  | boolean b => b.toInt
  | _ => 0

/-- The characters by which texts are sorted. -/
def sortLetters : Value → List Char
  | text s => s.toList
  | _ => []

/-- The order by kind, then by number, then by characters.  It orders all values, and sorts those
that are not real. -/
def keyOrder : Value → Value → Ordering :=
  compareLex (compareOn kindOrder) (compareLex (compareOn sortNumber) (compareOn sortLetters))

instance : Std.TransCmp keyOrder :=
  inferInstanceAs (Std.TransCmp
    (compareLex (compareOn kindOrder) (compareLex (compareOn sortNumber) (compareOn sortLetters))))

/-- Exchanging two values turns the order of their keys around. -/
lemma keyOrder_swap (a b : Value) : a.keyOrder b = (b.keyOrder a).swap :=
  Std.OrientedCmp.eq_swap

/-- Every value ties with itself. -/
lemma keyOrder_self (a : Value) : a.keyOrder a = .eq :=
  Std.ReflCmp.compare_self

/-- Values that are not real are sorted by their keys. -/
lemma sortOrder_eq_keyOrder {a b : Value} (ha : a.isReal = false) (hb : b.isReal = false) :
    a.sortOrder b = a.keyOrder b := by
  cases a with
  | real x => simp [isReal] at ha
  | null =>
    cases b with
    | real x => simp [isReal] at hb
    | _ => rfl
  | integer m =>
    cases b with
    | real x => simp [isReal] at hb
    | integer n =>
      have hcompare : (integer m).sortOrder (integer n) = compare m.toInt n.toInt := rfl
      have hkey : (integer m).keyOrder (integer n) = (compare m.toInt n.toInt).then .eq := rfl
      rw [hcompare, hkey, Ordering.then_eq]
    | _ => rfl
  | text s =>
    cases b with
    | real x => simp [isReal] at hb
    | _ => rfl
  | boolean x =>
    cases b with
    | real y => simp [isReal] at hb
    | boolean y => cases x <;> cases y <;> rfl
    | _ => rfl

/-- Values that can be compared are neither real nor NULL only in the order of their keys. -/
lemma compare?_eq_ok {a b : Value} (ha : a.isReal = false) (hb : b.isReal = false)
    (hnullA : a ≠ .null) (hnullB : b ≠ .null) {order : Option Ordering}
    (h : a.compare? b = .ok order) : order = some (a.keyOrder b) := by
  rw [← sortOrder_eq_keyOrder ha hb]
  cases a <;> cases b <;> first
    | exact absurd ha Bool.noConfusion
    | exact absurd hb Bool.noConfusion
    | exact absurd rfl hnullA
    | exact absurd rfl hnullB
    | exact (Except.ok.inj h).symm
    | exact absurd h (by simp [compare?])

/-- Values other than NULL and reals can be compared only if they are of one type. -/
lemma type?_eq_of_compare? {a b : Value} (ha : a.isReal = false) (hb : b.isReal = false)
    (hnullA : a ≠ .null) (hnullB : b ≠ .null) {order : Option Ordering}
    (h : a.compare? b = .ok order) : a.type? = b.type? := by
  cases a <;> cases b <;> first
    | rfl
    | exact absurd ha Bool.noConfusion
    | exact absurd hb Bool.noConfusion
    | exact absurd rfl hnullA
    | exact absurd rfl hnullB
    | exact absurd h (by simp [compare?])

/-- Values of one type other than REAL compare in the order of their keys. -/
lemma compare?_eq_keyOrder {a b : Value} (ha : a.isReal = false) (hb : b.isReal = false)
    (hnull : a ≠ .null) (htype : a.type? = b.type?) :
    a.compare? b = .ok (some (a.keyOrder b)) := by
  have hnullB : b ≠ .null := by
    rintro rfl
    cases a <;> simp [type?] at htype hnull
  obtain ⟨order, h⟩ : ∃ order, a.compare? b = .ok order := by
    cases a <;> cases b <;> first
      | exact ⟨_, rfl⟩
      | simp [type?] at htype
  rw [h, compare?_eq_ok ha hb hnull hnullB h]

/-- Values that are not real have one key only if they are the same. -/
lemma keyOrder_eq_iff {a b : Value} (ha : a.isReal = false) (hb : b.isReal = false) :
    a.keyOrder b = .eq ↔ a = b := by
  refine ⟨fun h => ?_, fun h => h ▸ keyOrder_self a⟩
  simp only [keyOrder, compareLex_eq_eq, compareOn, Std.LawfulEqOrd.compare_eq_iff_eq] at h
  obtain ⟨hkind, hnumber, hletters⟩ := h
  cases a <;> cases b <;> simp_all [kindOrder, sortNumber, sortLetters, isReal]
  · exact Int64.toInt_inj.mp hnumber
  · exact String.toList_inj.mp hletters
  · rename_i x y
    cases x <;> cases y <;> simp_all

/-- NULL is null. -/
lemma isNull_eq_true {a : Value} : a.isNull = true ↔ a = .null := by
  cases a <;> simp [isNull]

/-- Only NULL is null. -/
lemma isNull_eq_false {a : Value} : a.isNull = false ↔ a ≠ .null := by
  cases a <;> simp [isNull]

/-- Values that are not real are equal when they are the same and not NULL. -/
lemma equal_iff {a b : Value} (ha : a.isReal = false) (hb : b.isReal = false) :
    a.equal b = true ↔ a = b ∧ a.isNull = false := by
  cases a with
  | real x => simp [isReal] at ha
  | null => simp [equal, ordered, compare?, isNull]
  | integer m =>
    cases b with
    | real x => simp [isReal] at hb
    | integer n =>
      simp [equal, ordered, compare?, isNull, Int64.toInt_inj]
    | _ => simp [equal, ordered, compare?]
  | text s =>
    cases b with
    | real x => simp [isReal] at hb
    | text t =>
      simp [equal, ordered, compare?, isNull, String.toList_inj]
    | _ => simp [equal, ordered, compare?]
  | boolean x =>
    cases b with
    | real y => simp [isReal] at hb
    | boolean y =>
      simp [equal, ordered, compare?, isNull]
    | _ => simp [equal, ordered, compare?]

/-- Values that are not real are alike when they are the same. -/
lemma alike_iff {a b : Value} (ha : a.isReal = false) (hb : b.isReal = false) :
    a.alike b = true ↔ a = b := by
  by_cases hnull : a = .null ∧ b = .null
  · obtain ⟨rfl, rfl⟩ := hnull
    simp [alike]
  · have halike : a.alike b = a.equal b := by
      cases a <;> cases b <;> first | rfl | simp at hnull
    rw [halike, equal_iff ha hb, isNull_eq_false]
    constructor
    · exact And.left
    · rintro rfl
      exact ⟨rfl, fun h => hnull ⟨h, h⟩⟩

/-- Values that are the same are equal where one of them is not real. -/
lemma eq_of_same {a b : Value} (hfree : a.isReal = false ∨ b.isReal = false)
    (h : a.same b = true) : a = b := by
  cases a <;> cases b <;> simp_all [same, isReal]

/-- Exchanging two values turns their comparison around. -/
lemma compare?_swap {a b : Value} {order : Ordering} (h : a.compare? b = .ok (some order)) :
    b.compare? a = .ok (some order.swap) := by
  have numbers {x y : Binary64} (h : x.compare? y = some order) :
      y.compare? x = some order.swap := by
    unfold Binary64.compare? at h ⊢
    rw [Bool.or_comm]
    split at h
    · contradiction
    · rename_i hnan
      obtain rfl := Option.some.inj h
      have hswap : compare y.rank x.rank = (compare x.rank y.rank).swap := Std.OrientedCmp.eq_swap
      rw [if_neg hnan, hswap]
  cases a <;> cases b <;>
    simp only [compare?, Except.ok.injEq, Option.some.injEq, reduceCtorEq] at h ⊢
  all_goals first
    | exact numbers h
    | rw [← h]
      exact Std.OrientedCmp.eq_swap

/-- Values are in an order when the comparison finds this order. -/
lemma ordered_eq_true {order : Ordering} {a b : Value} :
    ordered order a b = true ↔ a.compare? b = .ok (some order) := by
  unfold ordered
  constructor
  · intro h
    split at h
    · rename_i found hfound
      rw [hfound, beq_iff_eq.mp h]
    · contradiction
  · intro h
    rw [h]
    exact beq_self_eq_true order

/-- The comparison finds equality where values are equal. -/
lemma equal_eq_true {a b : Value} : a.equal b = true ↔ a.compare? b = .ok (some .eq) :=
  ordered_eq_true

/-- A comparison that succeeds tells whether the values are equal. -/
lemma map_compare?_eq {a b : Value} {order : Option Ordering} (h : a.compare? b = .ok order) :
    (a.compare? b).map (· == some .eq) = .ok (a.equal b) := by
  rw [equal, ordered, h]
  cases order <;> rfl

/-- NULL equals nothing. -/
@[simp] lemma equal_null (value : Value) : null.equal value = false := by
  cases value <;> rfl

/-- Equality of values does not depend on their order. -/
lemma equal_comm (a b : Value) : a.equal b = b.equal a := by
  rw [Bool.eq_iff_iff, equal_eq_true, equal_eq_true]
  exact ⟨compare?_swap, compare?_swap⟩

end RelQuery.Value
