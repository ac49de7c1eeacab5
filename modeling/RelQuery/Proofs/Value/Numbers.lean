import Mathlib.Order.Basic
import RelQuery.Proofs.Binary64.Rounding
import RelQuery.Proofs.Value.Ranks

/-!
# Numbers as keys

The values of a numeric column are integers or reals.  Beside each other they are sorted by an
integer or by a rank, and against a number of the other type an integer counts as the double nearest
to it.  Rounding keeps the order of integers, so numbers sorted by the first measure are sorted by
the second one too.
-/

namespace RelQuery.Value

/-- The value is a number of the type and no NaN. -/
inductive NumberOf : ColumnType → Value → Prop
  | integer (n : Int64) : NumberOf .integer (integer n)
  | real {x : Binary64} (h : x.isNaN = false) : NumberOf .real (real x)

/-- The number by which the values of one numeric column are sorted. -/
def ownRank : Value → Int
  | integer n => n.toInt
  | real x => x.rank
  | _ => 0

/-- The rank of the number as a double. -/
def realRank : Value → Int
  | integer n => (Binary64.ofInt n.toInt).rank
  | real x => x.rank
  | _ => 0

variable {a b : Value} {type type' : ColumnType}

/-- A value of a numeric type that is neither NULL nor a NaN is a number. -/
lemma Fits.numberOf (h : a.Fits type) (hnumeric : type.isNumeric = true) (hnull : a.isNull = false)
    (hnan : a.isNaN = false) : NumberOf type a := by
  cases a with
  | null => exact absurd hnull (by decide)
  | integer n =>
    obtain rfl := h _ rfl
    exact .integer n
  | real x =>
    obtain rfl := h _ rfl
    exact .real hnan
  | text s =>
    obtain rfl := h _ rfl
    exact absurd hnumeric (by decide)
  | boolean v =>
    obtain rfl := h _ rfl
    exact absurd hnumeric (by decide)

/-- The order of sorting is the order that a comparison finds. -/
lemma sortOrder_of_compare? {order : Ordering} (h : a.compare? b = .ok (some order)) :
    a.sortOrder b = order := by
  cases a <;> cases b <;> simp only [compare?, Except.ok.injEq, reduceCtorEq] at h <;>
    simp only [sortOrder, compare?, h]

/-- Numbers of one type compare as the measure by which they are sorted. -/
lemma compare?_ownRank (ha : NumberOf type a) (hb : NumberOf type b) :
    a.compare? b = .ok (some (compare a.ownRank b.ownRank)) := by
  cases ha with
  | integer m => cases hb with | integer n => rfl
  | real hx => cases hb with | real hy => exact congrArg _ (Binary64.compare?_eq_rank hx hy)

/-- A real and another number compare as doubles. -/
lemma compare?_realRank (ha : NumberOf type a) (hb : NumberOf type' b)
    (hreal : type = .real ∨ type' = .real) :
    a.compare? b = .ok (some (compare a.realRank b.realRank)) := by
  cases ha with
  | integer m =>
    cases hb with
    | integer n => simp at hreal
    | real hy =>
      exact congrArg _ (Binary64.compare?_eq_rank (Binary64.isNaN_ofInt _) hy)
  | real hx =>
    cases hb with
    | integer n => exact congrArg _ (Binary64.compare?_eq_rank hx (Binary64.isNaN_ofInt _))
    | real hy => exact congrArg _ (Binary64.compare?_eq_rank hx hy)

/-- Numbers of one type are in the order of their doubles. -/
lemma realRank_mono (ha : NumberOf type a) (hb : NumberOf type b) (h : a.ownRank ≤ b.ownRank) :
    a.realRank ≤ b.realRank := by
  cases ha with
  | integer m => cases hb with | integer n => exact Binary64.rank_ofInt_mono h
  | real hx => cases hb with | real hy => exact h

/-- A NaN equals nothing. -/
lemma equal_eq_false_of_isNaN (h : a.isNaN = true) (b : Value) : a.equal b = false := by
  cases a with
  | real x =>
    have hx : x.isNaN = true := h
    cases b <;> simp [equal, ordered, compare?, Binary64.compare?, hx]
  | _ => exact absurd h Bool.noConfusion

end RelQuery.Value
