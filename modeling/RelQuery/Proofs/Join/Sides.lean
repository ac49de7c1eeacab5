import RelQuery.Proofs.Join.Closing
import RelQuery.Proofs.Join.Covering

/-!
# Conditions seen from both sides

A match step wants a condition that equates a column of the new table with a column of a joined one.
A condition on columns of the two tables of its clause is such a condition whichever of the two is
new, and a condition on columns of neither is none from either side.  Only a clause that equates a
column of one of its tables with a column of a third table is accepted from one side and refused
from the other.
-/

namespace RelQuery

open Result

namespace JoinClause

/-- The column is qualified by one of the two tables of the clause. -/
def Owns (clause : JoinClause) (ref : ColumnRef) : Prop :=
  ref.qualifiedBy clause.left.referenceName = true ∨
    ref.qualifiedBy clause.right.referenceName = true

/-- The clause does not equate a column of one of its tables with a column of a third one. -/
def KeepsToItself (clause : JoinClause) : Prop :=
  ∀ on left right, clause.on = some on → on.equated? = some (left, right) →
    (clause.Owns left ↔ clause.Owns right)

end JoinClause

/-! ## Keys -/

namespace ColumnRef

variable {ref : ColumnRef} {a b : String}

/-- A qualifier may be written in another case. -/
lemma qualifiedBy_trans (h : ref.qualifiedBy a = true) (hab : Name.same a b = true) :
    ref.qualifiedBy b = true := by
  unfold qualifiedBy at *
  cases htable : ref.table with
  | none => simp [htable] at h
  | some own =>
    rw [htable] at h
    exact Name.same_trans h hab

/-- Names that qualify one column are the same. -/
lemma same_of_qualifiedBy (ha : ref.qualifiedBy a = true) (hb : ref.qualifiedBy b = true) :
    Name.same a b = true := by
  unfold qualifiedBy at *
  cases htable : ref.table with
  | none => simp [htable] at ha
  | some own =>
    rw [htable] at ha hb
    refine Name.same_trans ?_ hb
    rw [Name.same_comm]
    exact ha

end ColumnRef

namespace EqualityKey

/-- The sides of a condition that equates two columns. -/
lemma sides?_of_equated {on : Expr} {left right : ColumnRef}
    (h : on.equated? = some (left, right)) (name : String) :
    sides? name on = if left.qualifiedBy name then some (left, right)
      else if right.qualifiedBy name then some (right, left) else none := by
  unfold Expr.equated? at h
  split at h
  · obtain ⟨rfl, rfl⟩ := Prod.mk.inj (Option.some.inj h)
    rfl
  · simp at h

/-- A condition is refused when one of its columns belongs to the new table and the other to none
that is joined. -/
lemma not_qualified_of_refused {tables : List JoinInput} {order : List Nat} {newTable : Nat}
    {on : Expr} {cause : UnsupportedJoin}
    (h : ofCondition tables order newTable on = .error (.unsupportedJoin cause))
    {new existing : ColumnRef}
    (hsides : sides? (JoinInput.atPosition tables newTable).referenceName on =
      some (new, existing)) : ∀ position ∈ order,
      existing.qualifiedBy (JoinInput.atPosition tables position).referenceName = false := by
  unfold ofCondition at h
  dsimp only at h
  rw [hsides] at h
  dsimp only at h
  split at h
  · rename_i hnone
    exact List.findIdx?_eq_none_iff.mp hnone
  · rename_i slot hslot
    have hplace (t : JoinInput) (ref : ColumnRef) :
        t.placeOf ref ≠ .error (.unsupportedJoin cause) := by
      unfold JoinInput.placeOf carriedPosition
      split <;> simp
    have htypes : checkTypes new existing ≠ .error (.unsupportedJoin cause) := by
      unfold checkTypes
      split
      · split <;> simp
      · simp
    refine absurd h (bind_ne_error htypes fun _ _ => bind_ne_error (hplace _ _) fun _ _ => ?_)
    exact bind_ne_error (hplace _ _) fun _ _ => by simp [pure, Except.pure]

end EqualityKey

/-! ## Conditions seen from both sides -/

namespace Expr

/-- The condition equates a column qualified by one name with a column qualified by the other. -/
def EquatesAcross (on : Expr) (a b : String) : Prop :=
  ∃ left right, on.equated? = some (left, right) ∧
    ((left.qualifiedBy a = true ∧ right.qualifiedBy b = true) ∨
      (left.qualifiedBy b = true ∧ right.qualifiedBy a = true))

/-- The names may be exchanged. -/
lemma EquatesAcross.symm {on : Expr} {a b : String} (h : on.EquatesAcross a b) :
    on.EquatesAcross b a := by
  obtain ⟨left, right, hequated, h⟩ := h
  exact ⟨left, right, hequated, h.symm⟩

/-- Seen from one of two different names, the other side of the condition belongs to the other. -/
lemma EquatesAcross.exists_sides {on : Expr} {new old : String} (h : on.EquatesAcross new old)
    (other : Name.same new old = false) :
    ∃ first second, EqualityKey.sides? new on = some (first, second) ∧
      second.qualifiedBy old = true := by
  obtain ⟨left, right, hequated, ⟨hleft, hright⟩ | ⟨hleft, hright⟩⟩ := h
  · refine ⟨left, right, ?_, hright⟩
    rw [EqualityKey.sides?_of_equated hequated, if_pos hleft]
  · refine ⟨right, left, ?_, hleft⟩
    have hnot : ¬ left.qualifiedBy new = true := fun hnew => by
      rw [ColumnRef.same_of_qualifiedBy hnew hleft] at other
      exact absurd other (by decide)
    rw [EqualityKey.sides?_of_equated hequated, if_neg hnot, if_pos hright]

end Expr

namespace JoinInput

variable {tables tables' : List JoinInput} {pending : PendingJoin} {on : Expr}

/-- The positions of a clause are those of the tables it names. -/
structure Places (tables : List JoinInput) (pending : PendingJoin) : Prop where
  left_lt : pending.left < tables.length
  right_lt : pending.right < tables.length
  left_same : Name.same (atPosition tables pending.left).referenceName
    pending.clause.left.referenceName = true
  right_same : Name.same (atPosition tables pending.right).referenceName
    pending.clause.right.referenceName = true

/-- A column that a clause owns is qualified by the name of one of its tables. -/
lemma Places.owns_iff (places : Places tables pending) (ref : ColumnRef) :
    pending.clause.Owns ref ↔
      ref.qualifiedBy (atPosition tables pending.left).referenceName = true ∨
        ref.qualifiedBy (atPosition tables pending.right).referenceName = true := by
  have hleft := places.left_same
  have hright := places.right_same
  constructor
  · refine Or.imp (fun h => ?_) fun h => ?_
    · exact ColumnRef.qualifiedBy_trans h (by rwa [Name.same_comm])
    · exact ColumnRef.qualifiedBy_trans h (by rwa [Name.same_comm])
  · exact Or.imp (fun h => ColumnRef.qualifiedBy_trans h hleft)
      fun h => ColumnRef.qualifiedBy_trans h hright

/-- A condition that was accepted, of a clause that keeps to itself, equates a column of the one
table of the clause with a column of the other. -/
lemma equatesAcross_of_accepted (apart : NamesApart tables) (places : Places tables pending)
    (keeps : pending.clause.KeepsToItself) (hon : pending.clause.on = some on) {order : List Nat}
    (inside : ∀ position ∈ order, position < tables.length)
    (hreaches : pending.reaches order = true) {key : EqualityKey}
    (accepted : EqualityKey.ofCondition tables order (pending.oriented order).1 on = .ok key) :
    on.EquatesAcross (atPosition tables pending.left).referenceName
      (atPosition tables pending.right).referenceName := by
  obtain ⟨new, existing, hsides, hslot, hexisting, -, -⟩ := EqualityKey.ofCondition_eq_ok accepted
  obtain ⟨hnew, hequated⟩ := EqualityKey.equated_of_sides hsides
  obtain ⟨fresh, -, -, -, -⟩ := oriented_of_reaches hreaches
  have hjoined : key.existing ∈ order := List.mem_of_getElem? hslot
  have hknown := inside key.existing hjoined
  have howns : pending.clause.Owns new → pending.clause.Owns existing := by
    rcases hequated with h | h
    · exact (keeps on new existing hon h).mp
    · exact (keeps on existing new hon h).mpr
  rw [places.owns_iff, places.owns_iff] at howns
  -- the other column is not one of the new table, which is not joined yet
  have hother {position : Nat} (hlt : position < tables.length)
      (hposition : position = (pending.oriented order).1) :
      ¬ existing.qualifiedBy (atPosition tables position).referenceName = true := fun h => by
    rw [apart.eq_of_same hknown hlt (ColumnRef.same_of_qualifiedBy hexisting h), hposition]
      at hjoined
    exact fresh hjoined
  have hacross : ∀ a b, new.qualifiedBy a = true → existing.qualifiedBy b = true →
      on.EquatesAcross a b := by
    intro a b ha hb
    rcases hequated with h | h
    · exact ⟨new, existing, h, Or.inl ⟨ha, hb⟩⟩
    · exact ⟨existing, new, h, Or.inr ⟨hb, ha⟩⟩
  obtain ⟨old, -, hends | hends⟩ := PendingJoin.exists_joined_of_reaches hreaches
  · obtain ⟨-, hright⟩ := Prod.mk.inj hends
    rw [← hright] at hnew
    have := (howns (Or.inr hnew)).resolve_right (hother places.right_lt hright)
    exact (hacross _ _ hnew this).symm
  · obtain ⟨hleft, -⟩ := Prod.mk.inj hends
    rw [← hleft] at hnew
    have := (howns (Or.inl hnew)).resolve_left (hother places.left_lt hleft)
    exact hacross _ _ hnew this

/-- A condition across the two tables of its clause is not refused from either side. -/
lemma not_refused_of_equatesAcross (apart : NamesApart tables) (places : Places tables pending)
    (across : on.EquatesAcross (atPosition tables pending.left).referenceName
      (atPosition tables pending.right).referenceName) {order : List Nat}
    (hreaches : pending.reaches order = true) (cause : UnsupportedJoin) :
    EqualityKey.ofCondition tables order (pending.oriented order).1 on ≠
      .error (.unsupportedJoin cause) := by
  intro refused
  have hdifferent : pending.left ≠ pending.right := fun heq => by
    simp [PendingJoin.reaches, heq] at hreaches
  have hnames : Name.same (atPosition tables pending.left).referenceName
      (atPosition tables pending.right).referenceName = false := by
    by_contra hsame
    exact hdifferent (apart.eq_of_same places.left_lt places.right_lt (by simpa using hsame))
  obtain ⟨old, hold, hends⟩ := PendingJoin.exists_joined_of_reaches hreaches
  obtain ⟨first, second, hsides, hsecond⟩ : ∃ first second,
      EqualityKey.sides? (atPosition tables (pending.oriented order).1).referenceName on =
        some (first, second) ∧
      second.qualifiedBy (atPosition tables old).referenceName = true := by
    rcases hends with hends | hends
    · obtain ⟨rfl, hright⟩ := Prod.mk.inj hends
      rw [← hright]
      exact across.symm.exists_sides (by rwa [Name.same_comm])
    · obtain ⟨hleft, rfl⟩ := Prod.mk.inj hends
      rw [← hleft]
      exact across.exists_sides hnames
  rw [EqualityKey.not_qualified_of_refused refused hsides old hold] at hsecond
  exact absurd hsecond (by decide)

end JoinInput

end RelQuery
