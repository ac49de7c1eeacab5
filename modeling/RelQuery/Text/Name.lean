/-!
# Names of tables, aliases and columns

Names keep the case they were written in and are compared without regard to the case of ASCII
letters.  Two names are the same exactly when their folded forms are equal, so sameness is an
equivalence.
-/

namespace RelQuery.Name

/-- The characters of a name with the ASCII capitals made small. -/
def fold (name : String) : List Char :=
  name.toList.map Char.toLower

/-- The two names denote the same thing. -/
def same (a b : String) : Bool :=
  fold a == fold b

theorem same_iff {a b : String} : same a b = true ↔ fold a = fold b := by
  simp [same]

@[simp] theorem same_refl (a : String) : same a a = true := by
  simp [same]

theorem same_comm (a b : String) : same a b = same b a := by
  simp [same, Bool.beq_comm]

theorem same_trans {a b c : String} (hab : same a b = true) (hbc : same b c = true) :
    same a c = true := by
  rw [same_iff] at *
  exact hab.trans hbc

end RelQuery.Name
