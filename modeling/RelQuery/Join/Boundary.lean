/-!
# Boundaries

The boundary of a test in a list is the position where the elements that pass it end.  It is found
by halving, which looks at few elements and trusts the rest: in a list whose passing elements come
before all others it is the number of the passing ones.
-/

namespace RelQuery

/-- The boundary of a test on positions, among `count` positions from `first` on. -/
def boundaryFrom (passes : Nat → Bool) (first count : Nat) : Nat :=
  if count = 0 then first
  else if count = 1 then if passes first then first + 1 else first
  else
    let middle := first + count / 2
    boundaryFrom passes (if passes middle then middle else first) (count - count / 2)
termination_by count

/-- The boundary of a test in a list. -/
def boundary {α : Type} (passes : α → Bool) (list : List α) : Nat :=
  boundaryFrom (fun position => list[position]?.any passes) 0 list.length

/-- Where the test passes exactly below a bound, halving finds the bound. -/
theorem boundaryFrom_eq {passes : Nat → Bool} {bound first count : Nat}
    (below : ∀ position, passes position = decide (position < bound))
    (first_le : first ≤ bound) (bound_le : bound ≤ first + count) :
    boundaryFrom passes first count = bound := by
  fun_induction boundaryFrom passes first count with
  | case1 => omega
  | case2 first passed =>
    have : first < bound := by simpa [below] using passed
    omega
  | case3 first failed =>
    have : bound ≤ first := by simpa [below] using failed
    omega
  | case4 first count _ _ middle ih =>
    apply ih
    · split <;> simp_all
      omega
    · split <;> simp_all [middle] <;> omega

/-- In a list whose passing elements come first the boundary is their number. -/
theorem boundary_append {α : Type} {passes : α → Bool} {before after : List α}
    (all_pass : ∀ a ∈ before, passes a = true) (none_passes : ∀ a ∈ after, passes a = false) :
    boundary passes (before ++ after) = before.length := by
  apply boundaryFrom_eq _ (Nat.zero_le _) (by simp)
  intro position
  by_cases inside : position < before.length
  · simp [List.getElem?_append_left inside, inside, all_pass]
  · rw [List.getElem?_append_right (by omega)]
    cases found : after[position - before.length]? with
    | none => simp [inside]
    | some a => simp [inside, none_passes a (List.mem_of_getElem? found)]

end RelQuery
