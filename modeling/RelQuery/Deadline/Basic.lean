import RelQuery.Deadline.Watch

/-!
# Deadlines

A deadline passes when its time runs out or when it is cancelled, and stays passed.  Copies of a
deadline and its cancel handles share one flag, so a deadline is the number of its flag together
with its time limit, and all flags are kept in one list.
-/

namespace RelQuery

/-- A deadline. -/
structure Deadline where
  /-- The number of the flag that is raised once the deadline has passed. -/
  flag : Nat
  /-- The time limit in milliseconds. -/
  limit : Option Nat
  deriving DecidableEq

/-- The flags of all deadlines, raised or not. -/
structure CancelFlags where
  raised : List Bool
  deriving DecidableEq

namespace CancelFlags

/-- There are no deadlines yet. -/
def empty : CancelFlags where
  raised := []

/-- The flag is raised. -/
def isRaised (flags : CancelFlags) (flag : Nat) : Bool :=
  flags.raised.getD flag false

/-- Raises a flag. -/
def raise (flags : CancelFlags) (flag : Nat) : CancelFlags where
  raised := flags.raised.set flag true

/-- A new deadline with a flag of its own. -/
def start (flags : CancelFlags) (limit : Option Nat) : Deadline × CancelFlags :=
  (⟨flags.raised.length, limit⟩, ⟨flags.raised ++ [false]⟩)

end CancelFlags

namespace Deadline

/-- The time limit is reached. -/
def isOver (deadline : Deadline) (elapsed : Nat) : Bool :=
  deadline.limit.any (· ≤ elapsed)

/-- The deadline has passed, so many milliseconds after it was started. -/
def hasPassed (deadline : Deadline) (flags : CancelFlags) (elapsed : Nat) : Bool :=
  flags.isRaised deadline.flag || deadline.isOver elapsed

/-- The flags after the deadline was looked at: a deadline that is found passed stays passed. -/
def observe (deadline : Deadline) (flags : CancelFlags) (elapsed : Nat) : CancelFlags :=
  if deadline.hasPassed flags elapsed then flags.raise deadline.flag else flags

/-- Fails if the deadline has passed. -/
def check (deadline : Deadline) (flags : CancelFlags) (elapsed : Nat) : Result Unit :=
  if deadline.hasPassed flags elapsed then .error .timeout else .ok ()

/-- What a query sees of the deadline, when it comes to each point so many milliseconds after the
deadline was started and nobody cancels in between. -/
def watch (deadline : Deadline) (flags : CancelFlags) (elapsed : Checkpoint → Nat) : Watch where
  tripped point := deadline.hasPassed flags (elapsed point)

end Deadline

end RelQuery
