import RelQuery.Error

/-!
# Points of interruption

A running query asks now and then whether its deadline has passed, and stops with a timeout when it
has.  A watch gives the answer for every point at which a query may ask.  Each point occurs at most
once in a run, so every course of events is some watch.
-/

namespace RelQuery

/-- A point at which a running query asks for its deadline.  A join step is named by the number of
tables joined before it. -/
inductive Checkpoint where
  | resolved
  | filtered (table : Nat)
  | joinStep (joined : Nat)
  | crossStarted (joined : Nat)
  | paired (joined pairs : Nat)
  | probed (joined tuples : Nat)
  | joined
  | projected (rows : Nat)
  | sortedKeys
  | groupClosed (group : Nat)
  | finished
  deriving DecidableEq

/-- The answers that a deadline gives. -/
structure Watch where
  tripped : Checkpoint → Bool

namespace Watch

/-- The deadline that never passes. -/
def never : Watch where
  tripped _ := false

/-- The deadline that has passed from the start. -/
def always : Watch where
  tripped _ := true

/-- Stops with a timeout if the deadline has passed. -/
def poll (watch : Watch) (point : Checkpoint) : Result Unit :=
  if watch.tripped point then .error .timeout else .ok ()

/-- Asks at every multiple of the interval, an interval of zero counting as one. -/
def pollEvery (watch : Watch) (interval count : Nat) (point : Checkpoint) : Result Unit :=
  if count % max interval 1 = 0 then watch.poll point else .ok ()

@[simp] theorem poll_never (point : Checkpoint) : never.poll point = .ok () := rfl

@[simp] theorem pollEvery_never (interval count : Nat) (point : Checkpoint) :
    never.pollEvery interval count point = .ok () := by
  simp [pollEvery]

end Watch

end RelQuery
