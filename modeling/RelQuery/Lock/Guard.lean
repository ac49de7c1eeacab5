import RelQuery.Lock.Table

/-!
# Lock guards

A guard is shared access to a list of tables, taken in order and given back in the opposite order.
If one table cannot be had, those already taken are given back.
-/

namespace RelQuery

/-- Shared access of a session to some tables. -/
structure LockGuard where
  session : Nat
  tables : List String
  deriving DecidableEq

namespace LockGuard

/-- Gives one table back.  A table that the session no longer holds is passed over. -/
def returnTable (session : Nat) (table : String) (locks : LockTable) : LockTable :=
  (locks.tryReturnShared session table).2

/-- Gives all tables back, the last one first. -/
def giveBack (guard : LockGuard) (locks : LockTable) : LockTable :=
  guard.tables.foldr (returnTable guard.session) locks

/-- Takes more tables after those already taken. -/
def extend (guard : LockGuard) (locks : LockTable) : List String → Result LockGuard × LockTable
  | [] => (.ok guard, locks)
  | table :: rest =>
    match locks.tryShared guard.session table with
    | (.ok (), locks) => extend ⟨guard.session, guard.tables ++ [table]⟩ locks rest
    | (.error error, locks) => (.error error, guard.giveBack locks)

/-- Takes shared access to the tables. -/
def take (session : Nat) (tables : List String) (locks : LockTable) :
    Result LockGuard × LockTable :=
  extend ⟨session, []⟩ locks tables

end LockGuard

end RelQuery
