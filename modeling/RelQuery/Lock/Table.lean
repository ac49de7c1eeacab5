import RelQuery.Error
import RelQuery.Text.Lowercase

/-!
# Table locks

Locks are kept per table, under the lower case of its name.  A table has any number of readers, each
with a count of how often it took the lock, and at most one writer.  A session never stands in its
own way; otherwise a writer excludes everybody else.  A table is listed exactly while somebody holds
it.

Each operation gives its answer together with the locks after it, also where it is refused.  Counts
are natural numbers.  A call that takes shared access adds one to a count, so no count reaches 2^64
in a course of fewer calls.
-/

namespace RelQuery

/-- Who holds a table. -/
structure TableLock where
  /-- The lower case of the table's name. -/
  table : String
  /-- The sessions with shared access, each with the number of times that it took the lock. -/
  readers : List (Nat × Nat)
  /-- The session with exclusive access. -/
  writer : Option Nat
  deriving DecidableEq

namespace TableLock

/-- A table that nobody holds. -/
def vacant (table : String) : TableLock where
  table := table
  readers := []
  writer := none

/-- Nobody holds the table. -/
def isFree (lock : TableLock) : Bool :=
  lock.readers.isEmpty && lock.writer.isNone

/-- How often the session holds shared access. -/
def sharedCount (lock : TableLock) (session : Nat) : Nat :=
  ((lock.readers.find? (·.1 == session)).map Prod.snd).getD 0

/-- The session holds the table in some way. -/
def isHeldBy (lock : TableLock) (session : Nat) : Bool :=
  lock.readers.any (·.1 == session) || lock.writer == some session

/-- Another session has exclusive access. -/
def hasOtherWriter (lock : TableLock) (session : Nat) : Bool :=
  lock.writer.any (· != session)

/-- Another session has shared access. -/
def hasOtherReader (lock : TableLock) (session : Nat) : Bool :=
  lock.readers.any fun reader => reader.1 != session && 0 < reader.2

/-- Shared access taken once more by the session. -/
def addReader (session : Nat) : List (Nat × Nat) → List (Nat × Nat)
  | [] => [(session, 1)]
  | (id, count) :: rest =>
    if id = session then (id, count + 1) :: rest else (id, count) :: addReader session rest

/-- Shared access given back once by the session. -/
def dropReader (session : Nat) : List (Nat × Nat) → List (Nat × Nat)
  | [] => []
  | (id, count) :: rest =>
    if id = session then if 1 < count then (id, count - 1) :: rest else rest
    else (id, count) :: dropReader session rest

/-- The lock without anything that the session holds. -/
def without (session : Nat) (lock : TableLock) : TableLock where
  table := lock.table
  readers := lock.readers.filter (·.1 != session)
  writer := if lock.writer = some session then none else lock.writer

end TableLock

/-- The locks of all tables that somebody holds. -/
structure LockTable where
  locks : List TableLock
  deriving DecidableEq

namespace LockTable

/-- Nobody holds anything. -/
def empty : LockTable where
  locks := []

/-- The lock of a table that somebody holds. -/
def find? (t : LockTable) (key : String) : Option TableLock :=
  t.locks.find? (·.table == key)

/-- Enters the lock of a table at the place of its former one, or as the last. -/
def enter (lock : TableLock) : List TableLock → List TableLock
  | [] => if lock.isFree then [] else [lock]
  | other :: rest =>
    if other.table = lock.table then if lock.isFree then rest else lock :: rest
    else other :: enter lock rest

/-- The locks with that of one table changed. -/
def put (t : LockTable) (lock : TableLock) : LockTable where
  locks := enter lock t.locks

/-- The locks with an entry for the key, which nobody holds if there was none before. -/
def withEntry (t : LockTable) (key : String) : LockTable :=
  match t.find? key with
  | some _ => t
  | none => ⟨t.locks ++ [.vacant key]⟩

/-- Tries for shared access.  The table gets its entry before it is known whether access is had. -/
def tryShared (t : LockTable) (session : Nat) (table : String) : Result Unit × LockTable :=
  let key := Text.lowercase table
  let t := t.withEntry key
  let lock := (t.find? key).getD (.vacant key)
  if lock.hasOtherWriter session then (.error (.locked table), t)
  else (.ok (), t.put { lock with readers := TableLock.addReader session lock.readers })

/-- Takes shared access. -/
def takeShared (t : LockTable) (session : Nat) (table : String) : Result LockTable :=
  (Result.settled (t.tryShared session table)).map Prod.snd

/-- Tries to give shared access back once.  What the session does not hold stays as it is. -/
def tryReturnShared (t : LockTable) (session : Nat) (table : String) : Result Unit × LockTable :=
  match t.find? (Text.lowercase table) with
  | none => (.error (.fault (.notLocked table session)), t)
  | some lock =>
    if lock.readers.any (·.1 == session) then
      (.ok (), t.put { lock with readers := TableLock.dropReader session lock.readers })
    else (.error (.fault (.notShared table session)), t)

/-- Gives shared access back once. -/
def returnShared (t : LockTable) (session : Nat) (table : String) : Result LockTable :=
  (Result.settled (t.tryReturnShared session table)).map Prod.snd

/-- Tries for exclusive access, with an entry for the table as in `tryShared`. -/
def tryExclusive (t : LockTable) (session : Nat) (table : String) : Result Unit × LockTable :=
  let key := Text.lowercase table
  let t := t.withEntry key
  let lock := (t.find? key).getD (.vacant key)
  if lock.hasOtherWriter session || lock.hasOtherReader session then (.error (.locked table), t)
  else (.ok (), t.put { lock with writer := some session })

/-- Takes exclusive access. -/
def takeExclusive (t : LockTable) (session : Nat) (table : String) : Result LockTable :=
  (Result.settled (t.tryExclusive session table)).map Prod.snd

/-- Tries to give exclusive access back.  What the session does not hold stays as it is. -/
def tryReturnExclusive (t : LockTable) (session : Nat) (table : String) :
    Result Unit × LockTable :=
  match t.find? (Text.lowercase table) with
  | some lock =>
    if lock.writer = some session then (.ok (), t.put { lock with writer := none })
    else (.error (.fault (.notExclusive session table)), t)
  | none => (.error (.fault (.notExclusive session table)), t)

/-- Gives exclusive access back. -/
def returnExclusive (t : LockTable) (session : Nat) (table : String) : Result LockTable :=
  (Result.settled (t.tryReturnExclusive session table)).map Prod.snd

/-- Gives back everything that the session holds. -/
def returnAll (t : LockTable) (session : Nat) : LockTable where
  locks := (t.locks.map (TableLock.without session)).filter fun lock => !lock.isFree

/-- The tables that the session holds, in the order of their names. -/
def heldBy (t : LockTable) (session : Nat) : List String :=
  ((t.locks.filter (·.isHeldBy session)).map TableLock.table).mergeSort fun a b =>
    compare a.toList b.toList != .gt

/-- Fails if the session holds anything. -/
def checkHoldsNone (t : LockTable) (session : Nat) : Result Unit :=
  let held := t.heldBy session
  if held.isEmpty then .ok () else .error (.fault (.locksHeld session held))

end LockTable

end RelQuery
