import Mathlib
import RelQuery.Engine.Run
import RelQuery.Proofs.Lock.Holdings

/-!
# Locks given back

Shared access that was just taken is given back without a trace: the count falls to what it was, and
an entry that was made for it is removed.  A guard gives its tables back in the opposite order, so
each return undoes the last taking that is still in force.  Hence a guard that fails, a guard that
is given back, and a query with any outcome leave the lock table as they found it.
-/

namespace RelQuery

namespace LockTable

variable {t t' : LockTable} {session : Nat} {tables : List String}

/-- The lock tables that requests lead to. -/
inductive Reachable : LockTable → Prop
  | empty : Reachable .empty
  | request {t : LockTable} (before : Reachable t) (request : Request) :
    Reachable (request.attempt t).2

/-- Whatever was requested, the lock table is sound. -/
lemma Reachable.sound (reachable : t.Reachable) : t.Sound := by
  induction reachable with
  | empty => exact sound_empty
  | request _ request ih => exact (ih.answer request).2.2

/-- Shared access that was just taken is given back without a trace. -/
lemma Sound.tryReturnShared_of_taken (sound : t.Sound) {table : String}
    (taken : t.tryShared session table = (.ok (), t')) :
    t'.tryReturnShared session table = (.ok (), t) := by
  have hsound := sound.tryShared taken
  have hreaders := (sound.lockOf (Text.lowercase table)).readers
  obtain ⟨-, rfl⟩ := tryShared_eq_ok.mp taken
  set lock : TableLock := { t.lockOf (Text.lowercase table) with
    readers := TableLock.addReader session (t.lockOf (Text.lowercase table)).readers } with hlock
  have htable : lock.table = Text.lowercase table := table_lockOf t _
  have hnew : (t.put lock).lockOf (Text.lowercase table) = lock := by
    rw [sound.lockOf_put, if_pos htable.symm]
  have hcount : 0 < lock.sharedCount session := by
    rw [TableLock.sharedCount_eq, hlock, TableLock.countIn_addReader, if_pos rfl]
    exact Nat.succ_pos _
  have hfree : lock.isFree = false := by
    have hlocked := hsound.lockOf (Text.lowercase table)
    rw [hnew] at hlocked
    exact hlocked.isFree_eq_false_iff.mpr ⟨session, Or.inl hcount⟩
  have hold : { lock with readers := TableLock.dropReader session lock.readers } =
      t.lockOf (Text.lowercase table) :=
    congrArg (fun readers => { t.lockOf (Text.lowercase table) with readers })
      (hreaders.dropReader_addReader session)
  refine hsound.tryReturnShared_eq_ok.mpr ⟨?_, ?_⟩
  · rwa [hnew]
  · rw [hnew, hold, ← htable, sound.put_put hfree]

end LockTable

namespace LockGuard

variable {t t' : LockTable} {session : Nat} {tables : List String} {guard guard' : LockGuard}

/-- The table that was taken last is given back first. -/
lemma giveBack_append (session : Nat) (tables : List String) (table : String) (t : LockTable) :
    giveBack ⟨session, tables ++ [table]⟩ t =
      giveBack ⟨session, tables⟩ (returnTable session table t) := by
  simp [giveBack]

/-- A guard with one more table is given back as the guard before. -/
lemma giveBack_of_taken (sound : t.Sound) {table : String}
    (taken : t.tryShared guard.session table = (.ok (), t')) :
    giveBack ⟨guard.session, guard.tables ++ [table]⟩ t' = guard.giveBack t := by
  rw [giveBack_append, returnTable, sound.tryReturnShared_of_taken taken]

/-- A guard that cannot be extended is given back altogether. -/
lemma eq_giveBack_of_refused (sound : t.Sound) {error : Error}
    (refused : extend guard t tables = (.error error, t')) : t' = guard.giveBack t := by
  induction tables generalizing guard t with
  | nil => simp [extend] at refused
  | cons table rest ih =>
    rcases taken : t.tryShared guard.session table with ⟨_ | _, next⟩
    · rw [extend, taken] at refused
      obtain rfl := LockTable.eq_of_tryShared_refused taken
      exact (Prod.mk.inj refused).2.symm
    · rw [extend, taken] at refused
      rw [ih (sound.tryShared taken) refused, giveBack_of_taken sound taken]

/-- An extended guard is given back as the guard before. -/
lemma giveBack_extend (sound : t.Sound) (extended : extend guard t tables = (.ok guard', t')) :
    guard'.giveBack t' = guard.giveBack t := by
  induction tables generalizing guard t with
  | nil =>
    obtain ⟨hguard, rfl⟩ := Prod.mk.inj extended
    rw [Except.ok.inj hguard]
  | cons table rest ih =>
    rcases taken : t.tryShared guard.session table with ⟨_ | _, next⟩
    · rw [extend, taken] at extended
      simp at extended
    · rw [extend, taken] at extended
      rw [ih (sound.tryShared taken) extended, giveBack_of_taken sound taken]

/-- A guard that fails leaves the lock table as it was. -/
lemma eq_of_take_refused (sound : t.Sound) {error : Error}
    (refused : take session tables t = (.error error, t')) : t' = t :=
  eq_giveBack_of_refused sound refused

/-- A guard given back leaves the lock table as it was. -/
lemma giveBack_take (sound : t.Sound) (taken : take session tables t = (.ok guard, t')) :
    guard.giveBack t' = t :=
  giveBack_extend sound taken

/-! ## Guards without writers -/

/-- Taking a table for reading brings in no writer. -/
lemma unwritten_of_taken (unwritten : ∀ lock ∈ t.locks, lock.writer = none) {table : String}
    (taken : t.tryShared session table = (.ok (), t')) : ∀ lock ∈ t'.locks, lock.writer = none := by
  obtain ⟨-, rfl⟩ := LockTable.tryShared_eq_ok.mp taken
  intro lock hlock
  rcases LockTable.mem_enter hlock with ⟨rfl, -⟩ | hlock
  · exact LockTable.writer_lockOf unwritten _
  · exact unwritten lock hlock

/-- Where nobody writes, every table can be taken. -/
lemma exists_extend_of_unwritten (unwritten : ∀ lock ∈ t.locks, lock.writer = none)
    (guard : LockGuard) (tables : List String) :
    ∃ guard' t', extend guard t tables = (.ok guard', t') := by
  induction tables generalizing guard t with
  | nil => exact ⟨guard, t, rfl⟩
  | cons table rest ih =>
    have hfree : (t.lockOf (Text.lowercase table)).hasOtherWriter guard.session = false := by
      simp [TableLock.hasOtherWriter, LockTable.writer_lockOf unwritten]
    have taken := LockTable.tryShared_eq_ok.mpr ⟨hfree, rfl⟩
    rw [extend, taken]
    exact ih (unwritten_of_taken unwritten taken) _

end LockGuard

namespace Query

/-- Where nobody writes, a query with proper entries is answered. -/
lemma execute_of_unwritten {t : LockTable} (unwritten : ∀ lock ∈ t.locks, lock.writer = none)
    {query : Query} (checked : query.checkEntries = .ok ()) (catalog : Catalog) (watch : Watch)
    (interval session : Nat) :
    (query.execute catalog watch interval session t).1 = query.answer catalog watch interval := by
  obtain ⟨guard, t', taken⟩ := LockGuard.exists_extend_of_unwritten unwritten ⟨session, []⟩
    (query.tables.map FromEntry.name)
  rw [execute, checked, LockGuard.take, taken]

/-- On a sound lock table a query leaves the locks as they were. -/
lemma execute_locks {t : LockTable} (sound : t.Sound) (catalog : Catalog) (watch : Watch)
    (interval session : Nat) (query : Query) :
    (query.execute catalog watch interval session t).2 = t := by
  rw [execute]
  split
  · rfl
  rcases taken : LockGuard.take session (query.tables.map FromEntry.name) t with ⟨_ | guard, t'⟩
  · exact LockGuard.eq_of_take_refused sound taken
  · exact LockGuard.giveBack_take sound taken

/-- Whatever was requested before, a guard that cannot be had, a guard that is given back and a
query with any outcome leave every lock as it was. -/
theorem execute_guard_restore {t : LockTable} (reachable : t.Reachable) :
    (∀ session tables error locks,
        LockGuard.take session tables t = (.error error, locks) → locks = t) ∧
      (∀ session tables guard locks,
        LockGuard.take session tables t = (.ok guard, locks) → guard.giveBack locks = t) ∧
      ∀ (catalog : Catalog) (watch : Watch) (interval session : Nat) (query : Query),
        (query.execute catalog watch interval session t).2 = t :=
  ⟨fun _ _ _ _ => LockGuard.eq_of_take_refused reachable.sound,
    fun _ _ _ _ => LockGuard.giveBack_take reachable.sound,
    fun catalog watch interval session query =>
      execute_locks reachable.sound catalog watch interval session query⟩

/-- One session reads `a` and another one writes `b`: the first cannot have both, the second can
have both several times over and has what it had when it gives them back. -/
theorem execute_guard_restore_shared : ∃ (t : LockTable) (guard : LockGuard) (locks : LockTable),
    t.locks = [⟨"a", [(2, 1)], none⟩, ⟨"b", [], some 1⟩] ∧
      LockGuard.take 2 ["A", "a", "B"] t = (.error (.locked "B"), t) ∧
      LockGuard.take 1 ["b", "A", "B"] t = (.ok guard, locks) ∧
      locks.locks = [⟨"a", [(2, 1), (1, 1)], none⟩, ⟨"b", [(1, 2)], some 1⟩] ∧
      guard.giveBack locks = t := by
  let t : LockTable := ⟨[⟨"a", [(2, 1)], none⟩, ⟨"b", [], some 1⟩]⟩
  let locks : LockTable := ⟨[⟨"a", [(2, 1), (1, 1)], none⟩, ⟨"b", [(1, 2)], some 1⟩]⟩
  have hserved : (LockTable.Request.attempt (LockTable.Request.attempt .empty
      (.takeShared 2 "A")).2 (.takeExclusive 1 "b")).2 = t := by cbv
  have reachable : t.Reachable := by
    rw [← hserved]
    exact (LockTable.Reachable.empty.request _).request _
  obtain ⟨refused, restored, -⟩ := execute_guard_restore reachable
  have hrefused : LockGuard.take 2 ["A", "a", "B"] t = (.error (.locked "B"), t) := by
    have houtcome : (LockGuard.take 2 ["A", "a", "B"] t).1 = .error (.locked "B") := by cbv
    generalize hleft : LockGuard.take 2 ["A", "a", "B"] t = taken at houtcome ⊢
    obtain ⟨outcome, left⟩ := taken
    obtain rfl : outcome = _ := houtcome
    rw [refused _ _ _ _ hleft]
  have htaken : LockGuard.take 1 ["b", "A", "B"] t = (.ok ⟨1, ["b", "A", "B"]⟩, locks) := by cbv
  exact ⟨t, _, locks, rfl, hrefused, htaken, rfl, restored _ _ _ _ htaken⟩

end Query

end RelQuery
