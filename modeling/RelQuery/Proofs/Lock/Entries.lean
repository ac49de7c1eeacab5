import RelQuery.Proofs.Lock.Readers

/-!
# Sound lock tables

A lock table is sound when it lists every table once, only while somebody holds it, and with a sound
lock.  It is then known by the lock of every key, where a key without an entry has a vacant lock,
and each operation is known by what it makes of these.
-/

namespace RelQuery

namespace LockTable

variable {t t' : LockTable} {lock : TableLock} {session : Nat}

/-! ## Sound lock tables -/

/-- Who holds the table of a key, where a table without an entry is held by nobody. -/
def lockOf (t : LockTable) (key : String) : TableLock :=
  (t.find? key).getD (.vacant key)

/-- Every table is listed once, and only while somebody holds it. -/
structure Sound (t : LockTable) : Prop where
  apart : (t.locks.map TableLock.table).Nodup
  locks : ∀ lock ∈ t.locks, lock.Sound
  held : ∀ lock ∈ t.locks, lock.isFree = false

/-- What `find?` finds has the key and is listed. -/
lemma find?_eq_some {key : String} (h : t.find? key = some lock) :
    lock ∈ t.locks ∧ lock.table = key :=
  ⟨List.mem_of_find?_eq_some h, by simpa using List.find?_some h⟩

/-- The lock of a key is that of the table. -/
lemma table_lockOf (t : LockTable) (key : String) : (t.lockOf key).table = key := by
  unfold lockOf
  cases h : t.find? key with
  | none => rfl
  | some lock => exact (find?_eq_some h).2

/-- Where no listed lock has a writer, no key has one. -/
lemma writer_lockOf (unwritten : ∀ lock ∈ t.locks, lock.writer = none) (key : String) :
    (t.lockOf key).writer = none := by
  unfold lockOf
  cases h : t.find? key with
  | none => rfl
  | some lock => exact unwritten lock (find?_eq_some h).1

/-- The locks of a sound table are sound, listed or not. -/
lemma Sound.lockOf (sound : t.Sound) (key : String) : (t.lockOf key).Sound := by
  unfold LockTable.lockOf
  cases h : t.find? key with
  | none => exact TableLock.sound_vacant key
  | some lock => exact sound.locks lock (find?_eq_some h).1

/-- A listed lock is that of its table. -/
lemma Sound.lockOf_eq (sound : t.Sound) (hlock : lock ∈ t.locks) : t.lockOf lock.table = lock := by
  unfold LockTable.lockOf
  cases h : t.find? lock.table with
  | none => simpa using List.find?_eq_none.mp h lock hlock
  | some other =>
    obtain ⟨hother, hkey⟩ := find?_eq_some h
    exact List.inj_on_of_nodup_map sound.apart hother hlock hkey

/-- A table is listed exactly when its lock is not free. -/
lemma Sound.listed_iff (sound : t.Sound) (key : String) :
    (∃ lock ∈ t.locks, lock.table = key) ↔ (t.lockOf key).isFree = false := by
  constructor
  · rintro ⟨lock, hlock, rfl⟩
    rw [sound.lockOf_eq hlock]
    exact sound.held lock hlock
  · intro h
    unfold LockTable.lockOf at h
    cases hfound : t.find? key with
    | none => simp [hfound, TableLock.isFree, TableLock.vacant] at h
    | some lock => exact ⟨lock, find?_eq_some hfound⟩

/-! ## Changing one lock -/

/-- Entering a lock brings no other table in. -/
lemma mem_enter {locks : List TableLock} {other : TableLock} (h : other ∈ enter lock locks) :
    (other = lock ∧ lock.isFree = false) ∨ (other ∈ locks) := by
  induction locks with
  | nil =>
    rw [enter] at h
    split at h
    · simp at h
    · rename_i hfree
      exact Or.inl ⟨List.mem_singleton.mp h, by simpa using hfree⟩
  | cons first rest ih =>
    rw [enter] at h
    split at h
    · split at h
      · exact Or.inr (List.mem_cons_of_mem _ h)
      · rename_i hfree
        rcases List.mem_cons.mp h with rfl | h
        · exact Or.inl ⟨rfl, by simpa using hfree⟩
        · exact Or.inr (List.mem_cons_of_mem _ h)
    · rcases List.mem_cons.mp h with rfl | h
      · exact Or.inr List.mem_cons_self
      · exact (ih h).imp_right (List.mem_cons_of_mem _)

/-- Entering a lock keeps the tables apart. -/
lemma nodup_enter {locks : List TableLock} (h : (locks.map TableLock.table).Nodup) :
    ((enter lock locks).map TableLock.table).Nodup := by
  induction locks with
  | nil =>
    rw [enter]
    split <;> simp
  | cons first rest ih =>
    rw [List.map_cons, List.nodup_cons] at h
    rw [enter]
    split
    · rename_i hsame
      split
      · exact h.2
      · rw [List.map_cons, ← hsame]
        exact List.nodup_cons.mpr h
    · rename_i hother
      refine List.nodup_cons.mpr ⟨fun hmem => ?_, ih h.2⟩
      obtain ⟨other, hmem, heq⟩ := List.mem_map.mp hmem
      rcases mem_enter hmem with ⟨rfl, -⟩ | hmem
      · exact hother heq.symm
      · exact h.1 (List.mem_map.mpr ⟨other, hmem, heq⟩)

/-- A sound lock keeps the lock table sound. -/
lemma Sound.put (sound : t.Sound) (hlock : lock.Sound) : (t.put lock).Sound where
  apart := nodup_enter sound.apart
  locks other hother := by
    rcases mem_enter hother with ⟨rfl, -⟩ | hother
    · exact hlock
    · exact sound.locks other hother
  held other hother := by
    rcases mem_enter hother with ⟨rfl, hfree⟩ | hother
    · exact hfree
    · exact sound.held other hother

/-- The entered lock is found under its table, and the others under theirs. -/
lemma find?_enter {locks : List TableLock} (h : (locks.map TableLock.table).Nodup) (key : String) :
    (enter lock locks).find? (·.table == key) =
      if key = lock.table then (if lock.isFree then none else some lock)
      else locks.find? (·.table == key) := by
  induction locks with
  | nil =>
    rw [enter]
    by_cases hkey : key = lock.table
    · cases hfree : lock.isFree <;> simp [hkey]
    · cases hfree : lock.isFree <;> simp [hkey, Ne.symm hkey]
  | cons first rest ih =>
    rw [List.map_cons, List.nodup_cons] at h
    rw [enter]
    split
    · rename_i hsame
      by_cases hkey : key = lock.table
      · have hrest : rest.find? (·.table == key) = none := by
          refine List.find?_eq_none.mpr fun other hother heq => h.1 ?_
          rw [hsame, ← hkey]
          exact List.mem_map.mpr ⟨other, hother, by simpa using heq⟩
        subst hkey
        cases hfree : lock.isFree <;> simp [hrest]
      · have hfirst : ¬ first.table = key := fun heq => hkey (heq.symm.trans hsame)
        cases hfree : lock.isFree <;> simp [hkey, Ne.symm hkey, hfirst]
    · rename_i hother
      rw [List.find?_cons, List.find?_cons, ih h.2]
      by_cases hkey : key = lock.table
      · have hfirst : (first.table == lock.table) = false := by simpa using hother
        simp [hkey, hfirst]
      · simp only [hkey, ↓reduceIte]

/-- The lock of a table after that of one table was changed. -/
lemma Sound.lockOf_put (sound : t.Sound) (lock : TableLock) (key : String) :
    (t.put lock).lockOf key = if key = lock.table then lock else t.lockOf key := by
  unfold LockTable.lockOf find? LockTable.put
  rw [find?_enter sound.apart]
  split
  · rename_i hkey
    split
    · rename_i hfree
      rw [hkey]
      exact (TableLock.eq_vacant_of_isFree hfree).symm
    · rfl
  · rfl

/-- Entering a lock of a table that is not listed and then a free one changes nothing. -/
lemma enter_enter_of_absent {locks : List TableLock} {old : TableLock}
    (htable : old.table = lock.table) (hold : old.isFree = true) (hfree : lock.isFree = false)
    (h : ∀ other ∈ locks, other.table ≠ lock.table) : enter old (enter lock locks) = locks := by
  induction locks with
  | nil => simp [enter, hfree, hold, htable]
  | cons first rest ih =>
    have hfirst : first.table ≠ lock.table := h first List.mem_cons_self
    rw [enter, if_neg hfirst, enter, if_neg (by rwa [htable]),
      ih fun other hother => h other (List.mem_cons_of_mem _ hother)]

/-- Entering a lock in the place of a listed one and then that one again changes nothing. -/
lemma enter_enter_of_listed {locks : List TableLock} {old : TableLock}
    (htable : old.table = lock.table) (hold : old.isFree = false) (hfree : lock.isFree = false)
    (h : locks.find? (·.table == lock.table) = some old) :
    enter old (enter lock locks) = locks := by
  induction locks with
  | nil => simp at h
  | cons first rest ih =>
    by_cases hfirst : first.table = lock.table
    · obtain rfl : first = old := by simpa [hfirst] using h
      simp [enter, hfirst, hfree, hold]
    · rw [List.find?_cons_of_neg (by simpa using hfirst)] at h
      rw [enter, if_neg hfirst, enter, if_neg (by rwa [htable]), ih h]

/-- A changed lock put back leaves the lock table as it was. -/
lemma Sound.put_put (sound : t.Sound) (hfree : lock.isFree = false) :
    (t.put lock).put (t.lockOf lock.table) = t := by
  obtain ⟨locks⟩ := t
  refine congrArg LockTable.mk ?_
  have htable := table_lockOf ⟨locks⟩ lock.table
  cases hfound : LockTable.find? ⟨locks⟩ lock.table with
  | none =>
    have hvacant : LockTable.lockOf ⟨locks⟩ lock.table = .vacant lock.table := by
      rw [LockTable.lockOf, hfound, Option.getD_none]
    refine enter_enter_of_absent htable (by rw [hvacant]; rfl) hfree fun other hother heq => ?_
    have := List.find?_eq_none.mp hfound other hother
    exact this (by simpa using heq)
  | some old =>
    have hold : LockTable.lockOf ⟨locks⟩ lock.table = old := by
      rw [LockTable.lockOf, hfound, Option.getD_some]
    rw [hold] at htable ⊢
    exact enter_enter_of_listed htable (sound.held old (find?_eq_some hfound).1) hfree hfound

/-! ## The entry of a table -/

/-- A table whose lock is not free needs no new entry. -/
lemma withEntry_eq_self {key : String} (h : (t.lockOf key).isFree = false) :
    t.withEntry key = t := by
  unfold withEntry
  cases hfound : t.find? key with
  | none => simp [lockOf, hfound, TableLock.isFree, TableLock.vacant] at h
  | some lock => rfl

/-- An entry for a table leaves its lock as it was. -/
lemma lockOf_withEntry (t : LockTable) (key : String) :
    (t.withEntry key).lockOf key = t.lockOf key := by
  unfold withEntry
  cases hfound : t.find? key with
  | none =>
    have hlocks : t.locks.find? (·.table == key) = none := hfound
    simp [lockOf, find?, hlocks, TableLock.vacant]
  | some lock => rfl

/-- A lock is entered in the place of a last entry of its table. -/
lemma enter_append_vacant {locks : List TableLock} (h : ∀ other ∈ locks, other.table ≠ lock.table) :
    enter lock (locks ++ [.vacant lock.table]) = enter lock locks := by
  induction locks with
  | nil => simp [enter, TableLock.vacant]
  | cons first rest ih =>
    have hfirst : first.table ≠ lock.table := h first List.mem_cons_self
    rw [List.cons_append, enter, if_neg hfirst, enter, if_neg hfirst,
      ih fun other hother => h other (List.mem_cons_of_mem _ hother)]

/-- A lock put in the place of a new entry is put as without the entry. -/
lemma put_withEntry (t : LockTable) (lock : TableLock) :
    (t.withEntry lock.table).put lock = t.put lock := by
  unfold withEntry
  cases hfound : t.find? lock.table with
  | none =>
    refine congrArg LockTable.mk (enter_append_vacant fun other hother heq => ?_)
    exact List.find?_eq_none.mp hfound other hother (by simpa using heq)
  | some lock => rfl

/-! ## The operations -/

/-- A guarded change is made exactly when the guard does not refuse it. -/
lemma guarded_eq_ok {refuses : Bool} {error : Error} {old new : LockTable} :
    (if refuses then ((.error error : Result Unit), old) else (.ok (), new)) = (.ok (), t') ↔
      refuses = false ∧ t' = new := by
  cases refuses <;> simp [eq_comm]

/-- Shared access is refused while another session writes, and then nothing has changed: the entry
that stood ready was there before. -/
lemma tryShared_eq (t : LockTable) (session : Nat) (table : String) :
    t.tryShared session table =
      if (t.lockOf (Text.lowercase table)).hasOtherWriter session then (.error (.locked table), t)
      else (.ok (), t.put { t.lockOf (Text.lowercase table) with
        readers := TableLock.addReader session (t.lockOf (Text.lowercase table)).readers }) := by
  have htable := table_lockOf t (Text.lowercase table)
  have hlock := lockOf_withEntry t (Text.lowercase table)
  have hput := put_withEntry t { t.lockOf (Text.lowercase table) with
    readers := TableLock.addReader session (t.lockOf (Text.lowercase table)).readers }
  change (if ((t.withEntry (Text.lowercase table)).lockOf (Text.lowercase table)).hasOtherWriter
    session then _ else _) = _
  rw [hlock]
  split
  · rename_i hother
    rw [withEntry_eq_self (TableLock.isFree_eq_false_of_writes hother)]
  · rw [← hput, htable]
    exact congrArg (fun lock : TableLock => ((.ok () : Result Unit), (t.withEntry _).put
      { lock with readers := TableLock.addReader session lock.readers })) hlock

/-- Shared access is had when no other session writes. -/
lemma tryShared_eq_ok {table : String} :
    t.tryShared session table = (.ok (), t') ↔
      (t.lockOf (Text.lowercase table)).hasOtherWriter session = false ∧
        t' = t.put { t.lockOf (Text.lowercase table) with
          readers := TableLock.addReader session (t.lockOf (Text.lowercase table)).readers } := by
  rw [tryShared_eq, guarded_eq_ok]

/-- Shared access that is refused changes nothing. -/
lemma eq_of_tryShared_refused {table : String} {error : Error}
    (refused : t.tryShared session table = (.error error, t')) : t' = t := by
  rw [tryShared_eq] at refused
  split at refused
  · exact (Prod.mk.inj refused).2.symm
  · simp at refused

/-- Taking shared access keeps the lock table sound. -/
lemma Sound.tryShared (sound : t.Sound) {table : String}
    (taken : t.tryShared session table = (.ok (), t')) : t'.Sound := by
  obtain ⟨hfree, rfl⟩ := tryShared_eq_ok.mp taken
  exact sound.put ((sound.lockOf _).addReader hfree)

/-- Exclusive access is refused while another session reads or writes, and then nothing has
changed. -/
lemma tryExclusive_eq (t : LockTable) (session : Nat) (table : String) :
    t.tryExclusive session table =
      if (t.lockOf (Text.lowercase table)).hasOtherWriter session ||
          (t.lockOf (Text.lowercase table)).hasOtherReader session then (.error (.locked table), t)
      else (.ok (), t.put { t.lockOf (Text.lowercase table) with writer := some session }) := by
  have htable := table_lockOf t (Text.lowercase table)
  have hlock := lockOf_withEntry t (Text.lowercase table)
  have hput := put_withEntry t { t.lockOf (Text.lowercase table) with writer := some session }
  change (if ((t.withEntry (Text.lowercase table)).lockOf (Text.lowercase table)).hasOtherWriter
    session || ((t.withEntry (Text.lowercase table)).lockOf (Text.lowercase table)).hasOtherReader
    session then _ else _) = _
  rw [hlock]
  split
  · rename_i hother
    rw [Bool.or_eq_true] at hother
    rw [withEntry_eq_self (hother.elim TableLock.isFree_eq_false_of_writes
      TableLock.isFree_eq_false_of_reads)]
  · rw [← hput, htable]
    exact congrArg (fun lock : TableLock => ((.ok () : Result Unit), (t.withEntry _).put
      { lock with writer := some session })) hlock

/-- Exclusive access is had when no other session reads or writes. -/
lemma tryExclusive_eq_ok {table : String} :
    t.tryExclusive session table = (.ok (), t') ↔
      ((t.lockOf (Text.lowercase table)).hasOtherWriter session = false ∧
        (t.lockOf (Text.lowercase table)).hasOtherReader session = false) ∧
        t' = t.put { t.lockOf (Text.lowercase table) with writer := some session } := by
  rw [tryExclusive_eq, guarded_eq_ok, Bool.or_eq_false_iff]

/-- Exclusive access that is refused changes nothing. -/
lemma eq_of_tryExclusive_refused {table : String} {error : Error}
    (refused : t.tryExclusive session table = (.error error, t')) : t' = t := by
  rw [tryExclusive_eq] at refused
  split at refused
  · exact (Prod.mk.inj refused).2.symm
  · simp at refused

/-- Shared access is given back by a session that has a count. -/
lemma Sound.tryReturnShared_eq_ok (sound : t.Sound) {table : String} :
    t.tryReturnShared session table = (.ok (), t') ↔
      0 < (t.lockOf (Text.lowercase table)).sharedCount session ∧
        t' = t.put { t.lockOf (Text.lowercase table) with
          readers := TableLock.dropReader session (t.lockOf (Text.lowercase table)).readers } := by
  rw [TableLock.sharedCount_eq, ← (sound.lockOf (Text.lowercase table)).readers.exists_iff]
  unfold tryReturnShared
  cases hfound : t.find? (Text.lowercase table) with
  | none => simp [LockTable.lockOf, hfound, TableLock.vacant]
  | some lock =>
    simp only [LockTable.lockOf, hfound, Option.getD_some]
    by_cases hany : lock.readers.any (·.1 == session) = true
    · have hex : ∃ reader ∈ lock.readers, reader.1 = session := by simpa using hany
      rw [if_pos hany, Prod.mk.injEq, eq_comm (a := t')]
      exact and_congr_left fun _ => iff_of_true rfl hex
    · have hex : ¬ ∃ reader ∈ lock.readers, reader.1 = session := by simpa using hany
      rw [if_neg hany]
      exact iff_of_false (by simp) fun h => hex h.1

/-- Shared access that is not given back leaves everything as it was. -/
lemma eq_of_tryReturnShared_refused {table : String} {error : Error}
    (refused : t.tryReturnShared session table = (.error error, t')) : t' = t := by
  unfold tryReturnShared at refused
  split at refused
  · exact (Prod.mk.inj refused).2.symm
  · split at refused
    · simp at refused
    · exact (Prod.mk.inj refused).2.symm

/-- Exclusive access is given back by the session that has it. -/
lemma tryReturnExclusive_eq_ok {table : String} :
    t.tryReturnExclusive session table = (.ok (), t') ↔
      (t.lockOf (Text.lowercase table)).writer = some session ∧
        t' = t.put { t.lockOf (Text.lowercase table) with writer := none } := by
  unfold tryReturnExclusive
  cases hfound : t.find? (Text.lowercase table) with
  | none => simp [lockOf, hfound, TableLock.vacant]
  | some lock =>
    simp only [lockOf, hfound, Option.getD_some]
    by_cases hwriter : lock.writer = some session
    · simp [hwriter, eq_comm]
    · simp [hwriter]

/-- Exclusive access that is not given back leaves everything as it was. -/
lemma eq_of_tryReturnExclusive_refused {table : String} {error : Error}
    (refused : t.tryReturnExclusive session table = (.error error, t')) : t' = t := by
  unfold tryReturnExclusive at refused
  split at refused
  · split at refused
    · simp at refused
    · exact (Prod.mk.inj refused).2.symm
  · exact (Prod.mk.inj refused).2.symm

/-- What a session gives back altogether is taken from every lock. -/
lemma Sound.lockOf_returnAll (sound : t.Sound) (session : Nat) (key : String) :
    (t.returnAll session).lockOf key = (t.lockOf key).without session := by
  obtain ⟨locks⟩ := t
  have apart : (locks.map TableLock.table).Nodup := sound.apart
  clear sound
  simp only [LockTable.lockOf, find?, returnAll]
  induction locks with
  | nil => rfl
  | cons first rest ih =>
    rw [List.map_cons, List.nodup_cons] at apart
    specialize ih apart.2
    by_cases hfirst : first.table = key
    · have hsame : (first.without session).table = key := hfirst
      rw [List.find?_cons_of_pos (by simpa using hfirst), Option.getD_some, List.map_cons,
        List.filter_cons]
      split
      · rw [List.find?_cons_of_pos (by simpa using hsame), Option.getD_some]
      · -- nothing is left of the lock, and no other lock has the table
        rename_i hfree
        have hrest : rest.find? (·.table == key) = none := by
          refine List.find?_eq_none.mpr fun other hother heq => apart.1 ?_
          exact List.mem_map.mpr ⟨other, hother, by rw [hfirst]; simpa using heq⟩
        have hvacant : first.without session = .vacant (first.without session).table :=
          TableLock.eq_vacant_of_isFree (by simpa using hfree)
        rw [ih, hrest, Option.getD_none, hvacant, hsame]
        simp [TableLock.without, TableLock.vacant]
    · have hother : ¬ (first.without session).table = key := hfirst
      rw [List.find?_cons_of_neg (by simpa using hfirst), List.map_cons, List.filter_cons]
      split
      · rw [List.find?_cons_of_neg (by simpa using hother), ih]
      · exact ih

/-- Giving everything back keeps the lock table sound. -/
lemma Sound.returnAll (sound : t.Sound) (session : Nat) : (t.returnAll session).Sound where
  apart := by
    have htables : (t.locks.map (TableLock.without session)).map TableLock.table =
        t.locks.map TableLock.table := by
      rw [List.map_map]
      rfl
    refine (List.filter_sublist.map TableLock.table).nodup ?_
    rw [htables]
    exact sound.apart
  locks lock hlock := by
    obtain ⟨old, hold, rfl⟩ := List.mem_map.mp (List.mem_filter.mp hlock).1
    exact (sound.locks old hold).without session
  held lock hlock := by simpa using (List.mem_filter.mp hlock).2

/-- A session holds nothing when it holds none of the listed tables. -/
lemma checkHoldsNone_eq_ok :
    t.checkHoldsNone session = .ok () ↔ ∀ lock ∈ t.locks, lock.isHeldBy session = false := by
  have hempty : (t.heldBy session).isEmpty = true ↔
      ∀ lock ∈ t.locks, lock.isHeldBy session = false := by
    rw [List.isEmpty_iff_length_eq_zero, heldBy, List.length_mergeSort, List.length_map,
      List.length_eq_zero_iff, List.filter_eq_nil_iff]
    simp
  rw [← hempty]
  unfold checkHoldsNone
  dsimp only
  split
  · rename_i h
    simp [h]
  · rename_i h
    simp [h]

/-- A session holds nothing when it holds no table at all. -/
lemma Sound.holdsNone_iff (sound : t.Sound) :
    t.checkHoldsNone session = .ok () ↔ ∀ key, ¬ (t.lockOf key).Holds session := by
  rw [checkHoldsNone_eq_ok]
  constructor
  · intro h key hholds
    have hfree := (sound.lockOf key).isFree_eq_false_iff.mpr ⟨session, hholds⟩
    obtain ⟨lock, hlock, rfl⟩ := (sound.listed_iff key).mpr hfree
    rw [sound.lockOf_eq hlock, ← (sound.locks lock hlock).isHeldBy_iff, h lock hlock] at hholds
    exact absurd hholds (by simp)
  · intro h lock hlock
    rw [← Bool.not_eq_true, (sound.locks lock hlock).isHeldBy_iff, ← sound.lockOf_eq hlock]
    exact h lock.table

end LockTable

end RelQuery
