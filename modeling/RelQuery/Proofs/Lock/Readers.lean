import Mathlib.Data.List.Nodup
import Mathlib.Tactic.Lemma
import RelQuery.Lock.Table
import RelQuery.Proofs.Result

/-!
# The lock of one table

The lock of a table is sound when it names every reader once and with a positive count, and when a
session that writes reads alone.  On sound locks the counts say everything: whether a session reads,
what taking and giving back shared access does, and whether anybody holds the table at all.
-/

namespace RelQuery

/-! ## Readers of one table -/

namespace TableLock

variable {session other : Nat} {readers : List (Nat × Nat)} {lock : TableLock}

/-- How often a list of readers names a session. -/
def countIn (readers : List (Nat × Nat)) (session : Nat) : Nat :=
  ((readers.find? (·.1 == session)).map Prod.snd).getD 0

/-- The count of a lock is that of its readers. -/
lemma sharedCount_eq (lock : TableLock) (session : Nat) :
    lock.sharedCount session = countIn lock.readers session := rfl

/-- The count of the first reader, or that among the others. -/
lemma countIn_cons (reader : Nat × Nat) (rest : List (Nat × Nat)) (session : Nat) :
    countIn (reader :: rest) session =
      if reader.1 = session then reader.2 else countIn rest session := by
  by_cases h : reader.1 = session <;> simp [countIn, h]

/-- A session that is no reader has no count. -/
lemma countIn_eq_zero (h : ∀ reader ∈ readers, reader.1 ≠ session) :
    countIn readers session = 0 := by
  have hnone : readers.find? (·.1 == session) = none :=
    List.find?_eq_none.mpr fun reader hreader => by simpa using h reader hreader
  simp [countIn, hnone]

/-- A list of readers names every session once, with a positive count. -/
structure SoundReaders (readers : List (Nat × Nat)) : Prop where
  apart : (readers.map Prod.fst).Nodup
  positive : ∀ reader ∈ readers, 0 < reader.2

/-- The readers after the first are sound. -/
lemma SoundReaders.tail {reader : Nat × Nat} {rest : List (Nat × Nat)}
    (h : SoundReaders (reader :: rest)) : SoundReaders rest where
  apart := (List.nodup_cons.mp h.apart).2
  positive other hother := h.positive other (List.mem_cons_of_mem _ hother)

/-- The first reader is not among the others. -/
lemma SoundReaders.head_notMem {reader : Nat × Nat} {rest : List (Nat × Nat)}
    (h : SoundReaders (reader :: rest)) : ∀ other ∈ rest, other.1 ≠ reader.1 := by
  intro other hother heq
  exact (List.nodup_cons.mp h.apart).1 (heq ▸ List.mem_map_of_mem hother)

/-- The readers are the sessions with a count. -/
lemma SoundReaders.exists_iff (h : SoundReaders readers) :
    (∃ reader ∈ readers, reader.1 = session) ↔ 0 < countIn readers session := by
  induction readers with
  | nil => simp [countIn]
  | cons reader rest ih =>
    rw [countIn_cons]
    split
    · rename_i hsame
      exact ⟨fun _ => h.positive reader List.mem_cons_self,
        fun _ => ⟨reader, List.mem_cons_self, hsame⟩⟩
    · rename_i hother
      rw [← ih h.tail]
      simp [hother]

/-- One more count for a session. -/
lemma countIn_addReader (readers : List (Nat × Nat)) (session other : Nat) :
    countIn (addReader session readers) other =
      if other = session then countIn readers session + 1 else countIn readers other := by
  induction readers with
  | nil =>
    by_cases h : other = session
    · simp [addReader, countIn, h]
    · simp [addReader, countIn, h, Ne.symm h]
  | cons reader rest ih =>
    obtain ⟨id, count⟩ := reader
    rw [addReader]
    split
    · rename_i hid
      subst hid
      by_cases h : other = id <;> simp [countIn_cons, h, eq_comm]
    · rename_i hid
      rw [countIn_cons, ih, countIn_cons, countIn_cons]
      by_cases h : other = session
      · subst h
        simp [hid]
      · simp [h]

/-- A reader after one more count is an old one or the session. -/
lemma mem_addReader {reader : Nat × Nat} (h : reader ∈ addReader session readers) :
    reader.1 = session ∨ reader ∈ readers := by
  induction readers with
  | nil =>
    obtain rfl := List.mem_singleton.mp h
    exact Or.inl rfl
  | cons first rest ih =>
    obtain ⟨id, count⟩ := first
    rw [addReader] at h
    split at h
    · rename_i hid
      rcases List.mem_cons.mp h with rfl | h
      · exact Or.inl hid
      · exact Or.inr (List.mem_cons_of_mem _ h)
    · rcases List.mem_cons.mp h with rfl | h
      · exact Or.inr List.mem_cons_self
      · exact (ih h).imp_right (List.mem_cons_of_mem _)

/-- One more count keeps the readers sound. -/
lemma SoundReaders.addReader (h : SoundReaders readers) (session : Nat) :
    SoundReaders (addReader session readers) := by
  induction readers with
  | nil => exact ⟨by simp [TableLock.addReader], by simp [TableLock.addReader]⟩
  | cons reader rest ih =>
    obtain ⟨id, count⟩ := reader
    rw [TableLock.addReader]
    split
    · refine ⟨h.apart, fun other hother => ?_⟩
      rcases List.mem_cons.mp hother with rfl | hother
      · exact Nat.succ_pos count
      · exact h.tail.positive other hother
    · rename_i hid
      have sound := ih h.tail
      refine ⟨List.nodup_cons.mpr ⟨fun hmem => ?_, sound.apart⟩, fun other hother => ?_⟩
      · obtain ⟨other, hother, heq⟩ := List.mem_map.mp hmem
        rcases mem_addReader hother with hsession | hother
        · exact hid (heq.symm.trans hsession)
        · exact h.head_notMem other hother heq
      · rcases List.mem_cons.mp hother with rfl | hother
        · exact h.positive _ List.mem_cons_self
        · exact sound.positive other hother

/-- One count less for a session. -/
lemma SoundReaders.countIn_dropReader (h : SoundReaders readers) (session other : Nat) :
    countIn (dropReader session readers) other =
      if other = session then countIn readers session - 1 else countIn readers other := by
  induction readers with
  | nil => simp [dropReader, countIn]
  | cons reader rest ih =>
    obtain ⟨id, count⟩ := reader
    have hpositive : 0 < count := h.positive _ List.mem_cons_self
    rw [dropReader]
    split
    · rename_i hid
      subst hid
      split
      · by_cases h : other = id <;> simp [countIn_cons, h, eq_comm]
      · have hnone : countIn rest id = 0 := countIn_eq_zero h.head_notMem
        by_cases hother : other = id
        · subst hother
          rw [hnone]
          simp only [countIn_cons, ↓reduceIte]
          omega
        · simp [countIn_cons, hother, eq_comm]
    · rename_i hid
      rw [countIn_cons, ih h.tail, countIn_cons, countIn_cons]
      by_cases hother : other = session
      · subst hother
        simp [hid]
      · simp [hother]

/-- A reader after one count less is an old one up to its count. -/
lemma mem_dropReader {reader : Nat × Nat} (h : reader ∈ dropReader session readers) :
    ∃ old ∈ readers, old.1 = reader.1 := by
  induction readers with
  | nil => simp [dropReader] at h
  | cons first rest ih =>
    obtain ⟨id, count⟩ := first
    rw [dropReader] at h
    split at h
    · split at h
      · rcases List.mem_cons.mp h with rfl | h
        · exact ⟨_, List.mem_cons_self, rfl⟩
        · exact ⟨reader, List.mem_cons_of_mem _ h, rfl⟩
      · exact ⟨reader, List.mem_cons_of_mem _ h, rfl⟩
    · rcases List.mem_cons.mp h with rfl | h
      · exact ⟨_, List.mem_cons_self, rfl⟩
      · obtain ⟨old, hold, heq⟩ := ih h
        exact ⟨old, List.mem_cons_of_mem _ hold, heq⟩

/-- One count less keeps the readers sound. -/
lemma SoundReaders.dropReader (h : SoundReaders readers) (session : Nat) :
    SoundReaders (dropReader session readers) := by
  induction readers with
  | nil => exact h
  | cons reader rest ih =>
    obtain ⟨id, count⟩ := reader
    rw [TableLock.dropReader]
    split
    · split
      · rename_i hcount
        refine ⟨h.apart, fun other hother => ?_⟩
        rcases List.mem_cons.mp hother with rfl | hother
        · exact Nat.sub_pos_of_lt hcount
        · exact h.tail.positive other hother
      · exact h.tail
    · have sound := ih h.tail
      refine ⟨List.nodup_cons.mpr ⟨fun hmem => ?_, sound.apart⟩, fun other hother => ?_⟩
      · obtain ⟨other, hother, heq⟩ := List.mem_map.mp hmem
        obtain ⟨old, hold, hsame⟩ := mem_dropReader hother
        exact h.head_notMem old hold (hsame.trans heq)
      · rcases List.mem_cons.mp hother with rfl | hother
        · exact h.positive _ List.mem_cons_self
        · exact sound.positive other hother

/-- A count given back undoes its taking. -/
lemma SoundReaders.dropReader_addReader (h : SoundReaders readers) (session : Nat) :
    TableLock.dropReader session (TableLock.addReader session readers) = readers := by
  induction readers with
  | nil => simp [TableLock.addReader, TableLock.dropReader]
  | cons reader rest ih =>
    obtain ⟨id, count⟩ := reader
    have hpositive : 0 < count := h.positive _ List.mem_cons_self
    by_cases hid : id = session
    · simp [TableLock.addReader, TableLock.dropReader, hid, hpositive]
    · simp [TableLock.addReader, TableLock.dropReader, hid, ih h.tail]

/-- The counts without those of a session. -/
lemma countIn_filter (readers : List (Nat × Nat)) (session other : Nat) :
    countIn (readers.filter (·.1 != session)) other =
      if other = session then 0 else countIn readers other := by
  by_cases h : other = session
  · rw [if_pos h]
    refine countIn_eq_zero fun reader hreader => ?_
    rw [h]
    simpa using (List.mem_filter.mp hreader).2
  · rw [if_neg h]
    induction readers with
    | nil => rfl
    | cons reader rest ih =>
      rw [List.filter_cons, countIn_cons]
      split
      · rw [countIn_cons, ih]
      · rename_i hsession
        obtain rfl : reader.1 = session := by simpa using hsession
        rw [ih, if_neg (Ne.symm h)]

/-! ## One table -/

/-- The readers are sound, and a session that writes has no other session beside it. -/
structure Sound (lock : TableLock) : Prop where
  readers : SoundReaders lock.readers
  alone : ∀ session, lock.writer = some session → ∀ reader ∈ lock.readers, reader.1 = session

/-- A table that nobody holds is sound. -/
lemma sound_vacant (table : String) : (vacant table).Sound where
  readers := ⟨List.nodup_nil, by simp [vacant]⟩
  alone := by simp [vacant]

/-- A free lock is the vacant one. -/
lemma eq_vacant_of_isFree (h : lock.isFree = true) : lock = vacant lock.table := by
  unfold isFree at h
  rw [Bool.and_eq_true, List.isEmpty_iff, Option.isNone_iff_eq_none] at h
  obtain ⟨table, readers, writer⟩ := lock
  obtain ⟨rfl, rfl⟩ := h
  rfl

/-- A lock that another session writes is not free. -/
lemma isFree_eq_false_of_writes (h : lock.hasOtherWriter session = true) : lock.isFree = false := by
  by_contra hfree
  have hvacant : lock = vacant lock.table := eq_vacant_of_isFree (by simpa using hfree)
  rw [hvacant] at h
  simp [hasOtherWriter, vacant] at h

/-- A lock that another session reads is not free. -/
lemma isFree_eq_false_of_reads (h : lock.hasOtherReader session = true) : lock.isFree = false := by
  by_contra hfree
  have hvacant : lock = vacant lock.table := eq_vacant_of_isFree (by simpa using hfree)
  rw [hvacant] at h
  simp [hasOtherReader, vacant] at h

/-- The session has shared or exclusive access. -/
def Holds (lock : TableLock) (session : Nat) : Prop :=
  0 < lock.sharedCount session ∨ lock.writer = some session

/-- A lock is free when nobody holds it. -/
lemma Sound.isFree_eq_false_iff (sound : lock.Sound) :
    lock.isFree = false ↔ ∃ session, lock.Holds session := by
  constructor
  · intro h
    unfold isFree at h
    rw [Bool.and_eq_false_iff] at h
    rcases h with h | h
    · obtain ⟨reader, hreader⟩ := List.exists_mem_of_ne_nil _ (List.isEmpty_eq_false_iff.mp h)
      exact ⟨reader.1, Or.inl (sound.readers.exists_iff.mp ⟨reader, hreader, rfl⟩)⟩
    · obtain ⟨session, hsession⟩ := Option.isSome_iff_exists.mp (by simpa using h)
      exact ⟨session, Or.inr hsession⟩
  · rintro ⟨session, h⟩
    by_contra hfree
    rw [Bool.not_eq_false] at hfree
    rw [eq_vacant_of_isFree hfree] at h
    simp [Holds, vacant, sharedCount] at h

/-- Another session writes exactly when the writer is another session. -/
lemma hasOtherWriter_eq_false_iff :
    lock.hasOtherWriter session = false ↔ ∀ other, lock.writer = some other → other = session := by
  unfold hasOtherWriter
  cases lock.writer with
  | none => simp
  | some writer => simp

/-- Another session reads exactly when it has a count. -/
lemma Sound.hasOtherReader_eq_false_iff (sound : lock.Sound) :
    lock.hasOtherReader session = false ↔
      ∀ other, other ≠ session → lock.sharedCount other = 0 := by
  unfold hasOtherReader
  rw [List.any_eq_false]
  constructor
  · intro h other hne
    by_contra hcount
    obtain ⟨reader, hreader, rfl⟩ := sound.readers.exists_iff.mpr (Nat.pos_of_ne_zero hcount)
    exact h reader hreader (by simpa [hne] using sound.readers.positive reader hreader)
  · intro h reader hreader hother
    rw [Bool.and_eq_true, bne_iff_ne] at hother
    have hcount := sound.readers.exists_iff.mp ⟨reader, hreader, rfl⟩
    rw [← sharedCount_eq, h reader.1 hother.1] at hcount
    exact absurd hcount (Nat.lt_irrefl 0)

/-- The session holds the table when it is a reader or writes. -/
lemma Sound.isHeldBy_iff (sound : lock.Sound) :
    lock.isHeldBy session = true ↔ lock.Holds session := by
  unfold isHeldBy Holds
  rw [Bool.or_eq_true, List.any_eq_true, sharedCount_eq, ← sound.readers.exists_iff]
  simp

/-- Shared access for a session beside which nobody else writes. -/
lemma Sound.addReader (sound : lock.Sound) (h : lock.hasOtherWriter session = false) :
    TableLock.Sound { lock with readers := addReader session lock.readers } where
  readers := sound.readers.addReader session
  alone writer hwriter reader hreader := by
    rcases mem_addReader hreader with hsession | hreader
    · rw [hsession, hasOtherWriter_eq_false_iff.mp h writer hwriter]
    · exact sound.alone writer hwriter reader hreader

/-- Shared access given back. -/
lemma Sound.dropReader (sound : lock.Sound) (session : Nat) :
    TableLock.Sound { lock with readers := dropReader session lock.readers } where
  readers := sound.readers.dropReader session
  alone writer hwriter reader hreader := by
    obtain ⟨old, hold, heq⟩ := mem_dropReader hreader
    rw [← heq]
    exact sound.alone writer hwriter old hold

/-- Exclusive access for a session beside which nobody else reads. -/
lemma Sound.setWriter (sound : lock.Sound) (h : lock.hasOtherReader session = false) :
    TableLock.Sound { lock with writer := some session } where
  readers := sound.readers
  alone writer hwriter reader hreader := by
    obtain rfl : session = writer := Option.some.inj hwriter
    by_contra hne
    have hcount := sound.readers.exists_iff.mp ⟨reader, hreader, rfl⟩
    rw [← sharedCount_eq, sound.hasOtherReader_eq_false_iff.mp h reader.1 hne] at hcount
    exact absurd hcount (Nat.lt_irrefl 0)

/-- Exclusive access given back. -/
lemma Sound.clearWriter (sound : lock.Sound) :
    TableLock.Sound { lock with writer := none } where
  readers := sound.readers
  alone := by simp

/-- The lock without what a session holds. -/
lemma Sound.without (sound : lock.Sound) (session : Nat) : (lock.without session).Sound where
  readers :=
    ⟨(List.filter_sublist.map Prod.fst).nodup sound.readers.apart,
      fun reader hreader => sound.readers.positive reader (List.mem_filter.mp hreader).1⟩
  alone writer hwriter reader hreader := by
    have hold : lock.writer = some writer := by
      simp only [TableLock.without] at hwriter
      split at hwriter
      · simp at hwriter
      · exact hwriter
    exact sound.alone writer hold reader (List.mem_filter.mp hreader).1

end TableLock

end RelQuery
