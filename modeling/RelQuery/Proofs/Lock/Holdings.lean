import Mathlib.Logic.Function.Basic
import Mathlib.Tactic.SplitIfs
import RelQuery.Proofs.Lock.Entries

/-!
# What sessions hold

A lock table means holdings: for every table a count per session for shared access, and at most one
session with exclusive access.  Each request is granted under a condition on the holdings alone and
then changes the holdings of the requesting session alone.  The lock table answers every course of
requests as the holdings do, and lists a table exactly while somebody holds it.
-/

namespace RelQuery

/-! ## Requests -/

/-- A request of a session to the lock table. -/
inductive LockTable.Request where
  | takeShared (session : Nat) (table : String)
  | returnShared (session : Nat) (table : String)
  | takeExclusive (session : Nat) (table : String)
  | returnExclusive (session : Nat) (table : String)
  | returnAll (session : Nat)
  | checkHoldsNone (session : Nat)

namespace LockTable.Request

/-- A request in place: whether it is granted, and the lock table after it. -/
def attempt (t : LockTable) : Request → Result Unit × LockTable
  | takeShared session table => t.tryShared session table
  | returnShared session table => t.tryReturnShared session table
  | takeExclusive session table => t.tryExclusive session table
  | returnExclusive session table => t.tryReturnExclusive session table
  | returnAll session => (.ok (), t.returnAll session)
  | checkHoldsNone session => (t.checkHoldsNone session, t)

/-- The answers to requests one after the other, and the state after them. -/
def serve {σ : Type} (answer : σ → Request → Bool × σ) (state : σ) : List Request → List Bool × σ
  | [] => ([], state)
  | request :: rest =>
    let others := serve answer (answer state request).2 rest
    ((answer state request).1 :: others.1, others.2)

end LockTable.Request

/-- Whether the lock table grants a request, and the lock table after it. -/
def LockTable.answer (t : LockTable) (request : Request) : Bool × LockTable :=
  ((request.attempt t).1.isOk, (request.attempt t).2)

/-! ## Holdings -/

/-- What sessions hold of the tables, which go by the lower case of their names. -/
@[ext]
structure Holdings where
  /-- How often a session holds shared access to a table. -/
  shared : String → Nat → Nat
  /-- The session that holds exclusive access to a table. -/
  exclusive : String → Option Nat

namespace Holdings

/-- Nobody holds anything. -/
def none : Holdings where
  shared _ _ := 0
  exclusive _ := Option.none

/-- The session holds the table, shared or exclusively. -/
def Holds (h : Holdings) (table : String) (session : Nat) : Prop :=
  0 < h.shared table session ∨ h.exclusive table = some session

/-- The request is granted: access is refused to what another session writes, exclusive access also
to what another session reads, only what is held is given back, and a check passes for a session
that holds nothing. -/
def Grants (h : Holdings) : LockTable.Request → Prop
  | .takeShared session table =>
    ∀ other, other ≠ session → h.exclusive (Text.lowercase table) ≠ some other
  | .returnShared session table => 0 < h.shared (Text.lowercase table) session
  | .takeExclusive session table =>
    ∀ other, other ≠ session → ¬ h.Holds (Text.lowercase table) other
  | .returnExclusive session table => h.exclusive (Text.lowercase table) = some session
  | .returnAll _ => True
  | .checkHoldsNone session => ∀ table, ¬ h.Holds table session

/-- The holdings with another count for one session and table. -/
def setShared (h : Holdings) (table : String) (session count : Nat) : Holdings where
  shared := Function.update h.shared table (Function.update (h.shared table) session count)
  exclusive := h.exclusive

/-- The holdings with another exclusive holder of one table. -/
def setExclusive (h : Holdings) (table : String) (holder : Option Nat) : Holdings where
  shared := h.shared
  exclusive := Function.update h.exclusive table holder

/-- The holdings without those of a session. -/
def without (h : Holdings) (session : Nat) : Holdings where
  shared table other := if other = session then 0 else h.shared table other
  exclusive table := if h.exclusive table = some session then Option.none else h.exclusive table

/-- The holdings after a request that is granted. -/
def after (h : Holdings) : LockTable.Request → Holdings
  | .takeShared session table =>
    h.setShared (Text.lowercase table) session (h.shared (Text.lowercase table) session + 1)
  | .returnShared session table =>
    h.setShared (Text.lowercase table) session (h.shared (Text.lowercase table) session - 1)
  | .takeExclusive session table => h.setExclusive (Text.lowercase table) (some session)
  | .returnExclusive _ table => h.setExclusive (Text.lowercase table) Option.none
  | .returnAll session => h.without session
  | .checkHoldsNone _ => h

open Classical in
/-- Whether a request is granted, and the holdings after it: a refused request changes nothing. -/
noncomputable def answer (h : Holdings) (request : LockTable.Request) : Bool × Holdings :=
  if h.Grants request then (true, h.after request) else (false, h)

end Holdings

namespace LockTable

variable {t t' : LockTable} {session : Nat} {request : Request}

/-- What the lock table says that sessions hold. -/
def holdings (t : LockTable) : Holdings where
  shared table session := (t.lockOf table).sharedCount session
  exclusive table := (t.lockOf table).writer

/-! ## Steps -/

/-- The holdings after one lock was changed. -/
lemma Sound.holdings_put (sound : t.Sound) {key : String} (readers : List (Nat × Nat))
    (writer : Option Nat) :
    (t.put { t.lockOf key with readers, writer }).holdings =
      ⟨Function.update t.holdings.shared key (TableLock.countIn readers),
        Function.update t.holdings.exclusive key writer⟩ := by
  have hkey := table_lockOf t key
  ext table
  · simp only [holdings, sound.lockOf_put, hkey, Function.update_apply]
    split <;> rfl
  · simp only [holdings, sound.lockOf_put, hkey, Function.update_apply]
    split <;> rfl

/-- A refused request leaves the lock table as it was. -/
lemma Request.eq_of_refused {error : Error} (refused : request.attempt t = (.error error, t')) :
    t' = t := by
  cases request with
  | takeShared session table => exact eq_of_tryShared_refused refused
  | returnShared session table => exact eq_of_tryReturnShared_refused refused
  | takeExclusive session table => exact eq_of_tryExclusive_refused refused
  | returnExclusive session table => exact eq_of_tryReturnExclusive_refused refused
  | returnAll session => simp [Request.attempt] at refused
  | checkHoldsNone session => exact (Prod.mk.inj refused).2.symm

/-- A granted request keeps the lock table sound. -/
lemma Sound.attempt (sound : t.Sound) (granted : request.attempt t = (.ok (), t')) : t'.Sound := by
  cases request with
  | takeShared session table => exact sound.tryShared granted
  | returnShared session table =>
    obtain ⟨-, rfl⟩ := sound.tryReturnShared_eq_ok.mp granted
    exact sound.put ((sound.lockOf _).dropReader session)
  | takeExclusive session table =>
    obtain ⟨⟨-, hreader⟩, rfl⟩ := tryExclusive_eq_ok.mp granted
    exact sound.put ((sound.lockOf _).setWriter hreader)
  | returnExclusive session table =>
    obtain ⟨-, rfl⟩ := tryReturnExclusive_eq_ok.mp granted
    exact sound.put (sound.lockOf _).clearWriter
  | returnAll session =>
    obtain rfl := (Prod.mk.inj granted).2
    exact sound.returnAll session
  | checkHoldsNone session =>
    obtain rfl := (Prod.mk.inj granted).2
    exact sound

/-- A request is granted when the holdings grant it. -/
lemma Sound.granted_iff (sound : t.Sound) (request : Request) :
    (∃ t', request.attempt t = (.ok (), t')) ↔ t.holdings.Grants request := by
  cases request with
  | takeShared session table =>
    simp only [Request.attempt, tryShared_eq_ok, TableLock.hasOtherWriter_eq_false_iff]
    exact ⟨fun ⟨_, h, _⟩ other hne hw => hne (h other hw),
      fun h => ⟨_, fun other hw => by_contra fun hne => h other hne hw, rfl⟩⟩
  | returnShared session table =>
    simp only [Request.attempt, sound.tryReturnShared_eq_ok]
    exact ⟨fun ⟨_, h, _⟩ => h, fun h => ⟨_, h, rfl⟩⟩
  | takeExclusive session table =>
    simp only [Request.attempt, tryExclusive_eq_ok, TableLock.hasOtherWriter_eq_false_iff,
      (sound.lockOf _).hasOtherReader_eq_false_iff]
    constructor
    · rintro ⟨_, ⟨hwriter, hreader⟩, _⟩ other hne hholds
      rcases hholds with hcount | hw
      · exact absurd (hreader other hne) (Nat.ne_of_gt hcount)
      · exact hne (hwriter other hw)
    · intro h
      refine ⟨_, ⟨fun other hw => ?_, fun other hne => ?_⟩, rfl⟩
      · by_contra hne
        exact h other hne (Or.inr hw)
      · by_contra hcount
        exact h other hne (Or.inl (Nat.pos_of_ne_zero hcount))
  | returnExclusive session table =>
    simp only [Request.attempt, tryReturnExclusive_eq_ok]
    exact ⟨fun ⟨_, h, _⟩ => h, fun h => ⟨_, h, rfl⟩⟩
  | returnAll session => exact iff_of_true ⟨_, rfl⟩ trivial
  | checkHoldsNone session =>
    simp only [Request.attempt, Prod.mk.injEq]
    exact ⟨fun ⟨_, h, _⟩ => sound.holdsNone_iff.mp h,
      fun h => ⟨t, sound.holdsNone_iff.mpr h, rfl⟩⟩

/-- A granted request changes the holdings as they say. -/
lemma Sound.holdings_attempt (sound : t.Sound) (granted : request.attempt t = (.ok (), t')) :
    t'.holdings = t.holdings.after request := by
  cases request with
  | takeShared session table =>
    obtain ⟨-, rfl⟩ := tryShared_eq_ok.mp granted
    rw [sound.holdings_put]
    refine Holdings.ext ?_ (Function.update_eq_self _ _)
    refine congrArg (Function.update t.holdings.shared _) (funext fun other => ?_)
    rw [TableLock.countIn_addReader, Function.update_apply]
    rfl
  | returnShared session table =>
    obtain ⟨-, rfl⟩ := sound.tryReturnShared_eq_ok.mp granted
    rw [sound.holdings_put]
    refine Holdings.ext ?_ (Function.update_eq_self _ _)
    refine congrArg (Function.update t.holdings.shared _) (funext fun other => ?_)
    rw [(sound.lockOf _).readers.countIn_dropReader, Function.update_apply]
    rfl
  | takeExclusive session table =>
    obtain ⟨-, rfl⟩ := tryExclusive_eq_ok.mp granted
    rw [sound.holdings_put]
    exact Holdings.ext (Function.update_eq_self _ _) rfl
  | returnExclusive session table =>
    obtain ⟨-, rfl⟩ := tryReturnExclusive_eq_ok.mp granted
    rw [sound.holdings_put]
    exact Holdings.ext (Function.update_eq_self _ _) rfl
  | returnAll session =>
    obtain rfl := (Prod.mk.inj granted).2
    refine Holdings.ext (funext fun table => funext fun other => ?_) (funext fun table => ?_)
    · simp only [holdings, sound.lockOf_returnAll]
      exact TableLock.countIn_filter _ session other
    · simp only [holdings, sound.lockOf_returnAll]
      rfl
  | checkHoldsNone session =>
    obtain rfl := (Prod.mk.inj granted).2
    rfl

/-- A sound lock table answers a request as its holdings do, and is sound afterwards. -/
lemma Sound.answer (sound : t.Sound) (request : Request) :
    (t.answer request).1 = (t.holdings.answer request).1 ∧
      (t.answer request).2.holdings = (t.holdings.answer request).2 ∧
      (t.answer request).2.Sound := by
  have hgrants := sound.granted_iff request
  unfold LockTable.answer Holdings.answer
  rcases done : request.attempt t with ⟨_ | _, t'⟩
  · rw [if_neg fun h => by simpa [done] using hgrants.mpr h, Request.eq_of_refused done]
    exact ⟨rfl, rfl, sound⟩
  · rw [if_pos (hgrants.mp ⟨t', done⟩)]
    exact ⟨rfl, sound.holdings_attempt done, sound.attempt done⟩

/-! ## Runs -/

/-- Nobody's locks are sound. -/
lemma sound_empty : empty.Sound where
  apart := List.nodup_nil
  locks := by simp [empty]
  held := by simp [empty]

/-- A sound lock table answers requests one after the other as its holdings do. -/
lemma Sound.serve (sound : t.Sound) (requests : List Request) :
    (Request.serve LockTable.answer t requests).1 =
        (Request.serve Holdings.answer t.holdings requests).1 ∧
      (Request.serve LockTable.answer t requests).2.holdings =
        (Request.serve Holdings.answer t.holdings requests).2 ∧
      (Request.serve LockTable.answer t requests).2.Sound := by
  induction requests generalizing t with
  | nil => exact ⟨rfl, rfl, sound⟩
  | cons request rest ih =>
    obtain ⟨hanswer, hholdings, hsound⟩ := sound.answer request
    obtain ⟨hanswers, hfinal, hrest⟩ := ih hsound
    rw [hholdings] at hanswers hfinal
    exact ⟨congrArg₂ List.cons hanswer hanswers, hfinal, hrest⟩

/-- In a sound lock table a session that writes is alone. -/
lemma Sound.eq_of_exclusive (sound : t.Sound) {table : String} {writer other : Nat}
    (hwriter : t.holdings.exclusive table = some writer) (hother : t.holdings.Holds table other) :
    other = writer := by
  have hlock := sound.lockOf table
  rcases hother with hcount | hexclusive
  · obtain ⟨reader, hreader, rfl⟩ := hlock.readers.exists_iff.mpr hcount
    exact hlock.alone writer hwriter reader hreader
  · exact Option.some.inj (hexclusive.symm.trans hwriter)

/-- From the empty lock table on, every course of requests is answered as the holdings answer it and
leaves these holdings.  Afterwards a session that writes a table is the only one that holds it, and
a table has one entry while somebody holds it and none else. -/
theorem serve_eq_holdings (requests : List Request) :
    let served := Request.serve answer empty requests
    let held := Request.serve Holdings.answer Holdings.none requests
    served.1 = held.1 ∧ served.2.holdings = held.2 ∧
      (∀ table writer, held.2.exclusive table = some writer →
        ∀ other, held.2.Holds table other → other = writer) ∧
      (∀ table, (∃ lock ∈ served.2.locks, lock.table = table) ↔
        ∃ session, held.2.Holds table session) ∧
      (served.2.locks.map TableLock.table).Nodup := by
  intro served held
  obtain ⟨hanswers, hholdings, hsound⟩ := sound_empty.serve requests
  replace hholdings : served.2.holdings = held.2 := hholdings
  refine ⟨hanswers, hholdings, fun table writer hwriter other hother => ?_, fun table => ?_,
    hsound.apart⟩
  · rw [← hholdings] at hwriter hother
    exact hsound.eq_of_exclusive hwriter hother
  · rw [hsound.listed_iff, (hsound.lockOf table).isFree_eq_false_iff, ← hholdings]
    rfl

end LockTable

end RelQuery
