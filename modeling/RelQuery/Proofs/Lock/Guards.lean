import RelQuery.Proofs.Lock.Restored

/-!
# Guards that are alive together

A session may have several guards at once, and guards of all sessions take and give back their
tables one by one, in any order among each other.  What a session holds is a count per table that
all its guards share, and giving everything back empties the count under guards that are still
alive.  Such a guard is later dropped like any other: it then gives back what a guard taken since
has taken, and so does that guard in its turn.  A guard holds its tables as long as its session does
not give everything back and no guard that has lost one of them gives it back.

A guard that is not interrupted takes its tables and gives them back as `LockGuard.take` and
`LockGuard.giveBack` do in one go.
-/

namespace RelQuery

open LockTable (Request)

/-! ## Counts -/

/-- The counts after one was changed. -/
lemma Holdings.shared_setShared (h : Holdings) (table key : String) (session other count : Nat) :
    (h.setShared table session count).shared key other =
      if other = session ∧ key = table then count else h.shared key other := by
  simp only [setShared, Function.update_apply]
  by_cases htable : key = table
  · simp [htable, Function.update_apply]
  · simp [htable]

/-- The lock table after a request, granted or refused. -/
lemma LockTable.Sound.after_attempt {t : LockTable} (sound : t.Sound) (request : Request) :
    (request.attempt t).2.holdings = (t.holdings.answer request).2 ∧ (request.attempt t).2.Sound :=
  (sound.answer request).2

namespace LockGuard

variable {t t' : LockTable} {guard : LockGuard} {session : Nat} {table key : String}

/-- How often the guard reads a table, which goes by the lower case of its name, for a session. -/
def reads (guard : LockGuard) (session : Nat) (key : String) : Nat :=
  if session = guard.session then guard.tables.countP fun table => key = Text.lowercase table else 0

/-- A guard reads each of its tables. -/
lemma reads_pos (h : table ∈ guard.tables) :
    0 < guard.reads guard.session (Text.lowercase table) := by
  rw [reads, if_pos rfl, List.countP_pos_iff]
  exact ⟨table, h, by simp⟩

/-- A guard reads nothing for another session. -/
lemma reads_eq_zero (h : session ≠ guard.session) (key : String) : guard.reads session key = 0 := by
  rw [reads, if_neg h]

/-- What a guard reads, part by part. -/
lemma reads_append (owner : Nat) (first rest : List String) (session : Nat) (key : String) :
    reads ⟨owner, first ++ rest⟩ session key =
      reads ⟨owner, first⟩ session key + reads ⟨owner, rest⟩ session key := by
  unfold reads
  dsimp only
  split
  · exact List.countP_append
  · rfl

/-- One table is read once. -/
lemma reads_singleton (owner : Nat) (table : String) (session : Nat) (key : String) :
    reads ⟨owner, [table]⟩ session key =
      if session = owner ∧ key = Text.lowercase table then 1 else 0 := by
  simp [reads, List.countP_singleton, ite_and]

/-- A table that is taken is one count more. -/
lemma shared_of_taken (sound : t.Sound) {owner : Nat}
    (taken : t.tryShared owner table = (.ok (), t')) (session : Nat) (key : String) :
    t'.holdings.shared key session =
        t.holdings.shared key session + reads ⟨owner, [table]⟩ session key ∧ t'.Sound := by
  have granted : (Request.takeShared owner table).attempt t = (.ok (), t') := taken
  refine ⟨?_, sound.tryShared taken⟩
  rw [sound.holdings_attempt granted, Holdings.after, Holdings.shared_setShared, reads_singleton]
  split
  · rename_i hsame
    rw [hsame.1, hsame.2]
  · rfl

/-- A table given back is one count less, where there was any. -/
lemma shared_returnTable (sound : t.Sound) (owner : Nat) (table : String) (session : Nat)
    (key : String) :
    (returnTable owner table t).holdings.shared key session =
        t.holdings.shared key session - reads ⟨owner, [table]⟩ session key ∧
      (returnTable owner table t).Sound := by
  obtain ⟨hholdings, hsound⟩ := sound.after_attempt (.returnShared owner table)
  refine ⟨?_, hsound⟩
  change ((Request.returnShared owner table).attempt t).2.holdings.shared key session = _
  rw [hholdings, Holdings.answer, reads_singleton]
  by_cases hgrants : t.holdings.Grants (.returnShared owner table)
  · rw [if_pos hgrants, Holdings.after, Holdings.shared_setShared]
    split
    · rename_i hsame
      rw [hsame.1, hsame.2]
    · rfl
  · -- nothing is given back where there is no count
    have hzero : t.holdings.shared (Text.lowercase table) owner = 0 :=
      Nat.eq_zero_of_not_pos hgrants
    rw [if_neg hgrants]
    split
    · rename_i hsame
      rw [hsame.1, hsame.2, hzero]
    · rfl

end LockGuard

/-- A request that is not about shared access leaves the counts. -/
lemma LockTable.Sound.shared_attempt {t : LockTable} (sound : t.Sound) {request : Request}
    (h : (t.holdings.after request).shared = t.holdings.shared) :
    (request.attempt t).2.holdings.shared = t.holdings.shared ∧ (request.attempt t).2.Sound := by
  obtain ⟨hholdings, hsound⟩ := sound.after_attempt request
  refine ⟨?_, hsound⟩
  rw [hholdings, Holdings.answer]
  split
  · exact h
  · rfl

/-! ## Guards that are not gone -/

/-- What a guard does next. -/
inductive GuardPhase where
  /-- It takes these tables, and has all that it wants when there are none. -/
  | taking (tables : List String)
  /-- It gives its tables back, the last one first. -/
  | returning
  deriving DecidableEq

/-- A guard from its first table on until it has given everything back. -/
structure HeldGuard where
  /-- The tables that were taken and not given back. -/
  guard : LockGuard
  phase : GuardPhase
  /-- The session gave everything back since the guard was begun. -/
  outlived : Bool
  /-- The tables, in lower case, that guards of the session had lost and gave back since the guard
  was begun. -/
  lost : List String
  deriving DecidableEq

namespace HeldGuard

variable {held dropped : HeldGuard} {session : Nat} {table key : String}

/-- A guard that takes tables. -/
def fresh (session : Nat) (tables : List String) : HeldGuard where
  guard := ⟨session, []⟩
  phase := .taking tables
  outlived := false
  lost := []

/-- The guard may have lost the table. -/
def Strays (held : HeldGuard) (key : String) : Prop :=
  held.outlived = true ∨ key ∈ held.lost

instance (held : HeldGuard) (key : String) : Decidable (held.Strays key) :=
  inferInstanceAs (Decidable (held.outlived = true ∨ key ∈ held.lost))

/-- How often the session has a table through the guard, unless the guard may have lost it. -/
def claims (held : HeldGuard) (session : Nat) (key : String) : Nat :=
  if held.Strays key then 0 else held.guard.reads session key

/-- The guard with one more table, and those that are still to be taken. -/
def push (held : HeldGuard) (table : String) (rest : List String) : HeldGuard :=
  { held with guard.tables := held.guard.tables ++ [table], phase := .taking rest }

/-- The guard without its last table. -/
def pop (held : HeldGuard) : HeldGuard :=
  { held with guard.tables := held.guard.tables.dropLast }

/-- The guard after a session gave everything back. -/
def outlive (session : Nat) (held : HeldGuard) : HeldGuard :=
  if held.guard.session = session then { held with outlived := true } else held

/-- The guard after another one gave a table back.  If the other one had lost the table, it has
taken it from the guards of the session. -/
def lose (dropped : HeldGuard) (key : String) (held : HeldGuard) : HeldGuard :=
  if held.guard.session = dropped.guard.session ∧ dropped.Strays key then
    { held with lost := held.lost ++ [key] }
  else held

/-- A guard that is begun has nothing. -/
lemma claims_fresh (owner : Nat) (tables : List String) (session : Nat) (key : String) :
    (fresh owner tables).claims session key = 0 := by
  have hreads : (fresh owner tables).guard.reads session key = 0 := by
    rw [LockGuard.reads, fresh, List.countP_nil, ite_self]
  rw [claims, hreads, ite_self]

/-- A guard has no table for a session that is not its own. -/
lemma claims_eq_zero (h : session ≠ held.guard.session) (key : String) :
    held.claims session key = 0 := by
  rw [claims, LockGuard.reads_eq_zero h, ite_self]

/-- A table that a guard may have lost does not count. -/
lemma claims_of_strays (h : held.Strays key) (session : Nat) : held.claims session key = 0 :=
  if_pos h

/-- A table that is taken counts once more at most. -/
lemma claims_push_le (held : HeldGuard) (table : String) (rest : List String) (session : Nat)
    (key : String) : (held.push table rest).claims session key ≤
      held.claims session key + LockGuard.reads ⟨held.guard.session, [table]⟩ session key := by
  by_cases hstrays : held.Strays key
  · have hpushed : (held.push table rest).Strays key := hstrays
    rw [claims_of_strays hpushed]
    exact Nat.zero_le _
  · have hpushed : ¬ (held.push table rest).Strays key := hstrays
    rw [claims, claims, if_neg hstrays, if_neg hpushed]
    exact Nat.le_of_eq (LockGuard.reads_append _ _ _ _ _)

/-- A guard that was not lost the table counts without its last table as much less as it read
that. -/
lemma claims_pop (hlast : held.guard.tables.getLast? = some table) (hstrays : ¬ held.Strays key)
    (session : Nat) : held.pop.claims session key +
      LockGuard.reads ⟨held.guard.session, [table]⟩ session key = held.claims session key := by
  have hpopped : ¬ held.pop.Strays key := hstrays
  have htables := List.dropLast_append_getLast? table hlast
  rw [claims, claims, if_neg hstrays, if_neg hpopped]
  have hreads := LockGuard.reads_append held.guard.session held.guard.tables.dropLast [table]
    session key
  rw [htables] at hreads
  exact hreads.symm

/-- A guard has no more without its last table. -/
lemma claims_pop_le (hlast : held.guard.tables.getLast? = some table) (session : Nat)
    (key : String) : held.pop.claims session key ≤ held.claims session key := by
  by_cases hstrays : held.Strays key
  · have hpopped : held.pop.Strays key := hstrays
    rw [claims_of_strays hpopped]
    exact Nat.zero_le _
  · exact Nat.le_of_add_right_le (Nat.le_of_eq (claims_pop hlast hstrays session))

/-- The guard after another one gave all its tables back. -/
def loseAll (dropped held : HeldGuard) : HeldGuard :=
  dropped.guard.tables.foldr (fun table held => dropped.lose (Text.lowercase table) held) held

/-- The last table is the first that is given back. -/
lemma loseAll_eq_comp {tables : List String} (h : dropped.guard.tables = tables ++ [table]) :
    dropped.loseAll = dropped.pop.loseAll ∘ dropped.lose (Text.lowercase table) := by
  funext held
  rw [loseAll, h, List.foldr_append, Function.comp_apply, loseAll, pop]
  simp only [h, List.dropLast_concat]
  rfl

/-- A guard has nothing left when its session gave everything back. -/
lemma claims_outlive (held : HeldGuard) (owner session : Nat) (key : String) :
    (outlive owner held).claims session key =
      if session = owner then 0 else held.claims session key := by
  unfold outlive
  by_cases howner : held.guard.session = owner
  · rw [if_pos howner]
    split
    · exact claims_of_strays (Or.inl rfl) session
    · rename_i hsession
      rw [claims_eq_zero (howner ▸ hsession), claims_eq_zero (howner ▸ hsession)]
  · rw [if_neg howner]
    split
    · rename_i hsession
      exact claims_eq_zero (hsession ▸ Ne.symm howner) key
    · rfl

/-- A guard has no more than before when another one gives a table back. -/
lemma claims_lose_le (dropped held : HeldGuard) (lost : String) (session : Nat) (key : String) :
    (lose dropped lost held).claims session key ≤ held.claims session key := by
  unfold lose
  split
  · by_cases hstrays : held.Strays key
    · have hmore : HeldGuard.Strays { held with lost := held.lost ++ [lost] } key :=
        hstrays.imp_right (List.mem_append_left _)
      rw [claims_of_strays hmore]
      exact Nat.zero_le _
    · rw [claims, claims, if_neg hstrays]
      split
      · exact Nat.zero_le _
      · exact Nat.le_refl _
  · exact Nat.le_refl _

/-- A table that a guard had lost and gives back is lost to the other guards of the session. -/
lemma claims_lose_eq_zero (hstrays : dropped.Strays key) (held : HeldGuard) :
    (lose dropped key held).claims dropped.guard.session key = 0 := by
  unfold lose
  by_cases howner : held.guard.session = dropped.guard.session
  · rw [if_pos ⟨howner, hstrays⟩]
    exact claims_of_strays (Or.inr (List.mem_append_right _ (List.mem_singleton_self key))) _
  · rw [if_neg fun h => howner h.1, claims_eq_zero (Ne.symm howner)]

/-- A guard that has lost nothing takes nothing from others. -/
lemma loseAll_eq_self (kept : dropped.outlived = false) (unlost : dropped.lost = [])
    (held : HeldGuard) : loseAll dropped held = held := by
  unfold loseAll
  induction dropped.guard.tables with
  | nil => rfl
  | cons table rest ih =>
    rw [List.foldr_cons, ih]
    apply if_neg
    rintro ⟨-, houtlived | hlost⟩
    · rw [kept] at houtlived
      exact Bool.false_ne_true houtlived
    · rw [unlost] at hlost
      exact List.not_mem_nil hlost

end HeldGuard

/-! ## Courses of guards -/

/-- A lock table with the guards that are not gone, in the order in which they were begun. -/
structure GuardedLocks where
  locks : LockTable
  held : List HeldGuard

/-- What a session does beside other sessions: it begins a guard, goes on with one by a single
table, starts to give back one that has all its tables, takes or gives back exclusive access, or
gives everything back. -/
inductive GuardRequest where
  | begin (session : Nat) (tables : List String)
  | advance (position : Nat)
  | drop (position : Nat)
  | takeExclusive (session : Nat) (table : String)
  | returnExclusive (session : Nat) (table : String)
  | returnAll (session : Nat)

namespace GuardedLocks

variable {g : GuardedLocks} {held : HeldGuard} {position session : Nat} {key : String}

/-- Nobody holds anything. -/
def start : GuardedLocks where
  locks := .empty
  held := []

/-- The guard at the position takes its next table.  If it cannot have it, it gives back those that
it has. -/
def takeNext (g : GuardedLocks) (position : Nat) (held : HeldGuard) : List String → GuardedLocks
  | [] => g
  | table :: rest =>
    match g.locks.tryShared held.guard.session table with
    | (.ok (), locks) => ⟨locks, g.held.set position (held.push table rest)⟩
    | (.error _, locks) => ⟨locks, g.held.set position { held with phase := .returning }⟩

/-- The guard at the position gives its last table back.  If there is none, it is gone. -/
def returnLast (g : GuardedLocks) (position : Nat) (held : HeldGuard) : GuardedLocks :=
  match held.guard.tables.getLast? with
  | none => ⟨g.locks, g.held.eraseIdx position⟩
  | some table =>
    ⟨LockGuard.returnTable held.guard.session table g.locks,
      (g.held.map (held.lose (Text.lowercase table))).set position held.pop⟩

/-- Locks and guards after a request, whether it is granted or refused. -/
def serve (g : GuardedLocks) : GuardRequest → GuardedLocks
  | .begin session tables => ⟨g.locks, g.held ++ [.fresh session tables]⟩
  | .advance position =>
    match g.held[position]? with
    | none => g
    | some held =>
      match held.phase with
      | .taking tables => g.takeNext position held tables
      | .returning => g.returnLast position held
  | .drop position =>
    match g.held[position]? with
    | none => g
    | some held =>
      if held.phase = .taking [] then
        ⟨g.locks, g.held.set position { held with phase := .returning }⟩
      else g
  | .takeExclusive session table =>
    ⟨((Request.takeExclusive session table).attempt g.locks).2, g.held⟩
  | .returnExclusive session table =>
    ⟨((Request.returnExclusive session table).attempt g.locks).2, g.held⟩
  | .returnAll session => ⟨g.locks.returnAll session, g.held.map (HeldGuard.outlive session)⟩

/-- Locks and guards after requests one after the other. -/
def run (g : GuardedLocks) (requests : List GuardRequest) : GuardedLocks :=
  requests.foldl serve g

/-- Locks and guards after requests, where nobody held anything before. -/
def after (requests : List GuardRequest) : GuardedLocks :=
  start.run requests

/-- How often a session has a table through all its guards. -/
def claims (g : GuardedLocks) (session : Nat) (key : String) : Nat :=
  (g.held.map fun held => held.claims session key).sum

/-- The locks are sound, and the counts cover what the guards have. -/
structure Covered (g : GuardedLocks) : Prop where
  sound : g.locks.Sound
  enough : ∀ session key, g.claims session key ≤ g.locks.holdings.shared key session

/-- What a guard has is part of what all have. -/
lemma claims_le {held : HeldGuard} (h : held ∈ g.held) (session : Nat) (key : String) :
    held.claims session key ≤ g.claims session key :=
  List.single_le_sum (fun _ _ => Nat.zero_le _) _ (List.mem_map_of_mem h)

/-- What all guards have is what one of them has and what the others have. -/
lemma claims_eq_add_eraseIdx (h : g.held[position]? = some held) (session : Nat) (key : String) :
    g.claims session key =
      held.claims session key + claims ⟨g.locks, g.held.eraseIdx position⟩ session key := by
  obtain ⟨hlt, rfl⟩ := List.getElem?_eq_some_iff.mp h
  have hperm := (List.getElem_cons_eraseIdx_perm hlt).map fun held => held.claims session key
  rw [List.map_cons] at hperm
  rw [claims, ← hperm.sum_eq, List.sum_cons]
  rfl

/-- What all guards have when one of them is changed. -/
lemma claims_set (hlt : position < g.held.length) (locks locks' : LockTable) (changed : HeldGuard)
    (session : Nat) (key : String) : claims ⟨locks, g.held.set position changed⟩ session key =
      changed.claims session key + claims ⟨locks', g.held.eraseIdx position⟩ session key := by
  have hperm := (List.set_perm_cons_eraseIdx hlt changed).map fun held => held.claims session key
  rw [List.map_cons] at hperm
  rw [claims, hperm.sum_eq, List.sum_cons]
  rfl

/-- Guards have no more than before when another one gives a table back. -/
lemma claims_map_lose_le (locks locks' : LockTable) (held : List HeldGuard) (dropped : HeldGuard)
    (lost : String) (session : Nat) (key : String) :
    claims ⟨locks, held.map (dropped.lose lost)⟩ session key ≤
      claims ⟨locks', held⟩ session key := by
  rw [claims, claims, List.map_map]
  exact List.sum_le_sum fun held _ => HeldGuard.claims_lose_le dropped held lost session key

/-- The session has a table that a guard had lost and gives back through no other guard. -/
lemma claims_map_lose_eq_zero (locks : LockTable) (held : List HeldGuard) {dropped : HeldGuard}
    (hstrays : dropped.Strays key) :
    claims ⟨locks, held.map (dropped.lose key)⟩ dropped.guard.session key = 0 := by
  rw [claims, List.map_map]
  apply List.sum_eq_zero
  intro count hcount
  obtain ⟨held, -, rfl⟩ := List.mem_map.mp hcount
  exact HeldGuard.claims_lose_eq_zero hstrays held

/-! ## What one request preserves -/

/-- A guard that is changed without having more is covered as it was. -/
lemma Covered.set (covered : g.Covered) (h : g.held[position]? = some held) {changed : HeldGuard}
    (hle : ∀ session key, changed.claims session key ≤ held.claims session key) :
    Covered ⟨g.locks, g.held.set position changed⟩ := by
  refine ⟨covered.sound, fun session key => ?_⟩
  obtain ⟨hlt, -⟩ := List.getElem?_eq_some_iff.mp h
  have henough := covered.enough session key
  rw [claims_eq_add_eraseIdx h] at henough
  rw [claims_set hlt g.locks g.locks]
  exact (Nat.add_le_add_right (hle session key) _).trans henough

/-- A guard that is begun has nothing. -/
lemma Covered.begin (covered : g.Covered) (session : Nat) (tables : List String) :
    (g.serve (.begin session tables)).Covered := by
  refine ⟨covered.sound, fun other key => ?_⟩
  simp only [GuardedLocks.serve, claims, List.map_append, List.map_singleton, List.sum_append,
    List.sum_singleton, HeldGuard.claims_fresh]
  exact covered.enough other key

/-- A table that is taken is covered by what it adds to the counts. -/
lemma Covered.takeNext (covered : g.Covered) (h : g.held[position]? = some held)
    (tables : List String) : (g.takeNext position held tables).Covered := by
  cases tables with
  | nil => exact covered
  | cons table rest =>
    unfold GuardedLocks.takeNext
    dsimp only
    split
    · rename_i locks taken
      refine ⟨(LockGuard.shared_of_taken covered.sound taken 0 "").2, fun session key => ?_⟩
      rw [(LockGuard.shared_of_taken covered.sound taken session key).1]
      obtain ⟨hlt, -⟩ := List.getElem?_eq_some_iff.mp h
      have henough := covered.enough session key
      have hpush := held.claims_push_le table rest session key
      rw [claims_eq_add_eraseIdx h] at henough
      rw [claims_set hlt locks g.locks]
      omega
    · rename_i error locks refused
      rw [LockTable.eq_of_tryShared_refused refused]
      exact covered.set h fun _ _ => Nat.le_refl _

/-- A guard that gives a table back takes its own from the counts, or what it had lost from guards
that are then taken to have lost it. -/
lemma Covered.returnLast (covered : g.Covered) (h : g.held[position]? = some held) :
    (g.returnLast position held).Covered := by
  obtain ⟨hlt, -⟩ := List.getElem?_eq_some_iff.mp h
  have henough (session : Nat) (key : String) := covered.enough session key
  simp only [claims_eq_add_eraseIdx h] at henough
  unfold GuardedLocks.returnLast
  split
  · refine ⟨covered.sound, fun session key => ?_⟩
    exact (Nat.le_add_left _ _).trans (henough session key)
  · rename_i table hlast
    refine ⟨(LockGuard.shared_returnTable covered.sound _ table 0 "").2, fun session key => ?_⟩
    rw [(LockGuard.shared_returnTable covered.sound _ table session key).1]
    -- what the guard has without the table, and what the others have
    have hparts := claims_set (g := ⟨g.locks, g.held.map (held.lose (Text.lowercase table))⟩)
      (by simpa using hlt) (LockGuard.returnTable held.guard.session table g.locks) g.locks held.pop
      session key
    rw [List.eraseIdx_map] at hparts
    rw [hparts]
    have hothers := claims_map_lose_le g.locks g.locks (g.held.eraseIdx position) held
      (Text.lowercase table) session key
    by_cases hsame : session = held.guard.session ∧ key = Text.lowercase table
    · obtain ⟨rfl, rfl⟩ := hsame
      by_cases hstrays : held.Strays (Text.lowercase table)
      · have hpopped : held.pop.Strays (Text.lowercase table) := hstrays
        rw [HeldGuard.claims_of_strays hpopped, claims_map_lose_eq_zero _ _ hstrays]
        exact Nat.zero_le _
      · have hpop := HeldGuard.claims_pop hlast hstrays held.guard.session
        have hcovered := henough held.guard.session (Text.lowercase table)
        omega
    · have hreads : LockGuard.reads ⟨held.guard.session, [table]⟩ session key = 0 := by
        rw [LockGuard.reads_singleton, if_neg hsame]
      have hpop := HeldGuard.claims_pop_le hlast session key
      have hcovered := henough session key
      omega

/-- A request for exclusive access leaves the guards covered. -/
lemma Covered.exclusive (covered : g.Covered) {request : Request}
    (h : (g.locks.holdings.after request).shared = g.locks.holdings.shared) :
    Covered ⟨(request.attempt g.locks).2, g.held⟩ := by
  obtain ⟨hshared, hsound⟩ := covered.sound.shared_attempt h
  refine ⟨hsound, fun session key => ?_⟩
  rw [hshared]
  exact covered.enough session key

/-- When a session gives everything back, its guards have nothing left. -/
lemma Covered.returnAll (covered : g.Covered) (session : Nat) :
    (g.serve (.returnAll session)).Covered := by
  refine ⟨covered.sound.returnAll session, fun other key => ?_⟩
  have hshared : (g.locks.returnAll session).holdings.shared key other =
      if other = session then 0 else g.locks.holdings.shared key other := by
    have hgranted : (Request.returnAll session).attempt g.locks =
        (.ok (), g.locks.returnAll session) := rfl
    rw [covered.sound.holdings_attempt hgranted]
    rfl
  have hclaims : (g.serve (.returnAll session)).claims other key =
      if other = session then 0 else g.claims other key := by
    simp only [claims, serve, List.map_map, Function.comp_def, HeldGuard.claims_outlive]
    split
    · simp
    · rfl
  rw [hclaims]
  change _ ≤ (g.locks.returnAll session).holdings.shared key other
  rw [hshared]
  split
  · exact Nat.le_refl _
  · exact covered.enough other key

/-- A request keeps the guards covered. -/
lemma Covered.serve (covered : g.Covered) (request : GuardRequest) : (g.serve request).Covered := by
  cases request with
  | begin session tables => exact covered.begin session tables
  | advance position =>
    simp only [GuardedLocks.serve]
    split
    · exact covered
    · rename_i held hfound
      split
      · exact covered.takeNext hfound _
      · exact covered.returnLast hfound
  | drop position =>
    simp only [GuardedLocks.serve]
    split
    · exact covered
    · rename_i held hfound
      split
      · exact covered.set hfound fun _ _ => Nat.le_refl _
      · exact covered
  | takeExclusive session table => exact covered.exclusive rfl
  | returnExclusive session table => exact covered.exclusive rfl
  | returnAll session => exact covered.returnAll session

/-! ## What a course of requests preserves -/

/-- Requests keep the guards covered. -/
lemma Covered.run (covered : g.Covered) (requests : List GuardRequest) :
    (g.run requests).Covered := by
  induction requests generalizing g with
  | nil => exact covered
  | cons request rest ih => exact ih (covered.serve request)

/-- After any requests the guards are covered. -/
lemma covered_after (requests : List GuardRequest) : (after requests).Covered := by
  apply Covered.run
  exact ⟨LockTable.sound_empty, fun session key => Nat.zero_le _⟩

/-- **A guard holds its tables.**  After any requests, a guard whose session did not give everything
back since it was begun holds each of the tables that it has taken and not given back, unless a
guard of the session that had lost the table has given it back since: the session has shared access,
nobody else writes the table, and no other session is granted exclusive access. -/
theorem held_guard_excludes (requests : List GuardRequest) {held : HeldGuard}
    (alive : held ∈ (after requests).held) (kept : held.outlived = false) {table : String}
    (reads : table ∈ held.guard.tables) (unlost : Text.lowercase table ∉ held.lost) :
    0 < (after requests).locks.holdings.shared (Text.lowercase table) held.guard.session ∧
      (∀ writer, (after requests).locks.holdings.exclusive (Text.lowercase table) = some writer →
        writer = held.guard.session) ∧
      ∀ other name, other ≠ held.guard.session → Text.lowercase name = Text.lowercase table →
        (after requests).locks.tryExclusive other name =
          (.error (.locked name), (after requests).locks) := by
  have covered := covered_after requests
  have hstrays : ¬ held.Strays (Text.lowercase table) := by
    rintro (houtlived | hlost)
    · rw [kept] at houtlived
      exact Bool.false_ne_true houtlived
    · exact unlost hlost
  have hclaims : 0 < held.claims held.guard.session (Text.lowercase table) := by
    rw [HeldGuard.claims, if_neg hstrays]
    exact LockGuard.reads_pos reads
  have hcount : 0 < (after requests).locks.holdings.shared (Text.lowercase table)
      held.guard.session :=
    Nat.lt_of_lt_of_le hclaims ((claims_le alive _ _).trans (covered.enough _ _))
  refine ⟨hcount, fun writer hwriter => ?_, fun other name hother hname => ?_⟩
  · exact (covered.sound.eq_of_exclusive hwriter (Or.inl hcount)).symm
  · have hrefused : ¬ (after requests).locks.holdings.Grants (.takeExclusive other name) :=
      fun hgrants => hgrants held.guard.session hother.symm (hname ▸ Or.inl hcount)
    rw [LockTable.tryExclusive_eq]
    split
    · rfl
    · rename_i hfree
      refine absurd ((covered.sound.granted_iff (.takeExclusive other name)).mp ?_) hrefused
      exact ⟨_, LockTable.tryExclusive_eq_ok.mpr ⟨by simpa using hfree, rfl⟩⟩

/-- A session has lost a guard on `a` and `b` and not dropped it; its next guard on `a` holds while
it has yet to take `b`, which another session writes. -/
theorem held_guard_excludes_second :
    let g := after [.begin 1 ["a", "b"], .advance 0, .advance 0, .returnAll 1, .begin 1 ["A", "b"],
      .advance 1, .takeExclusive 2 "b"]
    g.held = [⟨⟨1, ["a", "b"]⟩, .taking [], true, []⟩, ⟨⟨1, ["A"]⟩, .taking ["b"], false, []⟩] ∧
      g.locks.holdings.exclusive "b" = some 2 ∧ 0 < g.locks.holdings.shared "a" 1 ∧
      g.locks.tryExclusive 2 "a" = (.error (.locked "a"), g.locks) := by
  intro g
  have hheld : g.held =
      [⟨⟨1, ["a", "b"]⟩, .taking [], true, []⟩, ⟨⟨1, ["A"]⟩, .taking ["b"], false, []⟩] := by rfl
  have alive : (⟨⟨1, ["A"]⟩, .taking ["b"], false, []⟩ : HeldGuard) ∈ g.held := by
    rw [hheld]
    exact List.mem_cons_of_mem _ List.mem_cons_self
  have hlower : Text.lowercase "A" = "a" := by decide
  have hsame : Text.lowercase "a" = Text.lowercase "A" := by decide
  obtain ⟨hcount, -, hrefused⟩ :=
    held_guard_excludes _ alive rfl (List.mem_singleton.mpr rfl) List.not_mem_nil
  rw [hlower] at hcount
  exact ⟨hheld, by decide, hcount, hrefused 2 "a" (by decide) hsame⟩

/-- A guard that the session has lost takes the table from the next guard when it is dropped: the
session no longer holds the table under a guard that has all its tables, and another session can
write it. -/
theorem not_forall_guard_holds :
    ¬ ∀ (requests : List GuardRequest) (held : HeldGuard),
      held ∈ (after requests).held → held.phase = .taking [] → held.outlived = false →
        ∀ table ∈ held.guard.tables,
          0 < (after requests).locks.holdings.shared (Text.lowercase table) held.guard.session ∧
            ∀ other locks, other ≠ held.guard.session →
              (after requests).locks.tryExclusive other table ≠ (.ok (), locks) := by
  intro h
  let requests : List GuardRequest := [.begin 1 ["t"], .advance 0, .returnAll 1, .begin 1 ["t"],
    .advance 1, .drop 0, .advance 0, .advance 0]
  let second : HeldGuard := ⟨⟨1, ["t"]⟩, .taking [], false, ["t"]⟩
  have hheld : (after requests).held = [second] := by cbv
  have alive : second ∈ (after requests).held := by
    rw [hheld]
    exact List.mem_cons_self
  have hgranted : (after requests).locks.tryExclusive 2 "t" =
      (.ok (), ⟨[⟨"t", [], some 2⟩]⟩) := by cbv
  have hheldTable : "t" ∈ second.guard.tables := List.mem_singleton.mpr rfl
  exact (h requests second alive rfl rfl "t" hheldTable).2 2 _ (by decide) hgranted

/-! ## Guards that are not interrupted -/

section Uninterrupted

variable {locks locks' : LockTable} {before rest : List HeldGuard} {guard : LockGuard}

/-- Requests one after the other, the first of them on its own. -/
lemma run_cons (g : GuardedLocks) (request : GuardRequest) (requests : List GuardRequest) :
    g.run (request :: requests) = (g.serve request).run requests :=
  rfl

/-- A guard between others takes its next table. -/
lemma serve_advance_taking (h : held.phase = .taking tables) :
    serve ⟨locks, before ++ held :: rest⟩ (.advance before.length) =
      takeNext ⟨locks, before ++ held :: rest⟩ before.length held tables := by
  simp [serve, h]

/-- A guard between others has the table that it could take. -/
lemma serve_advance_taken {table : String} {others : List String}
    (h : held.phase = .taking (table :: others))
    (taken : locks.tryShared held.guard.session table = (.ok (), locks')) :
    serve ⟨locks, before ++ held :: rest⟩ (.advance before.length) =
      ⟨locks', before ++ held.push table others :: rest⟩ := by
  rw [serve_advance_taking h]
  simp [takeNext, taken]

/-- A guard between others gives its last table back. -/
lemma serve_advance_returning (h : held.phase = .returning) :
    serve ⟨locks, before ++ held :: rest⟩ (.advance before.length) =
      returnLast ⟨locks, before ++ held :: rest⟩ before.length held := by
  simp [serve, h]

/-- A guard that is not interrupted gives its tables back as `LockGuard.giveBack` does, and is
gone. -/
lemma run_returning (h : held.phase = .returning) (locks : LockTable)
    (before rest : List HeldGuard) :
    run ⟨locks, before ++ held :: rest⟩
        (List.replicate (held.guard.tables.length + 1) (.advance before.length)) =
      ⟨held.guard.giveBack locks, (before ++ rest).map held.loseAll⟩ := by
  -- the last table is given back first
  induction htables : held.guard.tables using List.reverseRecOn
    generalizing held locks before rest with
  | nil =>
    have hlose : held.loseAll = id := by
      funext other
      rw [HeldGuard.loseAll, htables]
      rfl
    rw [List.length_nil, Nat.zero_add, List.replicate_one, run_cons, serve_advance_returning h,
      hlose, List.map_id, LockGuard.giveBack, htables]
    simp [returnLast, htables, run, List.eraseIdx_append]
  | append_singleton tables table ih =>
    have hstep : serve ⟨locks, before ++ held :: rest⟩ (.advance before.length) =
        ⟨LockGuard.returnTable held.guard.session table locks,
          before.map (held.lose (Text.lowercase table)) ++
            held.pop :: rest.map (held.lose (Text.lowercase table))⟩ := by
      rw [serve_advance_returning h]
      simp [returnLast, htables]
    have hpopped : held.pop.guard.tables = tables := by
      simp [HeldGuard.pop, htables]
    have hphase : held.pop.phase = .returning := h
    have hrest := ih hphase (LockGuard.returnTable held.guard.session table locks)
      (before.map (held.lose (Text.lowercase table)))
      (rest.map (held.lose (Text.lowercase table))) hpopped
    have hgive : held.guard.giveBack locks =
        held.pop.guard.giveBack (LockGuard.returnTable held.guard.session table locks) := by
      rw [LockGuard.giveBack, htables, LockGuard.giveBack, hpopped, List.foldr_append]
      rfl
    rw [List.length_map] at hrest
    rw [List.length_append, List.length_singleton, List.replicate_succ, run_cons, hstep, hrest,
      hgive, ← List.map_append, List.map_map, ← HeldGuard.loseAll_eq_comp htables]

/-- A guard that is not interrupted takes its tables as `LockGuard.extend` does. -/
lemma run_taking {tables : List String} (h : held.phase = .taking tables)
    (extended : LockGuard.extend held.guard locks tables = (.ok guard, locks')) :
    run ⟨locks, before ++ held :: rest⟩
        (List.replicate tables.length (.advance before.length)) =
      ⟨locks', before ++ { held with guard := guard, phase := .taking [] } :: rest⟩ := by
  induction tables generalizing locks held with
  | nil =>
    obtain ⟨hguard, rfl⟩ := Prod.mk.inj extended
    rw [← Except.ok.inj hguard, ← h]
    rfl
  | cons table others ih =>
    rw [LockGuard.extend] at extended
    split at extended
    · rename_i next taken
      rw [List.length_cons, List.replicate_succ, run_cons, serve_advance_taken h taken]
      exact ih rfl extended
    · simp at extended

/-- A guard that is not interrupted and cannot have one of its tables leaves the locks as
`LockGuard.extend` does, and is gone. -/
lemma exists_run_refused {tables : List String} {error : Error} (h : held.phase = .taking tables)
    (kept : held.outlived = false) (unlost : held.lost = [])
    (refused : LockGuard.extend held.guard locks tables = (.error error, locks')) :
    ∃ steps, run ⟨locks, before ++ held :: rest⟩
        (List.replicate steps (.advance before.length)) = ⟨locks', before ++ rest⟩ := by
  induction tables generalizing locks held with
  | nil => simp [LockGuard.extend] at refused
  | cons table others ih =>
    rw [LockGuard.extend] at refused
    split at refused
    · rename_i next taken
      have hphase : (held.push table others).phase = .taking others := rfl
      obtain ⟨steps, hsteps⟩ := ih hphase kept unlost refused
      refine ⟨steps + 1, ?_⟩
      rw [List.replicate_succ, run_cons, serve_advance_taken h taken]
      exact hsteps
    · rename_i next taken
      obtain ⟨-, rfl⟩ := Prod.mk.inj refused
      have hstep : serve ⟨locks, before ++ held :: rest⟩ (.advance before.length) =
          ⟨next, before ++ { held with phase := .returning } :: rest⟩ := by
        rw [serve_advance_taking h]
        simp [takeNext, taken]
      refine ⟨held.guard.tables.length + 1 + 1, ?_⟩
      rw [List.replicate_succ, run_cons, hstep]
      have hlose : HeldGuard.loseAll { held with phase := .returning } = id := by
        funext other
        exact HeldGuard.loseAll_eq_self kept unlost other
      rw [run_returning rfl, hlose, List.map_id]

/-- **A guard in one go.**  A guard that is not interrupted takes its tables as `LockGuard.take`
does, and is gone where that fails. -/
theorem run_take (session : Nat) (tables : List String) (locks : LockTable)
    (held : List HeldGuard) :
    match LockGuard.take session tables locks with
    | (.ok guard, locks') =>
      run ⟨locks, held⟩
          (.begin session tables :: List.replicate tables.length (.advance held.length)) =
        ⟨locks', held ++ [⟨guard, .taking [], false, []⟩]⟩
    | (.error _, locks') =>
      ∃ steps, run ⟨locks, held⟩
          (.begin session tables :: List.replicate steps (.advance held.length)) =
        ⟨locks', held⟩ := by
  split
  · rename_i guard locks' taken
    exact run_taking rfl taken
  · rename_i error locks' refused
    have hrun : ∃ steps, run ⟨locks, held ++ [HeldGuard.fresh session tables]⟩
        (List.replicate steps (.advance held.length)) = ⟨locks', held ++ []⟩ :=
      exists_run_refused rfl rfl rfl refused
    rw [List.append_nil] at hrun
    exact hrun

/-- A guard with all its tables that is not interrupted gives them back as `LockGuard.giveBack`
does. -/
theorem run_drop (h : held.phase = .taking []) (locks : LockTable) (before rest : List HeldGuard) :
    run ⟨locks, before ++ held :: rest⟩ (.drop before.length ::
        List.replicate (held.guard.tables.length + 1) (.advance before.length)) =
      ⟨held.guard.giveBack locks, (before ++ rest).map held.loseAll⟩ := by
  have hstep : serve ⟨locks, before ++ held :: rest⟩ (.drop before.length) =
      ⟨locks, before ++ { held with phase := .returning } :: rest⟩ := by
    simp [serve, h]
  rw [run_cons, hstep]
  exact run_returning rfl locks before rest

end Uninterrupted

end GuardedLocks

end RelQuery
