import Mathlib.Data.List.Perm.Subperm
import RelQuery.Proofs.Join.Meaning
import RelQuery.Proofs.Join.Steps

/-!
# The walk is a growth

The executor's walk over the clauses grows a textbook join, and the clauses that it leaves over are
filters between joined tables.  So the result of the executor is the meaning of its clauses whenever
these are compatible.
-/

namespace RelQuery

namespace JoinInput

variable {tables : List JoinInput}

/-- A clause that is executed by keys equates located columns without reals. -/
def ClausePlain (tables : List JoinInput) (clause : JoinClause) : Prop :=
  clause.kind ≠ .cross → ∀ on, clause.on = some on → KeysPlain tables on

/-- A turned clause is as plain. -/
lemma ClausePlain.turned {clause : JoinClause} (h : ClausePlain tables clause) :
    ClausePlain tables clause.turned := by
  intro hkind on hon
  refine h (fun hcross => hkind ?_) on hon
  rw [JoinClause.turned, hcross]
  rfl

/-- A step of the executor is the textbook join. -/
lemma joinsAs_of_joinStep (apart : NamesApart tables) {link : PendingJoin}
    (plain : ClausePlain tables link.clause) {output : JoinedTuples}
    (placed : Placed tables output.order link.right output.tuples) {watch : Watch} {interval : Nat}
    {joined : List Tuple}
    (h : joinStep tables watch interval link.right link.clause output = .ok joined) :
    JoinsAs tables output.order link output.tuples joined := by
  unfold joinStep at h
  split at h
  · rename_i hkind
    exact joinsAs_of_crossStep apart placed hkind h
  · rename_i hkind
    split at h
    · simp at h
    · rename_i on hon
      obtain ⟨key, hkey, h⟩ := Result.bind_eq_ok.mp h
      exact joinsAs_of_matchStep apart placed hon (plain hkind on hon) hkey h

/-- What every step of the walk preserves, the whole walk preserves, and it joins as many tables as
remained. -/
lemma walk_induction {P : List PendingJoin → JoinedTuples → Prop} {watch : Watch} {interval : Nat}
    (step : ∀ left output pending joined, P left output →
      left.find? (·.reaches output.order) = some pending →
      joinStep tables watch interval (pending.oriented output.order).1
        (pending.oriented output.order).2 output = .ok joined →
      P (left.eraseP (·.reaches output.order))
        ⟨output.order ++ [(pending.oriented output.order).1], joined⟩)
    {remaining : Nat} {left leftover : List PendingJoin} {output final : JoinedTuples}
    (start : P left output)
    (h : walk tables watch interval remaining left output = .ok (leftover, final)) :
    P leftover final ∧ final.order.length = output.order.length + remaining := by
  induction remaining generalizing left output with
  | zero =>
    obtain ⟨rfl, rfl⟩ := Prod.mk.inj (Except.ok.inj h)
    exact ⟨start, rfl⟩
  | succ remaining ih =>
    rw [RelQuery.walk] at h
    obtain ⟨-, -, h⟩ := Result.bind_eq_ok.mp h
    split at h
    · simp at h
    · rename_i pending hpending
      obtain ⟨joined, hjoined, h⟩ := Result.bind_eq_ok.mp h
      obtain ⟨hfinal, hlength⟩ := ih (step left output pending joined start hpending hjoined) h
      refine ⟨hfinal, ?_⟩
      rw [hlength, List.length_append, List.length_singleton]
      omega

/-- What the walk keeps: a growth of the pool, with a slot for every joined table. -/
structure Walking (tables : List JoinInput) (pool used left : List PendingJoin)
    (output : JoinedTuples) : Prop where
  grown : (space tables).Grows pool output.order used left output.choices
  inside : output.order ⊆ positions tables
  lengths : ∀ tuple ∈ output.tuples, tuple.length = output.order.length

/-- The walk starts as a growth. -/
lemma walking_start {start : Nat} (hstart : start < tables.length) (pool : List PendingJoin) :
    Walking tables pool [] pool (startOutput tables start) where
  grown := by
    have hchoices : (startOutput tables start).choices = (space tables).single start := by
      unfold JoinedTuples.choices startOutput RowSpace.single
      rw [List.map_map]
      rfl
    rw [hchoices]
    exact RowSpace.Grows.start start
  inside := by
    intro table htable
    rw [List.mem_singleton.mp htable, mem_positions]
    exact hstart
  lengths := by
    intro tuple htuple
    obtain ⟨index, -, rfl⟩ := List.mem_map.mp htuple
    rfl

/-- The clause that the walk picks, and what it leaves. -/
lemma perm_of_find? {α : Type} {p : α → Bool} {l : List α} {a : α} (h : l.find? p = some a) :
    p a = true ∧ l.Perm (a :: l.eraseP p) := by
  obtain ⟨hpa, before, after, rfl, hbefore⟩ := List.find?_eq_some_iff_append.mp h
  refine ⟨hpa, ?_⟩
  rw [List.eraseP_append_right _ (by simpa using hbefore), List.eraseP_cons_of_pos hpa]
  exact List.perm_middle

/-- One step of the walk grows the join. -/
lemma Walking.step (apart : NamesApart tables) {pool used left : List PendingJoin}
    {output : JoinedTuples} (walking : Walking tables pool used left output)
    (plain : ∀ link ∈ left, ClausePlain tables link.clause)
    (known : ∀ link ∈ left, link.left < tables.length ∧ link.right < tables.length)
    {pending : PendingJoin} (hpending : left.find? (·.reaches output.order) = some pending)
    {watch : Watch} {interval : Nat} {joined : List Tuple}
    (h : joinStep tables watch interval (pending.oriented output.order).1
      (pending.oriented output.order).2 output = .ok joined) :
    ∃ used', Walking tables pool used' (left.eraseP (·.reaches output.order))
      ⟨output.order ++ [(pending.oriented output.order).1], joined⟩ := by
  obtain ⟨hreaches, picked⟩ := perm_of_find? hpending
  have hmem : pending ∈ left := picked.mem_iff.mpr List.mem_cons_self
  -- the picked clause, turned so that its joined side is on the left
  obtain ⟨link, hface, hlink, inside, outside, hknown⟩ : ∃ link ∈ pending.faces,
      pending.oriented output.order = (link.right, link.clause) ∧ link.left ∈ output.order ∧
        link.right ∉ output.order ∧ link.right < tables.length := by
    have hone : ¬(pending.left ∈ output.order ↔ pending.right ∈ output.order) := by
      simpa [PendingJoin.reaches] using hreaches
    unfold PendingJoin.oriented
    by_cases hleft : pending.left ∈ output.order
    · refine ⟨pending, pending.mem_faces_self, by simp [hleft], hleft, ?_, (known pending hmem).2⟩
      exact fun hright => hone ⟨fun _ => hright, fun _ => hleft⟩
    · refine ⟨pending.turned, pending.turned_mem_faces, by simp [hleft, PendingJoin.turned], ?_,
        hleft, (known pending hmem).1⟩
      by_contra hright
      exact hone ⟨fun h => absurd h hleft, fun h => absurd h hright⟩
  have hplain : ClausePlain tables link.clause :=
    PendingJoin.of_mem_faces hface ClausePlain.turned (plain _ hmem)
  rw [hlink] at h ⊢
  have placed : Placed tables output.order link.right output.tuples :=
    ⟨walking.grown.nodup_joined, walking.inside, outside, hknown, walking.lengths⟩
  have joins := joinsAs_of_joinStep apart hplain placed h
  refine ⟨link :: used, ?_, ?_, joins.lengths⟩
  · have hchoices : (JoinedTuples.mk (output.order ++ [link.right]) joined).choices =
        (space tables).join link output.choices := joins.choices
    rw [hchoices]
    exact walking.grown.step picked hface inside outside joins.settled
  · refine List.append_subset.mpr ⟨walking.inside, fun table htable => ?_⟩
    rw [List.mem_singleton.mp htable, mem_positions]
    exact hknown

/-- The whole walk grows the join by as many tables as remained. -/
lemma Walking.walk (apart : NamesApart tables) {pool used left leftover : List PendingJoin}
    {output final : JoinedTuples} (walking : Walking tables pool used left output)
    (plain : ∀ link ∈ pool, ClausePlain tables link.clause)
    (known : ∀ link ∈ pool, link.left < tables.length ∧ link.right < tables.length) {watch : Watch}
    {interval remaining : Nat}
    (h : walk tables watch interval remaining left output = .ok (leftover, final)) :
    ∃ used', Walking tables pool used' leftover final ∧
      final.order.length = output.order.length + remaining := by
  obtain ⟨⟨used', walking'⟩, hlength⟩ := walk_induction
    (P := fun left output => ∃ used, Walking tables pool used left output)
    (fun left output pending joined ⟨used, walking⟩ hpending hjoined =>
      walking.step apart (fun link hlink => plain link (walking.grown.left_subset hlink))
        (fun link hlink => known link (walking.grown.left_subset hlink)) hpending hjoined)
    ⟨used, walking⟩ h
  exact ⟨used', walking', hlength⟩

/-! ## Clauses that are left over -/

/-- A clause left over is not outer, and filters the tuples by its condition. -/
lemma closeCycle_eq_ok (apart : NamesApart tables) {order : List Nat} (nodup : order.Nodup)
    (inside : order ⊆ positions tables) {tuples : List Tuple}
    (lengths : ∀ tuple ∈ tuples, tuple.length = order.length) {clause : JoinClause}
    {kept : List Tuple} (h : closeCycle tables order tuples clause = .ok kept) :
    clause.kind.isOuter = false ∧ kept = tuples.filter fun tuple =>
      (space tables).accepts clause.on (slotChoice order tuple) := by
  unfold closeCycle at h
  split at h
  · simp at h
  · rename_i houter
    refine ⟨by simpa using houter, ?_⟩
    split at h
    · rename_i on hon
      obtain ⟨hall, rfl⟩ := filterResult_eq_ok.mp h
      refine List.filter_congr fun tuple htuple => ?_
      obtain ⟨passed, hpassed⟩ := hall tuple htuple
      rw [hon, hpassed, Result.holds_ok]
      have haccepts := accepts_of_acceptsTuple apart nodup inside (lengths tuple htuple) hpassed
        (τ := slotChoice order tuple) fun _ _ => rfl
      exact (congrArg Result.holds haccepts).symm
    · rename_i hon
      split at h
      · rw [← Except.ok.inj h, hon]
        exact (List.filter_eq_self.mpr fun _ _ => rfl).symm
      · simp at h

/-- All clauses left over filter the tuples by their conditions, and none of them is outer. -/
lemma closeCycles_eq_ok (apart : NamesApart tables) {order : List Nat} (nodup : order.Nodup)
    (inside : order ⊆ positions tables) {leftover : List PendingJoin} {tuples kept : List Tuple}
    (lengths : ∀ tuple ∈ tuples, tuple.length = order.length)
    (h : leftover.foldlM (fun tuples pending => closeCycle tables order tuples pending.clause)
      tuples = .ok kept) :
    (∀ link ∈ leftover, link.clause.kind.isOuter = false) ∧ kept = tuples.filter fun tuple =>
      leftover.all fun link => (space tables).accepts link.clause.on (slotChoice order tuple) := by
  induction leftover generalizing tuples with
  | nil =>
    obtain rfl := Except.ok.inj h
    simp
  | cons link rest ih =>
    rw [List.foldlM_cons] at h
    obtain ⟨remaining, hremaining, h⟩ := Result.bind_eq_ok.mp h
    obtain ⟨hinner, rfl⟩ := closeCycle_eq_ok apart nodup inside lengths hremaining
    obtain ⟨hrest, rfl⟩ := ih (fun tuple htuple => lengths tuple (List.mem_filter.mp htuple).1) h
    refine ⟨?_, ?_⟩
    · simpa using ⟨hinner, hrest⟩
    · rw [List.filter_filter]
      refine List.filter_congr fun tuple _ => ?_
      rw [List.all_cons, Bool.and_comm]

/-! ## The executor -/

/-- The positions of a clause's tables. -/
lemma ofClause_eq_ok {clause : JoinClause} {link : PendingJoin}
    (h : PendingJoin.ofClause tables clause = .ok link) :
    indexOf tables clause.left = .ok link.left ∧ indexOf tables clause.right = .ok link.right ∧
      link.clause = clause := by
  unfold PendingJoin.ofClause at h
  obtain ⟨left, hleft, h⟩ := Result.bind_eq_ok.mp h
  obtain ⟨right, hright, h⟩ := Result.bind_eq_ok.mp h
  obtain rfl := Result.pure_eq_ok.mp h
  exact ⟨hleft, hright, rfl⟩

/-- The position of a table that a reference means. -/
lemma indexOf_eq_ok {ref : FromEntry} {position : Nat} (h : indexOf tables ref = .ok position) :
    position < tables.length ∧ (atPosition tables position).table.same ref = true := by
  unfold indexOf at h
  split at h
  · rename_i found hfound
    obtain rfl := Except.ok.inj h
    obtain ⟨hlt, hsame, -⟩ := List.findIdx?_eq_some_iff_getElem.mp hfound
    refine ⟨hlt, ?_⟩
    simpa [atPosition, hlt] using hsame
  · simp at h

/-- The position of an entry is that of the table with its name. -/
lemma NamesApart.indexOf_eq (apart : NamesApart tables) {ref : FromEntry} {position table : Nat}
    (h : indexOf tables ref = .ok position) (htable : table < tables.length)
    (hsame : ref.same (atPosition tables table).table = true) : position = table := by
  obtain ⟨hlt, hfound⟩ := indexOf_eq_ok h
  exact apart.eq_of_same hlt htable (Name.same_trans hfound hsame)

/-- The clauses of a pool lie between tables of the list. -/
lemma known_of_pool {clauses : List JoinClause} {pool : List PendingJoin}
    (h : clauses.mapM (PendingJoin.ofClause tables) = .ok pool) :
    ∀ link ∈ pool, link.left < tables.length ∧ link.right < tables.length := by
  intro link hlink
  obtain ⟨clause, -, hclause⟩ := source_of_mem_of_mapM h hlink
  obtain ⟨hleft, hright, -⟩ := ofClause_eq_ok hclause
  exact ⟨(indexOf_eq_ok hleft).1, (indexOf_eq_ok hright).1⟩

/-- The clauses of a pool are the declared ones. -/
lemma forall_pool_iff {clauses : List JoinClause} {pool : List PendingJoin}
    (h : clauses.mapM (PendingJoin.ofClause tables) = .ok pool) (p : JoinClause → Prop) :
    (∀ link ∈ pool, p link.clause) ↔ ∀ clause ∈ clauses, p clause := by
  constructor
  · intro hpool clause hclause
    obtain ⟨link, hlink, hof⟩ := ok_of_mem_of_mapM h hclause
    rw [← (ofClause_eq_ok hof).2.2]
    exact hpool link hlink
  · intro hclauses link hlink
    obtain ⟨clause, hclause, hof⟩ := source_of_mem_of_mapM h hlink
    rw [(ofClause_eq_ok hof).2.2]
    exact hclauses clause hclause

/-- What a successful execution is made of: a walk from the smallest table, and a filter for every
clause left over. -/
lemma joinTables_eq_ok {clauses : List JoinClause} {watch : Watch} {interval : Nat}
    {output : JoinedTuples} (h : joinTables tables watch interval clauses = .ok output) :
    ∃ start pool leftover walked, smallest? tables = some start ∧ start < tables.length ∧
      clauses.mapM (PendingJoin.ofClause tables) = .ok pool ∧
      RelQuery.walk tables watch interval (tables.length - 1) pool (startOutput tables start) =
        .ok (leftover, walked) ∧
      leftover.foldlM
        (fun tuples pending => closeCycle tables walked.order tuples pending.clause)
        walked.tuples = .ok output.tuples ∧
      output.order = walked.order := by
  unfold joinTables at h
  split at h
  · simp at h
  · rename_i start hstart
    obtain ⟨pool, hpool, h⟩ := Result.bind_eq_ok.mp h
    obtain ⟨⟨leftover, walked⟩, hwalk, h⟩ := Result.bind_eq_ok.mp h
    obtain ⟨kept, hkept, h⟩ := Result.bind_eq_ok.mp h
    obtain rfl := Result.pure_eq_ok.mp h
    exact ⟨start, pool, leftover, walked, hstart, (List.findIdx?_eq_some_iff_getElem.mp hstart).1,
      hpool, hwalk, hkept, rfl⟩

/-- What a successful execution has done: it grew a join over all tables and filtered it by the
clauses left over. -/
structure Executed (tables : List JoinInput) (pool : List PendingJoin) (output : JoinedTuples) :
    Prop where
  nodup : output.order.Nodup
  covers : output.order.Perm (positions tables)
  lengths : ∀ tuple ∈ output.tuples, tuple.length = output.order.length
  grown : ∃ used left choices, (space tables).Grows pool output.order used left choices ∧
    RowSpace.Closed output.order left ∧ output.choices = (space tables).remaining left choices

/-- An execution that succeeds has grown a join over all tables. -/
theorem executed_of_joinTables (apart : NamesApart tables) {clauses : List JoinClause}
    (plain : ∀ clause ∈ clauses, ClausePlain tables clause) {watch : Watch} {interval : Nat}
    {output : JoinedTuples} (h : joinTables tables watch interval clauses = .ok output) :
    ∃ pool, clauses.mapM (PendingJoin.ofClause tables) = .ok pool ∧
      Executed tables pool output := by
  obtain ⟨start, pool, leftover, walked, -, hlt, hpool, hwalk, hkept, horder⟩ := joinTables_eq_ok h
  have poolPlain : ∀ link ∈ pool, ClausePlain tables link.clause :=
    (forall_pool_iff hpool (ClausePlain tables)).mpr plain
  obtain ⟨used, walking, hlength⟩ :=
    (walking_start hlt pool).walk apart poolPlain (known_of_pool hpool) hwalk
  have hnodup := walking.grown.nodup_joined
  have hcovers : walked.order.Perm (positions tables) := by
    refine (List.subperm_of_subset hnodup walking.inside).perm_of_length_le ?_
    rw [hlength, positions, List.length_range, startOutput, List.length_singleton]
    omega
  obtain ⟨hinner, hfiltered⟩ :=
    closeCycles_eq_ok apart hnodup walking.inside walking.lengths hkept
  obtain ⟨order, tuples⟩ := output
  dsimp only at horder hfiltered
  subst horder hfiltered
  refine ⟨pool, hpool, hnodup, hcovers, ?_, used, leftover, walked.choices, walking.grown, ?_, ?_⟩
  · exact fun tuple htuple => walking.lengths tuple (List.mem_filter.mp htuple).1
  · intro link hlink
    obtain ⟨hleft, hright⟩ := known_of_pool hpool link (walking.grown.left_subset hlink)
    exact ⟨hcovers.mem_iff.mpr (mem_positions.mpr hleft),
      hcovers.mem_iff.mpr (mem_positions.mpr hright), hinner link hlink⟩
  · unfold RowSpace.remaining JoinedTuples.choices
    rw [List.filter_map]
    rfl

/-- The rows of a table have different positions. -/
lemma nodup_rows (tables : List JoinInput) (table : Nat) : ((space tables).rows table).Nodup :=
  List.nodup_range

/-- An execution gives no choice twice. -/
lemma Executed.nodup_choices {pool : List PendingJoin} {output : JoinedTuples}
    (executed : Executed tables pool output) : output.choices.Nodup := by
  obtain ⟨used, left, choices, grown, -, hchoices⟩ := executed.grown
  rw [hchoices]
  exact (grown.nodup (nodup_rows tables)).filter _

/-- An execution along compatible clauses gives the choices that fit the declared clauses. -/
theorem Executed.mem_choices_iff {pool : List PendingJoin} {output : JoinedTuples}
    (executed : Executed tables pool output) (hpool : pool.Pairwise PendingJoin.Compatible)
    (hlocal : ∀ link ∈ pool, link.clause.kind.isOuter = true → (space tables).Local link)
    {τ : Choice Nat} :
    τ ∈ output.choices ↔ (space tables).Valid τ ∧ τ.SupportedBy (positions tables) ∧
      (space tables).Fits pool output.order τ := by
  obtain ⟨used, left, choices, grown, closed, hchoices⟩ := executed.grown
  have hsupported : τ.SupportedBy (positions tables) ↔ τ.SupportedBy output.order := by
    unfold Choice.SupportedBy
    exact forall_congr' fun table => by rw [executed.covers.mem_iff]
  rw [hchoices, hsupported]
  exact grown.mem_remaining_iff hpool hlocal closed

end JoinInput

end RelQuery
