import Mathlib.Data.List.MinMax
import RelQuery.Proofs.Faults.Joining

/-!
# The walk reaches all tables

The walk stops with a fault only where no pending clause leads from the joined tables to another
one.  A clause that is not pending any more lies between joined tables, so then no clause at all
leads out of the joined tables.  Where every part of the tables is left by some clause this cannot
happen, and the walk joins all tables.
-/

namespace RelQuery

open Result

namespace JoinInput

variable {tables : List JoinInput}

/-- Every part of so many tables, neither empty nor the whole, is left by a clause. -/
def Connected (count : Nat) (pool : List PendingJoin) : Prop :=
  ∀ part : List Nat, part ≠ [] → (∀ position ∈ part, position < count) →
    (∃ position < count, position ∉ part) → ∃ pending ∈ pool, pending.reaches part = true

/-- The walk has joined different tables, its tuples keep their shape, and a clause of the pool is
still pending or lies between joined tables. -/
structure Underway (tables : List JoinInput) (pool left : List PendingJoin)
    (output : JoinedTuples) : Prop where
  started : output.order ≠ []
  nodup : output.order.Nodup
  inside : ∀ position ∈ output.order, position < tables.length
  fits : ∀ tuple ∈ output.tuples, FitsOrder tables output.order tuple
  pending : left ⊆ pool
  settled : ∀ clause ∈ pool, clause ∈ left ∨
    (clause.left ∈ output.order ∧ clause.right ∈ output.order)

/-- A clause that reaches out of the joined tables leads from one of them to a new one. -/
lemma oriented_of_reaches {order : List Nat} {pending : PendingJoin}
    (h : pending.reaches order = true) :
    (pending.oriented order).1 ∉ order ∧
      ((pending.oriented order).1 = pending.left ∨ (pending.oriented order).1 = pending.right) ∧
      (pending.left = (pending.oriented order).1 ∨ pending.left ∈ order) ∧
      (pending.right = (pending.oriented order).1 ∨ pending.right ∈ order) ∧
      (pending.oriented order).2.on = pending.clause.on := by
  have hone : ¬(pending.left ∈ order ↔ pending.right ∈ order) := by
    simpa [PendingJoin.reaches] using h
  unfold PendingJoin.oriented
  by_cases hleft : pending.left ∈ order
  · have hright : pending.right ∉ order := fun hright => hone ⟨fun _ => hright, fun _ => hleft⟩
    rw [if_pos (by simpa using hleft)]
    exact ⟨hright, Or.inr rfl, Or.inr hleft, Or.inl rfl, rfl⟩
  · have hright : pending.right ∈ order := by
      by_contra hright
      exact hone ⟨fun h => absurd h hleft, fun h => absurd h hright⟩
    rw [if_neg (by simpa using hleft)]
    exact ⟨hleft, Or.inl rfl, Or.inl rfl, Or.inr hright, rfl⟩

/-- The tables joined after a step are tables of the list. -/
lemma Underway.inside_append {pool left : List PendingJoin} {output : JoinedTuples}
    (underway : Underway tables pool left output)
    (known : ∀ link ∈ pool, link.left < tables.length ∧ link.right < tables.length)
    {pending : PendingJoin} (hmem : pending ∈ left) {newTable : Nat}
    (hend : newTable = pending.left ∨ newTable = pending.right) :
    ∀ position ∈ output.order ++ [newTable], position < tables.length := by
  obtain ⟨hleft, hright⟩ := known pending (underway.pending hmem)
  intro position hposition
  rcases List.mem_append.mp hposition with hposition | hposition
  · exact underway.inside position hposition
  · rw [List.mem_singleton.mp hposition]
    rcases hend with rfl | rfl
    · exact hleft
    · exact hright

/-- A step of the walk keeps it underway. -/
lemma Underway.step {pool left : List PendingJoin} {output : JoinedTuples}
    (underway : Underway tables pool left output)
    (known : ∀ link ∈ pool, link.left < tables.length ∧ link.right < tables.length)
    {pending : PendingJoin} (hfound : left.find? (·.reaches output.order) = some pending)
    {watch : Watch} {interval : Nat} {joined : List Tuple}
    (h : joinStep tables watch interval (pending.oriented output.order).1
      (pending.oriented output.order).2 output = .ok joined) :
    Underway tables pool (left.eraseP (·.reaches output.order))
      ⟨output.order ++ [(pending.oriented output.order).1], joined⟩ := by
  obtain ⟨hreaches, picked⟩ := perm_of_find? hfound
  have hmem : pending ∈ left := picked.mem_iff.mpr List.mem_cons_self
  obtain ⟨fresh, hend, hleft, hright, -⟩ := oriented_of_reaches hreaches
  have hfits := fun tuple htuple => (grown_of_joinStep h tuple htuple).fits underway.fits
  refine ⟨by simp, ?_, underway.inside_append known hmem hend, hfits, ?_, ?_⟩
  · refine List.nodup_append.mpr ⟨underway.nodup, List.nodup_singleton _, fun a ha b hb heq => ?_⟩
    rw [heq, List.mem_singleton.mp hb] at ha
    exact fresh ha
  · exact fun clause hclause => underway.pending (List.mem_of_mem_eraseP hclause)
  · intro clause hclause
    rcases underway.settled clause hclause with hpending | ⟨hl, hr⟩
    · rcases List.mem_cons.mp (picked.mem_iff.mp hpending) with rfl | hrest
      · refine Or.inr ⟨?_, ?_⟩
        · exact List.mem_append.mpr (hleft.symm.imp_right fun h => by rw [h]; simp)
        · exact List.mem_append.mpr (hright.symm.imp_right fun h => by rw [h]; simp)
      · exact Or.inl hrest
    · exact Or.inr ⟨List.mem_append_left _ hl, List.mem_append_left _ hr⟩

/-- The joined tables, when so many of them are joined as there are, are all tables. -/
lemma Underway.perm_range {pool left : List PendingJoin} {output : JoinedTuples}
    (underway : Underway tables pool left output) (hlength : output.order.length = tables.length) :
    output.order.Perm (List.range tables.length) := by
  have hsub : output.order ⊆ List.range tables.length :=
    fun position hposition => List.mem_range.mpr (underway.inside position hposition)
  exact (underway.nodup.subperm hsub).perm_of_length_le (by simp [hlength])

/-- Where every part of the tables is left by a clause, the walk finds one until all are joined. -/
lemma Underway.exists_find? {pool left : List PendingJoin} {output : JoinedTuples}
    (underway : Underway tables pool left output) (connected : Connected tables.length pool)
    (hmore : output.order.length < tables.length) :
    ∃ pending, left.find? (·.reaches output.order) = some pending := by
  obtain ⟨position, hposition, hmissing⟩ :
      ∃ position < tables.length, position ∉ output.order := by
    by_contra hall
    push Not at hall
    have hsub : List.range tables.length ⊆ output.order :=
      fun position hposition => hall position (List.mem_range.mp hposition)
    have hle := (List.nodup_range.subperm hsub).length_le
    rw [List.length_range] at hle
    omega
  obtain ⟨pending, hpending, hreaches⟩ :=
    connected output.order underway.started underway.inside ⟨position, hposition, hmissing⟩
  rcases underway.settled pending hpending with hleft | ⟨hl, hr⟩
  · exact Option.isSome_iff_exists.mp (List.find?_isSome.mpr ⟨pending, hleft, hreaches⟩)
  · simp [PendingJoin.reaches, hl, hr] at hreaches

/-- No join along the clauses raises the error: neither a step of the walk nor a clause that closes
a cycle. -/
structure Spared (tables : List JoinInput) (watch : Watch) (interval : Nat)
    (pool : List PendingJoin) (error : Error) : Prop where
  step : ∀ left output pending, Underway tables pool left output →
    left.find? (·.reaches output.order) = some pending →
    joinStep tables watch interval (pending.oriented output.order).1
      (pending.oriented output.order).2 output ≠ .error error
  close : ∀ order tuples, (∀ position ∈ order, position < tables.length) →
    (∀ tuple ∈ tuples, FitsOrder tables order tuple) → ∀ pending ∈ pool,
      closeCycle tables order tuples pending.clause ≠ .error error

/-- A walk over connected tables raises no fault that its steps do not raise. -/
lemma Underway.walk_ne_error {pool : List PendingJoin} {watch : Watch} {interval : Nat}
    {error : Error} (fault : error.isFault = true)
    (spared : Spared tables watch interval pool error) (connected : Connected tables.length pool)
    (known : ∀ link ∈ pool, link.left < tables.length ∧ link.right < tables.length)
    {remaining : Nat} {left : List PendingJoin} {output : JoinedTuples}
    (underway : Underway tables pool left output)
    (hcount : output.order.length + remaining = tables.length) :
    RelQuery.walk tables watch interval remaining left output ≠ .error error := by
  induction remaining generalizing left output with
  | zero => simp [RelQuery.walk]
  | succ remaining ih =>
    rw [RelQuery.walk]
    refine Result.bind_ne_error ((faultless_poll watch _).ne_error fault) fun _ _ => ?_
    obtain ⟨pending, hfound⟩ := underway.exists_find? connected (by omega)
    rw [hfound]
    refine Result.bind_ne_error (spared.step left output pending underway hfound)
      fun joined hjoined => ih (underway.step known hfound hjoined) ?_
    rw [List.length_append, List.length_singleton]
    omega

/-- A clause that closes a cycle keeps some of the tuples. -/
lemma subset_of_closeCycle {order : List Nat} {tuples kept : List Tuple} {clause : JoinClause}
    (h : closeCycle tables order tuples clause = .ok kept) : kept ⊆ tuples := by
  unfold closeCycle at h
  split at h
  · simp at h
  · split at h
    · obtain ⟨-, rfl⟩ := filterResult_eq_ok.mp h
      exact List.filter_subset_self _
    · split at h
      · rw [Except.ok.inj h]
        exact List.Subset.refl kept
      · simp at h

/-- All clauses that close a cycle keep some of the tuples. -/
lemma subset_of_closeCycles {order : List Nat} {leftover : List PendingJoin}
    {tuples kept : List Tuple}
    (h : leftover.foldlM (fun tuples pending => closeCycle tables order tuples pending.clause)
      tuples = .ok kept) : kept ⊆ tuples := by
  induction leftover generalizing tuples with
  | nil =>
    rw [Except.ok.inj h]
    exact List.Subset.refl kept
  | cons pending rest ih =>
    rw [List.foldlM_cons] at h
    obtain ⟨remaining, hremaining, h⟩ := Result.bind_eq_ok.mp h
    exact List.Subset.trans (ih h) (subset_of_closeCycle hremaining)

/-- Clauses that read only what the tables carry raise no fault. -/
lemma spared_of_serves {pool : List PendingJoin} (serves : ∀ pending ∈ pool, ∀ e,
      pending.clause.on = some e → Serves tables e)
    (known : ∀ link ∈ pool, link.left < tables.length ∧ link.right < tables.length) {watch : Watch}
    {interval : Nat} {error : Error} (fault : error.isFault = true) :
    Spared tables watch interval pool error where
  step left output pending underway hfound := by
    obtain ⟨hreaches, picked⟩ := perm_of_find? hfound
    have hmem : pending ∈ left := picked.mem_iff.mpr List.mem_cons_self
    obtain ⟨-, hend, -, -, hon⟩ := oriented_of_reaches hreaches
    have hserves := serves pending (underway.pending hmem)
    exact (faultless_joinStep (fun e he => hserves e (hon ▸ he))
      (underway.inside_append known hmem hend) underway.fits).ne_error fault
  close order tuples inside fits pending hpending := by
    have hclose : (closeCycle tables order tuples pending.clause).Faultless := by
      unfold closeCycle
      split
      · rfl
      · split
        · rename_i on hon
          exact (gives_filterResult fun tuple htuple => (serves pending hpending on
            hon).faultless_acceptsTuple inside (fits tuple htuple)).faultless
        · split
          · trivial
          · rfl
    exact hclose.ne_error fault

/-- The start of the walk is one of the tables. -/
lemma exists_smallest? (h : tables ≠ []) :
    ∃ start < tables.length, smallest? tables = some start := by
  obtain ⟨least, hleast⟩ : ∃ least, tables.argmin (fun t => t.rows.length) = some least := by
    rw [← Option.isSome_iff_exists, Option.isSome_iff_ne_none, Ne, List.argmin_eq_none]
    exact h
  cases hstart : smallest? tables with
  | none =>
    have hnone := List.findIdx?_eq_none_iff.mp hstart least (List.argmin_mem hleast)
    have hall : (tables.all fun other => decide (least.rows.length ≤ other.rows.length)) = true :=
      List.all_eq_true.mpr fun other hother => by
        simpa using List.le_of_mem_argmin hother hleast
    rw [hall] at hnone
    simp at hnone
  | some start =>
    obtain ⟨hlt, -⟩ := List.findIdx?_eq_some_iff_getElem.mp hstart
    exact ⟨start, hlt, rfl⟩

/-- The tuples of the first table. -/
lemma underway_start {start : Nat} (hstart : start < tables.length) (pool : List PendingJoin) :
    Underway tables pool pool (startOutput tables start) where
  started := by simp [startOutput]
  nodup := List.nodup_singleton start
  inside position hposition := by rwa [List.mem_singleton.mp hposition]
  fits tuple htuple := by
    obtain ⟨index, hindex, rfl⟩ := List.mem_map.mp htuple
    refine List.Forall₂.cons (fun other hother => ?_) List.Forall₂.nil
    obtain rfl := Option.some.inj hother
    exact List.mem_range.mp hindex
  pending := List.Subset.refl pool
  settled _ hclause := Or.inl hclause

/-- What a join gives: tuples of the shape over all tables. -/
structure Complete (tables : List JoinInput) (output : JoinedTuples) : Prop where
  inside : ∀ position ∈ output.order, position < tables.length
  covers : ∀ position < tables.length, position ∈ output.order
  fits : ∀ tuple ∈ output.tuples, FitsOrder tables output.order tuple

/-- A walk along all tables, filtered by the clauses left over, is complete. -/
lemma complete_of_joinTables {clauses : List JoinClause} {watch : Watch} {interval : Nat}
    {output : JoinedTuples} (h : joinTables tables watch interval clauses = .ok output) :
    Complete tables output := by
  obtain ⟨start, pool, leftover, walked, -, hstart, hpool, hwalk, hkept, horder⟩ :=
    joinTables_eq_ok h
  obtain ⟨underway, hlength⟩ := walk_induction (P := Underway tables pool)
    (fun _ _ _ _ underway hfound hjoined => underway.step (known_of_pool hpool) hfound hjoined)
    (underway_start hstart pool) hwalk
  have hperm := underway.perm_range (by
    rw [hlength, startOutput, List.length_singleton]
    omega)
  rw [← horder] at hperm
  refine ⟨fun position hposition => ?_, fun position hposition => ?_, fun tuple htuple => ?_⟩
  · exact List.mem_range.mp (hperm.mem_iff.mp hposition)
  · exact hperm.mem_iff.mpr (List.mem_range.mpr hposition)
  · rw [horder]
    exact underway.fits tuple (subset_of_closeCycles hkept htuple)

/-- Joining connected tables raises no fault that the steps along the clauses do not raise. -/
lemma joinTables_ne_error {clauses : List JoinClause} {watch : Watch} {interval : Nat}
    {error : Error} (fault : error.isFault = true) (hstart : smallest? tables = none →
      error ≠ .fault .nothingToJoin)
    (hclauses : clauses.mapM (PendingJoin.ofClause tables) ≠ .error error)
    (connected : ∀ pool, clauses.mapM (PendingJoin.ofClause tables) = .ok pool →
      Connected tables.length pool)
    (spared : ∀ pool, clauses.mapM (PendingJoin.ofClause tables) = .ok pool →
      Spared tables watch interval pool error) :
    joinTables tables watch interval clauses ≠ .error error := by
  unfold joinTables
  split
  · rename_i hnone
    simpa [eq_comm] using hstart hnone
  · rename_i start hsome
    have hlt : start < tables.length := (List.findIdx?_eq_some_iff_getElem.mp hsome).1
    refine Result.bind_ne_error hclauses fun pool hpool => ?_
    have hcount : (startOutput tables start).order.length + (tables.length - 1) =
        tables.length := by
      simp only [startOutput, List.length_singleton]
      omega
    have hknown := known_of_pool hpool
    refine Result.bind_ne_error ((underway_start hlt pool).walk_ne_error fault (spared pool hpool)
      (connected pool hpool) hknown hcount) fun walked hwalk => ?_
    obtain ⟨leftover, output⟩ := walked
    obtain ⟨underway, -⟩ := walk_induction (P := Underway tables pool)
      (fun _ _ _ _ underway hfound hjoined => underway.step hknown hfound hjoined)
      (underway_start hlt pool) hwalk
    refine Result.bind_ne_error ?_ fun _ _ => by simp [pure, Except.pure]
    -- the clauses left over filter tuples of the shape
    refine foldlM_ne_error
      (R := fun tuples => ∀ tuple ∈ tuples, FitsOrder tables output.order tuple) underway.fits
      (fun tuples fits pending hpending => ?_)
      fun tuples fits pending _ kept hkept tuple htuple => ?_
    · exact (spared pool hpool).close output.order tuples underway.inside fits pending
        (underway.pending hpending)
    · exact fits tuple (subset_of_closeCycle hkept htuple)

/-- Joining connected tables raises no fault. -/
theorem gives_joinTables {clauses : List JoinClause} {watch : Watch} {interval : Nat}
    (nonempty : tables ≠ [])
    (known : ∀ clause ∈ clauses, (∃ t ∈ tables, t.table.same clause.left = true) ∧
      ∃ t ∈ tables, t.table.same clause.right = true)
    (serves : ∀ clause ∈ clauses, ∀ e, clause.on = some e → Serves tables e)
    (connected : ∀ pool, clauses.mapM (PendingJoin.ofClause tables) = .ok pool →
      Connected tables.length pool) :
    (joinTables tables watch interval clauses).Gives (Complete tables) := by
  obtain ⟨start, -, hsmallest⟩ := exists_smallest? nonempty
  have index (ref : FromEntry) (h : ∃ t ∈ tables, t.table.same ref = true) :
      (indexOf tables ref).Faultless := by
    unfold indexOf
    cases hfound : tables.findIdx? (·.table.same ref) with
    | some position => trivial
    | none =>
      obtain ⟨t, ht, hsame⟩ := h
      rw [List.findIdx?_eq_none_iff.mp hfound t ht] at hsame
      simp at hsame
  have pooled : (clauses.mapM (PendingJoin.ofClause tables)).Faultless := by
    refine Gives.faultless (gives_mapM (R := fun _ => True) fun clause hclause => ?_)
    obtain ⟨hleft, hright⟩ := known clause hclause
    exact (index _ hleft).bind fun _ _ _ => (index _ hright).bind fun _ _ _ => trivial
  refine gives_of_ok (fun output h => complete_of_joinTables h) fun error fault => ?_
  refine joinTables_ne_error fault (by simp [hsmallest]) (pooled.ne_error fault) connected
    fun pool hpool => ?_
  exact spared_of_serves ((forall_pool_iff hpool fun clause =>
    ∀ e, clause.on = some e → Serves tables e).mpr serves) (known_of_pool hpool) fault

end JoinInput

end RelQuery
