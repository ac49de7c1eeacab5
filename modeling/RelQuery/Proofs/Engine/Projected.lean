import RelQuery.Proofs.Engine.Joined

/-!
# Projected choices

The members of the projection are computed on the stored rows behind a tuple, which the engine looks
up again by their ids.  Read as choices of stored rows the tuples give the members their values on
one logical row for every entry, in whatever order the tables were joined.
-/

namespace RelQuery

/-- The members have their values on other rows where each expression has its outcome. -/
lemma Projection.evaluate_congr {p : Projection} {mode mode' : Coverage}
    {rows rows' : List LogicalRow}
    (h : ∀ e ∈ p.members, e.evaluate mode rows = e.evaluate mode' rows') :
    p.evaluate mode rows = p.evaluate mode' rows' := by
  refine mapM_congr fun e he => ?_
  unfold evaluateMember
  rw [h e he]

namespace Plan

variable {s : Store} {plan : Plan} {early : FromEntry → Option Expr} {inputs : List JoinInput}

/-- The id of a kept row leads back to the row. -/
lemma Bound.rowBehind_eq (bound : plan.Bound s) (sound : s.Sound) {b : BoundEntry}
    (hb : b ∈ plan.tables) {row : Nat × Row} (hrow : row ∈ s.rowsOf b.table) :
    s.rowBehind b.table row.1 = .ok (b.table.named row) := by
  obtain ⟨t, ht, -⟩ := bound.stored b hb
  rw [Store.rowsOf_eq ht] at hrow
  have hfound := (sound t (Store.get_eq_ok ht).2).row?_eq hrow
  simp only [Store.rowBehind, ht, bind, Except.bind, hfound]
  rfl

/-- What is fetched for a slot is the stored row behind the candidate, or padding. -/
lemma Gathered.fetch_eq (h : plan.Gathered s early inputs) (bound : plan.Bound s)
    (sound : s.Sound) {position : Nat} (hposition : position < inputs.length) {slot : Option Nat}
    (hslot : ∀ index, slot = some index →
      index < (JoinInput.atPosition inputs position).rows.length) :
    fetch s.catalog (JoinInput.atPosition inputs position) slot =
      .ok ((FromEntry.atPosition plan.entries position).shown
        (slot.map (behind s plan early position))) := by
  obtain ⟨b, hb, hentry, gathers⟩ := h.at_position hposition
  cases slot with
  | none =>
    rw [fetch, JoinInput.referenceName, gathers.table, hentry]
    rfl
  | some index =>
    obtain ⟨candidate, hcandidate, hcut⟩ := gathers.exists_candidate (hslot index rfl)
    obtain ⟨values, -, rfl⟩ := Result.map_eq_ok.mp hcut
    have hmem := h.behind_mem hposition (hslot index rfl)
    rw [hentry] at hmem
    have hbehind := bound.rowBehind_eq sound hb hmem
    simp only [behind, hentry] at hbehind
    unfold fetch
    simp only [hcandidate, gathers.table, Option.map_some, behind, hentry, FromEntry.shown]
    change ((s.rowBehind b.table _).inPlace _).map LogicalRow.stored = _
    rw [FromEntry.named, hbehind]
    rfl

/-- Whatever is fetched for a slot is the stored row behind the candidate, or padding. -/
lemma Gathered.eq_of_fetch (h : plan.Gathered s early inputs) (bound : plan.Bound s)
    (sound : s.Sound) {position : Nat} (hposition : position < inputs.length) {slot : Option Nat}
    {row : LogicalRow}
    (hrow : fetch s.catalog (JoinInput.atPosition inputs position) slot = .ok row) :
    row = (FromEntry.atPosition plan.entries position).shown
      (slot.map (behind s plan early position)) := by
  have hslot (index : Nat) (hindex : slot = some index) :
      index < (JoinInput.atPosition inputs position).rows.length := by
    subst hindex
    unfold fetch at hrow
    dsimp only at hrow
    split at hrow
    · simp at hrow
    · rename_i candidate hcandidate
      exact (List.getElem?_eq_some_iff.mp hcandidate).1
  exact Except.ok.inj (hrow.symm.trans (h.fetch_eq bound sound hposition hslot))

/-- The members on every joined tuple are their values on the choices of stored rows. -/
lemma Gathered.mapM_of_memberRows (h : plan.Gathered s early inputs) (bound : plan.Bound s)
    (sound : s.Sound) {watch : Watch} {interval : Nat} {output : JoinedTuples}
    (nodup : output.order.Nodup) (covers : output.order.Perm (JoinInput.positions inputs))
    (lengths : ∀ tuple ∈ output.tuples, tuple.length = output.order.length) {rows : List Row}
    (hrows : plan.memberRows s.catalog watch interval inputs output = .ok rows) :
    ((plan.choices s early output).mapM fun σ =>
      plan.projection.evaluate .prefilter (FromEntry.shownRows plan.entries σ)) = .ok rows := by
  have htuples : (output.tuples.mapM fun tuple => do
      let found ← fetchTuple s.catalog inputs output.order tuple
      plan.projection.evaluate .prefilter found) = .ok rows := by
    refine mapM_of_zipIdx hrows fun tuple count found hfound => ?_
    obtain ⟨_, -, hfound⟩ := Result.bind_eq_ok.mp hfound
    exact hfound
  rw [choices, JoinedTuples.choices, List.map_map, List.mapM_map]
  refine mapM_congr_of_ok htuples fun tuple htuple found hfound => ?_
  obtain ⟨fetched, hfetched, hfound⟩ := Result.bind_eq_ok.mp hfound
  have hrows : fetched = output.order.map fun position =>
      (FromEntry.atPosition plan.entries position).shown
        ((slotChoice output.order tuple position).map (behind s plan early position)) := by
    refine eq_map_of_slots
      (f := fun position slot => fetch s.catalog (JoinInput.atPosition inputs position) slot)
      (g := fun position slot => (FromEntry.atPosition plan.entries position).shown
        (slot.map (behind s plan early position)))
      nodup (lengths tuple htuple) (fun position hposition slot row hrow => ?_) hfetched
    rw [covers.mem_iff, JoinInput.mem_positions] at hposition
    exact h.eq_of_fetch bound sound hposition hrow
  -- the order of the rows does not matter
  have hsame : plan.projection.evaluate .prefilter (FromEntry.shownRows plan.entries
        ((slotChoice output.order tuple).through (behind s plan early))) =
      plan.projection.evaluate .prefilter fetched := by
    have hperm : output.order.Perm (List.range plan.entries.length) := by
      rw [h.length_eq]
      exact covers
    have apart := bound.apart_entries.named.apart_rows
      ((slotChoice output.order tuple).through (behind s plan early))
    refine Projection.evaluate_congr fun e _ => ?_
    rw [hrows]
    exact Expr.evaluate_perm apart hperm.symm e
  exact hsame.trans hfound

/-! ## Whole runs -/

/-- The answer came out of the joined tuples by projection, grouping and arrangement. -/
structure Finished (s : Store) (plan : Plan) (watch : Watch) (interval : Nat)
    (tables : List JoinInput) (final : JoinedTuples) (rows : List Row) (answer : Answer) :
    Prop where
  projected : plan.memberRows s.catalog watch interval tables final = .ok rows
  arranged : ∃ grouped, plan.group watch rows = .ok grouped ∧
    plan.arrange grouped = .ok answer.rows
  columns : answer.columns = plan.projection.outputNames

/-- The phases of a successful run. -/
lemma finished_of_run {watch : Watch} {interval : Nat} {answer : Answer}
    (h : plan.run s.catalog watch interval = .ok answer) :
    ∃ inputs final rows, plan.candidates s.catalog watch = .ok inputs ∧
      plan.joinCandidates watch interval inputs = .ok final ∧
      plan.Finished s watch interval inputs final rows answer := by
  unfold run at h
  obtain ⟨_, -, h⟩ := Result.bind_eq_ok.mp h
  obtain ⟨inputs, hinputs, h⟩ := Result.bind_eq_ok.mp h
  obtain ⟨final, hfinal, h⟩ := Result.bind_eq_ok.mp h
  obtain ⟨rows, hrows, h⟩ := Result.bind_eq_ok.mp h
  obtain ⟨grouped, hgrouped, h⟩ := Result.bind_eq_ok.mp h
  obtain ⟨arranged, harranged, h⟩ := Result.bind_eq_ok.mp h
  obtain ⟨_, -, h⟩ := Result.bind_eq_ok.mp h
  obtain rfl := Result.pure_eq_ok.mp h
  exact ⟨inputs, final, rows, hinputs, hfinal, hrows, ⟨grouped, hgrouped, harranged⟩, rfl⟩

/-- The rows of the members are projected from the choices that are left of an execution. -/
lemma Finished.mapM_choices {watch : Watch} {interval : Nat} {final : JoinedTuples}
    {rows : List Row} {answer : Answer}
    (finished : plan.Finished s watch interval inputs final rows answer)
    (gathered : plan.Gathered s early inputs) (bound : plan.Bound s) (sound : s.Sound)
    {pool : List PendingJoin} {output : JoinedTuples}
    (executed : JoinInput.Executed inputs pool output) (horder : final.order = output.order)
    (htuples : ∀ tuple ∈ final.tuples, tuple ∈ output.tuples) :
    ((plan.choices s early final).mapM fun σ =>
      plan.projection.evaluate .prefilter (FromEntry.shownRows plan.entries σ)) = .ok rows :=
  gathered.mapM_of_memberRows bound sound (horder ▸ executed.nodup) (horder ▸ executed.covers)
    (fun tuple htuple => horder ▸ executed.lengths tuple (htuples tuple htuple)) finished.projected

/-- What a successful run has done: it gathered the candidates, joined them, kept the choices that
WHERE accepts, gave the members their values on them, and grouped and arranged the rows. -/
structure Ran (s : Store) (plan : Plan) (watch : Watch) (answer : Answer) (inputs : List JoinInput)
    (pool : List PendingJoin) (output final : JoinedTuples) (rows : List Row) : Prop where
  gathered : plan.Gathered s plan.earlyPredicate inputs
  pooled : plan.joins.mapM (PendingJoin.ofClause inputs) = .ok pool
  executed : JoinInput.Executed inputs pool output
  kept : plan.choices s plan.earlyPredicate final =
    (plan.choices s plan.earlyPredicate output).filter (plan.selects s)
  projected : ((plan.choices s plan.earlyPredicate final).mapM fun σ =>
    plan.projection.evaluate .prefilter (FromEntry.shownRows plan.entries σ)) = .ok rows
  arranged : ∃ grouped, plan.group watch rows = .ok grouped ∧
    plan.arrange grouped = .ok answer.rows
  columns : answer.columns = plan.projection.outputNames

/-- What a successful run has done. -/
theorem ran_of_run (bound : plan.Bound s) (sound : s.Sound) (notReal : plan.KeysNotReal)
    {watch : Watch} {interval : Nat} {answer : Answer}
    (h : plan.run s.catalog watch interval = .ok answer) :
    ∃ inputs pool output final rows,
      Ran s plan watch answer inputs pool output final rows := by
  obtain ⟨inputs, final, rows, hinputs, hfinal, finished⟩ := finished_of_run h
  have gathered := gathered_of_candidates hinputs
  obtain ⟨pool, output, hpool, executed, horder, htuples, hkept⟩ :=
    gathered.choices_joinCandidates bound sound notReal hfinal
  have hprojected := finished.mapM_choices gathered bound sound executed horder htuples
  exact ⟨inputs, pool, output, final, rows, gathered, hpool, executed, hkept, hprojected,
    finished.arranged, finished.columns⟩

section Ran

variable {watch : Watch} {answer : Answer} {pool : List PendingJoin} {output final : JoinedTuples}
  {rows : List Row}

/-- A run joins no choice of stored rows twice. -/
lemma Ran.nodup (ran : Ran s plan watch answer inputs pool output final rows) (sound : s.Sound) :
    (plan.choices s plan.earlyPredicate final).Nodup := by
  rw [ran.kept]
  exact (ran.gathered.nodup_choices sound ran.executed).filter _

/-- Along compatible clauses a run joins the choices of stored rows that fit the clauses and that
WHERE accepts. -/
theorem Ran.mem_choices_iff (ran : Ran s plan watch answer inputs pool output final rows)
    (bound : plan.Bound s) (sound : s.Sound) (compatible : pool.Pairwise PendingJoin.Compatible)
    (own : plan.OuterOwn pool) {σ : Choice (Nat × Row)} :
    σ ∈ plan.choices s plan.earlyPredicate final ↔
      ((s.space plan.entries).Valid σ ∧ σ.SupportedBy (List.range plan.entries.length) ∧
        (s.space plan.entries).Fits pool (List.range plan.entries.length) σ) ∧
      plan.selects s σ = true := by
  rw [ran.kept, List.mem_filter]
  refine and_congr_left fun selected => ?_
  exact ran.gathered.mem_choices_iff bound sound (spares_earlyPredicate plan) ran.pooled
    ran.executed compatible own selected

end Ran

end Plan

end RelQuery
