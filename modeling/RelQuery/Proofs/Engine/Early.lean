import RelQuery.Proofs.Engine.Narrowed

/-!
# Early predicates

An entry may be given the WHERE predicate before the join, evaluated on one row of the entry alone.
A row that is ruled out in this way stands in no choice that the predicate accepts later, since what
is decided on the row is decided on every choice that takes it.  Early predicates therefore lose
nothing by themselves; what may go wrong is that the loss of a row lets others count as alone, and
so the entries that a clause may pad are spared.
-/

namespace RelQuery.Plan

variable {s : Store} {plan : Plan} {early : FromEntry → Option Expr} {inputs : List JoinInput}

/-- The early predicates are the WHERE predicate or none, and entries that a clause may pad have
none. -/
structure Spares (plan : Plan) (early : FromEntry → Option Expr) : Prop where
  selection : ∀ entry e, early entry = some e → plan.selection = some e
  padded : ∀ clause ∈ plan.joins, ∀ entry, pads clause entry = true → early entry = none

/-- The early predicates of the engine spare what a clause may pad. -/
lemma spares_earlyPredicate (plan : Plan) : plan.Spares plan.earlyPredicate where
  selection entry e h := by
    unfold earlyPredicate at h
    split at h
    · simp at h
    · exact h
  padded clause hclause entry hpads := by
    unfold earlyPredicate
    exact if_pos (List.any_eq_true.mpr ⟨clause, hclause, hpads⟩)

/-- No early predicates at all spare everything. -/
lemma spares_none (plan : Plan) : plan.Spares fun _ => none where
  selection _ _ h := by simp at h
  padded _ _ _ _ := rfl

/-- The WHERE predicate accepts the choice. -/
def selects (s : Store) (plan : Plan) (σ : Choice (Nat × Row)) : Bool :=
  (s.space plan.entries).accepts plan.selection σ

/-- A predicate that is TRUE on a choice was decided so. -/
lemma exists_of_holds_accepts {e : Expr} {rows : List LogicalRow}
    (h : Result.holds (e.accepts rows) = true) :
    ∃ value, e.evaluate .full rows = .ok (.determined value) ∧ value.isTrue = .ok true := by
  rw [Result.holds_iff] at h
  unfold Expr.accepts at h
  split at h
  · simp at h
  · rename_i value hvalue
    exact ⟨value, hvalue, h⟩
  · simp at h

/-- What a row alone shows of a column, every choice with the row shows. -/
lemma columnOutcome_of_alone {entries : List FromEntry} (apart : FromEntry.Apart entries)
    {position : Nat} (hposition : position < entries.length) {σ : Choice (Nat × Row)}
    {row : Nat × Row} (hrow : σ position = some row) {mode mode' : Coverage} {ref : ColumnRef}
    {value : Value}
    (h : Expr.columnOutcome mode [.stored ((FromEntry.atPosition entries position).named row)] ref =
      .ok (.determined value)) :
    Expr.columnOutcome mode' (FromEntry.shownRows entries σ) ref = .ok (.determined value) := by
  set entry := FromEntry.atPosition entries position with hentry
  have hshown : entry.shown (σ position) = .stored (entry.named row) := by
    rw [hrow]
    rfl
  unfold Expr.columnOutcome at h
  split at h
  · rename_i table index htable hindex
    split at h
    · rename_i found hfound
      unfold Expr.findRow? at hfound
      obtain rfl : found = .stored (entry.named row) := by
        simpa using List.mem_of_find?_eq_some hfound
      have hname := List.find?_some hfound
      have hqualified : ref.qualifiedBy entry.referenceName = true := by
        rw [ColumnRef.qualifiedBy, htable, Option.any_some, Name.same_comm]
        exact hname
      have hlocated : ref.index.isSome = true := by rw [hindex]; rfl
      unfold FromEntry.shownRows
      rw [apart.named.columnOutcome_eq hposition hqualified hlocated, ← hentry, hshown]
      exact h
    · split at h <;> simp at h
  · simp at h

/-- A row that is ruled out stands in no choice that the predicate accepts. -/
lemma holds_passes_of_accepts {entries : List FromEntry} (apart : FromEntry.Apart entries)
    {position : Nat} (hposition : position < entries.length) {σ : Choice (Nat × Row)}
    {row : Nat × Row} (hrow : σ position = some row) {e : Expr} {passed : Bool}
    (hpassed : Store.survives e ((FromEntry.atPosition entries position).named row) = .ok passed)
    (h : Result.holds (e.accepts (FromEntry.shownRows entries σ)) = true) : passed = true := by
  obtain ⟨value, hvalue, htrue⟩ := exists_of_holds_accepts h
  unfold Store.survives at hpassed
  split at hpassed
  · simp at hpassed
  · rename_i found hfound
    have hsame := Expr.evaluate_full_of_early (fun ref _ value outcome hearly hfull => by
      rw [columnOutcome_of_alone apart hposition hrow hearly] at hfull
      exact (Except.ok.inj hfull).symm) hfound hvalue
    rw [← Outcome.determined.inj hsame, htrue] at hpassed
    exact (Except.ok.inj hpassed).symm
  · exact (Except.ok.inj hpassed).symm

/-- The rows of a choice that the WHERE predicate accepts have candidates. -/
lemma Gathered.exists_source (h : plan.Gathered s early inputs) (bound : plan.Bound s)
    (spares : plan.Spares early) {σ : Choice (Nat × Row)}
    (valid : (s.space plan.entries).Valid σ)
    (supported : σ.SupportedBy (List.range plan.entries.length))
    (selected : plan.selects s σ = true) {position : Nat} {row : Nat × Row}
    (hrow : σ position = some row) :
    ∃ source ∈ (JoinInput.space inputs).rows position,
      behind s plan early position source = row := by
  have hposition : position < plan.entries.length := by
    by_contra hbeyond
    rw [supported position (by simpa using hbeyond)] at hrow
    simp at hrow
  have hinput : position < inputs.length := by rwa [← h.length_eq]
  have hstored : row ∈ s.rowsOf (FromEntry.atPosition plan.entries position) :=
    valid position row hrow
  obtain ⟨b, hb, hentry, gathers⟩ := h.at_position hinput
  rw [hentry] at hstored
  have hkept : row ∈ s.kept (early b.table) b.table := by
    refine List.mem_filter.mpr ⟨hstored, ?_⟩
    obtain ⟨passed, hpassed⟩ := gathers.decided row hstored
    rw [hpassed, Result.holds_ok]
    cases hearly : early b.table with
    | none =>
      rw [hearly] at hpassed
      exact (Except.ok.inj hpassed).symm
    | some e =>
      rw [hearly] at hpassed
      unfold selects at selected
      rw [spares.selection b.table e hearly, Store.accepts_space] at selected
      rw [← hentry] at hpassed
      exact holds_passes_of_accepts bound.apart_entries hposition hrow hpassed selected
  obtain ⟨index, hindex, rfl⟩ := List.getElem_of_mem hkept
  refine ⟨index, List.mem_range.mpr (by rwa [← gathers.length_eq]), ?_⟩
  simp [behind, hentry, hindex]

end RelQuery.Plan
