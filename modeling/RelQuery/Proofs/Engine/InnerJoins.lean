import Mathlib
import RelQuery.Proofs.Engine.Reference

/-!
# Queries without outer joins

Without LEFT, RIGHT and FULL clauses a query means nested loops: all combinations of one stored row
for every entry of the FROM list, kept when every join condition and WHERE are TRUE.  The engine
comes to the same bag of rows from whichever table it starts and whatever it has left out early.
-/

namespace RelQuery

/-! ## Nested loops -/

/-- All combinations of one stored row for every entry. -/
def combinations (s : Store) (entries : List FromEntry) : List (List LogicalRow) :=
  (entries.map fun entry => (s.rowsOf entry).map fun row => entry.shown (some row)).sections

/-- The combinations on which the condition of every clause is TRUE. -/
def nestedLoops (s : Store) (entries : List FromEntry) (clauses : List JoinClause) :
    List (List LogicalRow) :=
  (combinations s entries).filter fun rows => clauses.all fun clause => trueOn rows clause.on

/-- Sections of lists without repetition do not repeat. -/
lemma nodup_sections {α : Type} {lists : List (List α)} (h : ∀ l ∈ lists, l.Nodup) :
    lists.sections.Nodup := by
  induction lists with
  | nil => simp [List.sections]
  | cons l rest ih =>
    rw [List.sections, List.nodup_flatMap]
    constructor
    · intro tail _
      exact (h l List.mem_cons_self).map fun a b hab => (List.cons.inj hab).1
    · refine (ih fun l' hl' => h l' (List.mem_cons_of_mem _ hl')).imp fun {tail tail'} hne => ?_
      intro section' hmem hmem'
      obtain ⟨a, -, rfl⟩ := List.mem_map.mp hmem
      obtain ⟨b, -, heq⟩ := List.mem_map.mp hmem'
      exact hne (List.cons.inj heq).2.symm

/-- No combination occurs twice. -/
lemma nodup_combinations {s : Store} (sound : s.Sound) (entries : List FromEntry) :
    (combinations s entries).Nodup := by
  refine nodup_sections fun l hl => ?_
  obtain ⟨entry, -, rfl⟩ := List.mem_map.mp hl
  refine (sound.nodup_rowsOf entry).map fun a b hab => ?_
  exact Option.some.inj (entry.shown_inj hab)

/-- The stored row that a logical row shows. -/
def LogicalRow.storedRow? : LogicalRow → Option (Nat × Row)
  | stored row => some (row.id, row.values)
  | _ => none

/-- A combination shows one stored row for every entry. -/
lemma mem_combinations_iff_shown {s : Store} {entries : List FromEntry} {rows : List LogicalRow} :
    rows ∈ combinations s entries ↔ rows.length = entries.length ∧
      ∀ position < entries.length, ∃ row ∈ s.rowsOf (FromEntry.atPosition entries position),
        rows[position]? = some ((FromEntry.atPosition entries position).shown (some row)) := by
  unfold combinations
  rw [List.mem_sections, List.forall₂_map_right_iff, List.forall₂_iff_get]
  refine and_congr_right fun hlength => ?_
  constructor
  · intro h position hposition
    obtain ⟨row, hmem, hshown⟩ := List.mem_map.mp (h position (by omega) hposition)
    have hentry : entries[position] = FromEntry.atPosition entries position := by
      simp [FromEntry.atPosition, hposition]
    simp only [List.get_eq_getElem, hentry] at hmem hshown
    exact ⟨row, hmem, by rw [hshown, List.getElem?_eq_getElem]⟩
  · intro h position hrows hposition
    obtain ⟨row, hmem, hshown⟩ := h position hposition
    have hentry : entries[position] = FromEntry.atPosition entries position := by
      simp [FromEntry.atPosition, hposition]
    rw [List.getElem?_eq_getElem hrows] at hshown
    simp only [List.get_eq_getElem, hentry]
    exact List.mem_map.mpr ⟨row, hmem, (Option.some.inj hshown).symm⟩

/-- The rows of a choice, shown for every entry. -/
lemma getElem?_shownRows {entries : List FromEntry} (σ : Choice (Nat × Row)) {position : Nat}
    (h : position < entries.length) : (FromEntry.shownRows entries σ)[position]? =
      some ((FromEntry.atPosition entries position).shown (σ position)) := by
  simp [FromEntry.shownRows, h]

/-- A combination shows the rows of a choice that takes a row of every entry. -/
lemma mem_combinations {s : Store} {entries : List FromEntry} {rows : List LogicalRow} :
    rows ∈ combinations s entries ↔ ∃ σ : Choice (Nat × Row),
      (s.space entries).Valid σ ∧ σ.SupportedBy (List.range entries.length) ∧
        (∀ position ∈ List.range entries.length, σ position ≠ none) ∧
        FromEntry.shownRows entries σ = rows := by
  rw [mem_combinations_iff_shown]
  constructor
  · rintro ⟨hlength, shown⟩
    let σ : Choice (Nat × Row) := fun position => rows[position]?.bind LogicalRow.storedRow?
    have taken : ∀ position (hposition : position < entries.length),
        ∃ row ∈ s.rowsOf (FromEntry.atPosition entries position), σ position = some row ∧
          rows[position]? = some ((FromEntry.atPosition entries position).shown (some row)) := by
      intro position hposition
      obtain ⟨row, hmem, hrow⟩ := shown position hposition
      exact ⟨row, hmem, by simp only [σ, hrow]; rfl, hrow⟩
    have supported : σ.SupportedBy (List.range entries.length) := by
      intro position hposition
      rw [List.mem_range, ← hlength] at hposition
      simp [σ, List.getElem?_eq_none (Nat.not_lt.mp hposition)]
    refine ⟨σ, fun position row hrow => ?_, supported, fun position hposition => ?_, ?_⟩
    · by_cases hposition : position < entries.length
      · obtain ⟨row', hmem, hrow', -⟩ := taken position hposition
        rwa [Option.some.inj (hrow.symm.trans hrow')]
      · rw [supported position (by simpa using hposition)] at hrow
        simp at hrow
    · obtain ⟨row, -, hrow, -⟩ := taken position (List.mem_range.mp hposition)
      simp [hrow]
    · refine List.ext_getElem? fun position => ?_
      by_cases hposition : position < entries.length
      · obtain ⟨row, -, hrow, hshown⟩ := taken position hposition
        rw [hshown, getElem?_shownRows σ hposition, hrow]
      · rw [List.getElem?_eq_none (by simpa [FromEntry.shownRows] using hposition),
          List.getElem?_eq_none (by rw [hlength]; exact Nat.not_lt.mp hposition)]
  · rintro ⟨σ, valid, -, full, rfl⟩
    refine ⟨by simp [FromEntry.shownRows], fun position hposition => ?_⟩
    obtain ⟨row, hrow⟩ :=
      Option.ne_none_iff_exists'.mp (full position (List.mem_range.mpr hposition))
    exact ⟨row, valid position row hrow, by rw [getElem?_shownRows σ hposition, hrow]⟩

/-! ## The engine -/

/-- Without outer clauses a run joins what nested loops find, and keeps what WHERE accepts. -/
theorem Plan.Ran.perm_nestedLoops {s : Store} {plan : Plan} {watch : Watch} {answer : Answer}
    {inputs : List JoinInput} {pool : List PendingJoin} {output final : JoinedTuples}
    {rows : List Row} (ran : plan.Ran s watch answer inputs pool output final rows)
    (sound : s.Sound) (bound : plan.Bound s)
    (inner : ∀ link ∈ pool, link.clause.kind.isOuter = false) :
    ((plan.choices s plan.earlyPredicate final).map (FromEntry.shownRows plan.entries)).Perm
      ((nestedLoops s plan.entries plan.joins).filter fun rows => trueOn rows plan.selection) := by
  have compatible : pool.Pairwise PendingJoin.Compatible :=
    List.pairwise_iff_getElem.mpr fun i j hi hj _ => PendingJoin.compatible_of_not_outer
      (inner _ (List.getElem_mem hi)) (inner _ (List.getElem_mem hj))
  have own : plan.OuterOwn pool := by
    intro link hlink houter
    rw [inner link hlink] at houter
    exact absurd houter (by simp)
  have spanned : RowSpace.Spanned pool (List.range plan.entries.length) := by
    obtain ⟨used, left, choices, grown, closed, -⟩ := ran.executed.grown
    refine (grown.spanned closed).congr fun table => ?_
    rw [ran.executed.covers.mem_iff, JoinInput.positions, ran.gathered.length_eq]
  have nodup : (nestedLoops s plan.entries plan.joins).Nodup :=
    (nodup_combinations sound _).filter _
  refine ran.perm_shown sound bound compatible own nodup fun shown => ?_
  have conditions : ∀ σ : Choice (Nat × Row),
      (∀ link ∈ pool, (s.space plan.entries).accepts link.clause.on σ = true) ↔
        ∀ clause ∈ plan.joins, trueOn (FromEntry.shownRows plan.entries σ) clause.on = true := by
    intro σ
    simp only [Store.accepts_eq_trueOn]
    exact JoinInput.forall_pool_iff ran.pooled
      fun clause => trueOn (FromEntry.shownRows plan.entries σ) clause.on = true
  rw [nestedLoops, List.mem_filter, mem_combinations, List.all_eq_true]
  constructor
  · rintro ⟨⟨σ, valid, supported, full, rfl⟩, holds⟩
    exact ⟨σ, valid, supported, (spanned.fits_iff inner).mpr ⟨full, (conditions σ).mpr holds⟩, rfl⟩
  · rintro ⟨σ, valid, supported, hfits, rfl⟩
    obtain ⟨full, holds⟩ := (spanned.fits_iff inner).mp hfits
    exact ⟨⟨σ, valid, supported, full, rfl⟩, (conditions σ).mp holds⟩

namespace Query

/-- Without outer clauses an unarranged query that is answered gives, as a bag, the result of nested
loops over the stored rows. -/
theorem execute_perm_nestedLoops {s : Store} (reachable : s.Reachable) {query : Query}
    (unarranged : query.Unarranged) (inner : ∀ clause ∈ query.joins, clause.kind.isOuter = false)
    (notReal : query.KeysNotReal s) {watch : Watch} {interval session : Nat} {locks : LockTable}
    {answer : Answer}
    (h : (query.execute s.catalog watch interval session locks).1 = .ok answer) :
    ∃ result, query.resultOf s (nestedLoops s query.tables) = .ok result ∧
      answer.rows.Perm result := by
  obtain ⟨plan, planned, bound, inputs, pool, output, final, rows, ran⟩ :=
    exists_ran_of_execute reachable.sound notReal h
  have hinner : ∀ link ∈ pool, link.clause.kind.isOuter = false := by
    refine (JoinInput.forall_pool_iff ran.pooled fun clause => clause.kind.isOuter = false).mpr
      fun clause hclause => ?_
    obtain ⟨declared, hdeclared, hresolve⟩ := source_of_mem_of_mapM planned.joins hclause
    rw [(resolveClause_eq_ok hresolve).2.2.1]
    exact inner declared hdeclared
  rw [← Plan.entries_of_planned planned]
  exact exists_resultOf planned bound unarranged ran
    (ran.perm_nestedLoops reachable.sound bound hinner)

/-- Two joined tables and a third one crossed with them. -/
theorem execute_perm_nestedLoops_three : ∃ (s : Store) (query : Query) (answer : Answer)
    (result : List Row), s.Reachable ∧
      (query.execute s.catalog .never 1 0 .empty).1 = .ok answer ∧
      answer.rows = [[.integer 1, .integer 6, .integer 8], [.integer 1, .integer 7, .integer 8]] ∧
      query.resultOf s (nestedLoops s query.tables) = .ok result ∧ answer.rows.Perm result := by
  let s : Store := ⟨[.ofIntegers "a" ["k"] [[1], [2]], .ofIntegers "b" ["k", "x"] [[1, 6], [1, 7],
    [3, 7], [1, 9]], .ofIntegers "c" ["x"] [[8]]]⟩
  let query := Query.selecting [.written "a" "k", .written "b" "x", .written "c" "x"]
    ["a", "b", "c"]
    [.between "a" "b" .inner (.equates (.written "a" "k") (.written "b" "k")),
      .between "b" "c" .cross (.binary (.comparison .lt) (.written "b" "x") (.written "c" "x") none)]
    (some (.binary (.comparison .lt) (.literal (.integer 5) none) (.written "b" "x") none))
  have reachable : s.Reachable := Store.Reachable.empty.requests
    (Store.Request.fill "a" ["k"] [[1], [2]] ++
      Store.Request.fill "b" ["k", "x"] [[1, 6], [1, 7], [3, 7], [1, 9]] ++
      Store.Request.fill "c" ["x"] [[8]]) (by cbv)
  have ran : (query.execute s.catalog .never 1 0 .empty).1 = .ok ⟨["k", "x", "x"],
      [[.integer 1, .integer 6, .integer 8], [.integer 1, .integer 7, .integer 8]]⟩ := by
    rw [execute_of_unwritten (by decide) (by decide)]
    cbv
  have notReal : query.KeysNotReal s := keysNotReal_of_columns (by decide) query
  obtain ⟨result, hresult, hperm⟩ := execute_perm_nestedLoops reachable
    (unarranged_selecting (by decide)) (by decide) notReal ran
  exact ⟨s, query, _, result, reachable, ran, rfl, hresult, hperm⟩

end Query

end RelQuery
