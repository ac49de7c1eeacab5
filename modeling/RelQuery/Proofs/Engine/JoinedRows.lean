import RelQuery.Proofs.Engine.Projected
import RelQuery.Proofs.Faults.Walking

/-!
# Joined rows

A grouped query groups the stored rows behind the joined tuples that WHERE accepts.  Such a joined
row has one row for every table, a stored one or padding, so a resolved expression has the same
outcome on it in either mode.
-/

namespace RelQuery

/-- The stored rows behind the joined tuples that WHERE accepts. -/
def Query.joinedRows (catalog : Catalog) (watch : Watch) (interval : Nat) (query : Query) :
    Result (List (List LogicalRow)) := do
  let plan ← query.plan catalog
  let inputs ← plan.candidates catalog watch
  let output ← plan.joinCandidates watch interval inputs
  output.tuples.mapM (Plan.fetchTuple catalog inputs output.order)

/-- Among the rows every table has one. -/
def BoundEntry.Covered (tables : List BoundEntry) (rows : List LogicalRow) : Prop :=
  ∀ b ∈ tables, ∃ row ∈ rows, row.tableName = b.referenceName

/-- On rows of all tables nothing is left open, so the mode does not matter. -/
lemma BoundEntry.Covered.evaluate_mode {tables : List BoundEntry} {rows : List LogicalRow}
    (covered : Covered tables rows) {e : Expr} (he : e.ResolvedIn tables) (mode mode' : Coverage) :
    e.evaluate mode rows = e.evaluate mode' rows := by
  refine Expr.evaluate_congr fun ref href => ?_
  obtain ⟨b, hb, index, hdeclares⟩ := he ref href
  obtain ⟨row, hrow, hname⟩ := covered b hb
  have hanswers : Name.same row.tableName b.referenceName = true := by
    rw [hname]
    exact Name.same_refl _
  obtain ⟨found, hfound⟩ := Expr.exists_findRow? hrow hanswers
  unfold Expr.columnOutcome
  simp only [hdeclares.table, hdeclares.index, hfound]

namespace Plan

/-- The values of the members on the joined rows, before they are grouped and arranged. -/
def projectedRows (catalog : Catalog) (watch : Watch) (interval : Nat) (plan : Plan) :
    Result (List Row) := do
  let inputs ← plan.candidates catalog watch
  let output ← plan.joinCandidates watch interval inputs
  plan.memberRows catalog watch interval inputs output

variable {s : Store} {plan : Plan} {inputs : List JoinInput}

/-- A run projects, groups and arranges, between two points of interruption. -/
lemma run_eq_ok_iff {catalog : Catalog} {watch : Watch} {interval : Nat} {answer : Answer} :
    plan.run catalog watch interval = .ok answer ↔
      watch.poll .resolved = .ok () ∧ watch.poll .finished = .ok () ∧
        answer.columns = plan.projection.outputNames ∧
          ∃ rows, plan.projectedRows catalog watch interval = .ok rows ∧
            ∃ grouped, plan.group watch rows = .ok grouped ∧
              plan.arrange grouped = .ok answer.rows := by
  unfold run projectedRows
  simp only [Result.bind_eq_ok, Result.pure_eq_ok]
  constructor
  · rintro ⟨_, hresolved, inputs, hinputs, output, houtput, rows, hrows, grouped, hgrouped,
      arranged, harranged, _, hfinished, rfl⟩
    exact ⟨hresolved, hfinished, rfl, rows, ⟨inputs, hinputs, output, houtput, hrows⟩, grouped,
      hgrouped, harranged⟩
  · rintro ⟨hresolved, hfinished, hcolumns, rows, ⟨inputs, hinputs, output, houtput, hrows⟩,
      grouped, hgrouped, harranged⟩
    refine ⟨(), hresolved, inputs, hinputs, output, houtput, rows, hrows, grouped, hgrouped,
      answer.rows, harranged, (), hfinished, ?_⟩
    rw [← hcolumns]

/-- WHERE keeps joined tuples complete. -/
lemma complete_of_joinCandidates {watch : Watch} {interval : Nat} {final : JoinedTuples}
    (h : plan.joinCandidates watch interval inputs = .ok final) :
    JoinInput.Complete inputs final := by
  obtain ⟨output, hjoin, hfinal⟩ := joinCandidates_eq_ok h
  have complete := JoinInput.complete_of_joinTables hjoin
  rcases hfinal with ⟨e, -, hkept⟩ | ⟨rfl, -⟩
  · replace hkept := Resolution.result_eq_ok.mp hkept
    unfold JoinedTuples.keepAccepted at hkept
    split at hkept
    · rename_i kept hfilter
      obtain rfl := Except.ok.inj hkept
      obtain ⟨-, rfl⟩ := filterResult_eq_ok.mp hfilter
      exact ⟨complete.inside, complete.covers,
        fun tuple htuple => complete.fits tuple (List.mem_filter.mp htuple).1⟩
    · simp at hkept
  · exact complete

/-- The row behind an id is a row of the entry's table. -/
lemma exists_row_of_rowBehind {entry : FromEntry} {id : Nat} {stored : StoredRow}
    (h : s.rowBehind entry id = .ok stored) : ∃ row ∈ s.rowsOf entry, stored = entry.named row := by
  obtain ⟨t, ht, h⟩ := Result.bind_eq_ok.mp h
  split at h
  · rename_i values hvalues
    obtain ⟨row, hrow, rfl⟩ := Option.map_eq_some_iff.mp hvalues
    obtain rfl : row.1 = id := by simpa using List.find?_some hrow
    refine ⟨row, ?_, (Result.pure_eq_ok.mp h).symm⟩
    rw [Store.rowsOf_eq ht]
    exact List.mem_of_find?_eq_some hrow
  · simp at h

/-- What is fetched for a slot is shown for the entry of the table: a row of the store, or
padding. -/
lemma exists_shown_of_fetch {table : JoinInput} {slot : Option Nat} {row : LogicalRow}
    (h : fetch s.catalog table slot = .ok row) :
    ∃ shown, (∀ stored, shown = some stored → stored ∈ s.rowsOf table.table) ∧
      row = table.table.shown shown := by
  cases slot with
  | none => exact ⟨none, by simp, (Except.ok.inj h).symm⟩
  | some index =>
    unfold fetch at h
    dsimp only at h
    split at h
    · simp at h
    · rename_i candidate _
      obtain ⟨stored, hstored, rfl⟩ := Result.map_eq_ok.mp h
      obtain ⟨found, hfound, rfl⟩ := exists_row_of_rowBehind (Result.inPlace_eq_ok.mp hstored)
      refine ⟨some found, fun other hother => ?_, rfl⟩
      rwa [← Option.some.inj hother]

/-- What is fetched for a slot goes by the reference name of the table. -/
lemma tableName_of_fetch {table : JoinInput} {slot : Option Nat} {row : LogicalRow}
    (h : fetch s.catalog table slot = .ok row) : row.tableName = table.referenceName := by
  obtain ⟨shown, -, rfl⟩ := exists_shown_of_fetch h
  exact FromEntry.tableName_shown _ _

/-- A joined row has a row for every table. -/
lemma Gathered.covered_of_fetchTuple {early : FromEntry → Option Expr}
    (h : plan.Gathered s early inputs) {output : JoinedTuples}
    (complete : JoinInput.Complete inputs output) {tuple : Tuple} (htuple : tuple ∈ output.tuples)
    {rows : List LogicalRow} (hrows : fetchTuple s.catalog inputs output.order tuple = .ok rows) :
    BoundEntry.Covered plan.tables rows := by
  intro b hb
  obtain ⟨position, hposition, rfl⟩ := List.getElem_of_mem hb
  have hinput : position < inputs.length := by
    rw [← h.length_eq, entries, List.length_map]
    exact hposition
  obtain ⟨i, hi, hplace⟩ := List.getElem_of_mem (complete.covers position hinput)
  have hlength : output.order.length = tuple.length := (complete.fits tuple htuple).length_eq
  have hslot : (position, tuple[i]) ∈ output.order.zip tuple :=
    List.mem_iff_getElem.mpr ⟨i, by simpa [← hlength] using hi, by simp [hplace]⟩
  obtain ⟨row, hrow, hfetch⟩ := ok_of_mem_of_mapM hrows hslot
  refine ⟨row, hrow, (tableName_of_fetch hfetch).trans ?_⟩
  have htable : inputs[position].table = plan.tables[position].table :=
    (List.Forall₂.get h hposition hinput).table
  simp [JoinInput.atPosition, hinput, JoinInput.referenceName, BoundEntry.referenceName, htable]

/-- The value of a resolved column on a joined row fits the type of the column. -/
lemma Gathered.fits_of_fetchTuple {early : FromEntry → Option Expr}
    (h : plan.Gathered s early inputs) (bound : plan.Bound s) (sound : s.Sound)
    {output : JoinedTuples} (complete : JoinInput.Complete inputs output) {tuple : Tuple}
    {rows : List LogicalRow} (hrows : fetchTuple s.catalog inputs output.order tuple = .ok rows)
    {ref : ColumnRef} (href : ref.ResolvedIn plan.tables) {type : ColumnType}
    (htype : ref.columnType = some type) {mode : Coverage} {value : Value}
    (hvalue : Expr.columnOutcome mode rows ref = .ok (.determined value)) : value.Fits type := by
  obtain ⟨b, hb, index, hdeclares⟩ := href
  unfold Expr.columnOutcome at hvalue
  simp only [hdeclares.table, hdeclares.index] at hvalue
  split at hvalue
  · rename_i row hrow
    obtain ⟨found, hfound, hdetermined⟩ := Result.map_eq_ok.mp hvalue
    obtain rfl := Outcome.determined.inj hdetermined
    obtain ⟨⟨position, slot⟩, hslot, hfetch⟩ :=
      source_of_mem_of_mapM hrows (List.mem_of_find?_eq_some hrow)
    obtain ⟨shown, stored, rfl⟩ := exists_shown_of_fetch hfetch
    -- the row belongs to the table that the column is qualified by
    obtain ⟨owner, howner, -, gathers⟩ :=
      h.at_position (complete.inside position (List.of_mem_zip hslot).1)
    rw [gathers.table] at stored hrow hfound
    have hname := List.find?_some hrow
    rw [FromEntry.tableName_shown] at hname
    obtain rfl : owner = b := bound.apart.eq_of_same howner hb hname
    cases shown with
    | none =>
      obtain rfl := Except.ok.inj hfound
      exact Value.fits_null type
    | some row => exact bound.fits sound hb hdeclares (stored row rfl) hfound htype
  · cases mode <;> simp at hvalue

/-- The members on the joined tuples are their values on the joined rows. -/
lemma exists_joined_of_memberRows {watch : Watch} {interval : Nat} {output : JoinedTuples}
    {rows : List Row} (h : plan.memberRows s.catalog watch interval inputs output = .ok rows) :
    ∃ joined, output.tuples.mapM (fetchTuple s.catalog inputs output.order) = .ok joined ∧
      joined.mapM (plan.projection.evaluate .prefilter) = .ok rows := by
  refine mapM_bind_eq_ok (mapM_of_zipIdx h fun tuple count found hfound => ?_)
  obtain ⟨_, -, hfound⟩ := Result.bind_eq_ok.mp hfound
  exact hfound

end Plan

namespace Query

variable {s : Store} {query : Query} {plan : Plan} {watch : Watch} {interval : Nat}

/-- A run has joined rows, which have rows of all tables, and it groups the values of the members on
them. -/
theorem exists_joinedRows_of_run (hplan : query.plan s.catalog = .ok plan) {answer : Answer}
    (hrun : plan.run s.catalog watch interval = .ok answer) :
    ∃ joined, query.joinedRows s.catalog watch interval = .ok joined ∧
      (∀ rows ∈ joined, BoundEntry.Covered plan.tables rows) ∧
        answer.columns = plan.projection.outputNames ∧
          ∃ rows, joined.mapM (plan.projection.evaluate .prefilter) = .ok rows ∧
            ∃ grouped, plan.group watch rows = .ok grouped ∧
              plan.arrange grouped = .ok answer.rows := by
  obtain ⟨inputs, final, rows, hinputs, hfinal, finished⟩ := Plan.finished_of_run hrun
  obtain ⟨joined, hjoined, hrows⟩ := Plan.exists_joined_of_memberRows finished.projected
  have hfetched : query.joinedRows s.catalog watch interval = .ok joined :=
    Result.bind_eq_ok.mpr ⟨plan, hplan, Result.bind_eq_ok.mpr ⟨inputs, hinputs,
      Result.bind_eq_ok.mpr ⟨final, hfinal, hjoined⟩⟩⟩
  refine ⟨joined, hfetched, fun joinedRow hmem => ?_, finished.columns, rows, hrows,
    finished.arranged⟩
  obtain ⟨tuple, htuple, hfetch⟩ := source_of_mem_of_mapM hjoined hmem
  exact (Plan.gathered_of_candidates hinputs).covered_of_fetchTuple
    (Plan.complete_of_joinCandidates hfinal) htuple hfetch

/-- Queries with the same tables, WHERE and joins have the same joined rows. -/
lemma joinedRows_of_clauses {query' : Query} {plan' : Plan}
    (hplan : query.plan s.catalog = .ok plan) (hplan' : query'.plan s.catalog = .ok plan')
    (tables : query'.tables = query.tables) (selection : query'.selection = query.selection)
    (joins : query'.joins = query.joins) :
    query'.joinedRows s.catalog watch interval = query.joinedRows s.catalog watch interval := by
  have planned := planned_of_plan hplan
  have planned' := planned_of_plan hplan'
  have htables : plan'.tables = plan.tables :=
    Except.ok.inj (planned'.tables.symm.trans (tables ▸ planned.tables))
  have hselection : plan'.selection = plan.selection := Except.ok.inj
    (planned'.selection.symm.trans (selection ▸ htables ▸ planned.selection))
  have hjoins : plan'.joins = plan.joins :=
    Except.ok.inj (planned'.joins.symm.trans (joins ▸ htables ▸ planned.joins))
  unfold joinedRows
  rw [hplan, hplan']
  cases plan
  cases plan'
  obtain rfl := htables
  obtain rfl := hselection
  obtain rfl := hjoins
  rfl

end Query

end RelQuery
