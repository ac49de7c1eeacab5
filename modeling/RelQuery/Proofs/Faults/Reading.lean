import RelQuery.Engine.Run
import RelQuery.Proofs.Engine.Joined
import RelQuery.Proofs.Engine.Projected
import RelQuery.Proofs.Faults.Walking

/-!
# Stored rows are read without faults

The columns of a plan are declared columns of its tables, and the rows of a sound store have a value
for every declared column.  So predicates, candidates and members are computed on stored rows
without faults, and the candidates carry what the conditions read.
-/

namespace RelQuery

open Result

namespace Plan

variable {s : Store} {plan : Plan}

/-! ## Stored rows -/

/-- A row of an entry has a value for every declared column. -/
lemma Bound.length_row (bound : plan.Bound s) (sound : s.Sound) {b : BoundEntry}
    (hb : b ∈ plan.tables) {row : Nat × Row} (hrow : row ∈ s.rowsOf b.table) :
    row.2.length = b.definition.columns.length := by
  obtain ⟨t, ht, hdefinition⟩ := bound.stored b hb
  rw [Store.rowsOf_eq ht] at hrow
  have htyped := (sound t (Store.get_eq_ok ht).2).typed row hrow
  rw [← hdefinition]
  exact htyped.length_eq.symm

/-- A stored row gives the positions of declared columns. -/
lemma Bound.faultless_valueOf (bound : plan.Bound s) (sound : s.Sound) {b : BoundEntry}
    (hb : b ∈ plan.tables) {row : Nat × Row} (hrow : row ∈ s.rowsOf b.table) {ref : ColumnRef}
    {index : Nat} (hindex : ref.index = some index) (hlt : index < b.definition.columns.length) :
    ((b.table.named row).valueOf ref).Faultless := by
  have hwidth : index < row.2.length := by rwa [bound.length_row sound hb hrow]
  simp only [StoredRow.valueOf, hindex, StoredRow.valueAt, FromEntry.named, Row.at,
    List.getElem?_eq_getElem hwidth]
  trivial

/-- A resolved column that is qualified by an entry is a declared column of the entry. -/
lemma Bound.index_of_resolved (bound : plan.Bound s) {b : BoundEntry} (hb : b ∈ plan.tables)
    {ref : ColumnRef} (hresolved : ref.ResolvedIn plan.tables)
    (hname : ref.qualifiedBy b.referenceName = true) :
    ∃ index, ref.index = some index ∧ index < b.definition.columns.length := by
  obtain ⟨owner, howner, index, hdeclares⟩ := hresolved
  obtain rfl : owner = b :=
    bound.apart.eq_of_same howner hb (hdeclares.qualifiedBy_iff.mp hname)
  obtain ⟨column, hcolumn, -⟩ := hdeclares.declared
  exact ⟨index, hdeclares.index, (List.getElem?_eq_some_iff.mp hcolumn).1⟩

/-- A resolved column is located. -/
lemma isLocated_of_resolved {tables : List BoundEntry} {ref : ColumnRef}
    (h : ref.ResolvedIn tables) : ref.isLocated = true := by
  obtain ⟨b, -, index, hdeclares⟩ := h
  rw [ColumnRef.isLocated, hdeclares.table, hdeclares.index]
  rfl

/-- An expression over declared columns is evaluated on rows of the entries without faults. -/
lemma Bound.faultless_evaluate (bound : plan.Bound s) (sound : s.Sound) {e : Expr}
    (hresolved : e.ResolvedIn plan.tables) {mode : Coverage} {rows : List LogicalRow}
    (hrows : ∀ row ∈ rows, ∃ b ∈ plan.tables, row = .padding b.referenceName ∨
      ∃ stored ∈ s.rowsOf b.table, row = .stored (b.table.named stored)) :
    (e.evaluate mode rows).Faultless := by
  refine Expr.faultless_evaluate fun ref href => ?_
  refine Expr.faultless_columnOutcome (isLocated_of_resolved (hresolved ref href))
    fun row hrow hname => ?_
  obtain ⟨b, hb, rfl | ⟨stored, hstored, rfl⟩⟩ := hrows row hrow
  · trivial
  · obtain ⟨index, hindex, hlt⟩ := bound.index_of_resolved hb (hresolved ref href) hname
    exact bound.faultless_valueOf sound hb hstored hindex hlt

/-! ## Candidates -/

/-- A carried column is a declared column of the entry. -/
lemma Bound.index_of_carried (bound : plan.Bound s) {b : BoundEntry} (hb : b ∈ plan.tables)
    {ref : ColumnRef} (href : ref ∈ plan.carriedColumns b) :
    ∃ index, ref.index = some index ∧ index < b.definition.columns.length := by
  by_cases hread : ref ∈ plan.readColumns b
  · obtain ⟨⟨e, he, hcolumn⟩, hname⟩ := mem_readColumns hread
    exact bound.index_of_resolved hb (bound.resolved e he ref hcolumn) hname
  · -- without columns that are read the first column is carried
    unfold carriedColumns at href
    dsimp only at href
    split at href
    · obtain ⟨column, hcolumn, rfl⟩ := by simpa using href
      refine ⟨0, rfl, ?_⟩
      exact List.length_pos_iff.mpr fun hnil => by simp [hnil] at hcolumn
    · exact absurd href hread

/-- A row is tried by the early predicate of its entry without faults. -/
lemma Bound.faultless_passes (bound : plan.Bound s) (sound : s.Sound) {b : BoundEntry}
    (hb : b ∈ plan.tables) {row : Nat × Row} (hrow : row ∈ s.rowsOf b.table) :
    (Store.passes (plan.earlyPredicate b.table) (b.table.named row)).Faultless := by
  cases hearly : plan.earlyPredicate b.table with
  | none => trivial
  | some e =>
    have hselection := (spares_earlyPredicate plan).selection _ _ hearly
    have he : e ∈ plan.conditions := List.mem_append_left _ (by simp [hselection])
    have hevaluate : (e.evaluate .prefilter [.stored (b.table.named row)]).Faultless :=
      bound.faultless_evaluate sound (bound.resolved e he)
        fun found hfound => ⟨b, hb, Or.inr ⟨row, hrow, List.mem_singleton.mp hfound⟩⟩
    dsimp only [Store.passes, Store.survives]
    split
    · rename_i error herror
      exact hevaluate.of_error herror
    · exact (Value.operandsOnly_isTrue _).faultless
    · trivial

/-- A row is cut to the carried columns without faults. -/
lemma Bound.faultless_cut (bound : plan.Bound s) (sound : s.Sound) {b : BoundEntry}
    (hb : b ∈ plan.tables) {row : Nat × Row} (hrow : row ∈ s.rowsOf b.table) :
    (Store.cut (plan.carriedColumns b) (b.table.named row)).Faultless := by
  refine Gives.faultless_map (gives_mapM (R := fun _ => True) fun ref href => ?_) _
  obtain ⟨index, hindex, hlt⟩ := bound.index_of_carried hb href
  exact bound.faultless_valueOf sound hb hrow hindex hlt

/-- Rows of an entry are made candidates without faults. -/
lemma Bound.faultless_candidates_rows (bound : plan.Bound s) (sound : s.Sound) {b : BoundEntry}
    (hb : b ∈ plan.tables) {rows : List (Nat × Row)} (inside : rows ⊆ s.rowsOf b.table) :
    (Store.candidates (plan.carriedColumns b) (plan.earlyPredicate b.table)
      (rows.map b.table.named)).Faultless := by
  induction rows with
  | nil => trivial
  | cons row rest ih =>
    rw [List.cons_subset] at inside
    rw [List.map_cons, Store.candidates_cons]
    refine (bound.faultless_passes sound hb inside.1).bind fun passed _ _ => ?_
    split
    · refine (bound.faultless_cut sound hb inside.1).bind fun first _ _ => ?_
      exact (ih inside.2).bind fun _ _ _ => trivial
    · exact ih inside.2

/-- The candidates of an entry are found without faults. -/
lemma Bound.faultless_candidatesOf (bound : plan.Bound s) (sound : s.Sound) {b : BoundEntry}
    (hb : b ∈ plan.tables) : (plan.candidatesOf s.catalog b).Faultless := by
  obtain ⟨t, ht, -⟩ := bound.stored b hb
  have hscan : s.scan b.table = .ok ((s.rowsOf b.table).map b.table.named) := by
    rw [Store.scan, ht, Store.rowsOf_eq ht]
    rfl
  refine Gives.faultless_map (gives_inPlace.mpr (?_ : Faultless _)) _
  change (s.survivors b.table _ _).Faultless
  rw [Store.survivors, hscan]
  exact bound.faultless_candidates_rows sound hb (List.Subset.refl _)

/-- All candidates are found without faults. -/
lemma Bound.faultless_candidates (bound : plan.Bound s) (sound : s.Sound) (watch : Watch) :
    (plan.candidates s.catalog watch).Faultless := by
  refine Gives.faultless (gives_mapM (R := fun _ => True) fun table htable => ?_)
  have hb := List.fst_mem_of_mem_zipIdx htable
  exact (bound.faultless_candidatesOf sound hb).bind fun found _ _ =>
    (faultless_poll watch _).bind fun _ _ _ => trivial

variable {early : FromEntry → Option Expr} {inputs : List JoinInput}

/-- The candidates carry what the conditions read. -/
lemma Gathered.serves (h : plan.Gathered s early inputs) (bound : plan.Bound s) {e : Expr}
    (he : e ∈ plan.conditions) : JoinInput.Serves inputs e where
  located ref href := isLocated_of_resolved (bound.resolved e he ref href)
  carried t ht ref href hname := by
    obtain ⟨position, hposition, rfl⟩ := List.getElem_of_mem ht
    obtain ⟨b, hb, -, gathers⟩ := h.at_position hposition
    have hat : JoinInput.atPosition inputs position = inputs[position] := by
      simp [JoinInput.atPosition, hposition]
    rw [hat] at gathers
    have hreference : inputs[position].referenceName = b.referenceName := by
      rw [JoinInput.referenceName, gathers.table]
      rfl
    rw [hreference] at hname
    obtain ⟨place, found, hplace, hfound, -⟩ := bound.exists_place he href hname
    refine ⟨place, ?_, fun row hrow => ?_⟩
    · rw [JoinInput.placeOf, hreference, gathers.carried]
      exact hplace
    · obtain ⟨index, hindex, rfl⟩ := List.getElem_of_mem hrow
      obtain ⟨candidate, hcandidate, hcut⟩ := gathers.exists_candidate hindex
      rw [List.getElem?_eq_getElem hindex, Option.some.injEq] at hcandidate
      obtain ⟨values, hvalues, rfl⟩ := Result.map_eq_ok.mp hcut
      have hwidth := length_of_mapM hvalues
      rw [hcandidate]
      change place < values.length
      rw [hwidth]
      exact (List.getElem?_eq_some_iff.mp hfound).1

/-! ## Members -/

/-- The row behind a slot is one of the entry's rows. -/
lemma Gathered.gives_fetch (h : plan.Gathered s early inputs) (bound : plan.Bound s)
    (sound : s.Sound) {position : Nat} (hposition : position < inputs.length) {slot : Option Nat}
    (hslot : (JoinInput.atPosition inputs position).HoldsRow slot) :
    (fetch s.catalog (JoinInput.atPosition inputs position) slot).Gives fun row =>
      ∃ b ∈ plan.tables, row = .padding b.referenceName ∨
        ∃ stored ∈ s.rowsOf b.table, row = .stored (b.table.named stored) := by
  rw [h.fetch_eq bound sound hposition hslot, gives_ok]
  obtain ⟨b, hb, hentry, -⟩ := h.at_position hposition
  cases slot with
  | none =>
    rw [hentry]
    exact ⟨b, hb, Or.inl rfl⟩
  | some index =>
    have hmem := h.behind_mem hposition (hslot index rfl)
    rw [hentry] at hmem ⊢
    exact ⟨b, hb, Or.inr ⟨_, hmem, rfl⟩⟩

/-- The members are computed on joined tuples without faults, one value for each. -/
lemma Gathered.gives_memberRows (h : plan.Gathered s early inputs) (bound : plan.Bound s)
    (sound : s.Sound) (resolved : ∀ e ∈ plan.projection.members, e.ResolvedIn plan.tables)
    {watch : Watch} {interval : Nat} {output : JoinedTuples}
    (complete : JoinInput.Complete inputs output) :
    (plan.memberRows s.catalog watch interval inputs output).Gives fun rows =>
      ∀ row ∈ rows, row.length = plan.projection.length := by
  have tuples : (plan.memberRows s.catalog watch interval inputs output).Gives fun rows =>
      rows.length = (output.tuples.zipIdx 1).length ∧
        ∀ row ∈ rows, row.length = plan.projection.length := by
    refine gives_mapM fun entry hentry => ?_
    refine (faultless_pollEvery watch interval _ _).bind fun _ _ _ => ?_
    have fits := complete.fits entry.1 (List.fst_mem_of_mem_zipIdx hentry)
    have hfetched : (fetchTuple s.catalog inputs output.order entry.1).Gives fun rows =>
        rows.length = (output.order.zip entry.1).length ∧ ∀ row ∈ rows, ∃ b ∈ plan.tables,
          row = .padding b.referenceName ∨
            ∃ stored ∈ s.rowsOf b.table, row = .stored (b.table.named stored) :=
      gives_mapM fun slot hslot => h.gives_fetch bound sound
        (complete.inside slot.1 (List.of_mem_zip hslot).1) (fits.holdsRow hslot)
    refine hfetched.bind fun fetched _ hrows => ?_
    have hmembers : (plan.projection.evaluate .prefilter fetched).Gives fun values =>
        values.length = plan.projection.members.length ∧ ∀ value ∈ values, True := by
      refine gives_mapM fun e he => ?_
      have hevaluate : (e.evaluate .prefilter fetched).Faultless :=
        bound.faultless_evaluate sound (resolved e he) hrows.2
      unfold Projection.evaluateMember
      split
      · rename_i error herror
        exact hevaluate.of_error herror
      · trivial
      · rfl
    exact hmembers.imp fun values _ hvalues =>
      hvalues.1.trans (Projection.length_members plan.projection)
  exact tuples.imp fun _ _ hrows => hrows.2

end Plan

end RelQuery
