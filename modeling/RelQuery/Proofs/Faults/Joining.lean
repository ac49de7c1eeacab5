import RelQuery.Proofs.Faults.Outcomes
import RelQuery.Proofs.Join.Walked

/-!
# Joining raises no fault

The tuples of a join keep a shape: they have one slot for every joined table, and a slot that is not
empty holds the position of a candidate.  On tuples of this shape, and on tables that carry what the
conditions read, no step of the join raises a fault.  A step keeps the shape, so that the walk comes
to an end unless the clauses leave some tables out of reach.
-/

namespace RelQuery

open Result

/-! ## Columns of rows -/

/-- A located column raises no fault where the rows of its name give it without one. -/
lemma Expr.faultless_columnOutcome {mode : Coverage} {rows : List LogicalRow} {ref : ColumnRef}
    (located : ref.isLocated = true)
    (h : ∀ row ∈ rows, ref.qualifiedBy row.tableName = true → (row.valueOf ref).Faultless) :
    (columnOutcome mode rows ref).Faultless := by
  unfold columnOutcome
  split
  · rename_i table index htable hindex
    cases hrow : findRow? table rows with
    | some row =>
      obtain ⟨hmem, hname⟩ := named_of_findRow? hrow
      refine (h row hmem ?_).faultless_map _
      rw [ColumnRef.qualifiedBy, htable, Option.any_some, Name.same_comm]
      exact hname
    | none => cases mode <;> trivial
  · rename_i hnone
    obtain ⟨htable, hindex⟩ := Bool.and_eq_true_iff.mp located
    obtain ⟨table, htable⟩ := Option.isSome_iff_exists.mp htable
    obtain ⟨index, hindex⟩ := Option.isSome_iff_exists.mp hindex
    exact absurd hindex (hnone table index htable)

/-- A predicate raises no fault where its columns raise none. -/
lemma Expr.faultless_accepts {predicate : Expr} {rows : List LogicalRow}
    (h : ∀ ref ∈ predicate.columns, (columnOutcome .full rows ref).Faultless) :
    (predicate.accepts rows).Faultless := by
  have hevaluate := faultless_evaluate h
  unfold accepts
  split
  · rename_i error herror
    exact hevaluate.of_error herror
  · exact (Value.operandsOnly_isTrue _).faultless
  · rename_i hundetermined
    obtain ⟨value, hvalue⟩ := determined_of_full hundetermined
    simp at hvalue

namespace JoinInput

variable {tables : List JoinInput}

/-- The tables carry every column of the expression that is qualified by their names. -/
structure Serves (tables : List JoinInput) (e : Expr) : Prop where
  located : ∀ ref ∈ e.columns, ref.isLocated = true
  carried : ∀ t ∈ tables, ∀ ref ∈ e.columns, ref.qualifiedBy t.referenceName = true →
    ∃ place, t.placeOf ref = .ok place ∧ ∀ row ∈ t.rows, place < row.values.length

/-- The slot is empty or holds the position of a candidate. -/
def HoldsRow (t : JoinInput) (slot : Option Nat) : Prop :=
  ∀ index, slot = some index → index < t.rows.length

/-- The row of a slot that is empty or holds the position of a candidate. -/
lemma HoldsRow.slotRow_eq {t : JoinInput} {slot : Option Nat} (h : t.HoldsRow slot) :
    t.slotRow slot = .ok (t.chosenRow slot) := by
  cases slot with
  | none => rfl
  | some index => simp only [slotRow, row, chosenRow, List.getElem?_eq_getElem (h index rfl)]

/-- A row within the table has a value at a place within its width. -/
lemma gives_row {t : JoinInput} {index : Nat} (h : index < t.rows.length) :
    (t.row index).Gives fun row => ∃ candidate ∈ t.rows,
      row = .candidate t.referenceName t.columns candidate := by
  rw [row, List.getElem?_eq_getElem h]
  exact ⟨t.rows[index], List.getElem_mem h, rfl⟩

/-- A slot of the shape stands for padding or for a candidate. -/
lemma gives_slotRow {t : JoinInput} {slot : Option Nat} (h : t.HoldsRow slot) :
    (t.slotRow slot).Gives fun row => row = .padding t.referenceName ∨
      ∃ candidate ∈ t.rows, row = .candidate t.referenceName t.columns candidate := by
  cases slot with
  | none => exact Or.inl rfl
  | some index => exact (gives_row (h index rfl)).imp fun _ _ => Or.inr

/-- The rows of a table give the columns that it carries. -/
lemma Serves.faultless_valueOf {e : Expr} (serves : Serves tables e) {t : JoinInput}
    (ht : t ∈ tables) {ref : ColumnRef} (href : ref ∈ e.columns) {row : LogicalRow}
    (hrow : row = .padding t.referenceName ∨
      ∃ candidate ∈ t.rows, row = .candidate t.referenceName t.columns candidate)
    (hname : ref.qualifiedBy row.tableName = true) : (row.valueOf ref).Faultless := by
  rcases hrow with rfl | ⟨candidate, hcandidate, rfl⟩
  · trivial
  · obtain ⟨place, hplace, hwidth⟩ := serves.carried t ht ref href hname
    have hlt := hwidth candidate hcandidate
    unfold placeOf at hplace
    simp only [LogicalRow.valueOf, hplace, Except.bind, Row.at, List.getElem?_eq_getElem hlt]
    trivial

/-- The slots of the tuple are those of the joined tables. -/
def FitsOrder (tables : List JoinInput) (order : List Nat) (tuple : Tuple) : Prop :=
  List.Forall₂ (fun position slot => (atPosition tables position).HoldsRow slot) order tuple

/-- A slot is empty or holds a row of the table at its position. -/
lemma FitsOrder.holdsRow {order : List Nat} {tuple : Tuple} (fits : FitsOrder tables order tuple)
    {slot : Nat × Option Nat} (hslot : slot ∈ order.zip tuple) :
    (atPosition tables slot.1).HoldsRow slot.2 :=
  (List.forall₂_iff_zip.mp fits).2 hslot

/-- The rows of a tuple of the shape are those of its slots. -/
lemma FitsOrder.rowsOf_zip {order : List Nat} {tuple : Tuple}
    (fits : FitsOrder tables order tuple) : rowsOf tables order tuple =
      .ok ((order.zip tuple).map fun slot => (atPosition tables slot.1).chosenRow slot.2) :=
  mapM_eq_ok_map fun _ hslot => (fits.holdsRow hslot).slotRow_eq

/-- A condition is evaluated on a tuple without faults. -/
lemma Serves.faultless_acceptsTuple {e : Expr} (serves : Serves tables e) {order : List Nat}
    (inside : ∀ position ∈ order, position < tables.length) {tuple : Tuple}
    (fits : FitsOrder tables order tuple) : (acceptsTuple tables order e tuple).Faultless := by
  have hrows : (rowsOf tables order tuple).Gives fun rows =>
      rows.length = (order.zip tuple).length ∧ ∀ row ∈ rows, ∃ t ∈ tables,
        row = .padding t.referenceName ∨
          ∃ candidate ∈ t.rows, row = .candidate t.referenceName t.columns candidate := by
    refine gives_mapM fun slot hslot => ?_
    have hposition := inside slot.1 (List.of_mem_zip hslot).1
    have hholds := fits.holdsRow hslot
    exact (gives_slotRow hholds).imp fun row _ hrow => ⟨_, atPosition_mem hposition, hrow⟩
  refine Gives.bind hrows fun rows _ hall => ?_
  refine Expr.faultless_accepts fun ref href => ?_
  refine Expr.faultless_columnOutcome (serves.located ref href) fun row hrow hname => ?_
  obtain ⟨t, ht, hkind⟩ := hall.2 row hrow
  exact serves.faultless_valueOf ht href hkind hname

/-! ## The shape of joined tuples -/

/-- A tuple with one more slot. -/
lemma FitsOrder.append {order : List Nat} {tuple : Tuple} (fits : FitsOrder tables order tuple)
    {position : Nat} {slot : Option Nat} (h : (atPosition tables position).HoldsRow slot) :
    FitsOrder tables (order ++ [position]) (tuple ++ [slot]) :=
  List.rel_append fits (List.Forall₂.cons h List.Forall₂.nil)

/-- Padding for all joined tables. -/
lemma fitsOrder_replicate (order : List Nat) :
    FitsOrder tables order (List.replicate order.length none) := by
  rw [FitsOrder, List.forall₂_iff_zip]
  refine ⟨by simp, fun {position slot} hslot index hindex => ?_⟩
  rw [List.eq_of_mem_replicate (List.of_mem_zip hslot).2] at hindex
  simp at hindex

/-- The tuple comes out of a step: it is a tuple from before the step with one more slot, or padding
for all joined tables with a row of the new one.  Only an outer clause leaves slots empty. -/
def Grown (tables : List JoinInput) (order : List Nat) (newTable : Nat) (kind : JoinKind)
    (tuples : List Tuple) (tuple : Tuple) : Prop :=
  ∃ old slot, tuple = old ++ [slot] ∧ (atPosition tables newTable).HoldsRow slot ∧
    (slot = none → kind.isOuter = true) ∧
    (old ∈ tuples ∨ kind.isOuter = true ∧ old = List.replicate order.length none)

/-- A row within the table fills a slot. -/
lemma holdsRow_some {t : JoinInput} {index : Nat} (h : index < t.rows.length) :
    t.HoldsRow (some index) := by
  intro other hother
  obtain rfl := Option.some.inj hother
  exact h

/-- A step keeps the shape of the tuples. -/
lemma Grown.fits {order : List Nat} {newTable : Nat} {kind : JoinKind} {tuples : List Tuple}
    {tuple : Tuple} (grown : Grown tables order newTable kind tuples tuple)
    (fits : ∀ tuple ∈ tuples, FitsOrder tables order tuple) :
    FitsOrder tables (order ++ [newTable]) tuple := by
  obtain ⟨old, slot, rfl, hslot, -, hold | ⟨-, rfl⟩⟩ := grown
  · exact (fits old hold).append hslot
  · exact (fitsOrder_replicate order).append hslot

/-- A tuple paired with a row. -/
lemma grown_of_mem_allPairs {order : List Nat} {newTable : Nat} {tuples : List Tuple}
    {tuple : Tuple} (h : tuple ∈ allPairs tuples (atPosition tables newTable).rows.length) :
    Grown tables order newTable .cross tuples tuple := by
  obtain ⟨old, hold, htuple⟩ := List.mem_flatMap.mp h
  obtain ⟨index, hindex, rfl⟩ := List.mem_map.mp htuple
  exact ⟨old, some index, rfl, holdsRow_some (List.mem_range.mp hindex), by simp, Or.inl hold⟩

/-- The partners of a probe are positions of sorted keys. -/
lemma gives_partners (sorted : List (Value × Nat)) (probe : Option Value) :
    (partners sorted probe).Gives fun found =>
      ∀ index ∈ found, ∃ key ∈ sorted, key.2 = index := by
  have run (probe : Value) (keys : List (Value × Nat)) (hkeys : keys ⊆ sorted) :
      (equalRun probe keys).Gives fun found =>
        ∀ index ∈ found, ∃ key ∈ sorted, key.2 = index := by
    induction keys with
    | nil => simp [equalRun]
    | cons key rest ih =>
      obtain ⟨hkey, hrest⟩ := List.cons_subset.mp hkeys
      rw [equalRun]
      split
      · rename_i error herror
        exact (Value.operandsOnly_compare? _ _).faultless.of_error herror
      · refine (ih hrest).map fun found _ hfound => ?_
        exact List.forall_mem_cons.mpr ⟨⟨key, hkey, rfl⟩, hfound⟩
      · simp
  cases probe with
  | none => simp [partners]
  | some probe =>
    rw [partners]
    split
    · simp
    · exact run probe _ (List.drop_subset _ _)

/-- Looking for partners raises only runtime errors. -/
lemma runtimeOnly_partners (sorted : List (Value × Nat)) (probe : Option Value) :
    (partners sorted probe).RuntimeOnly := by
  have run (probe : Value) (keys : List (Value × Nat)) : (equalRun probe keys).RuntimeOnly := by
    induction keys with
    | nil => trivial
    | cons key rest ih =>
      rw [equalRun]
      split
      · rename_i error herror
        exact (Value.operandsOnly_compare? _ _).runtimeOnly.of_error herror
      · exact ih.map _
      · trivial
  cases probe with
  | none => trivial
  | some probe =>
    rw [partners]
    split
    · trivial
    · exact run probe _

/-- The sorted keys of a table hold positions of its rows. -/
lemma lt_of_mem_sortedKeys {t : JoinInput} {column : Nat} {sorted : List (Value × Nat)}
    (h : sortedKeys t column = .ok sorted) : ∀ key ∈ sorted, key.2 < t.rows.length := by
  obtain ⟨keys, hkeys, rfl⟩ := Result.map_eq_ok.mp h
  intro key hkey
  have hmem : key.2 ∈ keys.map Prod.snd :=
    List.mem_map_of_mem (List.mem_filter.mp (mem_stableSort.mp hkey)).1
  rwa [(keyedRows_eq_ok hkeys).1, List.mem_range] at hmem

/-- The tuples that a match step gives. -/
lemma grown_of_matchStep {watch : Watch} {interval : Nat} {kind : JoinKind} {order : List Nat}
    {newTable : Nat} {key : EqualityKey} {tuples joined : List Tuple}
    (h : matchStep tables watch interval kind order.length newTable key tuples = .ok joined) :
    ∀ tuple ∈ joined, Grown tables order newTable kind tuples tuple := by
  obtain ⟨sorted, found, hsorted, hfound, rfl⟩ := matchStep_eq_ok h
  -- every partner is a row of the new table
  have row : ∀ tuple ∈ tuples, ∀ index ∈ found tuple,
      index < (atPosition tables newTable).rows.length := by
    intro tuple htuple index hindex
    obtain ⟨probe, -, hpartners⟩ := hfound tuple htuple
    obtain ⟨entry, hentry, rfl⟩ := (gives_partners sorted probe).of_ok hpartners index hindex
    exact lt_of_mem_sortedKeys hsorted entry hentry
  intro tuple htuple
  rcases List.mem_append.mp htuple with htuple | htuple
  · obtain ⟨old, hold, htuple⟩ := List.mem_flatMap.mp htuple
    unfold extend at htuple
    split at htuple
    · rename_i hleft
      have houter : kind.isOuter = true := by
        cases kind <;> simp_all [JoinKind.keepsLeft, JoinKind.isOuter]
      rw [List.mem_singleton.mp htuple]
      exact ⟨old, none, rfl, fun index hindex => by simp at hindex, fun _ => houter, Or.inl hold⟩
    · obtain ⟨index, hindex, rfl⟩ := List.mem_map.mp htuple
      exact ⟨old, some index, rfl, holdsRow_some (row old hold index hindex), by simp,
        Or.inl hold⟩
  · split at htuple
    · rename_i hright
      have houter : kind.isOuter = true := by
        cases kind <;> simp_all [JoinKind.keepsRight, JoinKind.isOuter]
      obtain ⟨index, hindex, rfl⟩ := List.mem_map.mp htuple
      exact ⟨_, some index, rfl, holdsRow_some (List.mem_range.mp (List.mem_filter.mp hindex).1),
        by simp, Or.inr ⟨houter, rfl⟩⟩
    · simp at htuple

/-- The tuples that a step gives. -/
lemma grown_of_joinStep {watch : Watch} {interval : Nat} {newTable : Nat} {clause : JoinClause}
    {output : JoinedTuples} {joined : List Tuple}
    (h : joinStep tables watch interval newTable clause output = .ok joined) :
    ∀ tuple ∈ joined, Grown tables output.order newTable clause.kind output.tuples tuple := by
  unfold joinStep at h
  split at h
  · rename_i hkind
    obtain ⟨-, rfl⟩ := crossStep_eq_ok h
    intro tuple htuple
    rw [hkind]
    exact grown_of_mem_allPairs (List.mem_filter.mp htuple).1
  · split at h
    · simp at h
    · obtain ⟨key, -, h⟩ := Result.bind_eq_ok.mp h
      exact grown_of_matchStep h

/-! ## Cross steps -/

/-- A cross step raises no fault. -/
lemma faultless_crossStep {watch : Watch} {interval : Nat} {order : List Nat} {newTable : Nat}
    {on : Option Expr} {tuples : List Tuple} (serves : ∀ e, on = some e → Serves tables e)
    (inside : ∀ position ∈ order ++ [newTable], position < tables.length)
    (fits : ∀ tuple ∈ tuples, FitsOrder tables order tuple) :
    (crossStep tables watch interval order newTable on tuples).Faultless := by
  refine (faultless_poll watch _).bind fun _ _ _ => ?_
  refine Gives.bind (gives_filterResult fun pair hpair => ?_) fun _ _ _ => trivial
  refine (faultless_pollEvery watch interval _ _).bind fun _ _ _ => ?_
  have hfits := (grown_of_mem_allPairs (List.fst_mem_of_mem_zipIdx hpair)).fits fits
  cases on with
  | none => trivial
  | some e => exact (serves e rfl).faultless_acceptsTuple inside hfits

/-! ## Match steps -/

/-- The key reads a joined table and the new one at places that their rows have. -/
structure KeyFits (tables : List JoinInput) (order : List Nat) (newTable : Nat)
    (key : EqualityKey) : Prop where
  slot : order[key.slot]? = some key.existing
  existing : ∀ row ∈ (atPosition tables key.existing).rows, key.existingColumn < row.values.length
  new : ∀ row ∈ (atPosition tables newTable).rows, key.newColumn < row.values.length

/-- The key of a condition, or an error of the query. -/
lemma Serves.gives_ofCondition {on : Expr} (serves : Serves tables on) {order : List Nat}
    {newTable : Nat} (inside : ∀ position ∈ order ++ [newTable], position < tables.length) :
    (EqualityKey.ofCondition tables order newTable on).Gives (KeyFits tables order newTable) := by
  have hnew : atPosition tables newTable ∈ tables := atPosition_mem (inside newTable (by simp))
  have types (left right : ColumnRef) : (EqualityKey.checkTypes left right).Faultless := by
    unfold EqualityKey.checkTypes
    split
    · split
      · rfl
      · trivial
    · trivial
  unfold EqualityKey.ofCondition
  dsimp only
  split
  · rfl
  · rename_i new existing hsides
    obtain ⟨hname, hequated⟩ := EqualityKey.equated_of_sides hsides
    have hcolumns : new ∈ on.columns ∧ existing ∈ on.columns := by
      rcases hequated with h | h <;> simp [Expr.columns_of_equated h]
    split
    · rfl
    · rename_i slot hslot
      obtain ⟨hlt, hbelongs, -⟩ := List.findIdx?_eq_some_iff_getElem.mp hslot
      have hget : order.getD slot 0 = order[slot] := by simp [hlt]
      have hexisting : atPosition tables order[slot] ∈ tables :=
        atPosition_mem (inside _ (List.mem_append_left _ (List.getElem_mem hlt)))
      rw [hget]
      obtain ⟨place, hplace, hwidth⟩ := serves.carried _ hexisting existing hcolumns.2 hbelongs
      obtain ⟨place', hplace', hwidth'⟩ := serves.carried _ hnew new hcolumns.1 hname
      refine (types new existing).bind fun _ _ _ => ?_
      rw [hplace, hplace']
      exact ⟨by simp [hlt], hwidth, hwidth'⟩

/-- The keys of a table are sorted without faults. -/
lemma faultless_sortedKeys {t : JoinInput} {column : Nat}
    (h : ∀ row ∈ t.rows, column < row.values.length) : (sortedKeys t column).Faultless := by
  refine Gives.faultless_map (gives_mapM (R := fun _ => True) fun row hrow => ?_) _
  have hlt := h row.1 (List.fst_mem_of_mem_zipIdx hrow)
  rw [keyedRow, List.getElem?_eq_getElem hlt]
  trivial

/-- The probe of a tuple raises no fault. -/
lemma KeyFits.faultless_probe {order : List Nat} {newTable : Nat} {key : EqualityKey}
    (hkey : KeyFits tables order newTable key) {tuple : Tuple}
    (fits : FitsOrder tables order tuple) :
    (key.probe tables tuple).Faultless := by
  obtain ⟨hlt, hexisting⟩ := List.getElem?_eq_some_iff.mp hkey.slot
  have hslot : key.slot < tuple.length := by rwa [← fits.length_eq]
  have hholds := fits.get hlt hslot
  rw [EqualityKey.probe, List.getElem?_eq_getElem hslot]
  simp only [List.get_eq_getElem, hexisting] at hholds
  cases hvalue : tuple[key.slot] with
  | none => trivial
  | some index =>
    refine (gives_row (hholds index hvalue)).bind fun row _ hrow => ?_
    obtain ⟨candidate, hcandidate, rfl⟩ := hrow
    have hplace := hkey.existing candidate hcandidate
    simp only [LogicalRow.valueAt, Row.at, List.getElem?_eq_getElem hplace]
    trivial

/-- A match step raises no fault. -/
lemma KeyFits.faultless_matchStep {watch : Watch} {interval width : Nat} {kind : JoinKind}
    {order : List Nat} {newTable : Nat} {key : EqualityKey} {tuples : List Tuple}
    (hkey : KeyFits tables order newTable key)
    (fits : ∀ tuple ∈ tuples, FitsOrder tables order tuple) :
    (matchStep tables watch interval kind width newTable key tuples).Faultless := by
  refine (faultless_sortedKeys hkey.new).bind fun sorted _ _ => ?_
  refine Gives.bind (gives_mapM (R := fun _ => True) fun pair hpair => ?_) fun _ _ _ => trivial
  refine (faultless_pollEvery watch interval _ _).bind fun _ _ _ => ?_
  refine (hkey.faultless_probe (fits _ (List.fst_mem_of_mem_zipIdx hpair))).bind fun probe _ _ => ?_
  exact (gives_partners sorted probe).faultless

/-! ## Steps -/

/-- A step raises no fault. -/
lemma faultless_joinStep {watch : Watch} {interval : Nat} {newTable : Nat} {clause : JoinClause}
    {output : JoinedTuples} (serves : ∀ e, clause.on = some e → Serves tables e)
    (inside : ∀ position ∈ output.order ++ [newTable], position < tables.length)
    (fits : ∀ tuple ∈ output.tuples, FitsOrder tables output.order tuple) :
    (joinStep tables watch interval newTable clause output).Faultless := by
  unfold joinStep
  split
  · exact faultless_crossStep serves inside fits
  · split
    · rfl
    · rename_i on hon
      refine ((serves on hon).gives_ofCondition inside).bind fun key _ hkey => ?_
      exact hkey.faultless_matchStep fits

end JoinInput

end RelQuery
