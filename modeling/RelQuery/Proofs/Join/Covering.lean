import Mathlib
import RelQuery.Proofs.Faults.Walking
import RelQuery.Proofs.Join.Chain

/-!
# The walk covers every table once

Wherever a join succeeds, its walk has taken up every table exactly once, beginning with the first
of the smallest, and each of its tuples has one slot for every table.  The tables are read as a
graph in which the clauses are edges.  A walk that ends has linked all tables, so no join over a
graph in several parts succeeds; and over a connected graph the walk never runs out of clauses.
-/

namespace RelQuery

open Result

/-! ## The graph of the clauses -/

/-- The entries as a graph: two of them are adjacent if a clause joins them. -/
def FromEntry.graph (entries : List FromEntry) (clauses : List JoinClause) :
    SimpleGraph (Fin entries.length) :=
  SimpleGraph.fromRel fun a b => ∃ clause ∈ clauses,
    entries[a].same clause.left = true ∧ entries[b].same clause.right = true

namespace JoinInput

section Graph

variable {tables : List JoinInput} {entries : List FromEntry} {clauses : List JoinClause}
  {pool : List PendingJoin}

/-- A clause joins two entries if one lies between their positions in the pool. -/
lemma exists_clause_iff (hentries : tables.map JoinInput.table = entries)
    (apart : NamesApart tables)
    (hpool : clauses.mapM (PendingJoin.ofClause tables) = .ok pool) (a b : Fin entries.length) :
    (∃ clause ∈ clauses, entries[a].same clause.left = true ∧
        entries[b].same clause.right = true) ↔
      ∃ link ∈ pool, link.left = a ∧ link.right = b := by
  have hlength : entries.length = tables.length := by rw [← hentries, List.length_map]
  have hentry (a : Fin entries.length) : entries[a] = (atPosition tables a).table := by
    have ha : a.val < tables.length := hlength ▸ a.isLt
    simp [← hentries, atPosition, ha]
  rw [hentry, hentry]
  constructor
  · rintro ⟨clause, hclause, hleft, hright⟩
    obtain ⟨link, hlink, hof⟩ := ok_of_mem_of_mapM hpool hclause
    obtain ⟨hindexLeft, hindexRight, -⟩ := ofClause_eq_ok hof
    rw [FromEntry.same, Name.same_comm] at hleft hright
    exact ⟨link, hlink, apart.indexOf_eq hindexLeft (hlength ▸ a.isLt) hleft,
      apart.indexOf_eq hindexRight (hlength ▸ b.isLt) hright⟩
  · rintro ⟨link, hlink, hleft, hright⟩
    obtain ⟨clause, hclause, hof⟩ := source_of_mem_of_mapM hpool hlink
    obtain ⟨hindexLeft, hindexRight, -⟩ := ofClause_eq_ok hof
    rw [← hleft, ← hright]
    exact ⟨clause, hclause, (indexOf_eq_ok hindexLeft).2, (indexOf_eq_ok hindexRight).2⟩

/-- Two entries are adjacent if a clause of the pool lies between their positions. -/
lemma graph_adj_iff (hentries : tables.map JoinInput.table = entries) (apart : NamesApart tables)
    (hpool : clauses.mapM (PendingJoin.ofClause tables) = .ok pool) (a b : Fin entries.length) :
    (FromEntry.graph entries clauses).Adj a b ↔ a ≠ b ∧
      ((∃ link ∈ pool, link.left = a ∧ link.right = b) ∨
        ∃ link ∈ pool, link.left = b ∧ link.right = a) := by
  rw [FromEntry.graph, SimpleGraph.fromRel_adj, exists_clause_iff hentries apart hpool,
    exists_clause_iff hentries apart hpool]

/-- In a connected graph every part of the tables is left by a clause. -/
lemma connected_of_graph (hentries : tables.map JoinInput.table = entries)
    (apart : NamesApart tables)
    (hpool : clauses.mapM (PendingJoin.ofClause tables) = .ok pool)
    (connected : (FromEntry.graph entries clauses).Connected) :
    Connected tables.length pool := by
  have hlength : entries.length = tables.length := by rw [← hentries, List.length_map]
  rintro part hne hinside ⟨missing, hmissing, hout⟩
  obtain ⟨first, hfirst⟩ := List.exists_mem_of_ne_nil part hne
  obtain ⟨path⟩ := connected.preconnected ⟨first, hlength ▸ hinside first hfirst⟩
    ⟨missing, hlength ▸ hmissing⟩
  obtain ⟨step, -, hfrom, hto⟩ := path.exists_boundary_dart {a | a.val ∈ part} hfirst hout
  replace hfrom : step.fst.val ∈ part := hfrom
  replace hto : step.snd.val ∉ part := hto
  obtain ⟨-, ⟨link, hlink, hl, hr⟩ | ⟨link, hlink, hl, hr⟩⟩ :=
    (graph_adj_iff hentries apart hpool _ _).mp step.adj
  · exact ⟨link, hlink, by simp [PendingJoin.reaches, hl, hr, hfrom, hto]⟩
  · exact ⟨link, hlink, by simp [PendingJoin.reaches, hl, hr, hfrom, hto]⟩

/-- Where every part of the tables is left by a clause, the graph is connected: the part that can be
reached from the first table would be left by none. -/
lemma graph_of_connected (hentries : tables.map JoinInput.table = entries)
    (apart : NamesApart tables) (nonempty : tables ≠ [])
    (hpool : clauses.mapM (PendingJoin.ofClause tables) = .ok pool)
    (connected : Connected tables.length pool) :
    (FromEntry.graph entries clauses).Connected := by
  classical
  have hlength : entries.length = tables.length := by rw [← hentries, List.length_map]
  let start : Fin entries.length := ⟨0, hlength ▸ List.length_pos_iff.mpr nonempty⟩
  refine (SimpleGraph.connected_iff_exists_forall_reachable _).mpr ⟨start, fun goal => ?_⟩
  by_contra hgoal
  let part := ((List.finRange entries.length).filter fun a =>
    (FromEntry.graph entries clauses).Reachable start a).map Fin.val
  have hpart (a : Fin entries.length) :
      a.val ∈ part ↔ (FromEntry.graph entries clauses).Reachable start a := by
    simp [part, Fin.val_inj]
  have hinside : ∀ position ∈ part, position < tables.length := by
    intro position hposition
    obtain ⟨a, -, rfl⟩ := List.mem_map.mp hposition
    exact hlength ▸ a.isLt
  obtain ⟨link, hlink, hreaches⟩ := connected part
    (List.ne_nil_of_mem ((hpart start).mpr (SimpleGraph.Reachable.refl start))) hinside
    ⟨goal, hlength ▸ goal.isLt, fun h => hgoal ((hpart goal).mp h)⟩
  obtain ⟨hleft, hright⟩ := known_of_pool hpool link hlink
  let l : Fin entries.length := ⟨link.left, hlength.symm ▸ hleft⟩
  let r : Fin entries.length := ⟨link.right, hlength.symm ▸ hright⟩
  have hone : ¬(link.left ∈ part ↔ link.right ∈ part) := by
    simpa [PendingJoin.reaches] using hreaches
  refine hone ?_
  by_cases heq : l = r
  · rw [show link.left = link.right from congrArg Fin.val heq]
  · have hlr : (FromEntry.graph entries clauses).Adj l r :=
      (graph_adj_iff hentries apart hpool l r).mpr ⟨heq, Or.inl ⟨link, hlink, rfl, rfl⟩⟩
    calc link.left ∈ part
      _ ↔ (FromEntry.graph entries clauses).Reachable start l := hpart l
      _ ↔ (FromEntry.graph entries clauses).Reachable start r :=
        ⟨fun h => h.trans hlr.reachable, fun h => h.trans hlr.symm.reachable⟩
      _ ↔ link.right ∈ part := (hpart r).symm

end Graph

variable {tables : List JoinInput}

/-! ## What a walk has reached -/

/-- The position is that of the first of the tables with the fewest rows. -/
structure FirstSmallest (tables : List JoinInput) (start : Nat) : Prop where
  known : start < tables.length
  least : ∀ t ∈ tables, (atPosition tables start).rows.length ≤ t.rows.length
  first : ∀ earlier < start,
    (atPosition tables start).rows.length < (atPosition tables earlier).rows.length

/-- The walk starts from the first of the tables with the fewest rows. -/
lemma firstSmallest_of_smallest? {start : Nat} (h : smallest? tables = some start) :
    FirstSmallest tables start := by
  obtain ⟨hlt, hall, hbefore⟩ := List.findIdx?_eq_some_iff_getElem.mp h
  have hat {position : Nat} (h : position < tables.length) :
      atPosition tables position = tables[position] := by simp [atPosition, h]
  have least : ∀ t ∈ tables, (atPosition tables start).rows.length ≤ t.rows.length := by
    simpa [hat hlt] using hall
  refine ⟨hlt, least, fun earlier hearlier => ?_⟩
  -- an earlier table was passed over, since some table has fewer rows
  have hpassed := hbefore earlier hearlier
  rw [← hat] at hpassed
  obtain ⟨other, hother, hless⟩ : ∃ other ∈ tables,
      other.rows.length < (atPosition tables earlier).rows.length := by simpa using hpassed
  exact lt_of_le_of_lt (least other hother) hless

/-- What the walk has reached: it is underway from its first table, no part splits the joined tables
without being left by a clause, and along inner clauses all slots are filled. -/
structure Reached (tables : List JoinInput) (pool : List PendingJoin) (start : Nat)
    (left : List PendingJoin) (output : JoinedTuples) : Prop where
  underway : Underway tables pool left output
  first : output.order.head? = some start
  linked : ∀ part : List Nat, (∃ a ∈ output.order, a ∈ part) → (∃ b ∈ output.order, b ∉ part) →
    ∃ pending ∈ pool, pending.reaches part = true
  filled : (∀ pending ∈ pool, pending.clause.kind.isOuter = false) →
    ∀ tuple ∈ output.tuples, none ∉ tuple

/-- The walk has reached its first table. -/
lemma reached_start {start : Nat} (hstart : start < tables.length) (pool : List PendingJoin) :
    Reached tables pool start pool (startOutput tables start) where
  underway := underway_start hstart pool
  first := rfl
  linked := by
    rintro part ⟨a, ha, hin⟩ ⟨b, hb, hout⟩
    rw [List.mem_singleton.mp ha] at hin
    rw [List.mem_singleton.mp hb] at hout
    exact absurd hin hout
  filled := by
    intro _ tuple htuple
    obtain ⟨index, -, rfl⟩ := List.mem_map.mp htuple
    simp

/-- Where all joined tables are on one side of a part and the new one is on the other, the clause
that brings it in leaves the part. -/
lemma reaches_of_side {order part : List Nat} {pending : PendingJoin}
    (h : pending.reaches order = true) {P : Prop} (joined : ∀ a ∈ order, a ∈ part ↔ P)
    (new : ¬((pending.oriented order).1 ∈ part ↔ P)) : pending.reaches part = true := by
  have hone : ¬(pending.left ∈ order ↔ pending.right ∈ order) := by
    simpa [PendingJoin.reaches] using h
  suffices hsplit : ¬(pending.left ∈ part ↔ pending.right ∈ part) by
    simpa [PendingJoin.reaches] using hsplit
  by_cases hleft : pending.left ∈ order
  · have htable : (pending.oriented order).1 = pending.right := by
      simp [PendingJoin.oriented, hleft]
    rw [htable] at new
    exact fun hsame => new (hsame.symm.trans (joined _ hleft))
  · have htable : (pending.oriented order).1 = pending.left := by
      simp [PendingJoin.oriented, hleft]
    have hright : pending.right ∈ order := by
      by_contra hright
      exact hone ⟨fun h => absurd h hleft, fun h => absurd h hright⟩
    rw [htable] at new
    exact fun hsame => new (hsame.trans (joined _ hright))

/-- A step of the walk reaches one more table. -/
lemma Reached.step {pool left : List PendingJoin} {start : Nat} {output : JoinedTuples}
    (reached : Reached tables pool start left output)
    (known : ∀ link ∈ pool, link.left < tables.length ∧ link.right < tables.length)
    {pending : PendingJoin} (hfound : left.find? (·.reaches output.order) = some pending)
    {watch : Watch} {interval : Nat} {joined : List Tuple}
    (h : joinStep tables watch interval (pending.oriented output.order).1
      (pending.oriented output.order).2 output = .ok joined) :
    Reached tables pool start (left.eraseP (·.reaches output.order))
      ⟨output.order ++ [(pending.oriented output.order).1], joined⟩ := by
  obtain ⟨hreaches, picked⟩ := perm_of_find? hfound
  have hmem : pending ∈ pool := reached.underway.pending (picked.mem_iff.mpr List.mem_cons_self)
  refine ⟨reached.underway.step known hfound h, ?_, ?_, ?_⟩
  · rw [List.head?_append, reached.first]
    rfl
  · rintro part ⟨a, ha, hin⟩ ⟨b, hb, hout⟩
    by_cases hnew : (pending.oriented output.order).1 ∈ part
    · by_cases hsplit : ∃ c ∈ output.order, c ∈ part
      · refine reached.linked part hsplit ⟨b, ?_, hout⟩
        refine (List.mem_append.mp hb).resolve_right fun h => hout ?_
        rwa [List.mem_singleton.mp h]
      · push Not at hsplit
        exact ⟨pending, hmem, reaches_of_side (P := False) hreaches
          (fun c hc => iff_false_intro (hsplit c hc)) fun h => h.mp hnew⟩
    · by_cases hsplit : ∃ c ∈ output.order, c ∉ part
      · refine reached.linked part ⟨a, ?_, hin⟩ hsplit
        refine (List.mem_append.mp ha).resolve_right fun h => hnew ?_
        rwa [← List.mem_singleton.mp h]
      · push Not at hsplit
        exact ⟨pending, hmem, reaches_of_side (P := True) hreaches
          (fun c hc => iff_true_intro (hsplit c hc)) fun h => hnew (h.mpr trivial)⟩
  · intro inner tuple htuple hnone
    have hkind : (pending.oriented output.order).2.kind.isOuter = false := by
      have hpending := inner pending hmem
      unfold PendingJoin.oriented
      split
      · exact hpending
      · rwa [JoinClause.turned, JoinKind.isOuter_reversed]
    obtain ⟨old, slot, rfl, -, hslot, hold | ⟨houter, -⟩⟩ := grown_of_joinStep h tuple htuple
    · rcases List.mem_append.mp hnone with hnone | hnone
      · exact reached.filled inner old hold hnone
      · have := hslot (List.mem_singleton.mp hnone).symm
        simp [hkind] at this
    · simp [hkind] at houter

end JoinInput

/-! ## Errors along the way -/

/-- The error says that no clause leads to a table or that a clause cannot be executed. -/
def Error.isOfClauses : Error → Bool
  | .unsupportedJoin _ | .fault (.disconnected _) => true
  | _ => false

/-- The error of a walk that finds no clause to go on with. -/
abbrev splitError (names : List String) : Error :=
  .fault (.disconnected names)

namespace JoinInput

section Errors

variable {error : Error} (ofClauses : error.isOfClauses = true)

include ofClauses

/-- Such an error is no runtime error. -/
lemma isRuntime_of_isOfClauses : error.isRuntime = false := by
  cases error <;> first | rfl | exact absurd ofClauses Bool.false_ne_true

/-- Another error is not such an error. -/
lemma error_ne {α : Type} {cause : Error} (other : cause.isOfClauses = false) :
    (.error cause : Result α) ≠ .error error := by
  rintro ⟨⟩
  exact absurd ofClauses (by rw [other]; decide)

/-- Reading a row at a position raises no such error. -/
lemma at_ne_error {fault : Fault} (other : (Error.fault fault).isOfClauses = false) (row : Row)
    (index : Nat) : row.at index fault ≠ .error error := by
  unfold Row.at
  split
  · simp
  · exact error_ne ofClauses other

/-- Reading a column of a row raises no such error. -/
lemma valueOf_ne_error (row : LogicalRow) (ref : ColumnRef) : row.valueOf ref ≠ .error error := by
  cases row with
  | stored row =>
    unfold LogicalRow.valueOf StoredRow.valueOf
    dsimp only
    split
    · exact at_ne_error ofClauses rfl _ _
    · exact error_ne ofClauses rfl
  | padding table => simp [LogicalRow.valueOf]
  | projected position values =>
    unfold LogicalRow.valueOf
    dsimp only
    split
    · exact at_ne_error ofClauses rfl _ _
    · exact error_ne ofClauses rfl
  | candidate table columns cut =>
    refine bind_ne_error ?_ fun position _ => at_ne_error ofClauses rfl _ _
    unfold carriedPosition
    split
    · simp
    · exact error_ne ofClauses rfl

/-- Taking a candidate as a row raises no such error. -/
lemma row_ne_error (t : JoinInput) (index : Nat) : t.row index ≠ .error error := by
  unfold row
  split
  · simp
  · exact error_ne ofClauses rfl

/-- Deciding a condition on a tuple raises no such error. -/
lemma acceptsTuple_ne_error (order : List Nat) (e : Expr) (tuple : Tuple) :
    acceptsTuple tables order e tuple ≠ .error error := by
  have hslot (t : JoinInput) (slot : Option Nat) : t.slotRow slot ≠ .error error := by
    cases slot with
    | none => simp [slotRow]
    | some index => exact row_ne_error ofClauses t index
  have other := isRuntime_of_isOfClauses ofClauses
  refine bind_ne_error (mapM_ne_error fun slot _ => hslot _ _) fun rows _ => ?_
  have hevaluate : e.evaluate .full rows ≠ .error error := by
    refine Expr.evaluate_ne_error other fun ref _ => ?_
    unfold Expr.columnOutcome
    split
    · split
      · exact map_ne_error (valueOf_ne_error ofClauses _ _) _
      · exact error_ne ofClauses rfl
    · exact error_ne ofClauses rfl
  unfold Expr.accepts
  split
  · rename_i cause herror
    simpa [herror] using hevaluate
  · exact (Value.operandsOnly_isTrue _).runtimeOnly.ne_error other
  · exact error_ne ofClauses rfl

/-- A cross step raises no such error. -/
lemma crossStep_ne_error (watch : Watch) (interval : Nat) (order : List Nat) (newTable : Nat)
    (on : Option Expr) (tuples : List Tuple) :
    crossStep tables watch interval order newTable on tuples ≠ .error error := by
  have other := isRuntime_of_isOfClauses ofClauses
  refine bind_ne_error ((runtimeOnly_poll watch _).ne_error other) fun _ _ => ?_
  refine bind_ne_error (filterResult_ne_error fun pair _ => ?_) fun kept _ => by
    simp [pure, Except.pure]
  refine bind_ne_error ((runtimeOnly_pollEvery watch interval _ _).ne_error other) fun _ _ => ?_
  cases on with
  | none => simp [passesOn]
  | some e => exact acceptsTuple_ne_error ofClauses _ e _

/-- A match step raises no such error. -/
lemma matchStep_ne_error (watch : Watch) (interval : Nat) (kind : JoinKind) (width newTable : Nat)
    (key : EqualityKey) (tuples : List Tuple) :
    matchStep tables watch interval kind width newTable key tuples ≠ .error error := by
  have other := isRuntime_of_isOfClauses ofClauses
  have hkeys (t : JoinInput) (column : Nat) : sortedKeys t column ≠ .error error := by
    refine map_ne_error (mapM_ne_error fun row _ => ?_) _
    unfold keyedRow
    split
    · simp
    · exact error_ne ofClauses rfl
  have hprobe (tuple : Tuple) : key.probe tables tuple ≠ .error error := by
    unfold EqualityKey.probe
    split
    · exact error_ne ofClauses rfl
    · simp
    · refine bind_ne_error (row_ne_error ofClauses _ _) fun row _ => ?_
      refine bind_ne_error ?_ fun _ _ => by simp [pure, Except.pure]
      cases row with
      | padding table => simp [LogicalRow.valueAt]
      | stored row => exact at_ne_error ofClauses rfl _ _
      | projected position values => exact at_ne_error ofClauses rfl _ _
      | candidate table columns row => exact at_ne_error ofClauses rfl _ _
  refine bind_ne_error (hkeys _ _) fun sorted _ => ?_
  refine bind_ne_error (mapM_ne_error fun pair _ => ?_) fun found _ => by
    simp [pure, Except.pure]
  refine bind_ne_error ((runtimeOnly_pollEvery watch interval _ _).ne_error other) fun _ _ => ?_
  exact bind_ne_error (hprobe _) fun probe _ => (runtimeOnly_partners sorted probe).ne_error other

end Errors

/-- Finding the key of a condition does not say that no clause leads to a table. -/
lemma ofCondition_ne_split (names : List String) (order : List Nat) (newTable : Nat) (on : Expr) :
    EqualityKey.ofCondition tables order newTable on ≠ .error (splitError names) := by
  have hplace (t : JoinInput) (ref : ColumnRef) : t.placeOf ref ≠ .error (splitError names) := by
    unfold placeOf carriedPosition
    split <;> simp
  have htypes (left right : ColumnRef) :
      EqualityKey.checkTypes left right ≠ .error (splitError names) := by
    unfold EqualityKey.checkTypes
    split
    · split <;> simp
    · simp
  unfold EqualityKey.ofCondition
  dsimp only
  split
  · simp
  · split
    · simp
    · refine bind_ne_error (htypes _ _) fun _ _ => ?_
      refine bind_ne_error (hplace _ _) fun _ _ => ?_
      exact bind_ne_error (hplace _ _) fun _ _ => by simp [pure, Except.pure]

/-- Only the walk itself raises the error of a walk without clauses. -/
lemma spared_splitError (names : List String) (watch : Watch) (interval : Nat)
    (pool : List PendingJoin) : Spared tables watch interval pool (splitError names) where
  step left output pending _ _ := by
    unfold joinStep
    split
    · exact crossStep_ne_error rfl _ _ _ _ _ _
    · split
      · simp
      · exact bind_ne_error (ofCondition_ne_split names _ _ _) fun key _ =>
          matchStep_ne_error rfl _ _ _ _ _ _ _
  close order tuples _ _ pending _ := by
    unfold closeCycle
    split
    · simp
    · split
      · exact filterResult_ne_error fun tuple _ => acceptsTuple_ne_error rfl order _ tuple
      · split <;> simp

/-! ## Joins -/

/-- What a join gives: its walk has taken up every table once, beginning with the first of the
smallest, and every tuple has a slot for each table, which is filled unless some clause is outer. -/
structure Covering (tables : List JoinInput) (clauses : List JoinClause) (output : JoinedTuples) :
    Prop where
  covers : output.order.Perm (List.range tables.length)
  first : ∃ start, output.order.head? = some start ∧ FirstSmallest tables start
  lengths : ∀ tuple ∈ output.tuples, tuple.length = tables.length
  inside : ∀ tuple ∈ output.tuples, ∀ slot position index : Nat,
    output.order[slot]? = some position → tuple[slot]? = some (some index) →
      index < (atPosition tables position).rows.length
  filled : (∀ clause ∈ clauses, clause.kind.isOuter = false) →
    ∀ tuple ∈ output.tuples, none ∉ tuple

/-- A filled slot holds the position of a row. -/
lemma FitsOrder.lt {order : List Nat} {tuple : Tuple} (fits : FitsOrder tables order tuple)
    {slot position index : Nat} (hposition : order[slot]? = some position)
    (hindex : tuple[slot]? = some (some index)) :
    index < (atPosition tables position).rows.length := by
  obtain ⟨hlt, rfl⟩ := List.getElem?_eq_some_iff.mp hposition
  obtain ⟨hslot, hfilled⟩ := List.getElem?_eq_some_iff.mp hindex
  exact fits.get hlt hslot index hfilled

/-- A join that succeeds has reached all tables. -/
lemma exists_reached_of_joinTables {clauses : List JoinClause} {watch : Watch} {interval : Nat}
    {output : JoinedTuples} (h : joinTables tables watch interval clauses = .ok output) :
    ∃ start pool left walked, smallest? tables = some start ∧
      clauses.mapM (PendingJoin.ofClause tables) = .ok pool ∧
      Reached tables pool start left walked ∧ walked.order.Perm (List.range tables.length) ∧
      output.order = walked.order ∧ output.tuples ⊆ walked.tuples := by
  obtain ⟨start, pool, left, walked, hstart, hlt, hpool, hwalk, hkept, horder⟩ :=
    joinTables_eq_ok h
  obtain ⟨reached, hlength⟩ := walk_induction (P := Reached tables pool start)
    (fun _ _ _ _ reached hfound hjoined => reached.step (known_of_pool hpool) hfound hjoined)
    (reached_start hlt pool) hwalk
  have hall : walked.order.length = tables.length := by
    rw [hlength, startOutput, List.length_singleton]
    omega
  exact ⟨start, pool, left, walked, hstart, hpool, reached, reached.underway.perm_range hall,
    horder, subset_of_closeCycles hkept⟩

/-- A join that succeeds covers all tables. -/
lemma covering_of_joinTables {clauses : List JoinClause} {watch : Watch} {interval : Nat}
    {output : JoinedTuples} (h : joinTables tables watch interval clauses = .ok output) :
    Covering tables clauses output := by
  obtain ⟨start, pool, left, walked, hstart, hpool, reached, hperm, horder, hsub⟩ :=
    exists_reached_of_joinTables h
  have hfits : ∀ tuple ∈ output.tuples, FitsOrder tables output.order tuple := by
    rw [horder]
    exact fun tuple htuple => reached.underway.fits tuple (hsub htuple)
  refine ⟨horder ▸ hperm, ⟨start, horder ▸ reached.first, firstSmallest_of_smallest? hstart⟩,
    fun tuple htuple => ?_, fun tuple htuple slot position index hposition hindex => ?_,
    fun inner tuple htuple => ?_⟩
  · rw [← (hfits tuple htuple).length_eq, horder, hperm.length_eq, List.length_range]
  · exact (hfits tuple htuple).lt hposition hindex
  · exact reached.filled ((forall_pool_iff hpool fun clause => clause.kind.isOuter = false).mpr
      inner) tuple (hsub htuple)

/-- A join that succeeds has linked all tables. -/
lemma connected_of_joinTables (apart : NamesApart tables) {clauses : List JoinClause}
    {watch : Watch} {interval : Nat} {output : JoinedTuples}
    (h : joinTables tables watch interval clauses = .ok output) :
    (FromEntry.graph (tables.map JoinInput.table) clauses).Connected := by
  obtain ⟨start, pool, left, walked, hstart, hpool, reached, hperm, -, -⟩ :=
    exists_reached_of_joinTables h
  have nonempty : tables ≠ [] := by
    rintro rfl
    simp [smallest?] at hstart
  refine graph_of_connected rfl apart nonempty hpool ?_
  rintro part hne hinside ⟨missing, hmissing, hout⟩
  obtain ⟨first, hfirst⟩ := List.exists_mem_of_ne_nil part hne
  have joined {position : Nat} (h : position < tables.length) : position ∈ walked.order :=
    hperm.mem_iff.mpr (List.mem_range.mpr h)
  exact reached.linked part ⟨first, joined (hinside first hfirst), hfirst⟩
    ⟨missing, joined hmissing, hout⟩

/-- A join covers every table exactly once where it succeeds, and it fails for lack of clauses only
over a graph in several parts, over which no join succeeds. -/
theorem joinTables_covering (apart : NamesApart tables) (clauses : List JoinClause) (watch : Watch)
    (interval : Nat) :
    (∀ output, joinTables tables watch interval clauses = .ok output →
      Covering tables clauses output) ∧
    (∀ names, joinTables tables watch interval clauses = .error (.fault (.disconnected names)) →
      ¬ (FromEntry.graph (tables.map JoinInput.table) clauses).Connected) ∧
    (¬ (FromEntry.graph (tables.map JoinInput.table) clauses).Connected →
      ∀ output, joinTables tables watch interval clauses ≠ .ok output) := by
  refine ⟨fun output => covering_of_joinTables, fun names hsplit connected => ?_,
    fun unconnected output h => unconnected (connected_of_joinTables apart h)⟩
  have hindex (ref : FromEntry) : indexOf tables ref ≠ .error (splitError names) := by
    unfold indexOf
    split <;> simp
  have hclauses : clauses.mapM (PendingJoin.ofClause tables) ≠ .error (splitError names) :=
    mapM_ne_error fun clause _ => bind_ne_error (hindex _) fun _ _ =>
      bind_ne_error (hindex _) fun _ _ => by simp [pure, Except.pure]
  exact joinTables_ne_error rfl (by simp) hclauses
    (fun pool hpool => connected_of_graph rfl apart hpool connected)
    (fun pool _ => spared_splitError names watch interval pool) hsplit

/-- A chain of three tables is joined from its last and smallest table, and two tables without a
clause are not joined. -/
theorem joinTables_covering_chain :
    (∃ output, joinTables [keyTable "a" [1, 2], keyTable "b" [1, 3], keyTable "c" [3]] .never 1
        [keyClause .inner "a" "b", keyClause .left "b" "c"] = .ok output ∧
      output.order = [2, 1, 0] ∧
      Covering [keyTable "a" [1, 2], keyTable "b" [1, 3], keyTable "c" [3]]
        [keyClause .inner "a" "b", keyClause .left "b" "c"] output) ∧
    joinTables [keyTable "a" [1], keyTable "b" [2]] .never 1 [] =
      .error (.fault (.disconnected ["b"])) ∧
    ¬ (FromEntry.graph
        ([keyTable "a" [1], keyTable "b" [2]].map JoinInput.table) []).Connected := by
  have ran : joinTables [keyTable "a" [1, 2], keyTable "b" [1, 3], keyTable "c" [3]] .never 1
      [keyClause .inner "a" "b", keyClause .left "b" "c"] =
        .ok ⟨[2, 1, 0], [[none, some 0, some 0]]⟩ := by cbv
  have stopped : joinTables [keyTable "a" [1], keyTable "b" [2]] .never 1 [] =
      .error (.fault (.disconnected ["b"])) := by cbv
  have apart : NamesApart [keyTable "a" [1, 2], keyTable "b" [1, 3], keyTable "c" [3]] := by
    unfold NamesApart
    decide
  have apart' : NamesApart [keyTable "a" [1], keyTable "b" [2]] := by
    unfold NamesApart
    decide
  obtain ⟨hcovering, -, -⟩ := joinTables_covering apart
    [keyClause .inner "a" "b", keyClause .left "b" "c"] .never 1
  obtain ⟨-, hsplit, -⟩ := joinTables_covering apart' [] .never 1
  exact ⟨⟨_, ran, rfl, hcovering _ ran⟩, stopped, hsplit _ stopped⟩

end JoinInput

end RelQuery
