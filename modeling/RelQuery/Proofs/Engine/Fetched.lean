import RelQuery.Proofs.Engine.Reference
import RelQuery.Proofs.Faults.Reading

/-!
# Joined rows and fetched rows

A joined tuple is read in two ways.  WHERE and the join conditions see the candidates in its slots,
which carry some columns of their tables and are searched by name.  The members are computed on the
stored rows behind the slots, which are fetched by their ids and read by position.  Slot by slot the
two rows go under one name, and they give one value to every column of a condition that is qualified
by this name.  So the conditions have one outcome on both.
-/

namespace RelQuery

namespace Plan

variable {s : Store} {plan : Plan} {early : FromEntry → Option Expr} {inputs : List JoinInput}
  {order : List Nat} {tuple : Tuple}

/-- The candidate in a slot, or padding. -/
def carriedRow (inputs : List JoinInput) (slot : Nat × Option Nat) : LogicalRow :=
  (JoinInput.atPosition inputs slot.1).chosenRow slot.2

/-- The stored row behind a slot, or padding. -/
def storedRow (s : Store) (plan : Plan) (early : FromEntry → Option Expr)
    (slot : Nat × Option Nat) : LogicalRow :=
  (FromEntry.atPosition plan.entries slot.1).shown (slot.2.map (behind s plan early slot.1))

section Tuple

variable (h : plan.Gathered s early inputs) (bound : plan.Bound s) (sound : s.Sound)
  (inside : ∀ position ∈ order, position < inputs.length)
  (fits : JoinInput.FitsOrder inputs order tuple)
include h bound inside fits

/-- A condition has one outcome on the candidates of a tuple and on the rows behind them. -/
lemma evaluate_carried_eq {e : Expr} (he : e ∈ plan.conditions) (mode : Coverage) :
    e.evaluate mode ((order.zip tuple).map (carriedRow inputs)) =
      e.evaluate mode ((order.zip tuple).map (storedRow s plan early)) := by
  apply Expr.evaluate_congr
  intro ref href
  apply Expr.columnOutcome_congr
  · intro slot _
    exact h.tableName_eq slot.1 slot.2
  · intro slot hslot hname
    have hposition := inside slot.1 (List.of_mem_zip hslot).1
    rw [carriedRow, h.tableName_eq slot.1 slot.2, FromEntry.tableName_shown] at hname
    exact h.valueOf_chosenRow bound hposition (fits.holdsRow hslot) he href hname

include sound

/-- The rows behind a tuple are fetched. -/
lemma fetchTuple_eq : fetchTuple s.catalog inputs order tuple =
    .ok ((order.zip tuple).map (storedRow s plan early)) := by
  apply mapM_eq_ok_map
  intro slot hslot
  have hposition := inside slot.1 (List.of_mem_zip hslot).1
  exact h.fetch_eq bound sound hposition (fits.holdsRow hslot)

/-- A condition breaks no contract on the rows behind a tuple. -/
lemma faultless_evaluate_stored {e : Expr} (he : e ∈ plan.conditions) (mode : Coverage) :
    (e.evaluate mode ((order.zip tuple).map (storedRow s plan early))).Faultless := by
  apply bound.faultless_evaluate sound (bound.resolved e he)
  intro row hrow
  obtain ⟨slot, hslot, rfl⟩ := List.mem_map.mp hrow
  have hposition := inside slot.1 (List.of_mem_zip hslot).1
  have hfetch := h.fetch_eq bound sound hposition (fits.holdsRow hslot)
  exact (h.gives_fetch bound sound hposition (fits.holdsRow hslot)).of_ok hfetch

end Tuple

end Plan

/-- On every tuple of a join, WHERE and the join conditions have one outcome on the candidates and
on the stored rows behind them.  In particular the candidates carry every column that they read. -/
theorem Query.evaluate_joined_eq_fetched {s : Store} (reachable : s.Reachable) {query : Query}
    (checked : query.checkEntries = .ok ()) {plan : Plan} (hplan : query.plan s.catalog = .ok plan)
    {watch : Watch} {inputs : List JoinInput}
    (hinputs : plan.candidates s.catalog watch = .ok inputs) {interval : Nat}
    {output : JoinedTuples} (hjoin : joinTables inputs watch interval plan.joins = .ok output)
    {tuple : Tuple} (htuple : tuple ∈ output.tuples) {e : Expr} (he : e ∈ plan.conditions) :
    ∃ joined fetched, JoinInput.rowsOf inputs output.order tuple = .ok joined ∧
      Plan.fetchTuple s.catalog inputs output.order tuple = .ok fetched ∧
        e.evaluate .full joined = e.evaluate .full fetched ∧
          ∀ fault, e.evaluate .full joined ≠ .error (.fault fault) := by
  have bound : plan.Bound s := Plan.bound_of_planned checked (planned_of_plan hplan)
  have gathered := Plan.gathered_of_candidates hinputs
  have complete := JoinInput.complete_of_joinTables hjoin
  have inside := complete.inside
  have fits := complete.fits tuple htuple
  have hfetched := Plan.fetchTuple_eq gathered bound reachable.sound inside fits
  have hsame := Plan.evaluate_carried_eq gathered bound inside fits he .full
  have faultless :=
    Plan.faultless_evaluate_stored gathered bound reachable.sound inside fits he .full
  rw [← hsame] at faultless
  refine ⟨_, _, fits.rowsOf_zip, hfetched, hsame, ?_⟩
  intro fault
  exact faultless.ne_error rfl

/-- A table joined with itself under the names `L` and `r`: WHERE reads a column of the padding of
a row without partner. -/
theorem Query.evaluate_joined_eq_fetched_padding : ∃ (s : Store) (query : Query) (plan : Plan)
    (inputs : List JoinInput) (e : Expr) (joined fetched : List LogicalRow),
    s.Reachable ∧ query.plan s.catalog = .ok plan ∧
      plan.candidates s.catalog .never = .ok inputs ∧
      joinTables inputs .never 1 plan.joins = .ok ⟨[0, 1], [[some 0, some 1], [some 1, none]]⟩ ∧
      plan.selection = some e ∧
      JoinInput.rowsOf inputs [0, 1] [some 1, none] = .ok joined ∧
      Plan.fetchTuple s.catalog inputs [0, 1] [some 1, none] = .ok fetched ∧
      e.evaluate .full joined = e.evaluate .full fetched := by
  let table : StoredTable := .ofIntegers "t" ["k", "v", "x"] [[1, 2, 7], [2, 9, 8]]
  let s : Store := ⟨[table]⟩
  let left : BoundEntry := ⟨⟨"t", some "L"⟩, table.definition⟩
  let right : BoundEntry := ⟨⟨"t", some "r"⟩, table.definition⟩
  let clause (on : Expr) : JoinClause := ⟨left.table, right.table, .left, some on⟩
  let isNull (e : Expr) : Expr := .binary .is e (.literal .null none) none
  let query : Query := {
    Query.selecting [.written "R" "X"] [] [clause (.equates (.written "l" "V") (.written "R" "k"))]
      (some (isNull (.written "R" "X"))) with
    tables := [left.table, right.table] }
  let k : Expr := .column (.declared right 0 ⟨"k", .integer⟩) none
  let v : Expr := .column (.declared left 1 ⟨"v", .integer⟩) none
  let x : Expr := .column (.declared right 2 ⟨"x", .integer⟩) none
  let plan : Plan := {
    tables := [left, right]
    projection := ⟨[x], []⟩
    distinct := false
    selection := some (isNull x)
    joins := [clause (.equates v k)]
    grouped := false
    keys := []
    having := none
    sortKeys := [] }
  let inputs : List JoinInput := [
    ⟨left.table, [.declared left 1 ⟨"v", .integer⟩],
      [⟨1, [.integer 2]⟩, ⟨2, [.integer 9]⟩]⟩,
    ⟨right.table, [.declared right 2 ⟨"x", .integer⟩, .declared right 0 ⟨"k", .integer⟩],
      [⟨1, [.integer 7, .integer 1]⟩, ⟨2, [.integer 8, .integer 2]⟩]⟩]
  have reachable : s.Reachable := Store.Reachable.empty.requests
    (Store.Request.fill "t" ["k", "v", "x"] [[1, 2, 7], [2, 9, 8]]) (by cbv)
  have hplan : query.plan s.catalog = .ok plan := by cbv
  have hinputs : plan.candidates s.catalog .never = .ok inputs := by cbv
  have hjoin : joinTables inputs .never 1 plan.joins =
      .ok ⟨[0, 1], [[some 0, some 1], [some 1, none]]⟩ := by cbv
  have checked : query.checkEntries = .ok () := by cbv
  have htuple : [some 1, none] ∈ [[some 0, some 1], [some 1, none]] := by decide
  have hselection : isNull x ∈ plan.conditions := List.mem_cons_self
  obtain ⟨joined, fetched, hjoined, hfetched, hsame, -⟩ :=
    Query.evaluate_joined_eq_fetched reachable checked hplan hinputs hjoin htuple hselection
  exact ⟨s, query, plan, inputs, isNull x, joined, fetched, reachable, hplan, hinputs, hjoin, rfl,
    hjoined, hfetched, hsame⟩

end RelQuery
