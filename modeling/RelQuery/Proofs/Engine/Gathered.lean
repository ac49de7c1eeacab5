import RelQuery.Proofs.Engine.Planned
import RelQuery.Proofs.Engine.Stored
import RelQuery.Proofs.Join.Embedding
import RelQuery.Proofs.Join.Walked

/-!
# Candidates stand for stored rows

The candidates of a table are those of its stored rows that an early predicate does not rule out,
cut to the columns that the conditions of the plan read.  No condition notices the cut, so the
candidates lie inside the stored rows as row spaces, and a table without early predicate misses no
row.

The early predicate of an entry is a parameter here: the engine gives one to some entries and none
to others.
-/

namespace RelQuery

/-! ## Kept rows -/

namespace Store

/-- The predicate does not rule the row out, where no predicate rules out nothing. -/
def passes (predicate : Option Expr) (row : StoredRow) : Result Bool :=
  match predicate with
  | some predicate => survives predicate row
  | none => .ok true

/-- The rows of an entry that a predicate does not rule out. -/
def kept (s : Store) (predicate : Option Expr) (entry : FromEntry) : List (Nat × Row) :=
  (s.rowsOf entry).filter fun row => Result.holds (passes predicate (entry.named row))

/-- Without a predicate all rows are kept. -/
@[simp] lemma kept_none (s : Store) (entry : FromEntry) : s.kept none entry = s.rowsOf entry :=
  List.filter_eq_self.mpr fun _ _ => rfl

/-- A row is tested before those after it. -/
lemma candidates_cons (columns : List ColumnRef) (predicate : Option Expr) (row : StoredRow)
    (rest : List StoredRow) :
    candidates columns predicate (row :: rest) = (do
      if ← passes predicate row then
        let first ← cut columns row
        let others ← candidates columns predicate rest
        return first :: others
      else candidates columns predicate rest) := by
  cases predicate <;> rfl

/-- The candidates among some rows are the kept ones, each cut to the columns. -/
lemma candidates_eq_ok {columns : List ColumnRef} {predicate : Option Expr} {rows : List StoredRow}
    {found : List Candidate} (h : candidates columns predicate rows = .ok found) :
    (∀ row ∈ rows, ∃ passed, passes predicate row = .ok passed) ∧
      List.Forall₂ (fun row candidate => cut columns row = .ok candidate)
        (rows.filter fun row => Result.holds (passes predicate row)) found := by
  induction rows generalizing found with
  | nil =>
    obtain rfl := Except.ok.inj h
    exact ⟨by simp, List.Forall₂.nil⟩
  | cons row rest ih =>
    rw [candidates_cons] at h
    obtain ⟨passed, hpassed, h⟩ := Result.bind_eq_ok.mp h
    split at h
    · rename_i hkept
      obtain ⟨first, hfirst, h⟩ := Result.bind_eq_ok.mp h
      obtain ⟨others, hothers, h⟩ := Result.bind_eq_ok.mp h
      obtain rfl := Result.pure_eq_ok.mp h
      obtain ⟨hall, hrest⟩ := ih hothers
      refine ⟨List.forall_mem_cons.mpr ⟨⟨passed, hpassed⟩, hall⟩, ?_⟩
      rw [List.filter_cons_of_pos (by rw [hpassed, hkept, Result.holds_ok])]
      exact List.Forall₂.cons hfirst hrest
    · rename_i hdropped
      obtain ⟨hall, hrest⟩ := ih h
      refine ⟨List.forall_mem_cons.mpr ⟨⟨passed, hpassed⟩, hall⟩, ?_⟩
      rw [List.filter_cons_of_neg (by rw [hpassed, Result.holds_ok]; exact hdropped)]
      exact hrest

end Store

/-! ## Gathered candidates -/

/-- The join input stands for the kept rows of the entry, cut to the columns. -/
structure JoinInput.Gathers (s : Store) (columns : List ColumnRef) (predicate : Option Expr)
    (entry : FromEntry) (t : JoinInput) : Prop where
  table : t.table = entry
  carried : t.columns = columns
  decided : ∀ row ∈ s.rowsOf entry, ∃ passed, Store.passes predicate (entry.named row) = .ok passed
  rows : List.Forall₂ (fun row candidate => Store.cut columns (entry.named row) = .ok candidate)
    (s.kept predicate entry) t.rows

/-- The survivors of an entry stand for its kept rows. -/
lemma Store.gathers_of_survivors {s : Store} {columns : List ColumnRef} {predicate : Option Expr}
    {entry : FromEntry} {found : List Candidate}
    (h : s.survivors entry columns predicate = .ok found) :
    JoinInput.Gathers s columns predicate entry ⟨entry, columns, found⟩ := by
  obtain ⟨scanned, hscan, h⟩ := Result.bind_eq_ok'.mp h
  obtain ⟨t, ht, rfl⟩ := Result.map_eq_ok.mp hscan
  obtain ⟨hall, hrows⟩ := candidates_eq_ok h
  replace hall : ∀ row ∈ t.rows.map entry.named, ∃ passed, passes predicate row = .ok passed := hall
  replace hrows : List.Forall₂ (fun row candidate => cut columns row = .ok candidate)
    ((t.rows.map entry.named).filter fun row => Result.holds (passes predicate row)) found := hrows
  rw [List.filter_map, List.forall₂_map_left_iff] at hrows
  have hrowsOf := Store.rowsOf_eq ht
  refine ⟨rfl, rfl, fun row hrow => ?_, ?_⟩
  · rw [hrowsOf] at hrow
    exact hall _ (List.mem_map.mpr ⟨row, hrow, rfl⟩)
  · rw [kept, hrowsOf]
    exact hrows

namespace Plan

/-- The join inputs stand for the kept rows of the entries of the plan, in their order. -/
def Gathered (s : Store) (plan : Plan) (early : FromEntry → Option Expr) (inputs : List JoinInput) :
    Prop :=
  List.Forall₂ (fun b t => JoinInput.Gathers s (plan.carriedColumns b) (early b.table) b.table t)
    plan.tables inputs

/-- All tables with the rows that the given early predicates do not rule out. -/
def candidatesWith (early : FromEntry → Option Expr) (catalog : Catalog) (watch : Watch)
    (plan : Plan) : Result (List JoinInput) :=
  plan.tables.zipIdx.mapM fun (table, index) => do
    let columns := plan.carriedColumns table
    let found ← ((catalog.survivors table.table columns (early table.table)).inPlace
      (.table table.table)).map fun rows => ⟨table.table, columns, rows⟩
    watch.poll (.filtered index)
    return found

/-- The candidates of the engine are those left by its own early predicates. -/
lemma candidates_eq_candidatesWith (catalog : Catalog) (watch : Watch) (plan : Plan) :
    plan.candidates catalog watch = plan.candidatesWith plan.earlyPredicate catalog watch := rfl

/-- Candidates stand for the rows that the early predicates keep. -/
lemma gathered_of_candidatesWith {s : Store} {watch : Watch} {plan : Plan}
    {early : FromEntry → Option Expr} {inputs : List JoinInput}
    (h : plan.candidatesWith early s.catalog watch = .ok inputs) :
    plan.Gathered s early inputs := by
  have hmap : (plan.tables.mapM fun b =>
      ((s.catalog.survivors b.table (plan.carriedColumns b) (early b.table)).inPlace
        (.table b.table)).map fun rows => JoinInput.mk b.table (plan.carriedColumns b) rows) =
      .ok inputs := by
    refine mapM_of_zipIdx h fun table index found hfound => ?_
    obtain ⟨gathered, hgathered, hfound⟩ := Result.bind_eq_ok.mp hfound
    obtain ⟨_, -, hfound⟩ := Result.bind_eq_ok.mp hfound
    rwa [← Result.pure_eq_ok.mp hfound]
  refine List.Forall₂.imp (fun b t ht => ?_) (mapM_eq_ok.mp hmap)
  obtain ⟨found, hfound, rfl⟩ := Result.map_eq_ok.mp ht
  exact Store.gathers_of_survivors (Result.inPlace_eq_ok.mp hfound)

/-- The candidates of a plan stand for the rows that its early predicates keep. -/
lemma gathered_of_candidates {s : Store} {watch : Watch} {plan : Plan} {inputs : List JoinInput}
    (h : plan.candidates s.catalog watch = .ok inputs) :
    plan.Gathered s plan.earlyPredicate inputs :=
  gathered_of_candidatesWith h

end Plan

end RelQuery
