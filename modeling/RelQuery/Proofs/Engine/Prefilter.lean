import Mathlib
import RelQuery.Proofs.Engine.Gathered

/-!
# Evaluation on a part of a tuple

In prefilter mode an expression is evaluated on the rows that are already there.  Later rows can
only add columns: the row that answers to a name stays the same, so a column that has a value keeps
it, and one that fails still fails.  By induction over the expression this carries over to every
outcome.  A value that was found early is the only one that the whole tuple can give, and an early
failure stays a failure.  Hence a row that a predicate rules out alone stands in no tuple on which
the predicate is TRUE.
-/

namespace RelQuery

namespace Expr

variable {rows rows' more : List LogicalRow} {mode : Coverage}

/-! ## Early failures -/

/-- Both operands of AND and OR have truth values. -/
lemma exists_truth_of_applyOp {op : LogicalOp} {l r value : Value}
    (h : Value.applyOp (.logical op) l r = .ok value) :
    (∃ truth, l.truth? = .ok truth) ∧ ∃ truth, r.truth? = .ok truth := by
  simp only [Value.applyOp] at h
  cases hl : l.truth? with
  | error error => simp [hl] at h
  | ok left =>
    cases hr : r.truth? with
    | error error => simp [hl, hr] at h
    | ok right => exact ⟨⟨left, rfl⟩, right, rfl⟩

/-- An operand with a truth value does not make AND or OR fail, whatever the other one is. -/
lemma exists_decideAlone {op : LogicalOp} {known : Value} {truth : Option Bool}
    (h : known.truth? = .ok truth) : ∃ outcome, decideAlone op known = .ok outcome :=
  ⟨_, by rw [decideAlone, h]; rfl⟩

/-- An operation that succeeds on all operands succeeds where one or both are open. -/
lemma exists_combine {op : BinaryOp} {l r : Outcome} {l' r' : Value} {outcome : Outcome}
    (hl : ∀ v, l = .determined v → l' = v) (hr : ∀ v, r = .determined v → r' = v)
    (h : combine op (.determined l') (.determined r') = .ok outcome) :
    ∃ early, combine op l r = .ok early := by
  obtain ⟨result, happly, -⟩ := Result.map_eq_ok.mp h
  cases l with
  | determined lv =>
    obtain rfl := hl lv rfl
    cases r with
    | determined rv =>
      obtain rfl := hr rv rfl
      exact ⟨outcome, h⟩
    | undetermined =>
      cases op with
      | logical op =>
        obtain ⟨⟨truth, htruth⟩, -⟩ := exists_truth_of_applyOp happly
        exact exists_decideAlone htruth
      | _ => exact ⟨_, rfl⟩
  | undetermined =>
    cases r with
    | determined rv =>
      obtain rfl := hr rv rfl
      cases op with
      | logical op =>
        obtain ⟨-, truth, htruth⟩ := exists_truth_of_applyOp happly
        exact exists_decideAlone htruth
      | _ => exact ⟨_, rfl⟩
    | undetermined => exact ⟨_, rfl⟩

/-- Where an expression has an outcome on all rows, it has one on some of them already. -/
lemma exists_early_of_full {e : Expr}
    (same : ∀ ref ∈ e.columns, ∀ value found,
      columnOutcome mode rows ref = .ok (.determined value) →
      columnOutcome .full rows' ref = .ok found → found = .determined value)
    (found : ∀ ref ∈ e.columns, ∀ whole, columnOutcome .full rows' ref = .ok whole →
      ∃ early, columnOutcome mode rows ref = .ok early) {outcome : Outcome}
    (h : e.evaluate .full rows' = .ok outcome) : ∃ early, e.evaluate mode rows = .ok early := by
  induction e generalizing outcome with
  | literal value label => exact ⟨outcome, h⟩
  | column ref label => exact found ref (by simp [columns]) outcome h
  | binary op left right label ihLeft ihRight =>
    obtain ⟨sameLeft, sameRight⟩ := List.forall_mem_append.mp same
    obtain ⟨foundLeft, foundRight⟩ := List.forall_mem_append.mp found
    obtain ⟨l', r', hleft', hright', hcombine⟩ := evaluate_binary_eq_ok.mp h
    obtain ⟨l', rfl⟩ := determined_of_full hleft'
    obtain ⟨r', rfl⟩ := determined_of_full hright'
    obtain ⟨l, hleft⟩ := ihLeft sameLeft foundLeft hleft'
    obtain ⟨r, hright⟩ := ihRight sameRight foundRight hright'
    have hl : ∀ v, l = .determined v → l' = v := by
      rintro v rfl
      exact Outcome.determined.inj (evaluate_full_of_early sameLeft hleft hleft')
    have hr : ∀ v, r = .determined v → r' = v := by
      rintro v rfl
      exact Outcome.determined.inj (evaluate_full_of_early sameRight hright hright')
    obtain ⟨early, hearly⟩ := exists_combine hl hr hcombine
    exact ⟨early, evaluate_binary_eq_ok.mpr ⟨l, r, hleft, hright, hearly⟩⟩
  | negate operand label ih =>
    rw [columns] at same found
    obtain ⟨o', hoperand', hnegate⟩ := evaluate_negate_eq_ok.mp h
    obtain ⟨o, hoperand⟩ := ih same found hoperand'
    cases o with
    | undetermined => exact ⟨.undetermined, evaluate_negate_eq_ok.mpr ⟨_, hoperand, rfl⟩⟩
    | determined v =>
      obtain rfl := evaluate_full_of_early same hoperand hoperand'
      exact ⟨outcome, evaluate_negate_eq_ok.mpr ⟨_, hoperand, hnegate⟩⟩
  | call f arg label ih =>
    rw [columns] at same found
    obtain ⟨a', harg', hcall⟩ := evaluate_call_eq_ok.mp h
    obtain ⟨a, harg⟩ := ih same found harg'
    cases a with
    | undetermined => exact ⟨.undetermined, evaluate_call_eq_ok.mpr ⟨_, harg, rfl⟩⟩
    | determined v =>
      obtain rfl := evaluate_full_of_early same harg harg'
      exact ⟨outcome, evaluate_call_eq_ok.mpr ⟨_, harg, hcall⟩⟩
  | bareCall f label => exact ⟨outcome, h⟩

/-! ## Longer tuples -/

/-- The row that answers to a name is not moved by rows appended later. -/
lemma findRow?_append {table : String} {row : LogicalRow} (h : findRow? table rows = some row)
    (more : List LogicalRow) : findRow? table (rows ++ more) = some row := by
  unfold findRow? at h ⊢
  rw [List.find?_append, h, Option.some_or]

/-- A column with a value keeps it when rows are appended. -/
lemma columnOutcome_append {ref : ColumnRef} {value : Value} {outcome : Outcome}
    (hearly : columnOutcome mode rows ref = .ok (.determined value))
    (hfull : columnOutcome .full (rows ++ more) ref = .ok outcome) :
    outcome = .determined value := by
  unfold columnOutcome at hearly hfull
  split at hearly
  · rename_i table index htable hindex
    split at hearly
    · rename_i row hrow
      simp only [htable, hindex, findRow?_append hrow] at hfull
      exact Except.ok.inj (hfull.symm.trans hearly)
    · split at hearly <;> simp at hearly
  · simp at hearly

/-- A column that is found in a longer tuple does not fail in the shorter one. -/
lemma exists_columnOutcome_of_append {ref : ColumnRef} {outcome : Outcome}
    (h : columnOutcome .full (rows ++ more) ref = .ok outcome) :
    ∃ early, columnOutcome .prefilter rows ref = .ok early := by
  unfold columnOutcome at h ⊢
  split at h
  · rename_i table index _ _
    cases hrow : findRow? table rows with
    | none => exact ⟨.undetermined, rfl⟩
    | some row =>
      rw [findRow?_append hrow] at h
      exact ⟨outcome, h⟩
  · simp at h

/-- What the first rows of a tuple decide, the tuple decides alike, or it fails. -/
lemma evaluate_append {e : Expr} {value : Value} {outcome : Outcome}
    (hearly : e.evaluate .prefilter rows = .ok (.determined value))
    (hfull : e.evaluate .full (rows ++ more) = .ok outcome) : outcome = .determined value :=
  evaluate_full_of_early (fun _ _ _ _ => columnOutcome_append) hearly hfull

/-- What fails on the first rows of a tuple fails on the tuple. -/
lemma exists_error_append {e : Expr} {error : Error}
    (hearly : e.evaluate .prefilter rows = .error error) :
    ∃ error, e.evaluate .full (rows ++ more) = .error error := by
  cases hfull : e.evaluate .full (rows ++ more) with
  | error error => exact ⟨error, rfl⟩
  | ok outcome =>
    obtain ⟨early, hok⟩ := exists_early_of_full (fun _ _ _ _ => columnOutcome_append)
      (fun _ _ _ => exists_columnOutcome_of_append) hfull
    rw [hearly] at hok
    simp at hok

/-! ## Rows that are ruled out -/

/-- The only row of its name answers to the name wherever it stands. -/
lemma findRow?_of_only {table : String} {row : LogicalRow} (hmem : row ∈ rows)
    (hname : Name.same row.tableName table = true)
    (only : ∀ other ∈ rows, Name.same other.tableName row.tableName = true → other = row) :
    findRow? table rows = some row := by
  unfold findRow?
  cases hfound : rows.find? fun other => Name.same other.tableName table with
  | none => exact absurd hname (List.find?_eq_none.mp hfound row hmem)
  | some other =>
    have hother := List.find?_some hfound
    rw [only other (List.mem_of_find?_eq_some hfound)
      (Name.same_trans hother (by rwa [Name.same_comm]))]

/-- What a row alone shows of a column, it shows in every tuple in which it is the only row of its
name. -/
lemma columnOutcome_of_only {row : LogicalRow} (hmem : row ∈ rows)
    (only : ∀ other ∈ rows, Name.same other.tableName row.tableName = true → other = row)
    {ref : ColumnRef} {value : Value} {outcome : Outcome}
    (halone : columnOutcome mode [row] ref = .ok (.determined value))
    (hfull : columnOutcome .full rows ref = .ok outcome) : outcome = .determined value := by
  unfold columnOutcome at halone hfull
  split at halone
  · rename_i table index htable hindex
    split at halone
    · rename_i found hfound
      unfold findRow? at hfound
      obtain rfl : found = row := by simpa using List.mem_of_find?_eq_some hfound
      have hname : Name.same found.tableName table = true := by simpa using List.find?_some hfound
      simp only [htable, hindex, findRow?_of_only hmem hname only] at hfull
      exact Except.ok.inj (hfull.symm.trans halone)
    · split at halone <;> simp at halone
  · simp at halone

/-- A row that a predicate rules out alone stands in no tuple on which the predicate is TRUE. -/
lemma not_true_of_ruled_out {e : Expr} {row : StoredRow} (h : Store.survives e row = .ok false)
    (hmem : .stored row ∈ rows)
    (only : ∀ other ∈ rows, Name.same other.tableName row.table = true → other = .stored row) :
    e.evaluate .full rows ≠ .ok (.determined (.boolean true)) := by
  intro htrue
  unfold Store.survives at h
  split at h
  · simp at h
  · rename_i value hvalue
    have hsame := evaluate_full_of_early
      (fun _ _ _ _ => columnOutcome_of_only hmem only) hvalue htrue
    rw [← Outcome.determined.inj hsame] at h
    simp [Value.isTrue, Value.truth?, Except.map] at h
  · simp at h

end Expr

/-- A scanned row without a candidate was ruled out. -/
lemma Store.ruled_out_of_no_candidate {s : Store} {table : FromEntry} {columns : List ColumnRef}
    {e : Expr} {scanned : List StoredRow} {kept : List Candidate} {row : StoredRow}
    (hscan : s.scan table = .ok scanned) (hrow : row ∈ scanned)
    (hkept : s.survivors table columns (some e) = .ok kept)
    (hgone : ∀ candidate ∈ kept, candidate.id ≠ row.id) : Store.survives e row = .ok false := by
  rw [survivors, hscan] at hkept
  obtain ⟨hdecided, hcut⟩ := candidates_eq_ok hkept
  obtain ⟨passed, hpassed⟩ := hdecided row hrow
  cases passed with
  | false => exact hpassed
  | true =>
    have hmem : row ∈ scanned.filter fun row => Result.holds (passes (some e) row) :=
      List.mem_filter.mpr ⟨hrow, by rw [hpassed, Result.holds_ok]⟩
    obtain ⟨candidate, hcandidate, hok⟩ := ok_of_mem_of_mapM (mapM_eq_ok.mpr hcut) hmem
    obtain ⟨values, -, rfl⟩ := Result.map_eq_ok.mp hok
    exact absurd rfl (hgone _ hcandidate)

/-- Evaluation in prefilter mode on the first rows of a tuple is sound for the tuple: a value stays
or the tuple fails, and a failure stays a failure.  So a row of a table that the predicate removes
before the join is in no tuple of differently named rows on which the predicate is TRUE. -/
theorem Expr.evaluate_prefilter_sound (e : Expr) :
    (∀ (rows more : List LogicalRow) (value : Value),
        e.evaluate .prefilter rows = .ok (.determined value) →
          e.evaluate .full (rows ++ more) = .ok (.determined value) ∨
            ∃ error, e.evaluate .full (rows ++ more) = .error error) ∧
      (∀ (rows more : List LogicalRow) (error : Error),
        e.evaluate .prefilter rows = .error error →
          ∃ error, e.evaluate .full (rows ++ more) = .error error) ∧
      ∀ (s : Store) (table : FromEntry) (columns : List ColumnRef) (scanned : List StoredRow)
        (kept : List Candidate) (row : StoredRow), s.scan table = .ok scanned → row ∈ scanned →
        s.survivors table columns (some e) = .ok kept →
        (∀ candidate ∈ kept, candidate.id ≠ row.id) →
        ∀ rows : List LogicalRow, .stored row ∈ rows →
          (∀ other ∈ rows, Name.same other.tableName row.table = true → other = .stored row) →
          e.evaluate .full rows ≠ .ok (.determined (.boolean true)) := by
  refine ⟨fun rows more value hearly => ?_, fun rows more error => exists_error_append, ?_⟩
  · cases hfull : e.evaluate .full (rows ++ more) with
    | error error => exact Or.inr ⟨error, rfl⟩
    | ok outcome => exact Or.inl (congrArg _ (evaluate_append hearly hfull))
  · intro s table columns scanned kept row hscan hrow hkept hgone rows hmem only
    exact not_true_of_ruled_out (Store.ruled_out_of_no_candidate hscan hrow hkept hgone) hmem only

/-- With `3 < t.a AND u.b = 2`, the row of `t` with 1 is ruled out alone and with any row of `u`,
and a text in the place of `t.a` makes both evaluations fail. -/
theorem Expr.evaluate_prefilter_sound_conjunction :
    ∃ (e : Expr) (s : Store) (row text other : StoredRow) (kept : List Candidate),
      row.values = [.integer 1] ∧ text.values = [.text "x"] ∧ other.values = [.integer 2] ∧
      e.evaluate .prefilter [.stored row] = .ok (.determined (.boolean false)) ∧
      (e.evaluate .full ([.stored row] ++ [.stored other]) = .ok (.determined (.boolean false)) ∨
        ∃ error, e.evaluate .full ([.stored row] ++ [.stored other]) = .error error) ∧
      (∃ error, e.evaluate .full ([.stored text] ++ [.stored other]) = .error error) ∧
      s.survivors ⟨"t", none⟩ [] (some e) = .ok kept ∧ kept.map Candidate.id = [2] ∧
      e.evaluate .full [.stored other, .stored row] ≠ .ok (.determined (.boolean true)) := by
  let e : Expr := .binary (.logical .and)
    (.binary (.comparison .lt) (.literal (.integer 3) none)
      (.column ⟨"a", some "t", some .integer, some 0⟩ none) none)
    (.binary (.comparison .eq) (.column ⟨"b", some "u", some .integer, some 0⟩ none)
      (.literal (.integer 2) none) none) none
  let s : Store := ⟨[.ofIntegers "t" ["a"] [[1], [5]]]⟩
  let row : StoredRow := ⟨"t", 1, [.integer 1]⟩
  let text : StoredRow := ⟨"t", 1, [.text "x"]⟩
  let other : StoredRow := ⟨"u", 1, [.integer 2]⟩
  obtain ⟨values, errors, ruledOut⟩ := evaluate_prefilter_sound e
  have hrow : e.evaluate .prefilter [.stored row] = .ok (.determined (.boolean false)) := by cbv
  have htext : ∃ error, e.evaluate .prefilter [.stored text] = .error error := ⟨_, by cbv⟩
  have hkept : s.survivors ⟨"t", none⟩ [] (some e) = .ok [⟨2, []⟩] := by cbv
  have hscan : s.scan ⟨"t", none⟩ = .ok [row, ⟨"t", 2, [.integer 5]⟩] := by cbv
  obtain ⟨error, herror⟩ := htext
  refine ⟨e, s, row, text, other, [⟨2, []⟩], rfl, rfl, rfl, hrow, values _ _ _ hrow,
    errors _ _ _ herror, hkept, rfl, ?_⟩
  refine ruledOut s _ [] _ _ row hscan (by simp) hkept (by decide) _ (by simp) ?_
  rintro found hfound hname
  rcases List.mem_cons.mp hfound with rfl | hfound
  · exact absurd hname (by decide)
  · exact List.mem_singleton.mp hfound

end RelQuery
