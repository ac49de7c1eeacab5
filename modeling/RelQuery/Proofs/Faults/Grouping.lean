import Mathlib.Data.List.SplitBy
import RelQuery.Engine.Run
import RelQuery.Proofs.Codec.RoundTrip
import RelQuery.Proofs.Faults.Planning

/-!
# Groups are folded without faults

Projected rows have one value for every member.  Grouping keeps that width, so that the keys and the
references of HAVING stay inside the rows, and folding members is work on values only.  What remains
is the record of a row under which duplicates are found: it cannot be written where a text is too
long.
-/

namespace RelQuery

open Result

/-! ## Folding -/

namespace MemberFold

/-- A value is accumulated without faults. -/
lemma faultless_accumulate (f : Aggregate) (so value : Value) :
    (accumulate f so value).Faultless := by
  have term (sum term : Value) : (addTerm sum term).Faultless := by
    unfold addTerm
    split
    · trivial
    · exact (Value.operandsOnly_applyOp _ _ _).faultless
  have extreme (wanted : Ordering) : (pickExtreme wanted so value).Faultless := by
    unfold pickExtreme
    split
    · trivial
    · exact (Value.operandsOnly_compare? _ _).faultless.faultless_map _
  cases f with
  | count => trivial
  | sum =>
    dsimp only [accumulate]
    split
    · exact term _ _
    · rfl
  | avg =>
    dsimp only [accumulate]
    split
    · exact (Value.operandsOnly_convert _ _).faultless.bind fun converted _ _ => term _ _
    · rfl
  | min => exact extreme _
  | max => exact extreme _

/-- A row is added to the states of all members without faults. -/
lemma gives_stepRow (first : Bool) (accs : List MemberFold) (row : Row) :
    (stepRow first accs row).Gives fun stepped => stepped.length = accs.length := by
  have hstep (acc : MemberFold) (value : Value) : (acc.step first value).Faultless := by
    unfold step
    split
    · trivial
    · split
      · trivial
      · exact (faultless_accumulate _ _ _).faultless_map _
  induction accs generalizing row with
  | nil => rfl
  | cons acc accs ih =>
    cases row with
    | nil => rfl
    | cons value values =>
      rw [stepRow]
      refine (hstep acc value).bind fun acc' _ _ => ?_
      refine (ih values).bind fun accs' _ hlength => ?_
      exact congrArg (· + 1) hlength

/-- A member is closed without faults. -/
lemma faultless_close (rows : Nat) (acc : MemberFold) : (acc.close rows).Faultless := by
  unfold close
  split
  · -- the number stays abstract, or its bounds would be computed
    unfold countOf
    generalize (rows : Int) = n
    exact (Value.operandsOnly_checked _ n).faultless
  · exact (Value.operandsOnly_applyOp _ _ _).faultless
  · trivial

end MemberFold

/-- A group is folded to one value for every member. -/
lemma gives_foldGroup {aggregates : List (Option Aggregate)} {group : List Row} (h : group ≠ []) :
    (foldGroup aggregates group).Gives fun row => row.length = aggregates.length := by
  cases group with
  | nil => exact absurd rfl h
  | cons first rest =>
    refine (MemberFold.gives_stepRow true _ first).bind fun start _ hstart => ?_
    have folded : (rest.foldlM (MemberFold.stepRow false) start).Gives
        fun accs => accs.length = aggregates.length := by
      refine gives_foldlM (by rw [hstart, List.length_map]) fun accs haccs row _ => ?_
      exact (MemberFold.gives_stepRow false accs row).imp fun _ _ hlength => hlength.trans haccs
    refine folded.bind fun accs _ haccs => ?_
    have closed : (accs.mapM (MemberFold.close (rest.length + 1))).Gives fun row =>
        row.length = accs.length ∧ ∀ value ∈ row, True :=
      gives_mapM fun acc _ => MemberFold.faultless_close _ acc
    exact closed.imp fun row _ hrow => hrow.1.trans haccs

/-- Rows of the width of the projection are grouped without faults, and keep their width. -/
lemma gives_foldByKeys {projection : Projection} {keys : List Nat} {watch : Watch} {rows : List Row}
    (hrows : ∀ row ∈ rows, row.length = projection.length)
    (hkeys : ∀ key ∈ keys, key < projection.length) :
    (foldByKeys projection keys watch rows).Gives fun grouped =>
      ∀ row ∈ grouped, row.length = projection.length := by
  have hshape : (checkShape projection.length keys rows).Faultless := by
    have hwidth : rows.find? (·.length != projection.length) = none :=
      List.find?_eq_none.mpr fun row hrow => by simp [hrows row hrow]
    have hinside : keys.any (projection.length ≤ ·) = false :=
      List.any_eq_false.mpr fun key hkey => by simp [hkeys key hkey]
    unfold checkShape
    simp only [hwidth, hinside]
    trivial
  unfold foldByKeys
  dsimp only
  split
  · split
    · intro row hrow
      rw [List.mem_singleton.mp hrow, emptyGroup, List.length_map, projection.length_aggregates]
    · simp
  · refine hshape.bind fun _ _ _ => (faultless_poll watch _).bind fun _ _ _ => ?_
    have groups : (foldGroups watch projection.aggregates
        ((sortByKeys keys rows).splitBy (agreeOn keys))).Gives fun grouped =>
          grouped.length = (((sortByKeys keys rows).splitBy (agreeOn keys)).zipIdx).length ∧
            ∀ row ∈ grouped, row.length = projection.length := by
      refine gives_mapM fun group hgroup => ?_
      have hnonempty : group.1 ≠ [] :=
        List.ne_nil_of_mem_splitBy (List.fst_mem_of_mem_zipIdx hgroup)
      refine (gives_foldGroup hnonempty).bind fun row _ hrow => ?_
      exact (faultless_poll watch _).bind fun _ _ _ => hrow.trans projection.length_aggregates
    exact groups.imp fun _ _ hgrouped => hgrouped.2

/-! ## HAVING -/

/-- A predicate over groups is evaluated without faults on rows as wide as it refers to. -/
lemma faultless_keepGroups {predicate : Expr} {rows : List Row} {width : Nat}
    (hrows : ∀ row ∈ rows, row.length = width)
    (hrefs : ∀ ref ∈ predicate.columns, RefersBelow width ref) :
    (keepGroups predicate rows).Faultless := by
  have accepts (row : Row) (hrow : row.length = width) (position : Nat) :
      (acceptsGroup predicate row position).Faultless := by
    have hevaluate : (predicate.evaluate .full [.projected position row]).Faultless := by
      refine Expr.faultless_evaluate fun ref href => ?_
      obtain ⟨index, hlt, name, rfl⟩ := hrefs ref href
      have hvalue : index < row.length := by rwa [hrow]
      simp only [Expr.columnOutcome, ColumnRef.toProjection, Expr.findRow?, List.find?_cons,
        LogicalRow.tableName, Name.same_refl, LogicalRow.valueOf, Row.at,
        List.getElem?_eq_getElem hvalue]
      trivial
    unfold acceptsGroup
    split
    · rename_i error herror
      exact hevaluate.of_error herror
    · exact (Value.operandsOnly_isTrue _).faultless
    · rename_i hundetermined
      obtain ⟨value, hvalue⟩ := Expr.determined_of_full hundetermined
      simp at hvalue
  have from_ (first : Nat) : (keepGroupsFrom predicate first rows).Faultless := by
    induction rows generalizing first with
    | nil => trivial
    | cons row rest ih =>
      have hrow := accepts row (hrows row List.mem_cons_self) first
      rw [keepGroupsFrom]
      split
      · rename_i error herror
        exact hrow.of_error herror
      · exact (ih (fun row' hrow' => hrows row' (List.mem_cons_of_mem _ hrow')) _).faultless_map _
  exact from_ 0

/-- Rows as wide as the projection are grouped without faults. -/
lemma Plan.faultless_group {plan : Plan} {watch : Watch} {rows : List Row}
    (hrows : ∀ row ∈ rows, row.length = plan.projection.length)
    (hkeys : ∀ key ∈ plan.keys, key < plan.projection.length)
    (hhaving : ∀ predicate, plan.having = some predicate →
      ∀ ref ∈ predicate.columns, RefersBelow plan.projection.length ref) :
    (plan.group watch rows).Faultless := by
  unfold group
  split
  · refine (gives_foldByKeys hrows hkeys).bind fun grouped _ hgrouped => ?_
    split
    · rename_i predicate hpredicate
      exact faultless_keepGroups hgrouped (hhaving predicate hpredicate)
    · trivial
  · trivial

/-! ## Records of rows -/

/-- All texts of the row are shorter than 4 GiB. -/
def Row.ShortTexts (row : Row) : Prop :=
  ∀ text, .text text ∈ row → (utf8 text).length < 0x100000000

/-- A row has a record when its texts are short. -/
lemma fault_writeRow_eq_none {row : Row} : (writeRow row).fault = none ↔ row.ShortTexts := by
  induction row with
  | nil => simp [writeRow, Row.ShortTexts]
  | cons value rest ih =>
    have hvalue : value.encode.fault = none ↔
        ∀ text, .text text = value → (utf8 text).length < 0x100000000 := by
      rw [Value.fault_encode_eq_none]
      cases value <;> simp [Value.texts]
    rw [writeRow, Written.fault_append_eq_none, ih, hvalue]
    simp only [Row.ShortTexts, List.mem_cons, or_imp, forall_and]

/-- A row has a key when its texts are short. -/
lemma exists_rowKey_iff {row : Row} : (∃ key, rowKey row = .ok key) ↔ row.ShortTexts := by
  rw [← fault_writeRow_eq_none, ← Written.exists_complete_iff]
  cases h : (writeRow row).complete <;> simp [rowKey, h, Except.mapError]

/-- Duplicates among rows of short texts are removed without faults. -/
lemma faultless_distinctRows {rows : List Row} (short : ∀ row ∈ rows, row.ShortTexts) :
    (distinctRows rows).Faultless := by
  refine Gives.faultless_map (gives_mapM (R := fun _ => True) fun row hrow => ?_) _
  obtain ⟨key, hkey⟩ := exists_rowKey_iff.mpr (short row hrow)
  rw [keyed, hkey]
  trivial

end RelQuery
