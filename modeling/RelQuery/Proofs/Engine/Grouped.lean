import RelQuery.Proofs.Engine.Arranged
import RelQuery.Proofs.Engine.JoinedRows
import RelQuery.Proofs.Group.Meaning

/-!
# Groups of joined rows

The engine groups rows of member values by the key positions.  Read back to the joined rows, a group
is the joined rows on which the GROUP BY expressions have the same values, in their given order, and
the row that is folded from it holds the values of the members over the group.
-/

namespace RelQuery

/-! ## Groups -/

/-- The joined rows on which the expressions have the same values as on the given one. -/
def groupOf (groupBy : List Expr) (joined : List (List LogicalRow)) (row : List LogicalRow) :
    List (List LogicalRow) :=
  joined.filter fun other => groupBy.all fun e => decide
    (Projection.evaluateMember .full row e = Projection.evaluateMember .full other e)

/-- The groups are the joined rows put together by the values of the expressions. -/
structure IsGrouping (groupBy : List Expr) (joined : List (List LogicalRow))
    (groups : List (List (List LogicalRow))) : Prop where
  /-- Every joined row is in one group. -/
  perm : groups.flatten.Perm joined
  /-- No group is empty. -/
  nonempty : ∀ group ∈ groups, group ≠ []
  /-- A group has all rows with the values of any of its rows. -/
  whole : ∀ group ∈ groups, ∀ row ∈ group, group = groupOf groupBy joined row

/-- A grouping may be given in another order. -/
lemma IsGrouping.of_perm {groupBy : List Expr} {joined : List (List LogicalRow)}
    {groups groups' : List (List (List LogicalRow))} (h : IsGrouping groupBy joined groups)
    (hperm : groups'.Perm groups) : IsGrouping groupBy joined groups' where
  perm := hperm.flatten.trans h.perm
  nonempty group hgroup := h.nonempty group (hperm.mem_iff.mp hgroup)
  whole group hgroup := h.whole group (hperm.mem_iff.mp hgroup)

/-- The result is a real. -/
def Result.isReal : Result Value → Bool
  | .ok value => value.isReal
  | .error _ => false

/-- The value of the expression on joined rows, NULL where it has none. -/
def Expr.valueOn (e : Expr) (row : List LogicalRow) : Value :=
  (Projection.evaluateMember .full row e).toOption.getD .null

/-- Grouping goes by the values of the expressions. -/
def groupCriteria (groupBy : List Expr) : List (Criterion (List LogicalRow)) :=
  groupBy.map fun e => ⟨e.valueOn, true⟩

/-- The groups of joined rows in the order of the values of the expressions. -/
def groupsOf (groupBy : List Expr) (joined : List (List LogicalRow)) :
    List (List (List LogicalRow)) :=
  classes (lexOrder (groupCriteria groupBy)) joined

/-- The expressions have values on the joined rows, none of them a real. -/
def ExactOn (groupBy : List Expr) (joined : List (List LogicalRow)) : Prop :=
  ∀ e ∈ groupBy, ∀ row ∈ joined,
    Projection.evaluateMember .full row e = .ok (e.valueOn row) ∧ (e.valueOn row).isReal = false

section Classes

variable {groupBy : List Expr} {joined : List (List LogicalRow)}

/-- Joined rows tie where all expressions have the same values on them. -/
lemma ExactOn.lexOrder_eq_iff (exact : ExactOn groupBy joined) {a b : List LogicalRow}
    (ha : a ∈ joined) (hb : b ∈ joined) :
    lexOrder (groupCriteria groupBy) a b = .eq ↔ ∀ e ∈ groupBy, e.valueOn a = e.valueOn b := by
  have htie : lexOrder (groupCriteria groupBy) a b = .eq ↔
      ∀ c ∈ groupCriteria groupBy, c.value a = c.value b :=
    RelQuery.lexOrder_eq_iff (List.forall_mem_map.mpr fun e he => (exact e he a ha).2)
      (List.forall_mem_map.mpr fun e he => (exact e he b hb).2)
  rw [htie, groupCriteria, List.forall_mem_map]

/-- On the rows of a group an expression has one value. -/
lemma ExactOn.valueOn_eq (exact : ExactOn groupBy joined) {group : List (List LogicalRow)}
    (hgroup : group ∈ groupsOf groupBy joined) {a b : List LogicalRow} (ha : a ∈ group)
    (hb : b ∈ group) {e : Expr} (he : e ∈ groupBy) : e.valueOn a = e.valueOn b :=
  (exact.lexOrder_eq_iff (mem_of_mem_class hgroup ha) (mem_of_mem_class hgroup hb)).mp
    (tie_of_mem_class hgroup ha hb) e he

/-- The classes of joined rows are the groups. -/
theorem ExactOn.isGrouping (exact : ExactOn groupBy joined) :
    IsGrouping groupBy joined (groupsOf groupBy joined) where
  perm := flatten_classes_perm _ joined
  nonempty _ hgroup := List.ne_nil_of_mem_splitBy hgroup
  whole group hgroup row hrow := by
    have hmem := mem_of_mem_class hgroup hrow
    rw [eq_filter_of_mem_class hgroup hrow]
    refine List.filter_congr fun other hother => ?_
    rw [Bool.eq_iff_iff, beq_iff_eq, exact.lexOrder_eq_iff hmem hother, List.all_eq_true]
    refine forall₂_congr fun e he => ?_
    rw [decide_eq_true_iff, (exact e he row hmem).1, (exact e he other hother).1, Except.ok.injEq]

end Classes

/-! ## Rows of members -/

/-- Under grouping only an aggregate at the top of a member is one. -/
lemma Query.GroupedBy.topAggregate {groupBy : List Expr} {e : Expr} (h : GroupedBy groupBy e) :
    e.TopAggregate := by
  rcases h with haggregate | ⟨hplain, -⟩
  · rw [Expr.isPlainAggregate, Bool.and_eq_true] at haggregate
    exact Or.inl haggregate.1
  · exact Or.inr hplain

namespace Plan

/-- The values of the members on the joined rows, which have rows of all tables. -/
structure Projects (plan : Plan) (joined : List (List LogicalRow))
    (values : List LogicalRow → Row) : Prop where
  covered : ∀ row ∈ joined, BoundEntry.Covered plan.tables row
  projected : ∀ row ∈ joined, plan.projection.evaluate .prefilter row = .ok (values row)

section Projects

variable {s : Store} {query : Query} {plan : Plan} {groupBy : List Expr}
  {joined : List (List LogicalRow)} {values : List LogicalRow → Row}

/-- A member has the value at its position on every joined row. -/
lemma Projects.evaluateMember_eq (projects : plan.Projects joined values)
    (resolved : ∀ e ∈ plan.projection.members, e.ResolvedIn plan.tables) {position : Nat}
    {member : Expr} (hmember : plan.projection.members[position]? = some member)
    {row : List LogicalRow} (hrow : row ∈ joined) :
    Projection.evaluateMember .full row member = .ok ((values row).getD position .null) := by
  rw [Projection.evaluateMember_eq_ok, (projects.covered row hrow).evaluate_mode
    (resolved member (List.mem_of_getElem? hmember)) .full .prefilter]
  exact getD_of_evaluate (projects.projected row hrow) hmember

/-- A GROUP BY expression has the value at its key on every joined row. -/
lemma Projects.key_eq (projects : plan.Projects joined values) (bound : plan.Bound s)
    (grouping : Query.Grouping query plan groupBy) {e : Expr} (he : e ∈ groupBy)
    (exact : e.ExactLiterals) {position : Nat} (h : plan.projection.ComputesAt position e)
    {row : List LogicalRow} (hrow : row ∈ joined) :
    Projection.evaluateMember .full row e = .ok ((values row).getD position .null) := by
  obtain ⟨member, hmember, hcomputes⟩ := h
  have hsame := bound.evaluate_eq_of_computes
    (grouping.resolved member (List.mem_of_getElem? hmember)) (grouping.keysResolved e he)
    (Or.inr exact) hcomputes .full row
  rw [Projection.evaluateMember_eq_ok, ← hsame, ← Projection.evaluateMember_eq_ok]
  exact projects.evaluateMember_eq grouping.resolved hmember hrow

/-- The GROUP BY expressions have the values at the keys on every joined row. -/
lemma Projects.keys_eq (projects : plan.Projects joined values) (bound : plan.Bound s)
    (grouping : Query.Grouping query plan groupBy) (exact : ∀ e ∈ groupBy, e.ExactLiterals) :
    List.Forall₂ (fun e position => ∀ row ∈ joined,
      Projection.evaluateMember .full row e = .ok ((values row).getD position .null) ∧
        e.valueOn row = (values row).getD position .null) groupBy plan.keys := by
  have hkeys := (List.forall₂_and_left groupBy plan.keys).mpr
    ⟨fun _ he => he, grouping.keysComputed⟩
  refine hkeys.imp fun e position ⟨he, hcomputes⟩ row hrow => ?_
  have hvalue := projects.key_eq bound grouping he (exact e he) hcomputes hrow
  refine ⟨hvalue, ?_⟩
  rw [Expr.valueOn, hvalue]
  rfl

/-- A member that a GROUP BY expression computes, or that reads no column, has one value on rows on
which the GROUP BY expressions have one. -/
lemma evaluateMember_of_grouped (bound : plan.Bound s)
    (grouping : Query.Grouping query plan groupBy) (exact : ∀ e ∈ groupBy, e.ExactLiterals)
    {e : Expr} (he : e ∈ plan.projection.members)
    (constant : (∃ key ∈ groupBy, Projection.Computes key e) ∨ e.columns = [])
    {row row' : List LogicalRow}
    (same : ∀ key ∈ groupBy,
      Projection.evaluateMember .full row key = Projection.evaluateMember .full row' key)
    {value : Value} (h : Projection.evaluateMember .full row' e = .ok value) :
    Projection.evaluateMember .full row e = .ok value := by
  rw [Projection.evaluateMember_eq_ok] at h ⊢
  rcases constant with ⟨key, hkey, hcomputes⟩ | hcolumns
  · have hvalue (row : List LogicalRow) : e.evaluate .full row = key.evaluate .full row :=
      (bound.evaluate_eq_of_computes (grouping.keysResolved key hkey) (grouping.resolved e he)
        (Or.inl (exact key hkey)) hcomputes .full row).symm
    rw [hvalue, ← Projection.evaluateMember_eq_ok] at h ⊢
    rw [same key hkey, h]
  · rw [Expr.evaluate_congr fun ref href => by simp [hcolumns] at href, h]

/-- The row that is folded from a group stands for it, where the GROUP BY expressions have one value
on the group. -/
theorem Projects.standsFor (projects : plan.Projects joined values) (bound : plan.Bound s)
    (grouping : Query.Grouping query plan groupBy) (hgrouped : query.needsGrouping = true)
    (hhidden : query.projection.hidden = []) (exact : ∀ e ∈ groupBy, e.ExactLiterals)
    {group : List (List LogicalRow)} (inside : ∀ row ∈ group, row ∈ joined) (nonempty : group ≠ [])
    (same : ∀ e ∈ groupBy, ∀ a ∈ group, ∀ b ∈ group, Projection.evaluateMember .full a e =
      Projection.evaluateMember .full b e) {found : Row}
    (h : foldGroup plan.projection.aggregates (group.map values) = .ok found) :
    plan.projection.StandsFor group found := by
  intro row hrow position e he
  have hmem := List.mem_of_getElem? he
  have widths : ∀ row ∈ group.map values, row.length = plan.projection.aggregates.length := by
    intro row hrow
    obtain ⟨source, hsource, rfl⟩ := List.mem_map.mp hrow
    rw [length_of_mapM (projects.projected source (inside source hsource)),
      Projection.aggregates, List.length_map]
  have hposition : plan.projection.aggregates[position]? = some e.aggregate? := by
    rw [Projection.aggregates, List.getElem?_map, he]
    rfl
  obtain ⟨value, hvalue, hfold⟩ :=
    (foldGroup_eq_ok (by simpa using nonempty) widths h).2 position _ hposition
  refine ⟨value, hvalue, ?_⟩
  rw [List.map_map] at hfold
  have hmember := fun row hrow =>
    projects.evaluateMember_eq grouping.resolved he (inside row hrow)
  rcases grouping.members hgrouped hhidden e hmem with haggregate | ⟨hplain, hconstant⟩
  · -- an aggregate is folded from its values on the rows
    rw [Expr.isPlainAggregate, Bool.and_eq_true] at haggregate
    obtain ⟨f, hf⟩ := Option.isSome_iff_exists.mp haggregate.1
    rw [hf] at hfold
    exact Expr.valueOver_of_fold hf hmember hfold row
  · -- any other member has one value on the group, that of the first row
    rw [Expr.valueOver_eq_evaluateMember hplain]
    obtain ⟨first, rest, rfl⟩ := List.exists_cons_of_ne_nil nonempty
    rw [Expr.aggregate?_eq_none hplain, List.map_cons, MemberFold.foldMember_none] at hfold
    obtain rfl := Except.ok.inj hfold
    exact evaluateMember_of_grouped bound grouping exact hmem hconstant
      (fun key hkey => same key hkey row hrow first List.mem_cons_self)
      (hmember first List.mem_cons_self)

/-- A resolved expression has over a group the value of the member that computes it, where its
literals and those of the members have the same signs. -/
lemma Bound.sameOver (bound : plan.Bound s) (grouping : Query.Grouping query plan groupBy)
    (hgrouped : query.needsGrouping = true) (hhidden : query.projection.hidden = []) {e : Expr}
    (he : e.ResolvedIn plan.tables) (signs : ∀ member ∈ plan.projection.members, member.SameSigns e)
    (group : List (List LogicalRow)) (row : List LogicalRow) :
    plan.projection.SameOver group row e := by
  intro member hmember hcomputes value hvalue
  rcases hcomputes with rfl | hagrees
  · exact hvalue
  have same := bound.evaluate_eq_of_agrees (grouping.resolved member hmember) he
    (signs member hmember) hagrees .full
  exact (Expr.agree_of_agrees hagrees).valueOver
    (grouping.members hgrouped hhidden member hmember).topAggregate same hvalue

/-! ## Grouping and order -/

/-- GROUP BY expressions without real values are exact on the joined rows. -/
lemma Projects.exactOn (projects : plan.Projects joined values) (bound : plan.Bound s)
    (grouping : Query.Grouping query plan groupBy) (exact : ∀ e ∈ groupBy, e.ExactLiterals)
    (notReal : ∀ e ∈ groupBy, ∀ row ∈ joined,
      Result.isReal (Projection.evaluateMember .full row e) = false) :
    ExactOn groupBy joined := by
  intro e he row hrow
  obtain ⟨position, -, hkey⟩ := exists_of_forall₂ (projects.keys_eq bound grouping exact) he
  obtain ⟨hvalue, hvalueOn⟩ := hkey row hrow
  rw [← hvalueOn] at hvalue
  have hexact := notReal e he row hrow
  rw [hvalue] at hexact
  exact ⟨hvalue, hexact⟩

/-- Grouping the rows of the members gives one row for every group of joined rows, which stands for
the group. -/
theorem Projects.exists_rowOf (projects : plan.Projects joined values) (bound : plan.Bound s)
    (grouping : Query.Grouping query plan groupBy) (hgrouped : query.needsGrouping = true)
    (hhidden : query.projection.hidden = []) (exact : ∀ e ∈ groupBy, e.ExactLiterals)
    (exactOn : ExactOn groupBy joined) (inhabited : joined ≠ []) {watch : Watch}
    {found : List Row}
    (h : foldByKeys plan.projection plan.keys watch (joined.map values) = .ok found) :
    ∃ rowOf, found = (groupsOf groupBy joined).map rowOf ∧
      ∀ group ∈ groupsOf groupBy joined, plan.projection.StandsFor group (rowOf group) := by
  have hkeys := projects.keys_eq bound grouping exact
  have noReal : ∀ row ∈ joined.map values, row.NoRealAt (OrderKey.ascendingAt plan.keys) := by
    intro row hrow key hkey
    obtain ⟨source, hsource, rfl⟩ := List.mem_map.mp hrow
    obtain ⟨position, hposition, rfl⟩ := List.mem_map.mp hkey
    obtain ⟨e, he, hvalue⟩ := exists_of_forall₂ hkeys.flip hposition
    rw [← (hvalue source hsource).2]
    exact (exactOn e he source hsource).2
  -- the joined rows are compared by their rows of member values
  have hclasses : (groupsOf groupBy joined).map (List.map values) =
      classes (Row.keyOrder (OrderKey.ascendingAt plan.keys)) (joined.map values) := by
    refine map_classes fun a ha b hb => ?_
    unfold Row.keyOrder groupCriteria OrderKey.ascendingAt
    rw [List.map_map]
    refine lexOrder_congr ?_
    rw [List.forall₂_map_left_iff, List.forall₂_map_right_iff]
    exact hkeys.imp fun e position hvalue => ⟨rfl, (hvalue a ha).2, (hvalue b hb).2⟩
  obtain ⟨-, hfold⟩ := foldByKeys_eq_ok (by simpa using inhabited) h
  rw [groups_eq_classes noReal, ← hclasses, List.mapM_map] at hfold
  obtain ⟨rowOf, hrowOf, rfl⟩ := exists_map_of_mapM hfold
  refine ⟨rowOf, rfl, fun group hgroup => ?_⟩
  refine projects.standsFor bound grouping hgrouped hhidden exact
    (fun row => mem_of_mem_class hgroup) (List.ne_nil_of_mem_splitBy hgroup)
    (fun e he a ha b hb => ?_) (hrowOf group hgroup)
  rw [(exactOn e he a (mem_of_mem_class hgroup ha)).1,
    (exactOn e he b (mem_of_mem_class hgroup hb)).1, exactOn.valueOn_eq hgroup ha hb he]

/-- Groups are sorted by the values at the sort keys of the rows that stand for them. -/
def sortCriteria (keys : List OrderKey) (rowOf : List (List LogicalRow) → Row) :
    List (Criterion (List (List LogicalRow))) :=
  keys.map fun key => ⟨fun group => (rowOf group).getD key.position .null, key.ascending⟩

/-- Without DISTINCT the rows of some groups are put in order and cut to the visible members. -/
lemma arrange_eq_ok {groups : List (List (List LogicalRow))}
    {rowOf : List (List LogicalRow) → Row} (hdistinct : plan.distinct = false)
    (noReal : ∀ group ∈ groups, (rowOf group).NoRealAt plan.sortKeys) {rows : List Row}
    (h : plan.arrange (groups.map rowOf) = .ok rows) :
    rows = (inOrder (lexOrder (sortCriteria plan.sortKeys rowOf)) groups).map fun group =>
      (rowOf group).take plan.projection.visible.length := by
  have hsorted : (if plan.sortKeys.isEmpty then groups.map rowOf
      else OrderKey.sortRows plan.sortKeys (groups.map rowOf)) =
        inOrder (Row.keyOrder plan.sortKeys) (groups.map rowOf) := by
    split
    · rename_i hempty
      rw [List.isEmpty_iff.mp hempty, Row.inOrder_keyOrder_nil]
    · refine sortRows_eq_inOrder fun row hrow => ?_
      obtain ⟨group, hgroup, rfl⟩ := List.mem_map.mp hrow
      exact noReal group hgroup
  have hgroups : (inOrder (lexOrder (sortCriteria plan.sortKeys rowOf)) groups).map rowOf =
      inOrder (Row.keyOrder plan.sortKeys) (groups.map rowOf) := by
    refine map_inOrder fun a _ b _ => lexOrder_congr ?_
    rw [sortCriteria, List.forall₂_map_left_iff, List.forall₂_map_right_iff, List.forall₂_same]
    exact fun key _ => ⟨rfl, rfl, rfl⟩
  unfold arrange at h
  dsimp only at h
  rw [hsorted, ← hgroups, hdistinct] at h
  rw [← Except.ok.inj h, cutToVisible, List.map_map]
  rfl

end Projects

end Plan

end RelQuery
