import Mathlib
import RelQuery.Proofs.Group.Folding

/-!
# Grouping as a partition

Where the keys are not real, grouping puts together the rows with the same tuple of keys and returns
one row for each such class, the classes in strictly increasing order of their tuples.  In the row
of a class an aggregate whose arguments are not real has its exact value over the class, and every
other member is that of the first row of the class.
-/

namespace RelQuery

/-! ## Members -/

namespace MemberFold

/-- What the row of a group has for a member, given the values of the member in the rows of the
group.  Averages are left out. -/
inductive Folded : Option Aggregate → List Value → Value → Prop
  /-- A member that is no aggregate is that of the first row. -/
  | first (value : Value) (rest : List Value) : Folded none (value :: rest) value
  /-- A count is the number of rows. -/
  | count {values : List Value} {n : Int64} (h : n.toInt = values.length) :
      Folded (some .count) values (.integer n)
  /-- A sum is the exact one of the values other than NULL, which are integers. -/
  | sum {values : List Value} {terms : List Int64} {n : Int64}
      (hterms : (values.filter fun value => !value.isNull) = terms.map .integer)
      (hsome : terms ≠ []) (h : n.toInt = (terms.map Int64.toInt).sum) :
      Folded (some .sum) values (.integer n)
  /-- A minimum is a value that compares with the others and is greater than none of them. -/
  | min {values : List Value} {least : Value} (hmem : least ∈ values) (hsome : least ≠ .null)
      (h : ∀ value ∈ values, value ≠ .null →
        ∃ order, value.compare? least = .ok (some order) ∧ order.isGE) :
      Folded (some .min) values least
  /-- A maximum is a value that compares with the others and is less than none of them. -/
  | max {values : List Value} {greatest : Value} (hmem : greatest ∈ values)
      (hsome : greatest ≠ .null)
      (h : ∀ value ∈ values, value ≠ .null →
        ∃ order, value.compare? greatest = .ok (some order) ∧ order.isLE) :
      Folded (some .max) values greatest
  /-- Without a value other than NULL there is nothing to sum or to choose from. -/
  | nothing {f : Aggregate} (hf : f = .sum ∨ f = .min ∨ f = .max) {values : List Value}
      (h : ∀ value ∈ values, value = .null) : Folded (some f) values .null

/-! ### Sums -/

/-- The values are NULL or integers. -/
def Integral (values : List Value) : Prop :=
  ∀ value ∈ values, value ≠ .null → ∃ n, value = .integer n

/-- Only NULL and integers are summed. -/
lemma integral_of_foldlM {values : List Value} (noReal : ∀ value ∈ values, value.isReal = false)
    {acc : MemberFold}
    (h : values.foldlM (fun acc value => step acc false value) (fresh (some .sum)) = .ok acc) :
    Integral values := by
  have hstep : ∀ seen so value next, Integral seen → value.isReal = false →
      afterValue .sum so value = .ok next → Integral (seen ++ [value]) := by
    intro seen so value next hseen hreal hnext other hother hsome
    rcases List.mem_append.mp hother with hother | hother
    · exact hseen other hother hsome
    · obtain rfl := List.mem_singleton.mp hother
      cases other with
      | integer n => exact ⟨n, rfl⟩
      | null => exact absurd rfl hsome
      | real x => exact absurd hreal Bool.noConfusion
      | text s => simp [afterValue, Value.isNull, accumulate, isSummable] at hnext
      | boolean b => simp [afterValue, Value.isNull, accumulate, isSummable] at hnext
  have hstart : Integral [] := List.forall_mem_nil _
  exact invariant_of_foldlM hstep noReal rfl hstart h

/-- The integers among values that are NULL or integers. -/
lemma integers_eq {values : List Value} {terms : List Int64}
    (hterms : (values.filter fun value => !value.isNull) = terms.map .integer) :
    integers values = terms.map Int64.toInt := by
  have hfilter : integers values = integers (values.filter fun value => !value.isNull) := by
    rw [integers, integers, List.filterMap_filter]
    refine List.filterMap_congr fun value _ => ?_
    cases value <;> rfl
  rw [hfilter, hterms, integers, List.filterMap_map, ← List.filterMap_eq_map]
  rfl

/-- The sum of integers. -/
lemma folded_sum {values : List Value} {so : Value} (hsum : IsSum values so)
    (integral : Integral values) : Folded (some .sum) values so := by
  obtain ⟨terms, hterms⟩ :
      (values.filter fun value => !value.isNull) ∈ Set.range (List.map Value.integer) := by
    rw [Set.range_list_map]
    intro value hvalue
    obtain ⟨hvalue, hsome⟩ := List.mem_filter.mp hvalue
    obtain ⟨n, rfl⟩ := integral value hvalue (Value.isNull_eq_false.mp (by simpa using hsome))
    exact ⟨n, rfl⟩
  rw [IsSum, integers_eq hterms.symm] at hsum
  rcases hsum with ⟨hnone, rfl⟩ | ⟨hsome, n, rfl, hn⟩
  · rw [List.map_eq_nil_iff.mp hnone, List.map_nil, eq_comm, List.filter_eq_nil_iff] at hterms
    exact .nothing (.inl rfl) fun value hvalue =>
      Value.isNull_eq_true.mp (by simpa using hterms value hvalue)
  · exact .sum hterms.symm (by simpa using hsome) hn

/-! ### Extremes -/

/-- The values are NULL or of the type of the extreme, which is not real. -/
def OneType (values : List Value) (extreme : Value) : Prop :=
  extreme.isReal = false ∧ ∀ value ∈ values, value ≠ .null → value.type? = extreme.type?

/-- One more value, of which the extreme is picked. -/
lemma OneType.pick {wanted : Ordering} {seen : List Value} {so value next : Value}
    (hseen : OneType seen so) (hreal : value.isReal = false)
    (h : (if value.isNull then .ok so else pickExtreme wanted so value) = .ok next) :
    OneType (seen ++ [value]) next := by
  obtain ⟨hrealSo, htypes⟩ := hseen
  split at h
  · rename_i hnull
    obtain rfl := Except.ok.inj h
    refine ⟨hrealSo, List.forall_mem_append.mpr ⟨htypes, List.forall_mem_singleton.mpr ?_⟩⟩
    exact fun hsome => absurd (Value.isNull_eq_true.mp hnull) hsome
  · rename_i hsome
    rw [Bool.not_eq_true, Value.isNull_eq_false] at hsome
    rw [pickExtreme] at h
    split at h
    · -- before the first value other than NULL there was none of any type
      rename_i hnull
      rw [Value.isNull_eq_true.mp hnull] at htypes
      obtain rfl := Except.ok.inj h
      refine ⟨hreal, List.forall_mem_append.mpr ⟨fun other hother hne => ?_, by simp⟩⟩
      have hnone := htypes other hother hne
      cases other <;> simp [Value.type?] at hnone hne
    · rename_i hsomeSo
      rw [Bool.not_eq_true, Value.isNull_eq_false] at hsomeSo
      obtain ⟨order, hcompare, rfl⟩ := Result.map_eq_ok.mp h
      have htype := Value.type?_eq_of_compare? hreal hrealSo hsome hsomeSo hcompare
      have hall : ∀ other ∈ seen ++ [value], other ≠ .null → other.type? = so.type? :=
        List.forall_mem_append.mpr ⟨htypes, List.forall_mem_singleton.mpr fun _ => htype⟩
      split
      · exact ⟨hreal, htype ▸ hall⟩
      · exact ⟨hrealSo, hall⟩

/-- The values from which an extreme is picked are NULL or of the type of the extreme. -/
lemma oneType_of_foldlM {f : Aggregate} {wanted : Ordering}
    (hf : ∀ so value, accumulate f so value = pickExtreme wanted so value) {values : List Value}
    (noReal : ∀ value ∈ values, value.isReal = false) {acc : MemberFold}
    (h : values.foldlM (fun acc value => step acc false value) (fresh (some f)) = .ok acc) :
    OneType values acc.value := by
  have hstep : ∀ seen so value next, OneType seen so → value.isReal = false →
      afterValue f so value = .ok next → OneType (seen ++ [value]) next := by
    intro seen so value next hseen hreal hnext
    rw [afterValue, hf] at hnext
    exact hseen.pick hreal hnext
  have hstart : OneType [] (fresh (some f)).value := ⟨rfl, List.forall_mem_nil _⟩
  exact invariant_of_foldlM hstep noReal rfl hstart h

/-- An extreme compares with the values other than NULL, none of which lies beyond it. -/
lemma IsExtreme.compare {wanted : Ordering} {values : List Value} {extreme : Value}
    (hextreme : IsExtreme wanted values extreme)
    (noReal : ∀ value ∈ values, value.isReal = false) (oneType : OneType values extreme) :
    (extreme = .null ∧ ∀ value ∈ values, value = .null) ∨
      extreme ∈ values ∧ extreme ≠ .null ∧ ∀ value ∈ values, value ≠ .null →
        ∃ order, value.compare? extreme = .ok (some order) ∧ order ≠ wanted := by
  rcases hextreme with hnull | ⟨hsome, hreal, hmem, hbeyond⟩
  · exact .inl hnull
  · exact .inr ⟨hmem, hsome, fun value hvalue hne => ⟨value.keyOrder extreme,
      Value.compare?_eq_keyOrder (noReal value hvalue) hreal hne (oneType.2 value hvalue hne),
      hbeyond value hvalue hne⟩⟩

/-- The value of a member over a group, where the arguments of aggregates are not real. -/
theorem folded_of_foldMember {aggregate : Option Aggregate} (havg : aggregate ≠ some .avg)
    {values : List Value} (hvalues : values ≠ [])
    (noReal : aggregate ≠ none → ∀ value ∈ values, value.isReal = false) {found : Value}
    (h : foldMember aggregate values = .ok found) : Folded aggregate values found := by
  cases aggregate with
  | none =>
    obtain ⟨first, rest, rfl⟩ := List.exists_cons_of_ne_nil hvalues
    rw [foldMember_none] at h
    obtain rfl := Except.ok.inj h
    exact .first first rest
  | some f =>
    have plain : ∀ value ∈ values, value.isReal = false := noReal (Option.some_ne_none f)
    rw [foldMember_some] at h
    obtain ⟨acc, hacc, hclose⟩ := Result.bind_eq_ok'.mp h
    have accumulated := accumulates_of_foldlM plain hacc
    unfold close at hclose
    rw [aggregate_of_foldlM hacc, fresh] at hclose
    cases f with
    | count =>
      obtain ⟨n, rfl, hn⟩ := Value.checked_eq_ok hclose
      exact .count hn
    | sum =>
      obtain rfl := Except.ok.inj hclose
      exact folded_sum accumulated (integral_of_foldlM plain hacc)
    | avg => exact absurd rfl havg
    | min =>
      obtain rfl := Except.ok.inj hclose
      have oneType := oneType_of_foldlM (fun _ _ => rfl) plain hacc
      rcases IsExtreme.compare accumulated plain oneType with ⟨hnull, hall⟩ | ⟨hmem, hsome, hall⟩
      · rw [hnull]
        exact .nothing (.inr (.inl rfl)) hall
      · refine .min hmem hsome fun value hvalue hne => ?_
        obtain ⟨order, hcompare, horder⟩ := hall value hvalue hne
        exact ⟨order, hcompare, Ordering.isGE_iff_ne_lt.mpr horder⟩
    | max =>
      obtain rfl := Except.ok.inj hclose
      have oneType := oneType_of_foldlM (fun _ _ => rfl) plain hacc
      rcases IsExtreme.compare accumulated plain oneType with ⟨hnull, hall⟩ | ⟨hmem, hsome, hall⟩
      · rw [hnull]
        exact .nothing (.inr (.inr rfl)) hall
      · refine .max hmem hsome fun value hvalue hne => ?_
        obtain ⟨order, hcompare, horder⟩ := hall value hvalue hne
        exact ⟨order, hcompare, Ordering.isLE_iff_ne_gt.mpr horder⟩

end MemberFold

/-! ## Classes of rows -/

namespace Row

/-- The tuple of keys of a row. -/
def keysAt (positions : List Nat) (row : Row) : List Value :=
  positions.map fun position => row.getD position .null

/-- Two rows have one tuple of keys when they have the same keys. -/
lemma keysAt_eq_iff {positions : List Nat} {a b : Row} : a.keysAt positions = b.keysAt positions ↔
    ∀ position ∈ positions, a.getD position .null = b.getD position .null :=
  List.map_inj_left

/-- Rows without reals in their keys are in the lexicographic order of their tuples. -/
lemma lex_keysAt {positions : List Nat} {a b : Row}
    (ha : a.NoRealAt (OrderKey.ascendingAt positions))
    (hb : b.NoRealAt (OrderKey.ascendingAt positions))
    (h : keyOrder (OrderKey.ascendingAt positions) a b = .lt) :
    List.Lex (fun x y => x.sortOrder y = .lt) (a.keysAt positions) (b.keysAt positions) := by
  induction positions with
  | nil => cases h
  | cons position rest ih =>
    rw [NoRealAt, OrderKey.ascendingAt, List.map_cons, List.forall_mem_cons] at ha hb
    have hfirst : (a.getD position .null).keyOrder (b.getD position .null) = .lt ∨
        (a.getD position .null).keyOrder (b.getD position .null) = .eq ∧
          keyOrder (OrderKey.ascendingAt rest) a b = .lt :=
      Ordering.then_eq_lt.mp h
    rw [keysAt, keysAt, List.map_cons, List.map_cons, List.cons_lex_cons_iff,
      Value.sortOrder_eq_keyOrder ha.1 hb.1]
    rcases hfirst with hfirst | ⟨htie, hrest⟩
    · exact .inl hfirst
    · exact .inr ⟨(Value.keyOrder_eq_iff ha.1 hb.1).mp htie, ih ha.2 hb.2 hrest⟩

end Row

/-- The groups are the classes of the rows by their tuples of keys. -/
structure IsClassing (positions : List Nat) (rows : List Row) (groups : List (List Row)) :
    Prop where
  /-- Every row is in one group. -/
  perm : groups.flatten.Perm rows
  /-- No group is empty. -/
  nonempty : ∀ group ∈ groups, group ≠ []
  /-- A group has all rows with the keys of any of its rows, in their given order. -/
  whole : ∀ group ∈ groups, ∀ row ∈ group,
    group = rows.filter fun other => decide (other.keysAt positions = row.keysAt positions)
  /-- The keys of a group come before those of the groups after it. -/
  increasing : groups.Pairwise fun group group' => ∀ row ∈ group, ∀ row' ∈ group',
    List.Lex (fun x y => x.sortOrder y = .lt) (row.keysAt positions) (row'.keysAt positions)

/-- Classes by the order of keys are classes by the tuples of keys. -/
lemma isClassing_classes {positions : List Nat} {rows : List Row}
    (noReal : ∀ row ∈ rows, row.NoRealAt (OrderKey.ascendingAt positions)) :
    IsClassing positions rows
      (classes (Row.keyOrder (OrderKey.ascendingAt positions)) rows) where
  perm := flatten_classes_perm _ rows
  nonempty _ hgroup := List.ne_nil_of_mem_splitBy hgroup
  whole group hgroup row hrow := by
    rw [eq_filter_of_mem_class hgroup hrow]
    have hrow := noReal row (mem_of_mem_class hgroup hrow)
    refine List.filter_congr fun other hother => ?_
    rw [Bool.eq_iff_iff, beq_iff_eq, decide_eq_true_iff,
      Row.keyOrder_eq_iff hrow (noReal other hother), ← Row.keysAt_eq_iff, eq_comm]
  increasing := by
    refine (List.Pairwise.and_mem.mp (increasing_classes rows)).imp
      fun ⟨hgroup, hgroup', hlt⟩ row hrow row' hrow' => ?_
    exact Row.lex_keysAt (noReal row (mem_of_mem_class hgroup hrow))
      (noReal row' (mem_of_mem_class hgroup' hrow')) (hlt row hrow row' hrow')

/-! ## Grouping -/

/-- The row has for every member of the projection its value over the group. -/
def Projection.FoldsTo (p : Projection) (group : List Row) (row : Row) : Prop :=
  row.length = p.length ∧ ∀ position aggregate, p.aggregates[position]? = some aggregate →
    ∃ value, row[position]? = some value ∧
      MemberFold.Folded aggregate (group.map (·.getD position .null)) value

/-- The counts of the groups add up to the number of their rows. -/
lemma sum_counts {p : Projection} {position : Nat}
    (hcount : p.aggregates[position]? = some (some .count)) {groups : List (List Row)}
    {found : List Row} (h : List.Forall₂ p.FoldsTo groups found) :
    (MemberFold.integers (found.map (·.getD position .null))).sum = groups.flatten.length := by
  induction h with
  | nil => rfl
  | @cons group row groups found hrow _ ih =>
    obtain ⟨-, hmembers⟩ := hrow
    obtain ⟨value, hvalue, hfolded⟩ := hmembers position _ hcount
    cases hfolded with
    | @count _ n hn =>
      have hgetD : row.getD position .null = .integer n := by
        rw [List.getD_eq_getElem?_getD, hvalue, Option.getD_some]
      rw [List.length_map] at hn
      rw [List.flatten_cons, List.length_append, Nat.cast_add, ← ih, ← hn, List.map_cons, hgetD]
      rfl
    | nothing hf => simp at hf

/-- Where neither keys nor arguments of aggregates are real and nothing is averaged, a successful
grouping has one row for each class of rows with the same keys, in strictly increasing order of the
keys, with the exact values of the aggregates over the class and the other members of its first
row. -/
theorem exists_isClassing_of_foldByKeys {p : Projection} (noAvg : ∀ f ∈ p.aggregates, f ≠ some .avg)
    {keys : List Nat} {watch : Watch} {rows found : List Row} (hrows : rows ≠ [])
    (plainKeys : ∀ row ∈ rows, ∀ key ∈ keys, (row.getD key .null).isReal = false)
    (plainArguments : ∀ row ∈ rows, ∀ position f, p.aggregates[position]? = some (some f) →
      (row.getD position .null).isReal = false)
    (h : foldByKeys p keys watch rows = .ok found) :
    ∃ groups, IsClassing keys rows groups ∧ List.Forall₂ p.FoldsTo groups found ∧
      ∀ position, p.aggregates[position]? = some (some .count) →
        (MemberFold.integers (found.map (·.getD position .null))).sum = rows.length := by
  obtain ⟨widths, hgroups⟩ := foldByKeys_eq_ok hrows h
  have haggregates : p.aggregates.length = p.length := by simp [Projection.aggregates]
  have noReal : ∀ row ∈ rows, row.NoRealAt (OrderKey.ascendingAt keys) := fun row hrow =>
    List.forall_mem_map.mpr fun key hkey => plainKeys row hrow key hkey
  rw [groups_eq_classes noReal] at hgroups
  have classing := isClassing_classes noReal
  have folds : List.Forall₂ p.FoldsTo
      (classes (Row.keyOrder (OrderKey.ascendingAt keys)) rows) found := by
    refine ((List.forall₂_and_left _ _).mpr ⟨fun _ => id, mapM_eq_ok.mp hgroups⟩).imp
      fun group row h => ?_
    obtain ⟨hgroup, hfold⟩ := h
    have inside : ∀ member ∈ group, member ∈ rows := fun _ => mem_of_mem_class hgroup
    have hnonempty := classing.nonempty group hgroup
    obtain ⟨hlength, hmembers⟩ := foldGroup_eq_ok hnonempty
      (fun member hmember => by rw [haggregates, widths member (inside member hmember)]) hfold
    refine ⟨hlength.trans haggregates, fun position aggregate haggregate => ?_⟩
    obtain ⟨value, hvalue, hfold⟩ := hmembers position aggregate haggregate
    refine ⟨value, hvalue, MemberFold.folded_of_foldMember
      (noAvg aggregate (List.mem_of_getElem? haggregate)) (by simpa using hnonempty)
      (fun hsome => List.forall_mem_map.mpr fun member hmember => ?_) hfold⟩
    obtain ⟨f, rfl⟩ := Option.ne_none_iff_exists'.mp hsome
    exact plainArguments member (inside member hmember) position f haggregate
  refine ⟨_, classing, folds, fun position hcount => ?_⟩
  rw [sum_counts hcount folds, classing.perm.length_eq]

/-- Rows by a key that may be NULL, with a count, a sum, a maximum and a member of reals. -/
theorem exists_isClassing_of_foldByKeys_nullKey :
    let column (name : String) := Expr.column (.written none name) none
    let call (f : Aggregate) := Expr.call (.aggregate f) (column "x") none
    let p : Projection := ⟨[column "k", call .count, call .sum, call .max, column "y"], []⟩
    let rows : List Row :=
      [[.null, .integer 3, .integer 3, .integer 3, .real ⟨1⟩],
        [.integer 2, .null, .null, .null, .real ⟨2⟩],
        [.null, .integer 4, .integer 4, .integer 4, .real ⟨3⟩]]
    ∃ groups, IsClassing [0] rows groups ∧ List.Forall₂ p.FoldsTo groups
      [[.integer 2, .integer 1, .null, .null, .real ⟨2⟩],
        [.null, .integer 2, .integer 7, .integer 4, .real ⟨1⟩]] := by
  intro column call p rows
  have ran : foldByKeys p [0] .never rows =
      .ok [[.integer 2, .integer 1, .null, .null, .real ⟨2⟩],
        [.null, .integer 2, .integer 7, .integer 4, .real ⟨1⟩]] := by cbv
  have plainArguments : ∀ row ∈ rows, ∀ position f, p.aggregates[position]? = some (some f) →
      (row.getD position .null).isReal = false := by
    intro row hrow position f hf
    have haggregates : p.aggregates = [none, some .count, some .sum, some .max, none] := rfl
    rw [haggregates] at hf
    obtain rfl | rfl | rfl : position = 1 ∨ position = 2 ∨ position = 3 := by
      rcases position with _ | _ | _ | _ | _ | position <;> simp at hf ⊢
    all_goals
      revert row
      decide
  obtain ⟨groups, classing, folds, -⟩ := exists_isClassing_of_foldByKeys (p := p) (by decide)
    (List.cons_ne_nil _ _) (by decide) plainArguments ran
  exact ⟨groups, classing, folds⟩

end RelQuery
