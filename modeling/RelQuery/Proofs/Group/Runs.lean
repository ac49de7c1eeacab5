import Mathlib.Data.List.SplitBy
import RelQuery.Group.Fold
import RelQuery.Proofs.Result
import RelQuery.Proofs.Sorting
import RelQuery.Proofs.Value.KeyOrder

/-!
# Groups are runs of sorted rows

Rows are grouped by sorting them and cutting where two neighbours differ in a key.  Where the keys
are not real, sorting brings the rows of a class together, so every run is a class, with its rows in
their given order.  Two orders of the same bag of rows therefore give the same classes in the same
sequence, and what is sorted and grouped may be anything that has such rows.
-/

namespace RelQuery

/-! ## Order and classes -/

section Classes

variable {α β : Type} {cmp : α → α → Ordering} {cmp' : β → β → Ordering} {f : α → β}

/-- The classes of elements that tie, one after the other in order. -/
def classes (cmp : α → α → Ordering) (l : List α) : List (List α) :=
  (inOrder cmp l).splitBy fun a b => cmp a b == .eq

/-- The members of a run are members of the list. -/
lemma mem_of_mem_run {r : α → α → Bool} {l run : List α} (hrun : run ∈ l.splitBy r) {a : α}
    (ha : a ∈ run) : a ∈ l := by
  rw [← List.flatten_splitBy r l]
  exact List.mem_flatten_of_mem hrun ha

/-- Elements that are related by their images have the images of their runs for runs. -/
lemma map_splitBy {r : α → α → Bool} {r' : β → β → Bool} {l : List α}
    (h : ∀ a ∈ l, ∀ b ∈ l, r a b = r' (f a) (f b)) :
    (l.splitBy r).map (List.map f) = (l.map f).splitBy r' := by
  symm
  rw [List.splitBy_eq_iff]
  refine ⟨by rw [← List.map_flatten, List.flatten_splitBy], fun hnil => ?_, fun image himage => ?_,
    ?_⟩
  · obtain ⟨run, hrun, hempty⟩ := List.mem_map.mp hnil
    exact List.ne_nil_of_mem_splitBy hrun (List.map_eq_nil_iff.mp hempty)
  · obtain ⟨run, hrun, rfl⟩ := List.mem_map.mp himage
    rw [List.isChain_map]
    refine (List.isChain_of_mem_splitBy hrun).imp_of_mem_imp fun a b ha hb hab => ?_
    rwa [← h a (mem_of_mem_run hrun ha) b (mem_of_mem_run hrun hb)]
  · rw [List.isChain_map]
    refine (List.isChain_getLast_head_splitBy r l).imp_of_mem_imp ?_
    rintro run run' hrun hrun' ⟨hne, hne', hlast⟩
    refine ⟨by simpa using hne, by simpa using hne', ?_⟩
    rw [List.getLast_map, List.head_map]
    rwa [← h _ (mem_of_mem_run hrun (List.getLast_mem hne)) _
      (mem_of_mem_run hrun' (List.head_mem hne'))]

/-- Elements that are compared by their images have the images of their classes for classes. -/
lemma map_classes {l : List α} (h : ∀ a ∈ l, ∀ b ∈ l, cmp a b = cmp' (f a) (f b)) :
    (classes cmp l).map (List.map f) = classes cmp' (l.map f) := by
  unfold classes
  rw [← map_inOrder h]
  refine map_splitBy fun a ha b hb => ?_
  rw [(inOrder_perm cmp l).mem_iff] at ha hb
  rw [h a ha b hb]

/-- The classes have the elements of the list. -/
lemma flatten_classes_perm (cmp : α → α → Ordering) (l : List α) :
    (classes cmp l).flatten.Perm l := by
  rw [classes, List.flatten_splitBy]
  exact inOrder_perm cmp l

/-- The members of a class are elements of the list. -/
lemma mem_of_mem_class {l run : List α} (hrun : run ∈ classes cmp l) {a : α} (ha : a ∈ run) :
    a ∈ l :=
  (inOrder_perm cmp l).mem_iff.mp (mem_of_mem_run hrun ha)

variable [Std.TransCmp cmp]

/-- The first element of a sorted list comes before all. -/
lemma isLE_of_sorted {a : α} {rest : List α}
    (sorted : (a :: rest).Pairwise fun x y => (cmp x y).isLE) {x : α} (hx : x ∈ a :: rest) :
    (cmp a x).isLE := by
  rcases List.mem_cons.mp hx with rfl | hx
  · rw [self_tie cmp]
    rfl
  · exact List.rel_of_pairwise_cons sorted hx

/-- In a sorted list the elements that tie with the first one come first. -/
lemma filter_ties_append {a : α} {rest : List α}
    (sorted : (a :: rest).Pairwise fun x y => (cmp x y).isLE) :
    (a :: rest).filter (cmp a · == .eq) ++ (a :: rest).filter (fun x => !(cmp a x == .eq)) =
      a :: rest := by
  have ties_iff : ∀ x ∈ a :: rest, (cmp a x == .eq) = (cmp x a).isLE := by
    intro x hx
    have hle := isLE_of_sorted sorted hx
    rw [swap_eq cmp x a]
    cases h : cmp a x <;> simp_all
  have hties : (a :: rest).filter (cmp a · == .eq) = (a :: rest).filter fun x => (cmp x a).isLE :=
    List.filter_congr ties_iff
  have hothers : (a :: rest).filter (fun x => !(cmp a x == .eq)) =
      (a :: rest).filter fun x => !(cmp x a).isLE :=
    List.filter_congr fun x hx => by rw [ties_iff x hx]
  rw [hties, hothers]
  refine filter_append_filter_not (fun x y hxy hya => ?_) sorted
  exact Std.TransCmp.isLE_trans hxy hya

/-- The first run of a sorted list is the class of its first element. -/
theorem splitBy_cons_of_sorted {a : α} {rest : List α}
    (sorted : (a :: rest).Pairwise fun x y => (cmp x y).isLE) :
    (a :: rest).splitBy (fun x y => cmp x y == .eq) = (a :: rest).filter (cmp a · == .eq) ::
      ((a :: rest).filter fun x => !(cmp a x == .eq)).splitBy fun x y => cmp x y == .eq := by
  have inhabited : (a :: rest).filter (cmp a · == .eq) ≠ [] := by
    refine List.ne_nil_of_mem (List.mem_filter.mpr ⟨List.mem_cons_self, ?_⟩)
    rw [self_tie cmp]
    rfl
  -- all members of the class tie with each other
  have chain : ((a :: rest).filter (cmp a · == .eq)).IsChain fun x y => cmp x y == .eq := by
    refine List.Pairwise.isChain (List.pairwise_of_forall_mem_list fun x hx y hy => ?_)
    have hax := (List.mem_filter.mp hx).2
    have hay := (List.mem_filter.mp hy).2
    rw [beq_iff_eq] at hax hay ⊢
    exact Std.TransCmp.eq_trans (Std.OrientedCmp.eq_symm hax) hay
  have apart : ∀ x ∈ ((a :: rest).filter (cmp a · == .eq)).getLast?,
      ∀ y ∈ ((a :: rest).filter fun x => !(cmp a x == .eq)).head?, (cmp x y == .eq) = false := by
    intro x hx y hy
    have hax := (List.mem_filter.mp (List.mem_of_getLast? hx)).2
    have hay := (List.mem_filter.mp (List.mem_of_head? hy)).2
    by_contra htie
    have hxy : cmp x y = .eq := by simpa using htie
    have := Std.TransCmp.eq_trans (by simpa using hax : cmp a x = .eq) hxy
    simp [this] at hay
  conv_lhs => rw [← filter_ties_append sorted]
  rw [List.splitBy_append apart, List.splitBy_of_isChain inhabited chain, List.singleton_append]

/-- The elements that do not tie with the first one are fewer than all. -/
lemma length_others_lt (a : α) (rest : List α) :
    ((a :: rest).filter fun x => !(cmp a x == .eq)).length < (a :: rest).length := by
  refine List.length_filter_lt_length_iff_exists.mpr ⟨a, List.mem_cons_self, ?_⟩
  simp [self_tie cmp]

/-- The run of an element in a sorted list are the elements that tie with it. -/
lemma eq_filter_of_mem_run {l : List α} (sorted : l.Pairwise fun x y => (cmp x y).isLE)
    {run : List α} (hrun : run ∈ l.splitBy fun x y => cmp x y == .eq) {a : α} (ha : a ∈ run) :
    run = l.filter (cmp a · == .eq) := by
  induction hlength : l.length using Nat.strong_induction_on generalizing l with
  | _ n ih =>
    cases l with
    | nil => simp at hrun
    | cons first rest =>
      rw [splitBy_cons_of_sorted sorted, List.mem_cons] at hrun
      rcases hrun with rfl | hrun
      · have htie : cmp first a = .eq := by simpa using (List.mem_filter.mp ha).2
        refine List.filter_congr fun x _ => ?_
        rw [Std.TransCmp.congr_left htie]
      · have hother : cmp first a ≠ .eq := by
          simpa using (List.mem_filter.mp (mem_of_mem_run hrun ha)).2
        rw [ih _ (hlength ▸ length_others_lt _ _) (sorted.filter _) hrun rfl, List.filter_filter]
        refine List.filter_congr fun x _ => ?_
        by_cases htie : cmp a x = .eq
        · -- what ties with the element does not tie with the first one
          have : cmp first x ≠ .eq := fun hx =>
            hother (Std.TransCmp.eq_trans hx (Std.OrientedCmp.eq_symm htie))
          simp [htie, this]
        · simp [htie]

/-- The class of an element are the elements that tie with it, in their given order. -/
theorem eq_filter_of_mem_class {l run : List α} (hrun : run ∈ classes cmp l) {a : α}
    (ha : a ∈ run) : run = l.filter (cmp a · == .eq) := by
  rw [eq_filter_of_mem_run (sorted_inOrder cmp l) hrun ha]
  refine filter_inOrder_of_tied fun x _ y _ hx hy => ?_
  rw [beq_iff_eq] at hx hy
  exact Std.TransCmp.eq_trans (Std.OrientedCmp.eq_symm hx) hy

/-- The members of a class tie with each other. -/
lemma tie_of_mem_class {l run : List α} (hrun : run ∈ classes cmp l) {a b : α} (ha : a ∈ run)
    (hb : b ∈ run) : cmp a b = .eq := by
  rw [eq_filter_of_mem_class hrun ha] at hb
  simpa using (List.mem_filter.mp hb).2

/-- Members of different runs of a sorted list do not tie. -/
lemma apart_runs {l : List α} (sorted : l.Pairwise fun x y => (cmp x y).isLE) :
    (l.splitBy fun x y => cmp x y == .eq).Pairwise fun run run' =>
      ∀ a ∈ run, ∀ b ∈ run', cmp a b ≠ .eq := by
  induction hlength : l.length using Nat.strong_induction_on generalizing l with
  | _ n ih =>
    cases l with
    | nil => simp
    | cons first rest =>
      rw [splitBy_cons_of_sorted sorted]
      refine List.Pairwise.cons (fun run hrun a ha b hb htie => ?_)
        (ih _ (hlength ▸ length_others_lt _ _) (sorted.filter _) rfl)
      -- what ties with a member of the first run ties with the first element
      have hfirst : cmp first a = .eq := by simpa using (List.mem_filter.mp ha).2
      have hother : cmp first b ≠ .eq := by
        simpa using (List.mem_filter.mp (mem_of_mem_run hrun hb)).2
      exact hother (Std.TransCmp.eq_trans hfirst htie)

/-- Members of different classes do not tie. -/
theorem apart_classes (l : List α) : (classes cmp l).Pairwise fun run run' =>
    ∀ a ∈ run, ∀ b ∈ run', cmp a b ≠ .eq :=
  apart_runs (sorted_inOrder cmp l)

/-- The classes are in strict order: every member of one comes before every member of the next. -/
theorem increasing_classes (l : List α) : (classes cmp l).Pairwise fun run run' =>
    ∀ a ∈ run, ∀ b ∈ run', cmp a b = .lt := by
  have sorted : (classes cmp l).Pairwise fun run run' => ∀ a ∈ run, ∀ b ∈ run', (cmp a b).isLE := by
    have := sorted_inOrder cmp l
    rw [← List.flatten_splitBy (fun a b => cmp a b == .eq) (inOrder cmp l),
      List.pairwise_flatten] at this
    exact this.2
  refine (sorted.and (apart_classes l)).imp fun ⟨hle, hne⟩ a ha b hb => ?_
  cases horder : cmp a b with
  | lt => rfl
  | eq => exact absurd horder (hne a ha b hb)
  | gt => simpa [horder] using hle a ha b hb

/-- Two orders of one bag have the same classes in the same sequence. -/
theorem forall₂_perm_classes {l l' : List α} (h : l.Perm l') :
    List.Forall₂ List.Perm (classes cmp l) (classes cmp l') := by
  have sorted : (inOrder cmp l).Pairwise fun a b => (cmp a b).isLE := sorted_inOrder cmp l
  have sorted' : (inOrder cmp l').Pairwise fun a b => (cmp a b).isLE := sorted_inOrder cmp l'
  have hperm : (inOrder cmp l).Perm (inOrder cmp l') :=
    ((inOrder_perm cmp l).trans h).trans (inOrder_perm cmp l').symm
  unfold classes
  generalize inOrder cmp l = l at sorted hperm ⊢
  generalize inOrder cmp l' = l' at sorted' hperm ⊢
  clear h
  induction hlength : l.length using Nat.strong_induction_on generalizing l l' with
  | _ n ih =>
    cases l with
    | nil =>
      rw [← hperm.nil_eq]
      exact List.Forall₂.nil
    | cons a rest =>
      cases l' with
      | nil => exact absurd hperm.eq_nil (List.cons_ne_nil _ _)
      | cons a' rest' =>
        -- the two first elements tie, so they have the same class
        have same : ∀ x, cmp a x = cmp a' x := by
          have hle : (cmp a a').isLE :=
            isLE_of_sorted sorted (hperm.mem_iff.mpr List.mem_cons_self)
          have hge : (cmp a' a).isLE :=
            isLE_of_sorted sorted' (hperm.mem_iff.mp List.mem_cons_self)
          have htie : cmp a a' = .eq := by
            rw [swap_eq cmp a' a] at hge
            cases h : cmp a a' <;> simp_all
          exact fun x => Std.TransCmp.congr_left htie
        have hclass : ((a :: rest).filter (cmp a · == .eq)).Perm
            ((a' :: rest').filter (cmp a' · == .eq)) := by
          simp only [same]
          exact hperm.filter _
        have hothers : ((a :: rest).filter fun x => !(cmp a x == .eq)).Perm
            ((a' :: rest').filter fun x => !(cmp a' x == .eq)) := by
          simp only [same]
          exact hperm.filter _
        rw [splitBy_cons_of_sorted sorted, splitBy_cons_of_sorted sorted']
        refine List.Forall₂.cons hclass ?_
        exact ih _ (hlength ▸ length_others_lt a rest) _ (sorted.filter _) _ (sorted'.filter _)
          hothers rfl

end Classes

/-! ## Order by values -/

/-- A criterion of an order: a value of every element, in one of two directions. -/
structure Criterion (α : Type) where
  value : α → Value
  ascending : Bool

section Criteria

variable {α β : Type}

/-- The order by one criterion, where its values are not real. -/
def Criterion.order (criterion : Criterion α) (a b : α) : Ordering :=
  let order := (criterion.value a).keyOrder (criterion.value b)
  if criterion.ascending then order else order.swap

/-- Either direction of a criterion is an order. -/
instance (criterion : Criterion α) : Std.TransCmp criterion.order where
  eq_swap {a b} := by
    unfold Criterion.order
    rw [Value.keyOrder_swap]
    split <;> rfl
  isLE_trans {a b c} hab hbc := by
    unfold Criterion.order at *
    dsimp only at *
    split at hab
    · rename_i hascending
      rw [if_pos hascending] at hbc ⊢
      exact Std.TransCmp.isLE_trans hab hbc
    · rename_i hdescending
      rw [if_neg hdescending] at hbc ⊢
      rw [← Value.keyOrder_swap] at hab hbc ⊢
      exact Std.TransCmp.isLE_trans hbc hab

/-- The order by some criteria, the first that tells two elements apart deciding. -/
def lexOrder : List (Criterion α) → α → α → Ordering
  | [] => fun _ _ => .eq
  | criterion :: rest => compareLex criterion.order (lexOrder rest)

/-- The criteria together are an order. -/
instance instTransCmpLexOrder : (criteria : List (Criterion α)) → Std.TransCmp (lexOrder criteria)
  | [] => { eq_swap := rfl, isLE_trans := fun _ _ => rfl }
  | criterion :: rest =>
    have := instTransCmpLexOrder rest
    inferInstanceAs (Std.TransCmp (compareLex criterion.order (lexOrder rest)))

/-- Criteria in the same directions that have the same values give the same order. -/
lemma lexOrder_congr {criteria : List (Criterion α)} {criteria' : List (Criterion β)} {a b : α}
    {a' b' : β} (h : List.Forall₂ (fun c c' => c.ascending = c'.ascending ∧
      c.value a = c'.value a' ∧ c.value b = c'.value b') criteria criteria') :
    lexOrder criteria a b = lexOrder criteria' a' b' := by
  induction h with
  | nil => rfl
  | cons hfirst _ ih =>
    obtain ⟨hdirection, ha, hb⟩ := hfirst
    rw [lexOrder, lexOrder, compareLex, compareLex, ih, Criterion.order, Criterion.order,
      hdirection, ha, hb]

/-- Elements tie where their values, which are not real, are the same. -/
lemma lexOrder_eq_iff {criteria : List (Criterion α)} {a b : α}
    (ha : ∀ c ∈ criteria, (c.value a).isReal = false)
    (hb : ∀ c ∈ criteria, (c.value b).isReal = false) :
    lexOrder criteria a b = .eq ↔ ∀ c ∈ criteria, c.value a = c.value b := by
  induction criteria with
  | nil => simp [lexOrder]
  | cons c rest ih =>
    rw [List.forall_mem_cons] at ha hb
    have hfirst : c.order a b = .eq ↔ c.value a = c.value b := by
      rw [← Value.keyOrder_eq_iff ha.1 hb.1, Criterion.order]
      cases c.ascending <;> cases (c.value a).keyOrder (c.value b) <;> decide
    rw [lexOrder, compareLex, Ordering.then_eq_eq, hfirst, ih ha.2 hb.2, List.forall_mem_cons]

end Criteria

/-! ## Rows sorted by keys -/

/-- The value of a row at the position of a key, in the direction of the key. -/
def OrderKey.criterion (key : OrderKey) : Criterion Row where
  value row := row.getD key.position .null
  ascending := key.ascending

/-- The keys that sort by positions, each in ascending order. -/
def OrderKey.ascendingAt (positions : List Nat) : List OrderKey :=
  positions.map fun position => ⟨position, true⟩

namespace Row

/-- No value of the row is a real. -/
def NoReal (row : Row) : Prop :=
  ∀ value ∈ row, value.isReal = false

/-- No position of the row holds a real. -/
lemma NoReal.getD {row : Row} (h : row.NoReal) (position : Nat) :
    (row.getD position .null).isReal = false := by
  rw [List.getD_eq_getElem?_getD]
  cases hvalue : row[position]? with
  | none => rfl
  | some value => exact h value (List.mem_of_getElem? hvalue)

/-- No key of the row is a real. -/
def NoRealAt (keys : List OrderKey) (row : Row) : Prop :=
  ∀ key ∈ keys, (row.getD key.position .null).isReal = false

/-- A row without reals has none for its keys. -/
lemma NoReal.at {row : Row} (h : row.NoReal) (keys : List OrderKey) : row.NoRealAt keys :=
  fun key _ => h.getD key.position

/-- The order of rows by some keys. -/
def keyOrder (keys : List OrderKey) : Row → Row → Ordering :=
  lexOrder (keys.map OrderKey.criterion)

/-- The keys together are an order. -/
instance (keys : List OrderKey) : Std.TransCmp (keyOrder keys) :=
  instTransCmpLexOrder _

/-- Rows without reals in their keys tie when they have the same keys. -/
lemma keyOrder_eq_iff {positions : List Nat} {a b : Row}
    (ha : a.NoRealAt (OrderKey.ascendingAt positions))
    (hb : b.NoRealAt (OrderKey.ascendingAt positions)) :
    keyOrder (OrderKey.ascendingAt positions) a b = .eq ↔
      ∀ position ∈ positions, a.getD position .null = b.getD position .null := by
  have hties : keyOrder (OrderKey.ascendingAt positions) a b = .eq ↔
      ∀ c ∈ (OrderKey.ascendingAt positions).map OrderKey.criterion, c.value a = c.value b :=
    lexOrder_eq_iff (List.forall_mem_map.mpr fun key hkey => ha key hkey)
      (List.forall_mem_map.mpr fun key hkey => hb key hkey)
  rw [hties]
  simp only [OrderKey.ascendingAt, List.forall_mem_map, OrderKey.criterion]

/-- Rows without reals in their keys agree in all of them when they tie. -/
lemma agreeOn_eq_keyOrder {positions : List Nat} {a b : Row}
    (ha : a.NoRealAt (OrderKey.ascendingAt positions))
    (hb : b.NoRealAt (OrderKey.ascendingAt positions)) :
    agreeOn positions a b = (keyOrder (OrderKey.ascendingAt positions) a b == .eq) := by
  rw [Bool.eq_iff_iff, beq_iff_eq, keyOrder_eq_iff ha hb, agreeOn, List.all_eq_true]
  simp only [NoRealAt, OrderKey.ascendingAt, List.forall_mem_map] at ha hb
  exact forall₂_congr fun position hposition =>
    Value.alike_iff (ha position hposition) (hb position hposition)

/-- Rows without reals in their keys are sorted in the order of the keys. -/
lemma compareAll_eq_keyOrder {keys : List OrderKey} {a b : Row} (ha : a.NoRealAt keys)
    (hb : b.NoRealAt keys) : OrderKey.compareAll a b keys = keyOrder keys a b := by
  induction keys with
  | nil => rfl
  | cons key rest ih =>
    rw [NoRealAt, List.forall_mem_cons] at ha hb
    rw [OrderKey.compareAll, ih ha.2 hb.2, OrderKey.compare,
      Value.sortOrder_eq_keyOrder ha.1 hb.1]
    rfl

/-- Without keys all rows stay where they are. -/
lemma inOrder_keyOrder_nil (rows : List Row) : inOrder (keyOrder []) rows = rows :=
  List.mergeSort_of_pairwise (List.pairwise_of_forall_mem_list fun _ _ _ _ => rfl)

end Row

/-- Sorting brings rows in the order in which they are compared. -/
lemma sortRows_eq_inOrder_of {cmp : Row → Row → Ordering} [Std.TransCmp cmp] {keys : List OrderKey}
    {rows : List Row}
    (hsort : ∀ a ∈ rows, ∀ b ∈ rows, OrderKey.compareAll a b keys = cmp a b) :
    OrderKey.sortRows keys rows = inOrder cmp rows := by
  rw [OrderKey.sortRows, stableSort_congr hsort, stableSort_eq_inOrder]

/-- Sorting brings rows without reals in their keys in order. -/
lemma sortRows_eq_inOrder {keys : List OrderKey} {rows : List Row}
    (noReal : ∀ row ∈ rows, row.NoRealAt keys) :
    OrderKey.sortRows keys rows = inOrder (Row.keyOrder keys) rows :=
  sortRows_eq_inOrder_of fun a ha b hb => Row.compareAll_eq_keyOrder (noReal a ha) (noReal b hb)

/-- Groups are classes of rows, for every order that sorts the rows and whose ties are the rows that
agree. -/
theorem groups_eq_classes_of {cmp : Row → Row → Ordering} [Std.TransCmp cmp] {positions : List Nat}
    {rows : List Row}
    (hsort : ∀ a ∈ rows, ∀ b ∈ rows,
      OrderKey.compareAll a b (OrderKey.ascendingAt positions) = cmp a b)
    (hties : ∀ a ∈ rows, ∀ b ∈ rows, agreeOn positions a b = (cmp a b == .eq)) :
    (sortByKeys positions rows).splitBy (agreeOn positions) = classes cmp rows := by
  have hsorted : sortByKeys positions rows = inOrder cmp rows := by
    unfold sortByKeys
    split
    · -- without keys all rows tie, and stay where they are
      rename_i hempty
      rw [List.isEmpty_iff.mp hempty] at hsort
      refine (List.mergeSort_of_pairwise ?_).symm
      exact List.pairwise_of_forall_mem_list fun a ha b hb => by rw [← hsort a ha b hb]; rfl
    · exact sortRows_eq_inOrder_of hsort
  rw [hsorted, classes]
  have hsplit : ((inOrder cmp rows).splitBy (agreeOn positions)).map (List.map id) =
      ((inOrder cmp rows).map id).splitBy fun a b => cmp a b == .eq := by
    refine map_splitBy fun a ha b hb => ?_
    rw [(inOrder_perm cmp rows).mem_iff] at ha hb
    exact hties a ha b hb
  simpa using hsplit

/-- Groups of rows without reals in their keys are classes of rows. -/
theorem groups_eq_classes {positions : List Nat} {rows : List Row}
    (noReal : ∀ row ∈ rows, row.NoRealAt (OrderKey.ascendingAt positions)) :
    (sortByKeys positions rows).splitBy (agreeOn positions) =
      classes (Row.keyOrder (OrderKey.ascendingAt positions)) rows :=
  groups_eq_classes_of
    (fun a ha b hb => Row.compareAll_eq_keyOrder (noReal a ha) (noReal b hb))
    fun a ha b hb => Row.agreeOn_eq_keyOrder (noReal a ha) (noReal b hb)

/-- The rows of a group agree in the keys. -/
lemma agreeOn_of_mem_class {positions : List Nat} {rows group : List Row}
    (noReal : ∀ row ∈ rows, row.NoRealAt (OrderKey.ascendingAt positions))
    (hgroup : group ∈ classes (Row.keyOrder (OrderKey.ascendingAt positions)) rows) {a b : Row}
    (ha : a ∈ group) (hb : b ∈ group) : agreeOn positions a b = true := by
  rw [Row.agreeOn_eq_keyOrder (noReal a (mem_of_mem_class hgroup ha))
    (noReal b (mem_of_mem_class hgroup hb)), tie_of_mem_class hgroup ha hb]
  rfl

end RelQuery
