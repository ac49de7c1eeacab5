import Mathlib.Data.List.Basic
import Mathlib.Data.List.Induction
import Mathlib.Tactic.Lemma
import RelQuery.Join.Boundary
import RelQuery.StableSort

/-!
# Sorted lists

Stable sorting keeps elements that tie in their given order.  In a sorted list the elements of a
downward closed set come first, so halving finds where they end, and a run of them is all of them.
Inserting one element after the other and merging come to the same wherever a comparison orders the
elements up to ties.
-/

namespace RelQuery

section Sorted

variable {α : Type}

/-- A list of two parts that a test tells apart is split by it. -/
lemma filter_parts {p : α → Bool} {before after : List α} (hbefore : ∀ a ∈ before, p a = false)
    (hafter : ∀ a ∈ after, p a = true) :
    (before ++ after).filter (fun a => !p a) = before ∧ (before ++ after).filter p = after := by
  have failing : before.filter p = [] := List.filter_eq_nil_iff.mpr (by simpa using hbefore)
  have passing : after.filter (fun a => !p a) = [] :=
    List.filter_eq_nil_iff.mpr (by simpa using hafter)
  constructor
  · rw [List.filter_append, passing, List.append_nil,
      List.filter_eq_self.mpr (by simpa using hbefore)]
  · rw [List.filter_append, failing, List.nil_append, List.filter_eq_self.mpr hafter]

/-- Stable sorting commutes with filtering. -/
theorem filter_mergeSort {le : α → α → Bool} (trans : ∀ a b c, le a b → le b c → le a c)
    (total : ∀ a b, le a b || le b a) (p : α → Bool) (l : List α) :
    (l.mergeSort le).filter p = (l.filter p).mergeSort le := by
  -- the place of a new element in a sorted list is before all that it need not come after
  have placed {a : α} {rest before after : List α}
      (hsorted : (a :: rest).mergeSort le = before ++ a :: after) : ∀ b ∈ after, le a b = true := by
    have sorted := List.pairwise_mergeSort trans total (a :: rest)
    rw [hsorted, List.pairwise_append, List.pairwise_cons] at sorted
    exact sorted.2.1.1
  induction l with
  | nil => simp
  | cons a rest ih =>
    obtain ⟨before, after, hsorted, hrest, hbefore⟩ := List.mergeSort_cons trans total a rest
    rw [hrest, List.filter_append] at ih
    cases hpa : p a with
    | false =>
      rw [hsorted, List.filter_append, List.filter_cons_of_neg (by simp [hpa]), ih,
        List.filter_cons_of_neg (by simp [hpa])]
    | true =>
      obtain ⟨before', after', hsorted', hrest', hbefore'⟩ :=
        List.mergeSort_cons trans total a (rest.filter p)
      obtain ⟨hsame, hsame'⟩ := filter_parts (p := le a)
        (fun (b : α) (hb : b ∈ before.filter p) => by
          simpa using hbefore b (List.mem_filter.mp hb).1)
        fun (b : α) (hb : b ∈ after.filter p) => placed hsorted b (List.mem_filter.mp hb).1
      obtain ⟨hparts, hparts'⟩ := filter_parts (p := le a)
        (fun b hb => by simpa using hbefore' b hb) (placed hsorted')
      rw [ih.trans hrest'] at hsame hsame'
      rw [hsorted, List.filter_append, List.filter_cons_of_pos hpa, List.filter_cons_of_pos hpa,
        hsorted', hsame.symm.trans hparts, hsame'.symm.trans hparts']

/-- In a sorted list the elements of a downward closed set come first. -/
lemma filter_append_filter_not {R : α → α → Prop} {p : α → Bool}
    (closed : ∀ a b, R a b → p b = true → p a = true) {l : List α} (sorted : l.Pairwise R) :
    l.filter p ++ l.filter (fun a => !p a) = l := by
  induction l with
  | nil => rfl
  | cons a rest ih =>
    rw [List.pairwise_cons] at sorted
    by_cases ha : p a = true
    · simpa [ha] using ih sorted.2
    · -- nothing after the first element that fails passes
      have hrest : ∀ b ∈ rest, p b = false := by
        intro b hb
        rw [← Bool.not_eq_true]
        exact fun hpb => ha (closed a b (sorted.1 b hb) hpb)
      have none_passes : rest.filter p = [] := List.filter_eq_nil_iff.mpr (by simpa using hrest)
      have all_fail : rest.filter (fun b => !p b) = rest :=
        List.filter_eq_self.mpr (by simpa using hrest)
      simp [ha, none_passes, all_fail]

/-- In a sorted list the run of a downward closed set is all of it. -/
lemma takeWhile_eq_filter {R : α → α → Prop} {p : α → Bool}
    (closed : ∀ a b, R a b → p b = true → p a = true) {l : List α} (sorted : l.Pairwise R) :
    l.takeWhile p = l.filter p := by
  induction l with
  | nil => rfl
  | cons a rest ih =>
    rw [List.pairwise_cons] at sorted
    by_cases ha : p a = true
    · simp [ha, ih sorted.2]
    · have none_passes : rest.filter p = [] := List.filter_eq_nil_iff.mpr fun b hb hpb =>
        ha (closed a b (sorted.1 b hb) hpb)
      simp [ha, none_passes]

/-- A run of elements that pass a test is a part of them all. -/
lemma takeWhile_sublist_filter (p : α → Bool) (l : List α) :
    (l.takeWhile p).Sublist (l.filter p) := by
  have hpassing : (l.takeWhile p).filter p = l.takeWhile p :=
    List.filter_eq_self.mpr (List.all_eq_true.mp List.all_takeWhile)
  rw [← hpassing]
  exact (List.takeWhile_sublist p).filter p

/-- In a sorted list halving skips a downward closed set. -/
lemma drop_boundary {R : α → α → Prop} {p : α → Bool}
    (closed : ∀ a b, R a b → p b = true → p a = true) {l : List α} (sorted : l.Pairwise R) :
    l.drop (boundary p l) = l.filter fun a => !p a := by
  have hsplit := filter_append_filter_not closed sorted
  have hboundary : boundary p (l.filter p ++ l.filter fun a => !p a) = (l.filter p).length :=
    boundary_append (fun a ha => (List.mem_filter.mp ha).2)
      fun a ha => by simpa using (List.mem_filter.mp ha).2
  calc l.drop (boundary p l)
      = (l.filter p ++ l.filter fun a => !p a).drop (l.filter p).length := by
        rw [← hboundary, hsplit]
    _ = l.filter fun a => !p a := List.drop_left

end Sorted

/-! ## The order of a comparison -/

section InOrder

variable {α β : Type} {cmp : α → α → Ordering} {cmp' : β → β → Ordering} {f : α → β}

/-- The elements in the order of a comparison, those that tie in their given order. -/
def inOrder (cmp : α → α → Ordering) (l : List α) : List α :=
  l.mergeSort fun a b => (cmp a b).isLE

/-- Bringing in order keeps the bag of elements. -/
lemma inOrder_perm (cmp : α → α → Ordering) (l : List α) : (inOrder cmp l).Perm l :=
  List.mergeSort_perm l _

/-- Elements that are compared by their images have their images in order. -/
lemma map_inOrder {l : List α} (h : ∀ a ∈ l, ∀ b ∈ l, cmp a b = cmp' (f a) (f b)) :
    (inOrder cmp l).map f = inOrder cmp' (l.map f) :=
  List.map_mergeSort fun a ha b hb => by rw [h a ha b hb]

/-- The order depends on the comparison of the elements only. -/
lemma inOrder_congr {cmp' : α → α → Ordering} {l : List α}
    (h : ∀ a ∈ l, ∀ b ∈ l, cmp a b = cmp' a b) : inOrder cmp l = inOrder cmp' l := by
  simpa using map_inOrder (f := id) h

variable [Std.TransCmp cmp]

/-- Everything ties with itself. -/
lemma self_tie (cmp : α → α → Ordering) [Std.TransCmp cmp] (a : α) : cmp a a = .eq :=
  Std.ReflCmp.compare_self

/-- Exchanging the sides turns the order around. -/
lemma swap_eq (cmp : α → α → Ordering) [Std.TransCmp cmp] (a b : α) :
    cmp a b = (cmp b a).swap :=
  Std.OrientedCmp.eq_swap

/-- Of two elements one comes before the other or ties with it. -/
lemma isLE_total (cmp : α → α → Ordering) [Std.TransCmp cmp] (a b : α) :
    (cmp a b).isLE || (cmp b a).isLE := by
  rw [swap_eq cmp b a]
  cases cmp a b <;> rfl

/-- Elements brought in order are sorted. -/
lemma sorted_inOrder (cmp : α → α → Ordering) [Std.TransCmp cmp] (l : List α) :
    (inOrder cmp l).Pairwise fun a b => (cmp a b).isLE :=
  List.pairwise_mergeSort (fun _ _ _ => Std.TransCmp.isLE_trans) (isLE_total cmp) l

/-- Bringing in order commutes with filtering. -/
lemma filter_inOrder (p : α → Bool) (l : List α) :
    (inOrder cmp l).filter p = inOrder cmp (l.filter p) :=
  filter_mergeSort (fun _ _ _ => Std.TransCmp.isLE_trans) (isLE_total cmp) p l

/-- Bringing in order keeps the given order of elements that tie. -/
lemma filter_inOrder_of_tied {p : α → Bool} {l : List α}
    (tied : ∀ a ∈ l, ∀ b ∈ l, p a = true → p b = true → cmp a b = .eq) :
    (inOrder cmp l).filter p = l.filter p := by
  rw [filter_inOrder, inOrder, List.mergeSort_of_pairwise]
  refine List.pairwise_of_forall_mem_list fun a ha b hb => ?_
  rw [List.mem_filter] at ha hb
  rw [tied a ha.1 b hb.1 ha.2 hb.2]
  rfl

/-- Elements compared by their images are compared as consistently as these. -/
lemma transCmp_image (cmp : α → α → Ordering) [Std.TransCmp cmp] (image : β → α) :
    Std.TransCmp fun a b => cmp (image a) (image b) where
  eq_swap := Std.OrientedCmp.eq_swap
  isLE_trans := Std.TransCmp.isLE_trans

end InOrder

/-! ## Stable sorting -/

section StableSort

variable {α β : Type} {cmp : α → α → Ordering} {cmp' : β → β → Ordering} {f : α → β}

/-- The elements inserted last first. -/
lemma insertionSort_append_singleton (cmp : α → α → Ordering) (l : List α) (a : α) :
    insertionSort cmp (l ++ [a]) =
      (insertBackward cmp a (insertionSort cmp l).reverse).reverse := by
  rw [insertionSort, insertionSort, List.foldl_append, List.reverse_reverse]
  rfl

/-- Inserting adds the element. -/
lemma insertBackward_perm (cmp : α → α → Ordering) (a : α) (l : List α) :
    (insertBackward cmp a l).Perm (a :: l) := by
  induction l with
  | nil => exact List.Perm.refl _
  | cons b rest ih =>
    rw [insertBackward]
    split
    · exact (ih.cons b).trans (List.Perm.swap a b rest)
    · exact List.Perm.refl _

/-- Inserting one after the other keeps the bag of elements. -/
lemma insertionSort_perm (cmp : α → α → Ordering) (l : List α) : (insertionSort cmp l).Perm l := by
  induction l using List.reverseRecOn with
  | nil => exact List.Perm.refl _
  | append_singleton l a ih =>
    rw [insertionSort_append_singleton]
    calc (insertBackward cmp a (insertionSort cmp l).reverse).reverse
        |>.Perm (a :: (insertionSort cmp l).reverse) :=
          (List.reverse_perm _).trans (insertBackward_perm _ _ _)
      _ |>.Perm (a :: l) := ((List.reverse_perm _).trans ih).cons a
      _ |>.Perm (l ++ [a]) := (List.perm_append_singleton a l).symm

/-- Sorting keeps the bag of elements. -/
lemma stableSort_perm (cmp : α → α → Ordering) (l : List α) : (stableSort cmp l).Perm l := by
  unfold stableSort
  split
  · exact insertionSort_perm cmp l
  · exact List.mergeSort_perm l _

/-- Nothing is sorted. -/
@[simp] lemma stableSort_nil (cmp : α → α → Ordering) : stableSort cmp [] = [] :=
  rfl

/-- A sorted element is one of the list. -/
@[simp] lemma mem_stableSort {a : α} {l : List α} : a ∈ stableSort cmp l ↔ a ∈ l :=
  (stableSort_perm cmp l).mem_iff

/-- Inserting goes by the images by which the elements are compared. -/
lemma map_insertBackward {a : α} {l : List α} (h : ∀ b ∈ l, cmp a b = cmp' (f a) (f b)) :
    (insertBackward cmp a l).map f = insertBackward cmp' (f a) (l.map f) := by
  induction l with
  | nil => rfl
  | cons b rest ih =>
    rw [List.forall_mem_cons] at h
    rw [List.map_cons, insertBackward, insertBackward, ← h.1, ← ih h.2]
    split <;> rfl

/-- Inserting one after the other goes by the images by which the elements are compared. -/
lemma map_insertionSort {l : List α} (h : ∀ a ∈ l, ∀ b ∈ l, cmp a b = cmp' (f a) (f b)) :
    (insertionSort cmp l).map f = insertionSort cmp' (l.map f) := by
  induction l using List.reverseRecOn with
  | nil => rfl
  | append_singleton l a ih =>
    have hbefore : ∀ b ∈ l, ∀ c ∈ l, cmp b c = cmp' (f b) (f c) := fun b hb c hc =>
      h b (List.mem_append_left _ hb) c (List.mem_append_left _ hc)
    have hnew : ∀ b ∈ (insertionSort cmp l).reverse, cmp a b = cmp' (f a) (f b) := by
      intro b hb
      have hb : b ∈ l := (insertionSort_perm cmp l).mem_iff.mp (List.mem_reverse.mp hb)
      exact h a (by simp) b (List.mem_append_left _ hb)
    rw [insertionSort_append_singleton, List.map_reverse, map_insertBackward hnew,
      List.map_reverse, ih hbefore, List.map_append, List.map_singleton,
      insertionSort_append_singleton]

/-- Elements that are compared by their images have their images sorted. -/
lemma map_stableSort {l : List α} (h : ∀ a ∈ l, ∀ b ∈ l, cmp a b = cmp' (f a) (f b)) :
    (stableSort cmp l).map f = stableSort cmp' (l.map f) := by
  unfold stableSort
  rw [List.length_map]
  split
  · exact map_insertionSort h
  · exact List.map_mergeSort fun a ha b hb => by rw [h a ha b hb]

/-- Sorting depends on the comparison of the elements only. -/
lemma stableSort_congr {cmp' : α → α → Ordering} {l : List α}
    (h : ∀ a ∈ l, ∀ b ∈ l, cmp a b = cmp' a b) : stableSort cmp l = stableSort cmp' l := by
  simpa using map_stableSort (f := id) h

/-- An element goes past all that it comes before. -/
lemma insertBackward_append {a : α} {later : List α} (hlater : ∀ b ∈ later, cmp a b = .lt)
    (earlier : List α) :
    insertBackward cmp a (later ++ earlier) = later ++ insertBackward cmp a earlier := by
  induction later with
  | nil => rfl
  | cons b rest ih =>
    rw [List.forall_mem_cons] at hlater
    rw [List.cons_append, insertBackward, if_pos hlater.1, ih hlater.2]
    rfl

/-- An element stays behind one that it does not come before. -/
lemma insertBackward_of_not_lt {a : α} {earlier : List α}
    (hearlier : ∀ b ∈ earlier, cmp a b ≠ .lt) :
    insertBackward cmp a earlier = a :: earlier := by
  cases earlier with
  | nil => rfl
  | cons b rest => rw [insertBackward, if_neg (hearlier b List.mem_cons_self)]

/-- Where all elements tie, they stay where they are. -/
lemma stableSort_of_tied {l : List α} (h : ∀ a ∈ l, ∀ b ∈ l, cmp a b = .eq) :
    stableSort cmp l = l := by
  have hinserted : ∀ l : List α, (∀ a ∈ l, ∀ b ∈ l, cmp a b = .eq) → insertionSort cmp l = l := by
    intro l h
    induction l using List.reverseRecOn with
    | nil => rfl
    | append_singleton l a ih =>
      have hbehind : ∀ b ∈ l.reverse, cmp a b ≠ .lt := by
        intro b hb
        rw [h a (by simp) b (List.mem_append_left _ (List.mem_reverse.mp hb))]
        decide
      have hbefore : ∀ b ∈ l, ∀ c ∈ l, cmp b c = .eq := fun b hb c hc =>
        h b (List.mem_append_left _ hb) c (List.mem_append_left _ hc)
      rw [insertionSort_append_singleton, ih hbefore, insertBackward_of_not_lt hbehind,
        List.reverse_cons, List.reverse_reverse]
  unfold stableSort
  split
  · exact hinserted l h
  · refine List.mergeSort_of_pairwise (List.pairwise_of_forall_mem_list fun a ha b hb => ?_)
    rw [h a ha b hb]
    rfl

variable [Std.TransCmp cmp]

/-- Elements in order are those before one, its ties in their given order, and those after it. -/
lemma inOrder_eq_parts (a : α) (l : List α) :
    inOrder cmp l = inOrder cmp (l.filter fun b => cmp b a == .lt) ++
      (l.filter fun b => cmp b a == .eq) ++ inOrder cmp (l.filter fun b => cmp b a == .gt) := by
  have hbefore : ∀ b c, (cmp b c).isLE → (cmp c a == .lt) = true → (cmp b a == .lt) = true := by
    intro b c hbc hca
    rw [beq_iff_eq] at hca ⊢
    exact Std.TransCmp.lt_of_isLE_of_lt hbc hca
  have hupTo : ∀ b c, (cmp b c).isLE → (cmp c a).isLE = true → (cmp b a).isLE = true :=
    fun b c => Std.TransCmp.isLE_trans
  have hties : ((inOrder cmp l).filter fun b => cmp b a == .eq) =
      l.filter fun b => cmp b a == .eq := by
    refine filter_inOrder_of_tied fun b _ c _ hb hc => ?_
    rw [beq_iff_eq] at hb hc
    exact Std.TransCmp.eq_trans hb (Std.OrientedCmp.eq_symm hc)
  rw [← filter_inOrder, ← filter_inOrder, ← hties]
  have houter := filter_append_filter_not hupTo (sorted_inOrder cmp l)
  have hinner := filter_append_filter_not hbefore
    ((sorted_inOrder cmp l).filter fun b => (cmp b a).isLE)
  rw [List.filter_filter, List.filter_filter] at hinner
  rw [← hinner] at houter
  refine houter.symm.trans ?_
  congr 1
  · congr 1
    · refine List.filter_congr fun b _ => ?_
      cases cmp b a <;> rfl
    · refine List.filter_congr fun b _ => ?_
      cases cmp b a <;> rfl
  · refine List.filter_congr fun b _ => ?_
    cases cmp b a <;> rfl

/-- An element that is brought in order behind others goes between those that it need not come
before and those that it comes before. -/
lemma exists_inOrder_append_singleton (cmp : α → α → Ordering) [Std.TransCmp cmp] (l : List α)
    (a : α) : ∃ before after, inOrder cmp l = before ++ after ∧
      inOrder cmp (l ++ [a]) = before ++ a :: after ∧ (∀ b ∈ before, cmp a b ≠ .lt) ∧
        ∀ b ∈ after, cmp a b = .lt := by
  refine ⟨_, _, inOrder_eq_parts a l, ?_, fun b hb => ?_, fun b hb => ?_⟩
  · have hself := self_tie cmp a
    rw [inOrder_eq_parts a (l ++ [a])]
    simp [List.filter_append, hself]
  · rw [swap_eq cmp a b]
    rcases List.mem_append.mp hb with hb | hb
    · rw [(inOrder_perm _ _).mem_iff, List.mem_filter, beq_iff_eq] at hb
      simp [hb.2]
    · rw [List.mem_filter, beq_iff_eq] at hb
      simp [hb.2]
  · rw [(inOrder_perm _ _).mem_iff, List.mem_filter, beq_iff_eq] at hb
    rw [swap_eq cmp a b, hb.2]
    rfl

/-- Inserting one after the other brings the elements in order. -/
lemma insertionSort_eq_inOrder (cmp : α → α → Ordering) [Std.TransCmp cmp] (l : List α) :
    insertionSort cmp l = inOrder cmp l := by
  induction l using List.reverseRecOn with
  | nil => simp [insertionSort, inOrder]
  | append_singleton l a ih =>
    obtain ⟨before, after, hold, hnew, hbefore, hafter⟩ := exists_inOrder_append_singleton cmp l a
    have hpast : ∀ b ∈ after.reverse, cmp a b = .lt := fun b hb =>
      hafter b (List.mem_reverse.mp hb)
    have hbehind : ∀ b ∈ before.reverse, cmp a b ≠ .lt := fun b hb =>
      hbefore b (List.mem_reverse.mp hb)
    rw [insertionSort_append_singleton, ih, hold, hnew, List.reverse_append,
      insertBackward_append hpast, insertBackward_of_not_lt hbehind]
    simp

/-- Sorting brings the elements in order. -/
theorem stableSort_eq_inOrder (cmp : α → α → Ordering) [Std.TransCmp cmp] (l : List α) :
    stableSort cmp l = inOrder cmp l := by
  unfold stableSort
  split
  · exact insertionSort_eq_inOrder cmp l
  · rfl

end StableSort

end RelQuery
