import RelQuery.Proofs.Group.Runs

/-!
# Runs by keys

What is sorted by keys and cut where a key changes may be anything that has values for the keys: the
runs of the elements have for their images the runs of the rows in which those values stand.
Nothing is assumed about the values.  Where reals break the order, the runs need not be classes of
equal keys, and are still what grouping goes by.
-/

namespace RelQuery

section KeyRuns

variable {α : Type} {keys keys' : List (α → Value)} {l : List α}

/-- The order of two elements: that of the first key at which they differ. -/
def compareBy (a b : α) : List (α → Value) → Ordering
  | [] => .eq
  | key :: rest => ((key a).sortOrder (key b)).then (compareBy a b rest)

/-- The elements in the order of their keys, cut where two neighbours differ in a key.  Without keys
all elements are one run, even where there are none. -/
def runsBy (keys : List (α → Value)) (l : List α) : List (List α) :=
  if keys.isEmpty then [l]
  else (stableSort (fun a b => compareBy a b keys) l).splitBy
    fun a b => keys.all fun key => (key a).alike (key b)

/-- The elements of a run are elements of the list. -/
lemma mem_of_mem_runsBy {run : List α} (hrun : run ∈ runsBy keys l) {a : α} (ha : a ∈ run) :
    a ∈ l := by
  unfold runsBy at hrun
  split at hrun
  · rwa [List.mem_singleton.mp hrun] at ha
  · exact mem_stableSort.mp (mem_of_mem_run hrun ha)

/-- No run is empty, unless nothing at all is taken for one run. -/
lemma ne_nil_of_mem_runsBy {run : List α} (hrun : run ∈ runsBy keys l)
    (inhabited : keys ≠ [] ∨ l ≠ []) : run ≠ [] := by
  unfold runsBy at hrun
  split at hrun
  · rename_i hkeys
    rw [List.mem_singleton.mp hrun]
    exact inhabited.resolve_left fun h => h (List.isEmpty_iff.mp hkeys)
  · exact List.ne_nil_of_mem_splitBy hrun

/-- Two keys compare the elements of a list alike. -/
def AlikeOn (l : List α) (key key' : α → Value) : Prop :=
  ∀ a ∈ l, ∀ b ∈ l, (key a).sortOrder (key b) = (key' a).sortOrder (key' b) ∧
    (key a).alike (key b) = (key' a).alike (key' b)

/-- Keys that compare alike order and separate the elements of a list alike. -/
lemma compareBy_congr (h : List.Forall₂ (AlikeOn l) keys keys') {a b : α} (ha : a ∈ l)
    (hb : b ∈ l) : compareBy a b keys = compareBy a b keys' ∧
      (keys.all fun key => (key a).alike (key b)) =
        keys'.all fun key => (key a).alike (key b) := by
  induction h with
  | nil => exact ⟨rfl, rfl⟩
  | cons hkey _ ih =>
    obtain ⟨horder, halike⟩ := hkey a ha b hb
    rw [compareBy, compareBy, List.all_cons, List.all_cons, horder, halike, ih.1, ih.2]
    exact ⟨rfl, rfl⟩

/-- Keys that compare alike make the same runs. -/
lemma runsBy_congr (h : List.Forall₂ (AlikeOn l) keys keys') : runsBy keys l = runsBy keys' l := by
  have hempty : keys.isEmpty = keys'.isEmpty := by
    cases h <;> rfl
  have hsorted : stableSort (fun a b => compareBy a b keys) l =
      stableSort (fun a b => compareBy a b keys') l :=
    stableSort_congr fun a ha b hb => (compareBy_congr h ha hb).1
  unfold runsBy
  rw [hempty, hsorted]
  congr 1
  have himages : ((stableSort (fun a b => compareBy a b keys') l).splitBy
        fun a b => keys.all fun key => (key a).alike (key b)).map (List.map id) =
      ((stableSort (fun a b => compareBy a b keys') l).map id).splitBy
        fun a b => keys'.all fun key => (key a).alike (key b) :=
    map_splitBy fun a ha b hb => (compareBy_congr h (mem_stableSort.mp ha)
      (mem_stableSort.mp hb)).2
  simpa using himages

/-! ## Rows -/

/-- The values that stand at some positions of the row of an element. -/
def keysAt (row : α → Row) (positions : List Nat) : List (α → Value) :=
  positions.map fun position a => (row a).getD position .null

/-- Elements are compared as their rows are. -/
lemma compareBy_keysAt (row : α → Row) (positions : List Nat) (a b : α) :
    compareBy a b (keysAt row positions) =
      OrderKey.compareAll (row a) (row b) (OrderKey.ascendingAt positions) := by
  induction positions with
  | nil => rfl
  | cons position rest ih =>
    rw [keysAt, List.map_cons, compareBy, ← keysAt, ih]
    rfl

/-- The images of the runs are the runs of the rows in which the keys stand. -/
theorem map_runsBy (row : α → Row) (positions : List Nat) (inhabited : l ≠ []) :
    (runsBy (keysAt row positions) l).map (List.map row) =
      (sortByKeys positions (l.map row)).splitBy (agreeOn positions) := by
  cases positions with
  | nil =>
    -- without keys the rows are one run
    have hsingle : (l.map row).splitBy (agreeOn []) = [l.map row] :=
      List.splitBy_of_isChain (by simpa using inhabited)
        (List.Pairwise.isChain (List.pairwise_of_forall_mem_list fun _ _ _ _ => rfl))
    exact hsingle.symm
  | cons position positions =>
    have hsorted : (stableSort
        (fun a b => compareBy a b (keysAt row (position :: positions))) l).map row =
          sortByKeys (position :: positions) (l.map row) :=
      map_stableSort fun a _ b _ => compareBy_keysAt row (position :: positions) a b
    rw [← hsorted]
    refine map_splitBy fun a _ b _ => ?_
    rw [keysAt, List.all_map, agreeOn]
    rfl

end KeyRuns

end RelQuery
