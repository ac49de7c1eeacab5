import RelQuery.Join.Step
import RelQuery.Proofs.Result
import RelQuery.Proofs.Sorting
import RelQuery.Proofs.Value.KeyOrder

/-!
# Partners by sorting and searching

A match step sorts the keys of the new table and looks for the partners of a tuple by halving.  This
is right if there is a scale on which the keys are sorted and by which they compare with the key of
the tuple: then the keys less than the probe come first and the equal ones next, so the search finds
all rows with an equal key.  Keys that are not real are such a scale themselves, and stable sorting
keeps equal keys in their given order.
-/

namespace RelQuery

/-! ## Searching on a scale -/

section Search

variable {β : Type} {cmp : β → β → Ordering} {measure : Value → β} {probe : Value} {place : β}
  {keys : List (Value × Nat)} {found : List Nat}

/-- The keys are sorted on a scale, and what is asked about a key and the probe is answered by the
measure of the key and the place of the probe. -/
structure Searchable (cmp : β → β → Ordering) (measure : Value → β) (probe : Value) (place : β)
    (keys : List (Value × Nat)) : Prop where
  sorted : keys.Pairwise fun a b => (cmp (measure a.1) (measure b.1)).isLE
  sortOrder_eq : ∀ key ∈ keys, key.1.sortOrder probe = cmp (measure key.1) place
  equal_eq : ∀ key ∈ keys, probe.equal key.1 = (cmp (measure key.1) place == .eq)

/-- The run of equal keys ends before the first one that is not equal. -/
lemma equalRun_eq (h : equalRun probe keys = .ok found) :
    found = (keys.takeWhile fun key => probe.equal key.1).map Prod.snd := by
  induction keys generalizing found with
  | nil => simpa [equalRun, eq_comm] using h
  | cons key rest ih =>
    obtain ⟨value, index⟩ := key
    rw [equalRun] at h
    by_cases hequal : probe.equal value = true
    · simp only [Value.equal_eq_true.mp hequal] at h
      obtain ⟨others, hothers, rfl⟩ := Result.map_eq_ok.mp h
      simp [hequal, ih hothers]
    · have hfound : found = [] := by
        unfold Value.equal Value.ordered at hequal
        split at h
        · simp at h
        · rename_i hcompare
          simp [hcompare] at hequal
        · exact (Except.ok.inj h).symm
      simp [hequal, hfound]

/-- The run of equal keys is found if every key can be compared with the probe. -/
lemma exists_equalRun (h : ∀ key ∈ keys, ∃ order, probe.compare? key.1 = .ok order) :
    ∃ found, equalRun probe keys = .ok found := by
  induction keys with
  | nil => exact ⟨[], rfl⟩
  | cons key rest ih =>
    obtain ⟨found, hfound⟩ := ih fun other hother => h other (List.mem_cons_of_mem _ hother)
    obtain ⟨order, horder⟩ := h key List.mem_cons_self
    rw [equalRun, horder]
    rcases order with _ | _ | _ | _
    all_goals simp [hfound, Except.map]

/-- Partners are found if every key can be compared with the probe. -/
lemma exists_partners (h : ∀ key ∈ keys, ∃ order, probe.compare? key.1 = .ok order) :
    ∃ found, partners keys (some probe) = .ok found := by
  rw [partners]
  split
  · exact ⟨[], rfl⟩
  · exact exists_equalRun fun key hkey => h key (List.mem_of_mem_drop hkey)

/-- Among searchable keys halving finds all that are equal to the probe. -/
theorem Searchable.partners_eq [Std.TransCmp cmp] (h : Searchable cmp measure probe place keys)
    (hnull : probe.isNull = false) (hfound : partners keys (some probe) = .ok found) :
    found = (keys.filter fun key => probe.equal key.1).map Prod.snd := by
  rw [partners, hnull, if_neg Bool.false_ne_true] at hfound
  -- the keys less than the probe come first
  have hskipped := drop_boundary (p := fun key => key.1.sortOrder probe == .lt)
    (fun a b ⟨ha, hb, hab⟩ hless => by
      rw [h.sortOrder_eq b hb, beq_iff_eq] at hless
      rw [h.sortOrder_eq a ha, beq_iff_eq]
      exact Std.TransCmp.lt_of_isLE_of_lt hab hless) (List.Pairwise.and_mem.mp h.sorted)
  -- among the others the equal ones come first
  have hrun := takeWhile_eq_filter (p := fun key => probe.equal key.1)
    (fun a b ⟨ha, hb, hab⟩ hequal => by
      obtain ⟨ha, hnotless⟩ := List.mem_filter.mp ha
      rw [h.equal_eq b (List.mem_of_mem_filter hb), beq_iff_eq] at hequal
      rw [h.sortOrder_eq a ha] at hnotless
      have htie : (cmp (measure b.1) place).isLE := by rw [hequal]; rfl
      have hle := Std.TransCmp.isLE_trans hab htie
      rw [h.equal_eq a ha]
      cases horder : cmp (measure a.1) place <;> simp_all)
    (List.Pairwise.and_mem.mp (h.sorted.filter fun key => !(key.1.sortOrder probe == .lt)))
  rw [equalRun_eq hfound, hskipped, hrun, List.filter_filter]
  congr 1
  refine List.filter_congr fun key hkey => ?_
  rw [h.equal_eq key hkey, h.sortOrder_eq key hkey]
  cases cmp (measure key.1) place <;> rfl

/-- Keys whose order of sorting is that of a scale are sorted on the scale. -/
lemma sortKeys_eq_inOrder (cmp : β → β → Ordering) [Std.TransCmp cmp] (measure : Value → β)
    (h : ∀ a ∈ keys.filter fun key => !key.1.isNull, ∀ b ∈ keys.filter fun key => !key.1.isNull,
      a.1.sortOrder b.1 = cmp (measure a.1) (measure b.1)) :
    sortKeys keys = inOrder (fun a b => cmp (measure a.1) (measure b.1))
      (keys.filter fun key => !key.1.isNull) := by
  have := transCmp_image cmp fun key : Value × Nat => measure key.1
  rw [sortKeys, stableSort_congr h, stableSort_eq_inOrder]

end Search

/-- A sorted key is one of the keys, and not NULL. -/
lemma mem_sortKeys {keys : List (Value × Nat)} {key : Value × Nat} :
    key ∈ sortKeys keys ↔ key ∈ keys ∧ key.1.isNull = false := by
  rw [sortKeys, mem_stableSort, List.mem_filter, Bool.not_eq_true']

/-! ## Keys that are not real -/

/-- The keys other than NULL, brought in order. -/
def orderedKeys (keys : List (Value × Nat)) : List (Value × Nat) :=
  inOrder (fun a b => a.1.keyOrder b.1) (keys.filter fun key => !key.1.isNull)

section Plain

variable {keys : List (Value × Nat)} {probe : Value}

/-- An ordered key is a key that is not NULL. -/
lemma mem_orderedKeys {key : Value × Nat} :
    key ∈ orderedKeys keys ↔ key ∈ keys ∧ key.1.isNull = false := by
  rw [orderedKeys, (inOrder_perm _ _).mem_iff, List.mem_filter, Bool.not_eq_true']

/-- Sorting keys that are not real brings them in order. -/
lemma sortKeys_eq_orderedKeys (hreal : ∀ key ∈ keys, key.1.isReal = false) :
    sortKeys keys = orderedKeys keys :=
  sortKeys_eq_inOrder Value.keyOrder id fun a ha b hb =>
    Value.sortOrder_eq_keyOrder (hreal a (List.mem_of_mem_filter ha))
      (hreal b (List.mem_of_mem_filter hb))

/-- Keys that are not real can be searched for such a probe. -/
lemma searchable_orderedKeys (hreal : ∀ key ∈ keys, key.1.isReal = false)
    (hprobe : probe.isReal = false) :
    Searchable Value.keyOrder id probe probe (orderedKeys keys) where
  sorted := by
    have := transCmp_image Value.keyOrder fun key : Value × Nat => key.1
    exact sorted_inOrder (fun a b : Value × Nat => a.1.keyOrder b.1) _
  sortOrder_eq key hkey :=
    Value.sortOrder_eq_keyOrder (hreal key (mem_orderedKeys.mp hkey).1) hprobe
  equal_eq key hkey := by
    obtain ⟨hkey, hnull⟩ := mem_orderedKeys.mp hkey
    have hkeyReal := hreal key hkey
    rw [Bool.eq_iff_iff, Value.equal_iff hprobe hkeyReal, id_eq, beq_iff_eq,
      Value.keyOrder_eq_iff hkeyReal hprobe]
    constructor
    · exact fun h => h.1.symm
    · exact fun h => ⟨h.symm, h ▸ hnull⟩

/-- Among keys that are not real the ordered ones that equal the probe are those in given order. -/
lemma filter_orderedKeys (hreal : ∀ key ∈ keys, key.1.isReal = false)
    (hprobe : probe.isReal = false) :
    (orderedKeys keys).filter (fun key => probe.equal key.1) =
      keys.filter fun key => probe.equal key.1 := by
  have same {key : Value × Nat} (hkey : key ∈ keys) (hequal : probe.equal key.1 = true) :
      probe = key.1 ∧ probe.isNull = false := (Value.equal_iff hprobe (hreal key hkey)).mp hequal
  have := transCmp_image Value.keyOrder fun key : Value × Nat => key.1
  rw [orderedKeys, filter_inOrder_of_tied, List.filter_filter]
  · refine List.filter_congr fun key hkey => ?_
    cases hequal : probe.equal key.1 with
    | false => rfl
    | true =>
      obtain ⟨hsame, hnull⟩ := same hkey hequal
      rw [← hsame, hnull]
      rfl
  · intro a ha b hb hequal hequal'
    rw [← (same (List.mem_of_mem_filter ha) hequal).1,
      ← (same (List.mem_of_mem_filter hb) hequal').1, Value.keyOrder_self]

end Plain

/-- The search finds all keys that are equal to the probe, in the given order. -/
theorem partners_eq {keys : List (Value × Nat)} (hreal : ∀ key ∈ keys, key.1.isReal = false)
    {probe : Option Value} (hprobe : ∀ value, probe = some value → value.isReal = false)
    {found : List Nat}
    (h : partners (sortKeys keys) probe = .ok found) :
    found = (keys.filter fun key => probe.any (·.equal key.1)).map Prod.snd := by
  cases probe with
  | none =>
    obtain rfl := Except.ok.inj h
    simp
  | some probe =>
    have hprobe := hprobe probe rfl
    rw [sortKeys_eq_orderedKeys hreal] at h
    simp only [Option.any_some]
    cases hnull : probe.isNull with
    | true =>
      obtain rfl := Value.isNull_eq_true.mp hnull
      obtain rfl := Except.ok.inj h
      simp
    | false =>
      rw [(searchable_orderedKeys hreal hprobe).partners_eq hnull h,
        filter_orderedKeys hreal hprobe]

end RelQuery
