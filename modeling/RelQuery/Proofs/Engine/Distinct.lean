import Mathlib.Data.List.Induction
import Mathlib.Data.List.Nodup
import RelQuery.Engine.Distinct
import RelQuery.Proofs.Codec.Record
import RelQuery.Proofs.Result

/-!
# Distinct rows

Rows with the same key are the same, so removing duplicates by key keeps the rows at the positions
where they occur first.  These have every row once, so what is kept depends on the bag of rows only,
up to order.
-/

namespace RelQuery

/-! ## Keys -/

/-- Rows of the same records are the same. -/
lemma writeRow_inj {row row' : Row} {bytes : List UInt8} (h : (writeRow row).Gives bytes)
    (h' : (writeRow row').Gives bytes) : row = row' := by
  induction row generalizing row' bytes with
  | nil =>
    obtain rfl := Written.gives_ofBytes_iff.mp h
    cases row' with
    | nil => rfl
    | cons value rest =>
      obtain ⟨before, after, hbefore, -, heq⟩ := Written.gives_append_iff.mp h'
      exact absurd (List.append_eq_nil_iff.mp heq.symm).1 (Value.ne_nil_of_encode hbefore)
  | cons value rest ih =>
    obtain ⟨before, after, hbefore, hafter, rfl⟩ := Written.gives_append_iff.mp h
    cases row' with
    | nil =>
      have heq := Written.gives_ofBytes_iff.mp h'
      exact absurd (List.append_eq_nil_iff.mp heq.symm).1 (Value.ne_nil_of_encode hbefore)
    | cons value' rest' =>
      obtain ⟨before', after', hbefore', hafter', heq⟩ := Written.gives_append_iff.mp h'
      obtain ⟨rfl, rfl⟩ := Value.encode_append_inj hbefore hbefore' heq
      rw [ih hafter hafter']

/-- Rows with the same key are the same. -/
theorem rowKey_inj {row row' : Row} {key : List UInt8} (h : rowKey row = .ok key)
    (h' : rowKey row' = .ok key) : row = row' := by
  have gives : ∀ {row : Row}, rowKey row = .ok key → (writeRow row).Gives key := by
    intro row hrow
    unfold rowKey at hrow
    cases hwritten : (writeRow row).complete with
    | error fault =>
      rw [hwritten] at hrow
      simp [Except.mapError] at hrow
    | ok bytes =>
      rw [hwritten] at hrow
      rw [Written.Gives, hwritten]
      exact congrArg Except.ok (Except.ok.inj hrow)
  exact writeRow_inj (gives h) (gives h')

/-! ## First occurrences -/

/-- The positions whose row is at no earlier position. -/
def firstPositions (rows : List Row) : List Nat :=
  (List.range rows.length).filter fun i => ∀ j < i, rows[j]? ≠ rows[i]?

/-- The rows at these positions, in their order. -/
def firstOccurrences (rows : List Row) : List Row :=
  (firstPositions rows).filterMap (rows[·]?)

/-- The position of a further row is kept when the row is new, and no other position changes. -/
lemma firstPositions_append_singleton (rows : List Row) (row : Row) :
    firstPositions (rows ++ [row]) =
      firstPositions rows ++ if row ∈ rows then [] else [rows.length] := by
  have before {i : Nat} (hi : i < rows.length) : (rows ++ [row])[i]? = rows[i]? :=
    List.getElem?_append_left hi
  have old : ∀ i ∈ List.range rows.length,
      decide (∀ j < i, (rows ++ [row])[j]? ≠ (rows ++ [row])[i]?) =
        decide (∀ j < i, rows[j]? ≠ rows[i]?) := by
    intro i hi
    have hi := List.mem_range.mp hi
    rw [decide_eq_decide, before hi]
    exact forall₂_congr fun j hj => by rw [before (Nat.lt_trans hj hi)]
  have new : (∀ j < rows.length, (rows ++ [row])[j]? ≠ (rows ++ [row])[rows.length]?) ↔
      row ∉ rows := by
    rw [List.getElem?_concat_length, List.mem_iff_getElem?, not_exists]
    constructor
    · intro h j hj
      have hlt := (List.getElem?_eq_some_iff.mp hj).1
      exact h j hlt ((before hlt).trans hj)
    · exact fun h j hlt hj => h j ((before hlt).symm.trans hj)
  rw [firstPositions, List.length_append, List.length_singleton, List.range_succ,
    List.filter_append, List.filter_congr old, List.filter_singleton]
  simp only [new, firstPositions, decide_not, Bool.cond_not, Bool.cond_decide]

/-- A further row is kept when it is new. -/
lemma firstOccurrences_append_singleton (rows : List Row) (row : Row) :
    firstOccurrences (rows ++ [row]) =
      firstOccurrences rows ++ if row ∈ rows then [] else [row] := by
  have before : ∀ i ∈ firstPositions rows, (rows ++ [row])[i]? = rows[i]? := fun i hi =>
    List.getElem?_append_left (List.mem_range.mp (List.mem_of_mem_filter hi))
  rw [firstOccurrences, firstPositions_append_singleton, List.filterMap_append,
    List.filterMap_congr before, firstOccurrences]
  split
  · rfl
  · simp

/-- The rows that occur are those that occur first. -/
lemma mem_firstOccurrences {rows : List Row} {row : Row} :
    row ∈ firstOccurrences rows ↔ row ∈ rows := by
  induction rows using List.reverseRecOn with
  | nil => simp [firstOccurrences]
  | append_singleton rows last ih =>
    rw [firstOccurrences_append_singleton, List.mem_append, ih, List.mem_append,
      List.mem_singleton]
    split
    · rename_i hlast
      rw [List.mem_nil_iff, or_false]
      exact ⟨Or.inl, fun h => h.elim id fun heq => heq ▸ hlast⟩
    · rw [List.mem_singleton]

/-- No row occurs first twice. -/
lemma nodup_firstOccurrences (rows : List Row) : (firstOccurrences rows).Nodup := by
  induction rows using List.reverseRecOn with
  | nil => exact List.nodup_nil
  | append_singleton rows last ih =>
    rw [firstOccurrences_append_singleton]
    split
    · rwa [List.append_nil]
    · rename_i hlast
      refine ih.append (List.nodup_singleton last) ?_
      rw [List.disjoint_singleton]
      exact fun hmem => hlast (mem_firstOccurrences.mp hmem)

/-- Of rows that are different each occurs first. -/
lemma firstOccurrences_of_nodup {rows : List Row} (h : rows.Nodup) :
    firstOccurrences rows = rows := by
  induction rows using List.reverseRecOn with
  | nil => rfl
  | append_singleton rows last ih =>
    have hlast : last ∉ rows := by
      have hdisjoint := List.disjoint_of_nodup_append h
      rwa [List.disjoint_singleton] at hdisjoint
    rw [firstOccurrences_append_singleton, if_neg hlast, ih h.of_append_left]

/-! ## Kept rows -/

/-- A further row is kept when its key is new. -/
lemma firstOfKeys_append_singleton (seen : List (List UInt8)) (keyedRows : List (List UInt8 × Row))
    (key : List UInt8) (row : Row) :
    firstOfKeys seen (keyedRows ++ [(key, row)]) =
      firstOfKeys seen keyedRows ++
        if key ∈ seen ∨ key ∈ keyedRows.map Prod.fst then [] else [row] := by
  induction keyedRows generalizing seen with
  | nil => simp [firstOfKeys]
  | cons p rest ih =>
    obtain ⟨key', row'⟩ := p
    rw [List.cons_append, firstOfKeys, firstOfKeys]
    split
    · -- the key is among those seen, so it makes no difference for the further row
      rename_i hseen
      rw [List.contains_iff_mem] at hseen
      rw [ih]
      have hsame : key ∈ seen ∨ key ∈ ((key', row') :: rest).map Prod.fst ↔
          key ∈ seen ∨ key ∈ rest.map Prod.fst := by
        rw [List.map_cons, List.mem_cons]
        constructor
        · rintro (h | rfl | h)
          · exact Or.inl h
          · exact Or.inl hseen
          · exact Or.inr h
        · exact Or.imp_right Or.inr
      simp only [hsame]
    · rw [ih, List.cons_append]
      simp only [List.mem_cons, List.map_cons, or_assoc, or_left_comm]

/-- By their keys the rows are kept that occur first. -/
lemma firstOfKeys_eq_firstOccurrences {keyedRows : List (List UInt8 × Row)}
    (hkeys : ∀ p ∈ keyedRows, rowKey p.2 = .ok p.1) :
    firstOfKeys [] keyedRows = firstOccurrences (keyedRows.map Prod.snd) := by
  induction keyedRows using List.reverseRecOn with
  | nil => rfl
  | append_singleton before p ih =>
    obtain ⟨key, row⟩ := p
    have hbefore : ∀ p ∈ before, rowKey p.2 = .ok p.1 :=
      fun p hp => hkeys p (List.mem_append_left _ hp)
    have hlast : rowKey row = .ok key := hkeys (key, row) (by simp)
    have hnew : key ∈ before.map Prod.fst ↔ row ∈ before.map Prod.snd := by
      simp only [List.mem_map]
      constructor
      · rintro ⟨p, hp, rfl⟩
        exact ⟨p, hp, rowKey_inj (hbefore p hp) hlast⟩
      · rintro ⟨p, hp, rfl⟩
        exact ⟨p, hp, Except.ok.inj ((hbefore p hp).symm.trans hlast)⟩
    rw [firstOfKeys_append_singleton, List.map_append, List.map_singleton,
      firstOccurrences_append_singleton, ih hbefore]
    simp only [List.not_mem_nil, false_or, hnew]

/-- Removing duplicates succeeds where every row has a key, and leaves the rows that occur first. -/
theorem distinctRows_eq_ok_iff {rows found : List Row} :
    distinctRows rows = .ok found ↔
      (∀ row ∈ rows, ∃ key, rowKey row = .ok key) ∧ found = firstOccurrences rows := by
  have kept {keyedRows : List (List UInt8 × Row)} (hkeyed : rows.mapM keyed = .ok keyedRows) :
      firstOfKeys [] keyedRows = firstOccurrences rows := by
    have hpairs {row : Row} {p : List UInt8 × Row} (hp : keyed row = .ok p) :
        rowKey p.2 = .ok p.1 ∧ p.2 = row := by
      obtain ⟨key, hkey, rfl⟩ := Result.map_eq_ok.mp hp
      exact ⟨hkey, rfl⟩
    have hrows : keyedRows.map Prod.snd = rows := by
      rw [← List.forall₂_eq_eq_eq, List.forall₂_map_left_iff]
      exact ((mapM_eq_ok.mp hkeyed).imp fun row p hp => (hpairs hp).2).flip
    rw [firstOfKeys_eq_firstOccurrences, hrows]
    intro p hp
    obtain ⟨row, -, hrow⟩ := source_of_mem_of_mapM hkeyed hp
    exact (hpairs hrow).1
  rw [distinctRows, Result.map_eq_ok]
  constructor
  · rintro ⟨keyedRows, hkeyed, rfl⟩
    refine ⟨fun row hrow => ?_, kept hkeyed⟩
    obtain ⟨p, -, hp⟩ := ok_of_mem_of_mapM hkeyed hrow
    obtain ⟨key, hkey, -⟩ := Result.map_eq_ok.mp hp
    exact ⟨key, hkey⟩
  · rintro ⟨hkeys, rfl⟩
    choose! key hkey using hkeys
    have hkeyed : rows.mapM keyed = .ok (rows.map fun row => (key row, row)) :=
      mapM_eq_ok_map fun row hrow => Result.map_eq_ok.mpr ⟨key row, hkey row hrow, rfl⟩
    exact ⟨_, hkeyed, kept hkeyed⟩

/-- Removing duplicates keeps every row once. -/
theorem distinctRows_eq_ok {rows found : List Row} (h : distinctRows rows = .ok found) :
    found.Nodup ∧ ∀ row, row ∈ found ↔ row ∈ rows := by
  obtain ⟨-, rfl⟩ := distinctRows_eq_ok_iff.mp h
  exact ⟨nodup_firstOccurrences rows, fun row => mem_firstOccurrences⟩

/-- Removing duplicates from the same bag leaves the same bag. -/
theorem perm_of_distinctRows {rows rows' found found' : List Row} (hrows : rows.Perm rows')
    (h : distinctRows rows = .ok found) (h' : distinctRows rows' = .ok found') :
    found.Perm found' := by
  obtain ⟨nodup, hmem⟩ := distinctRows_eq_ok h
  obtain ⟨nodup', hmem'⟩ := distinctRows_eq_ok h'
  refine (List.perm_ext_iff_of_nodup nodup nodup').mpr fun row => ?_
  rw [hmem, hmem', hrows.mem_iff]

end RelQuery
