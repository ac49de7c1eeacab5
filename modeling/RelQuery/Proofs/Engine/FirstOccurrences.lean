import Mathlib
import RelQuery.Proofs.Engine.Distinct
import RelQuery.Proofs.Faults.Grouping

/-!
# First occurrences

Duplicates are found by the records of the rows.  A row has a record when all of its texts are
short, two rows share a record when they are the same row, and no other fault can occur.  So
removing duplicates leaves the rows at the positions where they occur first, and leaves these as
they are when it is repeated.
-/

namespace RelQuery

/-! ## Rows without a record -/

/-- Of two joined runs the first fault is that of one of them. -/
lemma Written.fault_append_eq_some {first second : Written} {fault : CodecFault}
    (h : (first ++ second).fault = some fault) :
    first.fault = some fault ∨ second.fault = some fault := by
  obtain ⟨bytes, _ | fault'⟩ := first
  · exact Or.inr h
  · exact Or.inl h

/-- Only the size of a text stops the record of a value. -/
lemma Value.fault_encode_eq_some {value : Value} {fault : CodecFault}
    (h : value.encode.fault = some fault) : fault = .textTooLarge := by
  cases value with
  | text s =>
    rcases Written.fault_append_eq_some h with h | h
    · cases h
    · unfold Written.text at h
      dsimp only at h
      split at h
      · cases h
      · exact (Option.some.inj h).symm
  | _ => cases h

/-- Only the size of a text stops the record of a row. -/
lemma fault_writeRow_eq_some {row : Row} {fault : CodecFault}
    (h : (writeRow row).fault = some fault) : fault = .textTooLarge := by
  induction row with
  | nil => cases h
  | cons value rest ih =>
    rcases Written.fault_append_eq_some h with h | h
    · exact Value.fault_encode_eq_some h
    · exact ih h

/-- A row has no key for one reason. -/
lemma rowKey_eq_error {row : Row} {error : Error} (h : rowKey row = .error error) :
    error = .fault (.codec .textTooLarge) := by
  unfold rowKey Written.complete at h
  cases hfault : (writeRow row).fault with
  | none =>
    rw [hfault] at h
    cases h
  | some fault =>
    rw [hfault] at h
    rw [← Except.error.inj h, fault_writeRow_eq_some hfault]

/-- Two rows share a key when they are the same row and its texts are short. -/
lemma exists_common_rowKey_iff {row row' : Row} :
    (∃ key, rowKey row = .ok key ∧ rowKey row' = .ok key) ↔ row.ShortTexts ∧ row = row' := by
  rw [← exists_rowKey_iff]
  constructor
  · rintro ⟨key, hkey, hkey'⟩
    exact ⟨⟨key, hkey⟩, rowKey_inj hkey hkey'⟩
  · rintro ⟨⟨key, hkey⟩, rfl⟩
    exact ⟨key, hkey, hkey⟩

/-! ## Removing duplicates -/

/-- Removing duplicates succeeds where all texts are short, and leaves the rows that occur
first. -/
lemma distinctRows_eq_ok_of_short {rows found : List Row} :
    distinctRows rows = .ok found ↔
      (∀ row ∈ rows, row.ShortTexts) ∧ found = firstOccurrences rows := by
  simp only [distinctRows_eq_ok_iff, exists_rowKey_iff]

/-- Removing duplicates fails for one reason. -/
lemma distinctRows_eq_error {rows : List Row} {error : Error}
    (h : distinctRows rows = .error error) : error = .fault (.codec .textTooLarge) := by
  by_contra hother
  have hkeyed : ∀ row ∈ rows, keyed row ≠ .error error := fun row _ =>
    Result.map_ne_error (fun hkey => hother (rowKey_eq_error hkey)) _
  exact Result.map_ne_error (mapM_ne_error hkeyed) _ h

/-- Removing duplicates again changes nothing. -/
lemma distinctRows_bind_distinctRows (rows : List Row) :
    (distinctRows rows >>= distinctRows) = distinctRows rows := by
  cases h : distinctRows rows with
  | error error => rfl
  | ok found =>
    obtain ⟨hshort, rfl⟩ := distinctRows_eq_ok_of_short.mp h
    refine distinctRows_eq_ok_of_short.mpr ⟨fun row hrow => ?_, ?_⟩
    · exact hshort row (mem_firstOccurrences.mp hrow)
    · exact (firstOccurrences_of_nodup (nodup_firstOccurrences rows)).symm

/-- Removing duplicates gives the rows, in their order, at the positions whose row is at no earlier
position.  It fails only where a row has a text of 4 GiB or more, as such a row has no record.  Rows
share a key only when they are the same row, and removing duplicates again changes nothing. -/
theorem distinctRows_keeps_first (rows : List Row) :
    (∀ found, distinctRows rows = .ok found ↔
      (∀ row ∈ rows, row.ShortTexts) ∧ found = (firstPositions rows).filterMap (rows[·]?)) ∧
    (∀ error, distinctRows rows = .error error ↔
      (∃ row ∈ rows, ¬row.ShortTexts) ∧ error = .fault (.codec .textTooLarge)) ∧
    (∀ row row', (∃ key, rowKey row = .ok key ∧ rowKey row' = .ok key) ↔
      row.ShortTexts ∧ row = row') ∧
    (distinctRows rows >>= distinctRows) = distinctRows rows := by
  refine ⟨fun found => distinctRows_eq_ok_of_short, fun error => ?_,
    fun row row' => exists_common_rowKey_iff, distinctRows_bind_distinctRows rows⟩
  constructor
  · intro h
    refine ⟨?_, distinctRows_eq_error h⟩
    by_contra hshort
    simp only [not_exists, not_and, not_not] at hshort
    have hok := distinctRows_eq_ok_of_short.mpr ⟨hshort, rfl⟩
    cases hok.symm.trans h
  · rintro ⟨⟨row, hrow, hlong⟩, rfl⟩
    cases h : distinctRows rows with
    | ok found => exact absurd ((distinctRows_eq_ok_of_short.mp h).1 row hrow) hlong
    | error error => rw [distinctRows_eq_error h]

/-- Rows of other widths and of values that only look alike are kept. -/
example : distinctRows [[.null], [.null, .null], [.integer 1], [.text "1"], [.null], [.text "1"]] =
    .ok [[.null], [.null, .null], [.integer 1], [.text "1"]] := by
  decide +kernel

end RelQuery
