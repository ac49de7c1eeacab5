import Mathlib
import RelQuery.Proofs.Text.Numeral
import RelQuery.Proofs.Value.Integers
import RelQuery.Value.Convert

/-!
# Conversions

An integer is shown by its numeral, and a text is read as the numeral in it before it is tried as a
real.  So a text that shows an integer converts back to it, also with blanks at both ends.  Whatever
is converted, the outcome is NULL or has the target type, and a value of the target type is kept.
-/

namespace RelQuery.Value

/-! ## Texts of integers -/

/-- A numeral is read as a 64-bit integer if its value fits. -/
lemma readInteger?_signed (n : Int) :
    readInteger? (Numeral.signed n) = if fitsInt64 n then some (Int64.ofInt n) else none := by
  rw [readInteger?, Numeral.readSigned?_signed]
  by_cases hlimit : n.natAbs ≤ 0x8000000000000000
  · rw [if_pos hlimit, Option.bind_some]
  · have hbeyond : ¬fitsInt64 n = true := by
      simp only [fitsInt64, Bool.and_eq_true, decide_eq_true_eq]
      omega
    rw [if_neg hlimit, if_neg hbeyond, Option.bind_none]

/-- The numeral of a 64-bit integer is read as this integer. -/
lemma readInteger?_signed_toInt (n : Int64) : readInteger? (Numeral.signed n.toInt) = some n := by
  rw [readInteger?_signed, if_pos (fitsInt64_iff.mpr ⟨n, rfl⟩), Int64.ofInt_toInt]

/-- Trimming leaves the numeral of an integer that is shown between blanks. -/
lemma trim_render_integer {before after : String} (n : Int64)
    (hblank : ∀ c ∈ before.toList ++ after.toList, Text.isBlank c = true) :
    Text.trim (before ++ (integer n).render ++ after).toList = Numeral.signed n.toInt := by
  rw [List.forall_mem_append] at hblank
  rw [String.toList_append, String.toList_append, render, Numeral.signedText, String.toList_ofList]
  exact Text.trim_append_append hblank.1 (fun _ => Text.isBlank_of_mem_signed) hblank.2

/-- A text is converted to the integer whose numeral trimming leaves. -/
lemma convert_integer_of_trim {s : String} {n : Int64}
    (h : Text.trim s.toList = Numeral.signed n.toInt) :
    (text s).convert .integer = .ok (integer n) := by
  have hread : (text s).toInteger? = some n := by
    simp only [toInteger?, h, readInteger?_signed_toInt, Option.some_or]
  simp [convert, isNull, converted?, hread]

/-! ## Outcomes -/

/-- The outcome of a conversion is kept by another conversion to the type. -/
lemma convert_of_convert {value result : Value} {target : ColumnType}
    (h : value.convert target = .ok result) : result.convert target = .ok result := by
  obtain ⟨-, rfl⟩ | ⟨-, htype⟩ := type?_of_convert h
  · rfl
  · exact convert_of_type? htype

/-- Every 64-bit integer is converted to a text which, with any blanks at both ends, is converted
back to the integer.  A conversion that succeeds gives NULL for NULL and otherwise a value of the
target type, and converting the outcome to the same type gives the outcome. -/
theorem conversion_round_trip_and_idempotent :
    (∀ (n : Int64) (before after : String),
      (∀ c ∈ before.toList ++ after.toList, Text.isBlank c = true) →
        ∃ shown, (integer n).convert .text = .ok (text shown) ∧
          (text (before ++ shown ++ after)).convert .integer = .ok (integer n)) ∧
    ∀ (value result : Value) (target : ColumnType), value.convert target = .ok result →
      (value = null ∧ result = null ∨ value ≠ null ∧ result.type? = some target) ∧
        result.convert target = .ok result := by
  constructor
  · intro n before after hblank
    exact ⟨_, rfl, convert_integer_of_trim (trim_render_integer n hblank)⟩
  · intro value result target h
    exact ⟨type?_of_convert h, convert_of_convert h⟩

/-- The least integer is shown and read among all ASCII blanks, and a text that is no integer
numeral is cut off once. -/
theorem conversion_round_trip_and_idempotent_least :
    (text " \t\n\x0B\x0C\r-9223372036854775808\r\x0C\x0B\n\t ").convert .integer =
        .ok (integer Int64.minValue) ∧
      (text "\t-25e-1\n").convert .integer = .ok (integer (-2)) ∧
      (integer (-2)).type? = some .integer ∧
      (integer (-2)).convert .integer = .ok (integer (-2)) := by
  obtain ⟨hround, hagain⟩ := conversion_round_trip_and_idempotent
  have hblank : ∀ c ∈ (" \t\n\x0B\x0C\r" : String).toList ++ ("\r\x0C\x0B\n\t " : String).toList,
      Text.isBlank c = true := by
    simp [Text.isBlank]
  obtain ⟨shown, hshown, hback⟩ := hround Int64.minValue _ _ hblank
  have hleast : (integer Int64.minValue).convert .text = .ok (text "-9223372036854775808") := by
    decide +kernel
  obtain rfl : "-9223372036854775808" = shown := by
    simpa [hleast] using hshown
  have hcut : (text "\t-25e-1\n").convert .integer = .ok (integer (-2)) := by decide +kernel
  obtain ⟨⟨hnull, -⟩ | ⟨-, htype⟩, hkept⟩ := hagain _ _ _ hcut
  · cases hnull
  · exact ⟨hback, hcut, htype, hkept⟩

end RelQuery.Value
