import RelQuery.Proofs.Codec.Recognition

/-!
# What reading accepts

Reading an expression from a record accepts its spellings with any byte but 0 for TRUE, and writing
puts the byte 1.  So what was read is written back as the bytes that were read, except that a byte
for TRUE may change; an expression without TRUE has one record only.
-/

namespace RelQuery

namespace Decoder

variable {α : Type}

/-- A reading at a position gives a value and a place exactly if the bytes from the position to the
place are a spelling of the value. -/
lemma atPosition_eq_ok_iff {decoder : Decoder α} {spelled : α → List UInt8 → Prop} {value : α}
    {record : List UInt8} {position last : Nat}
    (hread : Recognises record (decoder record position) spelled) :
    atPosition decoder record position = .ok (value, last) ↔
      position ≤ last ∧ last ≤ record.length ∧ spelled value (record.extract position last) := by
  refine Iff.trans ?_ (hread value last)
  unfold atPosition Hands
  constructor
  · intro h
    cases hresult : decoder record position with
    | error fault => simp [hresult, Except.map] at h
    | ok parsed =>
      obtain ⟨found, next, advanced⟩ := parsed
      obtain ⟨rfl, rfl⟩ : found = value ∧ next = last := by simpa [hresult, Except.map] using h
      exact ⟨advanced, rfl⟩
  · rintro ⟨advanced, hresult⟩
    rw [hresult]
    rfl

end Decoder

namespace Expr

/-- An expression is read between two places of a record exactly if the bytes between them spell it
with any byte but 0 for TRUE. -/
lemma atPosition_decode_iff {e : Expr} {record : List UInt8} {position last : Nat} :
    Decoder.atPosition decode record position = .ok (e, last) ↔
      position ≤ last ∧ last ≤ record.length ∧
        e.SpelledBy (· ≠ 0) (record.extract position last) :=
  Decoder.atPosition_eq_ok_iff (recognises_decode record position)

/-- An expression is read between two places of a record exactly if the bytes between them spell it
with any byte but 0 for TRUE.  Then it can be written, in as many bytes.  What is written differs
from what was read in nothing but the byte 1 for a byte of TRUE, and not at all if no literal of the
expression is TRUE. -/
theorem atPosition_decode_eq_ok_iff (e : Expr) (record : List UInt8) (position last : Nat) :
    (Decoder.atPosition decode record position = .ok (e, last) ↔
      position ≤ last ∧ last ≤ record.length ∧
        e.SpelledBy (· ≠ 0) (record.extract position last)) ∧
    (Decoder.atPosition decode record position = .ok (e, last) →
      ∃ bytes, e.encode.complete = .ok bytes ∧
        bytes.length = last - position ∧
        Respelled (· ≠ 0) (· = 1) (record.extract position last) bytes ∧
        (e.TrueFree → bytes = record.extract position last)) := by
  refine ⟨atPosition_decode_iff, fun h => ?_⟩
  obtain ⟨hposition, hlast, hspelled⟩ := atPosition_decode_iff.mp h
  obtain ⟨bytes, hbytes, hrespelled⟩ := exists_respelled (q := (· = 1)) ⟨1, rfl⟩ hspelled
  rw [spelledBy_one] at hbytes
  refine ⟨bytes, hbytes, ?_, hrespelled, fun hfree => ?_⟩
  · rw [← List.Forall₂.length_eq hrespelled, length_extract hlast]
  · rw [hfree.spelledBy_eq (q := (· = 1)), spelledBy_one] at hspelled
    exact Except.ok.inj (hbytes.symm.trans hspelled)

/-- The negation of TRUE is read from between other bytes with the byte 7 for TRUE, and written with
the byte 1. -/
theorem atPosition_decode_eq_ok_negate :
    let e : Expr := negate (literal (.boolean true) none) none
    Decoder.atPosition decode [9, 4, 1, 4, 7, 0, 0, 8] 1 = .ok (e, 7) ∧
      e.encode.complete = .ok [4, 1, 4, 1, 0, 0] ∧
      Respelled (· ≠ 0) (· = 1) [4, 1, 4, 7, 0, 0] [4, 1, 4, 1, 0, 0] := by
  intro e
  have hspelled : e.SpelledBy (· ≠ 0) [4, 1, 4, 7, 0, 0] :=
    ⟨[4], _, rfl, ⟨[1, 4, 7, 0], [0], ⟨[1], _, rfl, ⟨[4, 7], [0], ⟨7, by decide, rfl⟩, rfl, rfl⟩,
      rfl⟩, rfl, rfl⟩, rfl⟩
  obtain ⟨hiff, hwritten⟩ := atPosition_decode_eq_ok_iff e [9, 4, 1, 4, 7, 0, 0, 8] 1 7
  have hread := hiff.mpr ⟨by decide, by decide, hspelled⟩
  obtain ⟨bytes, hbytes, -, hrespelled, -⟩ := hwritten hread
  obtain rfl : [4, 1, 4, 1, 0, 0] = bytes := Except.ok.inj hbytes
  exact ⟨hread, rfl, hrespelled⟩

/-- What was read need not be what is written: the byte 2 is read as TRUE. -/
theorem not_forall_encode_eq_extract :
    ¬∀ (e : Expr) (record : List UInt8) (position last : Nat),
      Decoder.atPosition decode record position = .ok (e, last) →
        e.encode.complete = .ok (record.extract position last) := by
  intro h
  have hspelled : (literal (.boolean true) none).SpelledBy (· ≠ 0) [1, 4, 2, 0] :=
    ⟨[1], _, rfl, ⟨[4, 2], [0], ⟨2, by decide, rfl⟩, rfl, rfl⟩, rfl⟩
  have hread : Decoder.atPosition decode [1, 4, 2, 0] 0 = .ok (literal (.boolean true) none, 4) :=
    atPosition_decode_iff.mpr ⟨by decide, by decide, hspelled⟩
  have hwritten := Except.ok.inj (h _ _ _ _ hread)
  exact absurd hwritten (by decide)

end Expr

end RelQuery
