import RelQuery.Proofs.Codec.Canonical

/-!
# Reading among arbitrary bytes

A record may hold any bytes, and a reading may start at any position of it.  Values and expressions
are recognised by their spellings, so a reading that succeeds has found a spelling and depends on no
other byte: it ends after its start and within the record, and wherever the same bytes stand in a
record, the same value is read from them.  Where no spelling starts the reading fails, and then a
contract was broken.
-/

namespace RelQuery

namespace Decoder

variable {α : Type} {decoder : Decoder α}

/-- Reads at a position of a record, with a fault of the record as an error. -/
def readAt (decoder : Decoder α) (record : List UInt8) (position : Nat) : Result (α × Nat) :=
  (atPosition decoder record position).mapError fun fault => .fault (.codec fault)

/-- A reading finds what the decoder finds. -/
lemma readAt_eq_ok {record : List UInt8} {position : Nat} {found : α × Nat} :
    readAt decoder record position = .ok found ↔
      atPosition decoder record position = .ok found := by
  unfold readAt
  cases atPosition decoder record position with
  | error fault => simp [Except.mapError]
  | ok other => simp [Except.mapError]

/-- From every position of every record the decoder either fails with an internal error, or it stops
after the position and within the record, and gives the same value from the same bytes at any
position of any other record. -/
def ReadsLocally (decoder : Decoder α) : Prop :=
  ∀ (record : List UInt8) (position : Nat),
    (∃ error, readAt decoder record position = .error error ∧ error.kind = .internal) ∨
    ∃ value last, readAt decoder record position = .ok (value, last) ∧
      position < last ∧ last ≤ record.length ∧
      ∀ (other : List UInt8) (start : Nat),
        other.extract start (start + (last - position)) = record.extract position last →
        readAt decoder other start = .ok (value, start + (last - position))

/-- As many bytes as a record has between two of its places lie between two places of another record
only if that record reaches as far. -/
lemma le_length_of_extract_eq {record other : List UInt8} {position last start : Nat}
    (hlt : position < last) (hlast : last ≤ record.length)
    (hsame : other.extract start (start + (last - position)) = record.extract position last) :
    start + (last - position) ≤ other.length := by
  have hlength := congrArg List.length hsame
  simp only [List.extract_eq_take_drop, List.length_take, List.length_drop] at hlength
  omega

/-- A decoder that recognises spellings reads locally, if no value is spelled by nothing. -/
theorem readsLocally_of_recognises {spelled : α → List UInt8 → Prop}
    (hread : ∀ record cursor, Recognises record (decoder record cursor) spelled)
    (hnil : ∀ value, ¬spelled value []) :
    ReadsLocally decoder := by
  intro record position
  cases hfound : atPosition decoder record position with
  | error fault =>
    left
    exact ⟨.fault (.codec fault), by rw [readAt, hfound]; rfl, rfl⟩
  | ok found =>
    right
    obtain ⟨value, last⟩ := found
    obtain ⟨hle, hlast, hspelled⟩ := (atPosition_eq_ok_iff (hread record position)).mp hfound
    have hlt : position < last := by
      apply Nat.lt_of_le_of_ne hle
      rintro rfl
      apply hnil value
      simpa [List.extract_eq_take_drop] using hspelled
    refine ⟨value, last, readAt_eq_ok.mpr hfound, hlt, hlast, ?_⟩
    intro other start hsame
    -- the same spelling stands in the other record
    have hother : spelled value (other.extract start (start + (last - position))) := by
      rwa [hsame]
    apply readAt_eq_ok.mpr
    apply (atPosition_eq_ok_iff (hread other start)).mpr
    exact ⟨Nat.le_add_right _ _, le_length_of_extract_eq hlt hlast hsame, hother⟩

end Decoder

/-- Expressions and values are read locally from arbitrary bytes. -/
theorem decode_readsLocally :
    Decoder.ReadsLocally Expr.decode ∧ Decoder.ReadsLocally Value.decode := by
  constructor
  · apply Decoder.readsLocally_of_recognises Expr.recognises_decode
    intro e
    exact Expr.not_spelledBy_nil
  · apply Decoder.readsLocally_of_recognises fun record cursor => Value.recognises_decode
    intro value
    exact Value.not_spelledBy_nil

end RelQuery
