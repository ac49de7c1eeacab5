import Mathlib
import RelQuery.Proofs.Codec.Canonical

/-!
# Expressions are read back from their records

The record of an expression is one of its spellings.  So it is read wherever it stands among other
bytes, and the reading ends where the record does.

The second half says which expressions have a record.  Three things stop the writing: a function, a
position of more than four bytes, and a text whose length does not fit in four bytes.
-/

namespace RelQuery

/-! ## Reading a record among other bytes -/

/-- The record of an expression is read in the middle of other bytes. -/
lemma Expr.atPosition_decode_of_gives {e : Expr} {bytes : List UInt8} (h : e.encode.Gives bytes)
    (before after : List UInt8) :
    Decoder.atPosition decode (before ++ bytes ++ after) before.length =
      .ok (e, before.length + bytes.length) := by
  rw [← spelledBy_one] at h
  have hspelled : e.SpelledBy (· ≠ 0) bytes := h.mono (by rintro byte rfl; decide)
  have hbytes : (before ++ bytes ++ after).extract before.length (before.length + bytes.length) =
      bytes := by
    simp [List.extract_eq_take_drop]
  apply (Decoder.atPosition_eq_ok_iff (recognises_decode _ _)).mpr
  refine ⟨Nat.le_add_right _ _, ?_, ?_⟩
  · simp [List.length_append]
  · rwa [hbytes]

/-! ## Expressions that have a record -/

namespace Written

/-- A run is complete if no fault cut it short. -/
lemma exists_complete_iff {written : Written} :
    (∃ bytes, written.complete = .ok bytes) ↔ written.fault = none := by
  obtain ⟨bytes, _ | fault⟩ := written <;> simp [complete]

/-- Two joined runs are complete if both are. -/
lemma fault_append_eq_none {first second : Written} :
    (first ++ second).fault = none ↔ first.fault = none ∧ second.fault = none := by
  obtain ⟨bytes, _ | fault⟩ := first <;> simp [append_eq, append]

/-- Bytes are complete. -/
@[simp] lemma fault_ofBytes (bytes : List UInt8) : (ofBytes bytes).fault = none := rfl

/-- A stopped run is not complete. -/
@[simp] lemma fault_stopped (fault : CodecFault) : (stopped fault).fault = some fault := rfl

/-- A text is written if its length fits in four bytes. -/
lemma fault_text_eq_none {s : String} : (text s).fault = none ↔ (utf8 s).length < 2 ^ 32 := by
  unfold text
  dsimp only
  split <;> simp_all

/-- An optional text is written if the length of the text fits in four bytes. -/
lemma fault_optionalText_eq_none {s : Option String} :
    (optionalText s).fault = none ↔ ∀ t ∈ s.toList, (utf8 t).length < 2 ^ 32 := by
  cases s with
  | none => simp [optionalText]
  | some s => simp [optionalText, fault_text_eq_none]

end Written

/-- The text that a value holds, if it is one. -/
def Value.texts : Value → List String
  | text s => [s]
  | _ => []

/-- The texts that a column reference holds. -/
def ColumnRef.texts (ref : ColumnRef) : List String :=
  ref.name :: ref.table.toList

/-- A value is written if the length of its text fits in four bytes. -/
lemma Value.fault_encode_eq_none {value : Value} :
    value.encode.fault = none ↔ ∀ t ∈ value.texts, (utf8 t).length < 2 ^ 32 := by
  cases value <;> simp [encode, texts, Written.fault_text_eq_none]

/-- A column reference is written if its texts and its position are not too large. -/
lemma ColumnRef.fault_encode_eq_none {ref : ColumnRef} :
    ref.encode.fault = none ↔ (∀ t ∈ ref.texts, (utf8 t).length < 2 ^ 32) ∧
      ∀ index, ref.index = some index → index ≤ 2 ^ 32 - 1 := by
  have hindex : (encodeIndex ref.index).fault = none ↔
      ∀ index, ref.index = some index → index ≤ 2 ^ 32 - 1 := by
    cases ref.index with
    | none => simp [encodeIndex]
    | some index =>
      by_cases hsmall : index < 0x100000000
      · simp [encodeIndex, hsmall]
        omega
      · simp [encodeIndex, hsmall]
        omega
  simp only [encode, Written.fault_append_eq_none, Written.fault_text_eq_none,
    Written.fault_optionalText_eq_none, Written.fault_ofBytes, hindex, texts, List.forall_mem_cons,
    true_and, and_assoc]

namespace Expr

/-- No function occurs in the expression. -/
def functionFree : Expr → Bool
  | literal .. | column .. => true
  | binary _ left right _ => left.functionFree && right.functionFree
  | negate operand _ => operand.functionFree
  | call .. | bareCall .. => false

/-- The texts that the nodes of the expression hold: aliases, names, qualifiers and literals. -/
def texts : Expr → List String
  | literal value label => value.texts ++ label.toList
  | column ref label => ref.texts ++ label.toList
  | binary _ left right label => left.texts ++ (right.texts ++ label.toList)
  | negate operand label => operand.texts ++ label.toList
  | call _ arg label => arg.texts ++ label.toList
  | bareCall _ label => label.toList

/-- An expression is written if no function occurs in it and no position and no text is too large.
-/
lemma fault_encode_eq_none {e : Expr} :
    e.encode.fault = none ↔ e.functionFree = true ∧
      (∀ ref ∈ e.columns, ∀ index, ref.index = some index → index ≤ 2 ^ 32 - 1) ∧
      ∀ t ∈ e.texts, (utf8 t).length < 2 ^ 32 := by
  induction e with
  | literal value label =>
    simp only [encode, functionFree, columns, texts, Written.fault_append_eq_none,
      Written.fault_ofBytes, Value.fault_encode_eq_none, Written.fault_optionalText_eq_none,
      List.forall_mem_append]
    simp
  | column ref label =>
    simp only [encode, functionFree, columns, texts, Written.fault_append_eq_none,
      Written.fault_ofBytes, ColumnRef.fault_encode_eq_none, Written.fault_optionalText_eq_none,
      List.forall_mem_append, List.forall_mem_singleton]
    tauto
  | binary op left right label ihLeft ihRight =>
    simp only [encode, functionFree, columns, texts, Written.fault_append_eq_none,
      Written.fault_ofBytes, ihLeft, ihRight, Written.fault_optionalText_eq_none,
      List.forall_mem_append, Bool.and_eq_true]
    tauto
  | negate operand label ih =>
    simp only [encode, functionFree, columns, texts, Written.fault_append_eq_none,
      Written.fault_ofBytes, ih, Written.fault_optionalText_eq_none, List.forall_mem_append]
    tauto
  | call f arg label => simp [encode, functionFree]
  | bareCall f label => simp [encode, functionFree]

/-- An expression has a record exactly if no function occurs in it, every position fits in four
bytes and so does the length of every text.  Wherever the record stands among other bytes, reading
there gives the expression back, with its aliases, and the position after the record. -/
theorem record_round_trip (e : Expr) :
    ((∃ bytes, e.encode.complete = .ok bytes) ↔
      e.functionFree = true ∧
      (∀ ref ∈ e.columns, ∀ index, ref.index = some index → index ≤ 2 ^ 32 - 1) ∧
      ∀ t ∈ e.texts, (utf8 t).length < 2 ^ 32) ∧
    ∀ bytes before after, e.encode.complete = .ok bytes →
      Decoder.atPosition decode (before ++ bytes ++ after) before.length =
        .ok (e, before.length + bytes.length) := by
  constructor
  · rw [Written.exists_complete_iff]
    exact fault_encode_eq_none
  · intro bytes before after hbytes
    exact atPosition_decode_of_gives hbytes before after

/-- A tree with an alias, two columns and a negation has a record, and is read back from between
other bytes. -/
theorem record_round_trip_nested :
    ∃ (e : Expr) (bytes : List UInt8), e.label = some "big" ∧ e.columns.length = 2 ∧
      e.encode.complete = .ok bytes ∧
      Decoder.atPosition decode ([7] ++ bytes ++ [1, 0]) 1 = .ok (e, 1 + bytes.length) := by
  let population : Expr := column ⟨"population", some "city", some .integer, some 2⟩ none
  let large : Expr :=
    binary (.comparison .gt) population (negate (literal (.integer 10) none) (some "low")) none
  let foreign : Expr :=
    binary (.comparison .eq) (column (.written none "short") none) (literal (.text "USA") none) none
  let e : Expr := binary (.logical .and) large foreign (some "big")
  have hbytes : e.encode.complete = .ok e.encode.bytes := rfl
  exact ⟨e, _, rfl, rfl, hbytes, (record_round_trip e).2 _ [7] [1, 0] hbytes⟩

end Expr

end RelQuery
