import RelQuery.Codec.Written

/-!
# Reading records

A decoder reads a value at a cursor of a record and hands back the cursor after what it read.  Every
decoder reads at least one byte, which the result records; so a decoder may call itself at the
cursor that it was handed.
-/

namespace RelQuery

/-- A value read at a cursor of a record, and the cursor after it. -/
structure Parsed (α : Type) (cursor : Nat) where
  value : α
  next : Nat
  advanced : cursor < next

/-- A value that the byte at the cursor gives. -/
def Parsed.ofByte {α : Type} {cursor : Nat} (value : α) : Parsed α cursor :=
  ⟨value, cursor + 1, Nat.lt_succ_self cursor⟩

/-- A reader of values at the cursors of records. -/
abbrev Decoder (α : Type) :=
  (record : List UInt8) → (cursor : Nat) → Except CodecFault (Parsed α cursor)

namespace Decoder

/-- Goes on reading after a first value. -/
def andThen {α β : Type} {cursor : Nat} (first : Except CodecFault (Parsed α cursor))
    (next : (value : α) → (after : Nat) → cursor < after → Except CodecFault (Parsed β after)) :
    Except CodecFault (Parsed β cursor) :=
  match first with
  | .error fault => .error fault
  | .ok ⟨value, after, advanced⟩ =>
    match next value after advanced with
    | .error fault => .error fault
    | .ok ⟨result, last, further⟩ => .ok ⟨result, last, Nat.lt_trans advanced further⟩

/-- Goes on reading after one byte. -/
def afterByte {α : Type} {cursor : Nat} (next : Except CodecFault (Parsed α (cursor + 1))) :
    Except CodecFault (Parsed α cursor) :=
  match next with
  | .error fault => .error fault
  | .ok ⟨result, last, further⟩ => .ok ⟨result, last, Nat.lt_of_succ_lt further⟩

/-- The value read, changed by a function that may refuse it. -/
def andCheck {α β : Type} {cursor : Nat} (first : Except CodecFault (Parsed α cursor))
    (check : α → Except CodecFault β) : Except CodecFault (Parsed β cursor) :=
  match first with
  | .error fault => .error fault
  | .ok ⟨value, after, advanced⟩ =>
    match check value with
    | .error fault => .error fault
    | .ok result => .ok ⟨result, after, advanced⟩

/-- The value read, changed by a function. -/
def andMap {α β : Type} {cursor : Nat} (first : Except CodecFault (Parsed α cursor))
    (f : α → β) : Except CodecFault (Parsed β cursor) :=
  andCheck first fun value => .ok (f value)

/-- One byte, or the given fault where there is none. -/
def byte (fault : CodecFault) : Decoder UInt8 := fun record cursor =>
  match record[cursor]? with
  | none => .error fault
  | some head => .ok (.ofByte head)

/-- A number of `width + 1` bytes. -/
def number (width : Nat) : Decoder Nat := fun record cursor =>
  let last := cursor + (width + 1)
  if record.length < last then .error .truncatedRecord
  else
    .ok ⟨ofLittleEndian (record.extract cursor last), last,
      Nat.lt_add_of_pos_right width.succ_pos⟩

/-- The text in the given bytes. -/
def textOfBytes (bytes : List UInt8) : Except CodecFault String :=
  match String.fromUTF8? ⟨bytes.toArray⟩ with
  | some s => .ok s
  | none => .error .textEncoding

/-- A text after its length. -/
def text : Decoder String := fun record cursor =>
  match number 3 record cursor with
  | .error fault => .error fault
  | .ok ⟨length, start, advanced⟩ =>
    let last := start + length
    if record.length < last then .error .textLength
    else
      match textOfBytes (record.extract start last) with
      | .error fault => .error fault
      | .ok s => .ok ⟨s, last, Nat.lt_add_right length advanced⟩

/-- An optional text after its marker. -/
def optionalText : Decoder (Option String) := fun record cursor =>
  match record[cursor]? with
  | some 0 => .ok (.ofByte none)
  | some 1 => afterByte (andMap (text record (cursor + 1)) some)
  | _ => .error .optionMarker

/-- Reads at a position of a record.  The result carries the position after what was read. -/
def atPosition {α : Type} (decoder : Decoder α) (record : List UInt8) (position : Nat) :
    Except CodecFault (α × Nat) :=
  (decoder record position).map fun parsed => (parsed.value, parsed.next)

end Decoder

end RelQuery
