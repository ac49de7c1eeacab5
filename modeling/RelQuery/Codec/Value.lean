import RelQuery.Codec.Decoder

/-!
# Records of values

A value is written as a byte for its kind followed by its data: eight bytes for a number, a text
with its length, one byte for a truth value.
-/

namespace RelQuery

/-- The byte that stands for a type. -/
def ColumnType.code : ColumnType → UInt8
  | .integer => 1
  | .real => 2
  | .text => 3
  | .boolean => 4

/-- The type that a byte stands for. -/
def ColumnType.ofCode? (code : UInt8) : Option ColumnType :=
  all.find? fun type => type.code == code

theorem ColumnType.ofCode?_code (type : ColumnType) : ColumnType.ofCode? type.code = some type := by
  cases type <;> decide

namespace Value

/-- The record of a value. -/
def encode : Value → Written
  | null => .ofBytes [0]
  | integer n => .ofBytes (ColumnType.integer.code :: littleEndian 8 n.toUInt64.toNat)
  | real x => .ofBytes (ColumnType.real.code :: littleEndian 8 x.bits.toNat)
  | text s => .ofBytes [ColumnType.text.code] ++ .text s
  | boolean b => .ofBytes [ColumnType.boolean.code, if b then 1 else 0]

/-- The data of a value of the given type. -/
def decodeData : ColumnType → Decoder Value
  | .integer => fun record cursor =>
    Decoder.andMap (Decoder.number 7 record cursor) fun n => integer (UInt64.ofNat n).toInt64
  | .real => fun record cursor =>
    Decoder.andMap (Decoder.number 7 record cursor) fun n => real ⟨UInt64.ofNat n⟩
  | .text => fun record cursor => Decoder.andMap (Decoder.text record cursor) text
  | .boolean => fun record cursor =>
    Decoder.andMap (Decoder.byte .truncatedBoolean record cursor) fun b => boolean (b != 0)

/-- Reads a value. -/
def decode : Decoder Value := fun record cursor =>
  match record[cursor]? with
  | none => .error .truncatedValue
  | some 0 => .ok (.ofByte null)
  | some code =>
    match ColumnType.ofCode? code with
    | none => .error (.unknownValue code)
    | some type => Decoder.afterByte (decodeData type record (cursor + 1))

end Value

end RelQuery
