import RelQuery.Codec.Value

/-!
# Records of expressions

A node is written as a byte for its form, its parts from left to right, and its alias.  Functions
have no record: writing stops before one, and reading refuses their byte.
-/

namespace RelQuery

/-- The byte that stands for an operator: its place among all of them. -/
def BinaryOp.code (op : BinaryOp) : UInt8 :=
  UInt8.ofNat (all.idxOf op)

/-- The operator that a byte stands for. -/
def BinaryOp.ofCode? (code : UInt8) : Option BinaryOp :=
  all[code.toNat]?

theorem BinaryOp.ofCode?_code (op : BinaryOp) : BinaryOp.ofCode? op.code = some op := by
  cases op with
  | arithmetic op => cases op <;> decide
  | comparison op => cases op <;> decide
  | logical op => cases op <;> decide
  | concat | is | isNot => decide

namespace ColumnRef

/-- The record of an optional position, which must fit in four bytes. -/
def encodeIndex : Option Nat → Written
  | some index =>
    if index < 0x100000000 then .ofBytes (1 :: littleEndian 4 index) else .stopped .indexTooLarge
  | none => .ofBytes [0]

/-- The byte of an optional type. -/
def encodeType : Option ColumnType → UInt8
  | some type => type.code
  | none => 0

/-- The record of a column reference. -/
def encode (column : ColumnRef) : Written :=
  .text column.name ++ (.optionalText column.table ++
    (.ofBytes [encodeType column.columnType] ++ encodeIndex column.index))

/-- The type that a byte of a column reference stands for. -/
def decodeType (code : UInt8) : Except CodecFault (Option ColumnType) :=
  if code = 0 then .ok none
  else
    match ColumnType.ofCode? code with
    | some type => .ok (some type)
    | none => .error (.unknownType code)

/-- Reads an optional position. -/
def decodeIndex : Decoder (Option Nat) := fun record cursor =>
  match record[cursor]? with
  | some 0 => .ok (.ofByte none)
  | some 1 => Decoder.afterByte (Decoder.andMap (Decoder.number 3 record (cursor + 1)) some)
  | _ => .error .indexMarker

/-- Reads a column reference. -/
def decode : Decoder ColumnRef := fun record cursor =>
  Decoder.andThen (Decoder.text record cursor) fun name cursor _ =>
    Decoder.andThen (Decoder.optionalText record cursor) fun table cursor _ =>
      Decoder.andThen (Decoder.andCheck (Decoder.byte .truncatedColumn record cursor) decodeType)
        fun columnType cursor _ =>
          Decoder.andMap (decodeIndex record cursor) fun index => ⟨name, table, columnType, index⟩

end ColumnRef

namespace Expr

/-- The byte that stands for a form of expression. -/
def literalCode : UInt8 := 1

/-- The byte of a column. -/
def columnCode : UInt8 := 2

/-- The byte of an operation. -/
def binaryCode : UInt8 := 3

/-- The byte of a negation. -/
def negateCode : UInt8 := 4

/-- The byte set aside for functions. -/
def functionCode : UInt8 := 5

/-- The record of an expression. -/
def encode : Expr → Written
  | literal value label => .ofBytes [literalCode] ++ (value.encode ++ .optionalText label)
  | column ref label => .ofBytes [columnCode] ++ (ref.encode ++ .optionalText label)
  | binary op left right label =>
    .ofBytes [binaryCode, op.code] ++ (left.encode ++ (right.encode ++ .optionalText label))
  | negate operand label => .ofBytes [negateCode] ++ (operand.encode ++ .optionalText label)
  | call f _ _ => .stopped (.unwritableFunction f)
  | bareCall f _ => .stopped (.unwritableFunction f)

/-- Reads the operator of an operation. -/
def decodeOp (code : UInt8) : Except CodecFault BinaryOp :=
  match BinaryOp.ofCode? code with
  | some op => .ok op
  | none => .error (.unknownOperator code)

/-- Reads the alias that ends a node. -/
def decodeLabelled (node : Option String → Expr) : Decoder Expr := fun record cursor =>
  Decoder.andMap (Decoder.optionalText record cursor) node

/-- Reads an expression. -/
def decode (record : List UInt8) (cursor : Nat) : Except CodecFault (Parsed Expr cursor) :=
  match _found : record[cursor]? with
  | none => .error .truncatedExpression
  | some form =>
    if form = literalCode then
      Decoder.afterByte <| Decoder.andThen (Value.decode record (cursor + 1)) fun value cursor _ =>
        decodeLabelled (literal value) record cursor
    else if form = columnCode then
      Decoder.afterByte <|
        Decoder.andThen (ColumnRef.decode record (cursor + 1)) fun ref cursor _ =>
          decodeLabelled (column ref) record cursor
    else if form = binaryCode then
      Decoder.afterByte <| Decoder.andThen
        (Decoder.andCheck (Decoder.byte .truncatedOperation record (cursor + 1)) decodeOp)
        fun op cursor _ => Decoder.andThen (decode record cursor) fun left cursor _ =>
          Decoder.andThen (decode record cursor) fun right cursor _ =>
            decodeLabelled (binary op left right) record cursor
    else if form = negateCode then
      Decoder.afterByte <| Decoder.andThen (decode record (cursor + 1)) fun operand cursor _ =>
        decodeLabelled (negate operand) record cursor
    else if form = functionCode then .error .unreadableFunction
    else .error (.unknownExpression form)
termination_by record.length - cursor
decreasing_by
  all_goals
    have := (List.getElem?_eq_some_iff.mp _found).1
    omega

end Expr

end RelQuery
