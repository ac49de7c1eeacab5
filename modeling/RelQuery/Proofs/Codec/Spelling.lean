import Mathlib.Data.List.Forall2
import Mathlib.Tactic.Lemma
import Mathlib.Tactic.Tauto
import RelQuery.Codec.Expr
import RelQuery.Proofs.Codec.Record

/-!
# Spellings of values and expressions

A value or an expression is spelled by a run of bytes if they have its form, where the byte of TRUE
is left open: it is one of the bytes that a given predicate admits.  The records that are written
are the spellings in which TRUE is the byte 1.  A reader that admits more bytes for TRUE reads more
spellings, and then two spellings of one expression differ in those bytes and in no others.
-/

namespace RelQuery

/-! ## One part after the other -/

/-- Bytes of the first kind and after them bytes of the second kind. -/
def InTurn (first second : List UInt8 → Prop) (bytes : List UInt8) : Prop :=
  ∃ before after, first before ∧ second after ∧ bytes = before ++ after

/-- One given byte and after it bytes of the second kind. -/
lemma inTurn_byte_iff {byte : UInt8} {second : List UInt8 → Prop} {bytes : List UInt8} :
    InTurn (· = [byte]) second bytes ↔ ∃ after, second after ∧ bytes = byte :: after := by
  simp [InTurn]

/-- One given byte is there. -/
@[simp] lemma not_inTurn_byte_nil {byte : UInt8} {second : List UInt8 → Prop} :
    ¬InTurn (· = [byte]) second [] := by
  simp [inTurn_byte_iff]

/-- The first byte and what follows it. -/
@[simp] lemma inTurn_byte_cons_iff {byte head : UInt8} {second : List UInt8 → Prop}
    {tail : List UInt8} :
    InTurn (· = [byte]) second (head :: tail) ↔ head = byte ∧ second tail := by
  rw [inTurn_byte_iff]
  aesop

/-- Nothing is in turn with what there is not. -/
@[simp] lemma not_inTurn_false {first : List UInt8 → Prop} {bytes : List UInt8} :
    ¬InTurn first (fun _ => False) bytes := by
  simp [InTurn]

/-- A condition on the second bytes that does not look at them stands outside. -/
@[simp] lemma inTurn_and_iff {c : Prop} {first second : List UInt8 → Prop} {bytes : List UInt8} :
    InTurn first (fun after => c ∧ second after) bytes ↔ c ∧ InTurn first second bytes := by
  simp only [InTurn]
  tauto

/-- Complete bytes are those bytes. -/
lemma Written.gives_ofBytes (bytes : List UInt8) : (ofBytes bytes).Gives = (· = bytes) :=
  funext fun _ => propext (gives_ofBytes_iff.trans eq_comm)

/-- Two joined runs give what they give in turn. -/
lemma Written.gives_append (first second : Written) :
    (first ++ second).Gives = InTurn first.Gives second.Gives :=
  funext fun _ => propext gives_append_iff

/-- A run that was cut short gives nothing. -/
lemma Written.gives_stopped (fault : CodecFault) : (stopped fault).Gives = fun _ => False :=
  funext fun _ => by simp [Gives, complete, stopped]

/-! ## Spellings -/

/-- The bytes spell the value, with an admitted byte for TRUE. -/
def Value.SpelledBy (admitted : UInt8 → Prop) : Value → List UInt8 → Prop
  | boolean true => fun bytes => ∃ byte, admitted byte ∧ bytes = [ColumnType.boolean.code, byte]
  | value => value.encode.Gives

/-- The bytes spell the expression, with an admitted byte for every TRUE.  A function has no
spelling. -/
def Expr.SpelledBy (admitted : UInt8 → Prop) : Expr → List UInt8 → Prop
  | literal value label =>
    InTurn (· = [literalCode]) <|
      InTurn (value.SpelledBy admitted) (Written.optionalText label).Gives
  | column ref label =>
    InTurn (· = [columnCode]) <| InTurn ref.encode.Gives (Written.optionalText label).Gives
  | binary op left right label =>
    InTurn (· = [binaryCode]) <| InTurn (· = [op.code]) <| InTurn (left.SpelledBy admitted) <|
      InTurn (right.SpelledBy admitted) (Written.optionalText label).Gives
  | negate operand label =>
    InTurn (· = [negateCode]) <|
      InTurn (operand.SpelledBy admitted) (Written.optionalText label).Gives
  | call .. | bareCall .. => fun _ => False

namespace Value

variable {admitted : UInt8 → Prop} {bytes : List UInt8}

@[simp] lemma spelledBy_null_iff : null.SpelledBy admitted bytes ↔ bytes = [0] := by
  simp [SpelledBy, encode, Written.gives_ofBytes]

@[simp] lemma spelledBy_integer_iff {n : Int64} : (integer n).SpelledBy admitted bytes ↔
    bytes = ColumnType.integer.code :: littleEndian 8 n.toUInt64.toNat := by
  simp [SpelledBy, encode, Written.gives_ofBytes]

@[simp] lemma spelledBy_real_iff {x : Binary64} : (real x).SpelledBy admitted bytes ↔
    bytes = ColumnType.real.code :: littleEndian 8 x.bits.toNat := by
  simp [SpelledBy, encode, Written.gives_ofBytes]

@[simp] lemma spelledBy_text_iff {s : String} : (text s).SpelledBy admitted bytes ↔
    InTurn (· = [ColumnType.text.code]) (Written.text s).Gives bytes := by
  rw [SpelledBy, encode, Written.gives_append, Written.gives_ofBytes]
  simp

@[simp] lemma spelledBy_boolean_iff {b : Bool} : (boolean b).SpelledBy admitted bytes ↔
    ∃ byte, (if b then admitted byte else byte = 0) ∧ bytes = [ColumnType.boolean.code, byte] := by
  cases b <;> simp [SpelledBy, encode, Written.gives_ofBytes]

/-- A spelling of a value is not empty. -/
@[simp] lemma not_spelledBy_nil {value : Value} : ¬value.SpelledBy admitted [] := by
  cases value <;> simp

/-- A spelling of a value starts with 0 or with the byte of a type. -/
lemma head_of_spelledBy {value : Value} {head : UInt8} {tail : List UInt8}
    (h : value.SpelledBy admitted (head :: tail)) :
    head = 0 ∨ ∃ type : ColumnType, head = type.code := by
  cases value with
  | null => exact .inl (by simp_all)
  | integer n => exact .inr ⟨.integer, by simp_all⟩
  | real x => exact .inr ⟨.real, by simp_all⟩
  | text s => exact .inr ⟨.text, by simp_all⟩
  | boolean b =>
    obtain ⟨byte, -, hbytes⟩ := spelledBy_boolean_iff.mp h
    exact .inr ⟨.boolean, (List.cons.inj hbytes).1⟩

end Value

/-! ## The spelling that is written -/

/-- The record of a value spells it with the byte 1 for TRUE. -/
lemma Value.spelledBy_one (value : Value) : value.SpelledBy (· = 1) = value.encode.Gives := by
  rcases value with _ | n | x | s | _ | _
  case boolean.true => simp [SpelledBy, encode, Written.gives_ofBytes]
  all_goals rfl

/-- The record of an expression spells it with the byte 1 for TRUE. -/
lemma Expr.spelledBy_one (e : Expr) : e.SpelledBy (· = 1) = e.encode.Gives := by
  induction e with
  | literal value label =>
    simp only [SpelledBy, encode, Written.gives_append, Written.gives_ofBytes, Value.spelledBy_one]
  | column ref label =>
    simp only [SpelledBy, encode, Written.gives_append, Written.gives_ofBytes]
  | binary op left right label ihLeft ihRight =>
    have hcodes : Written.ofBytes [binaryCode, op.code] =
        Written.ofBytes [binaryCode] ++ Written.ofBytes [op.code] := rfl
    simp only [SpelledBy, encode, hcodes, Written.append_assoc, Written.gives_append,
      Written.gives_ofBytes, ihLeft, ihRight]
  | negate operand label ih =>
    simp only [SpelledBy, encode, Written.gives_append, Written.gives_ofBytes, ih]
  | call f arg label => simp only [SpelledBy, encode, Written.gives_stopped]
  | bareCall f label => simp only [SpelledBy, encode, Written.gives_stopped]

/-! ## Other bytes for TRUE -/

section Admitted

variable {p q : UInt8 → Prop}

/-- Parts of larger kinds are in turn. -/
lemma InTurn.mono {first second first' second' : List UInt8 → Prop} {bytes : List UInt8}
    (h : InTurn first second bytes) (hfirst : ∀ before, first before → first' before)
    (hsecond : ∀ after, second after → second' after) : InTurn first' second' bytes := by
  obtain ⟨before, after, hbefore, hafter, rfl⟩ := h
  exact ⟨before, after, hfirst before hbefore, hsecond after hafter, rfl⟩

/-- A value keeps its spelling if more bytes are admitted. -/
lemma Value.SpelledBy.mono {value : Value} {bytes : List UInt8} (h : value.SpelledBy p bytes)
    (hpq : ∀ byte, p byte → q byte) : value.SpelledBy q bytes := by
  rcases value with _ | n | x | s | _ | _
  case boolean.true =>
    obtain ⟨byte, hbyte, rfl⟩ := h
    exact ⟨byte, hpq byte hbyte, rfl⟩
  all_goals exact h

/-- An expression keeps its spelling if more bytes are admitted. -/
lemma Expr.SpelledBy.mono {e : Expr} {bytes : List UInt8} (h : e.SpelledBy p bytes)
    (hpq : ∀ byte, p byte → q byte) : e.SpelledBy q bytes := by
  induction e generalizing bytes with
  | literal value label =>
    exact InTurn.mono h (fun _ => id) fun _ h => h.mono (fun _ h => h.mono hpq) fun _ => id
  | column ref label => exact h
  | binary op left right label ihLeft ihRight =>
    exact InTurn.mono h (fun _ => id) fun _ h => h.mono (fun _ => id) fun _ h =>
      h.mono (fun _ => ihLeft) fun _ h => h.mono (fun _ => ihRight) fun _ => id
  | negate operand label ih =>
    exact InTurn.mono h (fun _ => id) fun _ h => h.mono (fun _ => ih) fun _ => id
  | call f arg label => exact h
  | bareCall f label => exact h

/-- No literal of the expression is TRUE. -/
def Expr.TrueFree : Expr → Prop
  | literal value _ => value ≠ .boolean true
  | column .. | bareCall .. => True
  | binary _ left right _ => left.TrueFree ∧ right.TrueFree
  | negate operand _ => operand.TrueFree
  | call _ arg _ => arg.TrueFree

/-- Without TRUE it does not matter which bytes are admitted for it. -/
lemma Expr.TrueFree.spelledBy_eq {e : Expr} (h : e.TrueFree) : e.SpelledBy p = e.SpelledBy q := by
  induction e with
  | literal value label =>
    have hvalue : value.SpelledBy p = value.SpelledBy q := by
      rcases value with _ | n | x | s | _ | _
      case boolean.true => exact absurd rfl h
      all_goals rfl
    simp only [SpelledBy, hvalue]
  | column ref label => rfl
  | binary op left right label ihLeft ihRight => simp only [SpelledBy, ihLeft h.1, ihRight h.2]
  | negate operand label ih => simp only [SpelledBy, ih h]
  | call f arg label => rfl
  | bareCall f label => rfl

end Admitted

/-! ## Two spellings of one expression -/

/-- The runs are as long as each other and agree outside the places where each has a byte that it
admits for TRUE. -/
def Respelled (admitted admitted' : UInt8 → Prop) : List UInt8 → List UInt8 → Prop :=
  List.Forall₂ fun byte byte' => byte = byte' ∨ admitted byte ∧ admitted' byte'

section Respelled

variable {p q : UInt8 → Prop}

/-- Equal bytes need no respelling. -/
lemma Respelled.refl (bytes : List UInt8) : Respelled p q bytes bytes :=
  List.forall₂_same.mpr fun _ _ => .inl rfl

/-- Parts are respelled one after the other. -/
lemma exists_respelled_inTurn {first second first' second' : List UInt8 → Prop} {bytes : List UInt8}
    (hfirst : ∀ before, first before → ∃ before', first' before' ∧ Respelled p q before before')
    (hsecond : ∀ after, second after → ∃ after', second' after' ∧ Respelled p q after after')
    (h : InTurn first second bytes) :
    ∃ bytes', InTurn first' second' bytes' ∧ Respelled p q bytes bytes' := by
  obtain ⟨before, after, hbefore, hafter, rfl⟩ := h
  obtain ⟨before', hbefore', hsame⟩ := hfirst before hbefore
  obtain ⟨after', hafter', hsame'⟩ := hsecond after hafter
  exact ⟨before' ++ after', ⟨before', after', hbefore', hafter', rfl⟩, List.rel_append hsame hsame'⟩

/-- A value that is spelled with one kind of byte for TRUE is spelled with another. -/
lemma Value.exists_respelled {value : Value} {bytes : List UInt8} (hq : ∃ byte, q byte)
    (h : value.SpelledBy p bytes) :
    ∃ bytes', value.SpelledBy q bytes' ∧ Respelled p q bytes bytes' := by
  rcases value with _ | n | x | s | _ | _
  case boolean.true =>
    obtain ⟨byte, hbyte, rfl⟩ := h
    obtain ⟨byte', hbyte'⟩ := hq
    exact ⟨_, ⟨byte', hbyte', rfl⟩, .cons (.inl rfl) (.cons (.inr ⟨hbyte, hbyte'⟩) .nil)⟩
  all_goals exact ⟨bytes, h, .refl bytes⟩

/-- An expression that is spelled with one kind of byte for TRUE is spelled with another. -/
lemma Expr.exists_respelled {e : Expr} {bytes : List UInt8} (hq : ∃ byte, q byte)
    (h : e.SpelledBy p bytes) : ∃ bytes', e.SpelledBy q bytes' ∧ Respelled p q bytes bytes' := by
  have hsame {kind : List UInt8 → Prop} (bytes : List UInt8) (h : kind bytes) :
      ∃ bytes', kind bytes' ∧ Respelled p q bytes bytes' := ⟨bytes, h, .refl bytes⟩
  induction e generalizing bytes with
  | literal value label =>
    exact exists_respelled_inTurn hsame (fun _ => exists_respelled_inTurn
      (fun _ => Value.exists_respelled hq) hsame) h
  | column ref label => exact ⟨bytes, h, .refl bytes⟩
  | binary op left right label ihLeft ihRight =>
    exact exists_respelled_inTurn hsame (fun _ => exists_respelled_inTurn hsame
      (fun _ => exists_respelled_inTurn (fun _ => ihLeft)
        (fun _ => exists_respelled_inTurn (fun _ => ihRight) hsame))) h
  | negate operand label ih =>
    exact exists_respelled_inTurn hsame (fun _ => exists_respelled_inTurn (fun _ => ih) hsame) h
  | call f arg label => exact h.elim
  | bareCall f label => exact h.elim

end Respelled

end RelQuery
