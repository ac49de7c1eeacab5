import RelQuery.Binary64.Reading
import RelQuery.Error
import RelQuery.Text.Blank
import RelQuery.Value.Arithmetic

/-!
# Conversion of values

Every value converts to text by its shown form.  Texts convert to the other types by being read,
blanks at both ends aside; a text that is no integer numeral is read as a real and cut off.
-/

namespace RelQuery.Value

/-- The integer numeral in the text, if it fits in 64 bits. -/
def readInteger? (chars : List Char) : Option Int64 :=
  (Numeral.readSigned? 0x8000000000000000 chars).bind fun n =>
    if fitsInt64 n then some (Int64.ofInt n) else none

/-- The integer that a value converts to. -/
def toInteger? : Value → Option Int64
  | null => none
  | integer n => some n
  | real x => x.toInt64?
  | boolean b => some (if b then 1 else 0)
  | text s =>
    let chars := Text.trim s.toList
    (readInteger? chars).or ((Binary64.read? chars).bind Binary64.toInt64?)

/-- The real that a value converts to. -/
def toReal? : Value → Option Binary64
  | null => none
  | integer n => some (Binary64.ofInt n.toInt)
  | real x => some x
  | boolean b => some (if b then Binary64.one else Binary64.zero false)
  | text s => Binary64.read? (Text.trim s.toList)

/-- The truth value that a text names. -/
def readBoolean? (chars : List Char) : Option Bool :=
  let word := chars.map Char.toLower
  if word = "true".toList || word = "1".toList then some true
  else if word = "false".toList || word = "0".toList then some false
  else none

/-- The truth value that a value converts to. -/
def toBoolean? : Value → Option Bool
  | null => none
  | boolean b => some b
  | integer n => some (n != 0)
  | real x => some !x.isZero
  | text s => readBoolean? (Text.trim s.toList)

/-- The value that a value other than NULL converts to. -/
def converted? (value : Value) : ColumnType → Option Value
  | .integer => value.toInteger?.map integer
  | .real => value.toReal?.map real
  | .text => some (text value.render)
  | .boolean => value.toBoolean?.map boolean

/-- The value converted to a type.  NULL stays NULL. -/
def convert (value : Value) (target : ColumnType) : Result Value :=
  if value.isNull then .ok null
  else
    match value.converted? target with
    | some result => .ok result
    | none => .error (.conversion value target)

/-! ## What conversions give -/

variable {value result : Value} {target : ColumnType}

/-- The outcome of a conversion has the target type. -/
theorem type?_of_converted? (h : value.converted? target = some result) :
    result.type? = some target := by
  cases target with
  | integer =>
    obtain ⟨n, -, rfl⟩ := Option.map_eq_some_iff.mp h
    rfl
  | real =>
    obtain ⟨x, -, rfl⟩ := Option.map_eq_some_iff.mp h
    rfl
  | text =>
    obtain rfl := Option.some.inj h
    rfl
  | boolean =>
    obtain ⟨b, -, rfl⟩ := Option.map_eq_some_iff.mp h
    rfl

/-- A value of the target type is kept. -/
theorem converted?_of_type? (h : value.type? = some target) :
    value.converted? target = some value := by
  cases value with
  | null => cases h
  | integer n => cases h; rfl
  | real x => cases h; rfl
  | text s => cases h; rfl
  | boolean b => cases h; rfl

/-- NULL is converted to NULL, and every other value to a value of the target type. -/
theorem type?_of_convert (h : value.convert target = .ok result) :
    value = null ∧ result = null ∨ value ≠ null ∧ result.type? = some target := by
  unfold convert at h
  split at h
  · rename_i hnull
    cases value with
    | null => exact Or.inl ⟨rfl, (Except.ok.inj h).symm⟩
    | _ => cases hnull
  · rename_i hnull
    refine Or.inr ⟨fun hvalue => hnull (hvalue ▸ rfl), ?_⟩
    split at h
    · rename_i found hfound
      exact Except.ok.inj h ▸ type?_of_converted? hfound
    · cases h

/-- A value of the target type is converted to itself. -/
theorem convert_of_type? (h : value.type? = some target) : value.convert target = .ok value := by
  have hnull : value.isNull = false := by
    cases value with
    | null => cases h
    | _ => rfl
  simp [convert, hnull, converted?_of_type? h]

end RelQuery.Value
