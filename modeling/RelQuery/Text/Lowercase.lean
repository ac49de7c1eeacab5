import RelQuery.Text.CaseTable

/-!
# Lower case

The lower case of a whole text, as Unicode defines it: character by character, except that `İ`
becomes two characters and that a capital sigma at the end of a word becomes `ς`.  Tables and the
duplicate check of column names are keyed by it.
-/

namespace RelQuery.Text

/-- The character carries case. -/
def isCased (c : Char) : Bool :=
  casedRanges.any (·.holds c.toNat)

/-- The character is looked through at word boundaries. -/
def isIgnorable (c : Char) : Bool :=
  ignorableRanges.any (·.holds c.toNat)

/-- The lower case of one character taken alone. -/
def lowerChar (c : Char) : Char :=
  if c.toNat < 0x80 then c.toLower
  else
    match capitalRuns.find? (·.holds c.toNat) with
    | some run => Char.ofNat (c.toNat + run.shift).toNat
    | none => c

/-- The first character that is not looked through carries case. -/
def startsCased (chars : List Char) : Bool :=
  match chars.dropWhile isIgnorable with
  | [] => false
  | c :: _ => isCased c

/-- The lower case of a character between the characters before it, nearest first, and those after
it: a capital sigma that ends a word of at least two letters takes its final form. -/
def lowerAt (before : List Char) (c : Char) (after : List Char) : List Char :=
  if c = 'Σ' then
    [if startsCased before && !startsCased after then 'ς' else 'σ']
  else if c = 'İ' then ['i', '\u0307']
  else [lowerChar c]

/-- The lower case of the characters that follow `before`. -/
def lowerAfter (before : List Char) : List Char → List Char
  | [] => []
  | c :: rest => lowerAt before c rest ++ lowerAfter (c :: before) rest

/-- The lower case of a text. -/
def lowercase (text : String) : String :=
  String.ofList (lowerAfter [] text.toList)

end RelQuery.Text
