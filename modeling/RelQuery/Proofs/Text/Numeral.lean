import Mathlib.Data.List.TakeWhile
import RelQuery.Text.Blank
import RelQuery.Text.Numeral

/-!
# Numerals that are read back

Reading the digits of a number gives the number, unless it is past the limit of the reader, and so
does reading an integer with its sign.  No character of a numeral is blank, so trimming removes the
blanks around a numeral and leaves the numeral.
-/

namespace RelQuery

namespace Numeral

variable {limit high n : Nat} {chars rest : List Char} {c : Char}

/-! ## Digits -/

/-- A digit character is a digit. -/
lemma isDigit_digitChar (d : Nat) : (digitChar d).isDigit = true := by
  have all : ∀ k < 10, (Char.ofNat ('0'.toNat + k)).isDigit = true := by decide
  exact all (d % 10) (Nat.mod_lt d (by decide))

/-- A digit character stands for the last digit of its number. -/
lemma digitValue_digitChar (d : Nat) : digitValue (digitChar d) = d % 10 := by
  have all : ∀ k < 10, digitValue (Char.ofNat ('0'.toNat + k)) = k := by decide
  exact all (d % 10) (Nat.mod_lt d (by decide))

/-- Every number is written by at least one digit. -/
lemma digits_ne_nil (n : Nat) : digits n ≠ [] := by
  rw [digits]
  split <;> simp

/-- A number is written by digits only. -/
lemma isDigit_of_mem_digits (h : c ∈ digits n) : c.isDigit = true := by
  induction n using digits.induct with
  | case1 n hsmall =>
    rw [digits, if_pos hsmall, List.mem_singleton] at h
    exact h ▸ isDigit_digitChar n
  | case2 n hlarge ih =>
    rw [digits, if_neg hlarge, List.mem_append, List.mem_singleton] at h
    rcases h with h | rfl
    · exact ih h
    · exact isDigit_digitChar n

/-- An integer is written by digits and `-`. -/
lemma isDigit_of_mem_signed {n : Int} (h : c ∈ signed n) : c = '-' ∨ c.isDigit = true := by
  unfold signed at h
  split at h
  · rcases List.mem_cons.mp h with rfl | h
    · exact Or.inl rfl
    · exact Or.inr (isDigit_of_mem_digits h)
  · exact Or.inr (isDigit_of_mem_digits h)

/-! ## Reading -/

/-- Digits are read one after another. -/
lemma readFrom_append :
    readFrom limit high (chars ++ rest) =
      (readFrom limit high chars).bind fun next => readFrom limit next rest := by
  induction chars generalizing high with
  | nil => rfl
  | cons c chars ih =>
    simp only [List.cons_append, readFrom]
    split
    · exact ih
    · rfl

/-- The digits of a number are read as the number, if it is within the limit. -/
lemma readFrom_digits (limit n : Nat) :
    readFrom limit 0 (digits n) = if n ≤ limit then some n else none := by
  induction n using digits.induct with
  | case1 n hsmall =>
    rw [digits, if_pos hsmall]
    simp [readFrom, isDigit_digitChar, digitValue_digitChar, Nat.mod_eq_of_lt hsmall]
  | case2 n hlarge ih =>
    rw [digits, if_neg hlarge, readFrom_append, ih]
    have hwhole : 10 * (n / 10) + n % 10 = n := Nat.div_add_mod n 10
    by_cases hlimit : n / 10 ≤ limit
    · simp [hlimit, readFrom, isDigit_digitChar, digitValue_digitChar, hwhole]
    · -- the digits before the last one are past the limit already
      have hpast : ¬n ≤ limit := by omega
      simp [hlimit, hpast]

/-- The numeral of a number is read as the number, if it is within the limit. -/
lemma read?_digits (limit n : Nat) :
    read? limit (digits n) = if n ≤ limit then some n else none := by
  obtain ⟨c, rest, hdigits⟩ := List.exists_cons_of_ne_nil (digits_ne_nil n)
  rw [← readFrom_digits, hdigits]
  rfl

/-- A numeral that starts with a digit has no sign. -/
lemma readSigned?_of_isDigit (hc : c.isDigit = true) :
    readSigned? limit (c :: rest) = (read? limit (c :: rest)).map Nat.cast := by
  rw [readSigned?]
  · cases read? limit (c :: rest) <;> rfl
  · rintro rest' ⟨⟩
    exact absurd hc (by decide)
  · rintro rest' ⟨⟩
    exact absurd hc (by decide)

/-- The numeral of an integer is read as the integer, if its absolute value is within the limit. -/
lemma readSigned?_signed (limit : Nat) (n : Int) :
    readSigned? limit (signed n) = if n.natAbs ≤ limit then some n else none := by
  unfold signed
  split
  · have habs : -(n.natAbs : Int) = n := by omega
    rw [readSigned?, read?_digits]
    split
    · exact congrArg some habs
    · rfl
  · have habs : (n.natAbs : Int) = n := by omega
    obtain ⟨c, rest, hdigits⟩ := List.exists_cons_of_ne_nil (digits_ne_nil n.natAbs)
    have hc : c.isDigit = true := isDigit_of_mem_digits (hdigits ▸ List.mem_cons_self)
    rw [hdigits, readSigned?_of_isDigit hc, ← hdigits, read?_digits]
    split
    · exact congrArg some habs
    · rfl

end Numeral

namespace Text

variable {before chars after : List Char}

/-! ## Trimming -/

/-- Blanks at the start of a text are removed. -/
lemma trimStart_append (hbefore : ∀ c ∈ before, isBlank c = true) :
    trimStart (before ++ chars) = trimStart chars :=
  List.dropWhile_append_of_pos hbefore

/-- Nothing is removed from the start of a text that does not start with a blank. -/
lemma trimStart_eq_self (hfirst : ∀ c ∈ chars.head?, isBlank c = false) :
    trimStart chars = chars := by
  cases chars with
  | nil => rfl
  | cons c rest => exact List.dropWhile_cons_of_neg (by simp [hfirst c rfl])

/-- Trimming removes the blanks around a text that has none, and leaves the text. -/
lemma trim_append_append (hbefore : ∀ c ∈ before, isBlank c = true)
    (hchars : ∀ c ∈ chars, isBlank c = false) (hafter : ∀ c ∈ after, isBlank c = true) :
    trim (before ++ chars ++ after) = chars := by
  rw [trim, List.append_assoc, trimStart_append hbefore]
  cases chars with
  | nil =>
    -- blanks only, all of which are at the start
    have hnothing : trimStart after = [] := List.dropWhile_eq_nil_iff.mpr hafter
    rw [List.nil_append, hnothing]
    rfl
  | cons c rest =>
    have hstart : trimStart (c :: rest ++ after) = c :: rest ++ after :=
      trimStart_eq_self (by simpa using hchars c List.mem_cons_self)
    have hend : trimStart (c :: rest).reverse = (c :: rest).reverse :=
      trimStart_eq_self fun last hlast =>
        hchars last (List.mem_reverse.mp (List.mem_of_mem_head? hlast))
    rw [hstart, List.reverse_append, trimStart_append (by simpa using hafter), hend,
      List.reverse_reverse]

/-- No character of an integer's numeral is blank. -/
lemma isBlank_of_mem_signed {c : Char} {n : Int} (h : c ∈ Numeral.signed n) :
    isBlank c = false := by
  rcases Numeral.isDigit_of_mem_signed h with rfl | hdigit
  · rfl
  · simp only [Char.isDigit, Bool.and_eq_true, decide_eq_true_eq] at hdigit
    have hlow : 48 ≤ c.toNat := hdigit.1
    have hhigh : c.toNat ≤ 57 := hdigit.2
    simp only [isBlank, Bool.or_eq_false_iff, Bool.and_eq_false_iff, decide_eq_false_iff_not,
      beq_eq_false_iff_ne]
    omega

end Text

end RelQuery
