import Mathlib.Tactic.Lemma
import Mathlib.Tactic.Tauto
import RelQuery.Proofs.Codec.Spelling

/-!
# What decoders recognise

A stretch of a record is what stands between two of its places.  A reading recognises a kind of
spelling if it finds a value exactly where the stretch from the cursor to the place it hands back is
a spelling of the value.  Each decoder recognises one kind of spelling, and readings one after the
other recognise the spellings in turn.  Expressions are read by a decoder that calls itself further
on, and there the induction is on what is left of the record.
-/

namespace RelQuery

/-! ## Stretches of a record -/

section Stretch

variable {record : List UInt8} {start middle last : Nat} {kind kind' : List UInt8 → Prop}

/-- The bytes from one place of the record to another are of the kind. -/
def Stretch (record : List UInt8) (kind : List UInt8 → Prop) (start last : Nat) : Prop :=
  start ≤ last ∧ last ≤ record.length ∧ kind (record.extract start last)

/-- There are as many bytes as there are places between the two. -/
lemma length_extract (h : last ≤ record.length) :
    (record.extract start last).length = last - start := by
  rw [List.extract_eq_take_drop, List.length_take, List.length_drop]
  omega

/-- What stands before a place in between and what stands after it. -/
lemma extract_append_extract (hstart : start ≤ middle) (hlast : middle ≤ last) :
    record.extract start middle ++ record.extract middle last = record.extract start last := by
  obtain ⟨first, rfl⟩ := Nat.le.dest hstart
  obtain ⟨second, rfl⟩ := Nat.le.dest hlast
  simp only [List.extract_eq_take_drop, Nat.add_sub_cancel_left]
  rw [Nat.add_assoc, Nat.add_sub_cancel_left, List.take_add, List.drop_drop]

/-- A stretch that starts with a byte. -/
lemma extract_eq_cons {head : UInt8} (hhead : record[start]? = some head) (h : start < last) :
    record.extract start last = head :: record.extract (start + 1) last := by
  obtain ⟨hlt, rfl⟩ := List.getElem?_eq_some_iff.mp hhead
  have hcount : last - start = last - (start + 1) + 1 := by omega
  rw [List.extract_eq_take_drop, List.extract_eq_take_drop, hcount,
    List.drop_eq_getElem_cons hlt, List.take_succ_cons]

/-- The stretch may be described in another way. -/
lemma stretch_congr (h : ∀ bytes, kind bytes ↔ kind' bytes) :
    Stretch record kind start last ↔ Stretch record kind' start last := by
  rw [Stretch, Stretch, h]

/-- A stretch of one of several kinds. -/
lemma stretch_exists_iff {ι : Type} {kinds : ι → List UInt8 → Prop} :
    Stretch record (fun bytes => ∃ i, kinds i bytes) start last ↔
      ∃ i, Stretch record (kinds i) start last := by
  simp [Stretch]

/-- Two kinds in turn are two stretches one after the other. -/
lemma stretch_inTurn_iff : Stretch record (InTurn kind kind') start last ↔
    ∃ middle, Stretch record kind start middle ∧ Stretch record kind' middle last := by
  constructor
  · rintro ⟨hle, hlast, before, after, hbefore, hafter, hbytes⟩
    have hlength := congrArg List.length hbytes
    rw [length_extract hlast, List.length_append] at hlength
    have hmiddle : start + before.length ≤ last := by omega
    rw [← extract_append_extract (Nat.le_add_right start before.length) hmiddle] at hbytes
    obtain ⟨hfirst, hsecond⟩ :=
      List.append_inj hbytes (by rw [length_extract (Nat.le_trans hmiddle hlast)]; omega)
    rw [← hfirst] at hbefore
    rw [← hsecond] at hafter
    exact ⟨_, ⟨Nat.le_add_right _ _, Nat.le_trans hmiddle hlast, hbefore⟩, hmiddle, hlast, hafter⟩
  · rintro ⟨middle, ⟨hstart, -, hbefore⟩, hmiddle, hlast, hafter⟩
    exact ⟨Nat.le_trans hstart hmiddle, hlast, _, _, hbefore, hafter,
      (extract_append_extract hstart hmiddle).symm⟩

/-- One given byte is at its place. -/
lemma stretch_byte_iff {byte : UInt8} : Stretch record (· = [byte]) start last ↔
    record[start]? = some byte ∧ last = start + 1 := by
  constructor
  · rintro ⟨hle, hlast, hbytes⟩
    have hlength := congrArg List.length hbytes
    rw [length_extract hlast, List.length_singleton] at hlength
    have hlt : start < record.length := by omega
    rw [extract_eq_cons (List.getElem?_eq_getElem hlt) (by omega)] at hbytes
    rw [List.getElem?_eq_getElem hlt, (List.cons.inj hbytes).1]
    exact ⟨rfl, by omega⟩
  · rintro ⟨hbyte, rfl⟩
    refine ⟨Nat.le_succ start, (List.getElem?_eq_some_iff.mp hbyte).1, ?_⟩
    rw [extract_eq_cons hbyte (Nat.lt_succ_self start), List.extract_eq_take_drop]
    simp

/-- A stretch that is not empty starts with the byte at its place. -/
lemma Stretch.exists_head (h : Stretch record kind start last) (hnil : ¬kind []) :
    ∃ head, record[start]? = some head ∧
      start < last ∧ kind (head :: record.extract (start + 1) last) := by
  obtain ⟨hle, hlast, hkind⟩ := h
  have hne : start < last := by
    refine Nat.lt_of_le_of_ne hle ?_
    rintro rfl
    apply hnil
    simpa [List.extract_eq_take_drop] using hkind
  have hhead : record[start]? = some record[start] := List.getElem?_eq_getElem (by omega)
  rw [extract_eq_cons hhead hne] at hkind
  exact ⟨_, hhead, hne, hkind⟩

end Stretch

namespace Decoder

variable {α β : Type} {record : List UInt8} {cursor : Nat}

/-- The reading gave the value and handed back the place. -/
def Hands (result : Except CodecFault (Parsed α cursor)) (value : α) (next : Nat) : Prop :=
  ∃ advanced, result = .ok ⟨value, next, advanced⟩

/-- The reading finds the values that are spelled from the cursor on, and no others. -/
def Recognises (record : List UInt8) (result : Except CodecFault (Parsed α cursor))
    (spelled : α → List UInt8 → Prop) : Prop :=
  ∀ value next, Hands result value next ↔ Stretch record (spelled value) cursor next

/-! ## Reading one part after the other -/

section Combined

variable {first : Except CodecFault (Parsed α cursor)} {p : α → List UInt8 → Prop}

/-- The spellings may be described in another way. -/
lemma Recognises.congr {q : α → List UInt8 → Prop} (h : Recognises record first p)
    (hpq : ∀ value bytes, p value bytes ↔ q value bytes) : Recognises record first q := by
  intro value next
  rw [h value next]
  exact stretch_congr (hpq value)

/-- The spellings may be described in another way once the first byte is known. -/
lemma Recognises.congr_cons {head : UInt8} (hhead : record[cursor]? = some head)
    {q : α → List UInt8 → Prop} (h : Recognises record first p)
    (hpq : ∀ value after, p value (head :: after) ↔ q value (head :: after))
    (hp : ∀ value, ¬p value []) (hq : ∀ value, ¬q value []) : Recognises record first q := by
  intro value next
  rw [h value next]
  constructor
  · intro hstretch
    obtain ⟨byte, hbyte, hlt, hspelled⟩ := hstretch.exists_head (hp value)
    obtain rfl : head = byte := Option.some.inj (hhead.symm.trans hbyte)
    refine ⟨hstretch.1, hstretch.2.1, ?_⟩
    rw [extract_eq_cons hhead hlt]
    exact (hpq value _).mp hspelled
  · intro hstretch
    obtain ⟨byte, hbyte, hlt, hspelled⟩ := hstretch.exists_head (hq value)
    obtain rfl : head = byte := Option.some.inj (hhead.symm.trans hbyte)
    refine ⟨hstretch.1, hstretch.2.1, ?_⟩
    rw [extract_eq_cons hhead hlt]
    exact (hpq value _).mpr hspelled

/-- A reading that goes on after a value recognises what is spelled in turn. -/
lemma Recognises.andThen {next : (value : α) → (after : Nat) → cursor < after →
      Except CodecFault (Parsed β after)} {q : α → β → List UInt8 → Prop}
    (hfirst : Recognises record first p)
    (hnext : ∀ value after advanced, Recognises record (next value after advanced) (q value)) :
    Recognises record (Decoder.andThen first next) fun result bytes =>
      ∃ value, InTurn (p value) (q value result) bytes := by
  intro result last
  simp only [stretch_exists_iff, stretch_inTurn_iff]
  constructor
  · rintro ⟨advanced, h⟩
    unfold Decoder.andThen at h
    split at h
    · contradiction
    rename_i value after hafter
    split at h
    · contradiction
    rename_i found last' further hfound
    obtain ⟨rfl, rfl⟩ : found = result ∧ last' = last := by simpa using h
    exact ⟨value, after, (hfirst value after).mp ⟨hafter, rfl⟩,
      (hnext value after hafter found last').mp ⟨further, hfound⟩⟩
  · rintro ⟨value, after, hbefore, hafter⟩
    obtain ⟨advanced, rfl⟩ := (hfirst value after).mpr hbefore
    obtain ⟨further, hresult⟩ := (hnext value after advanced result last).mpr hafter
    exact ⟨Nat.lt_trans advanced further, by simp only [Decoder.andThen, hresult]⟩

/-- A reading that goes on after one byte recognises the byte and what is spelled after it. -/
lemma Recognises.afterByte {head : UInt8} (hhead : record[cursor]? = some head)
    {rest : Except CodecFault (Parsed α (cursor + 1))} (hrest : Recognises record rest p) :
    Recognises record (Decoder.afterByte rest) fun value => InTurn (· = [head]) (p value) := by
  intro value next
  have hturn : Stretch record (InTurn (· = [head]) (p value)) cursor next ↔
      Stretch record (p value) (cursor + 1) next := by
    simp only [stretch_inTurn_iff, stretch_byte_iff, hhead, true_and, exists_eq_left]
  rw [hturn, ← hrest value next]
  unfold Decoder.afterByte Hands
  constructor
  · rintro ⟨advanced, h⟩
    split at h
    · contradiction
    rename_i found last further
    obtain ⟨rfl, rfl⟩ : found = value ∧ last = next := by simpa using h
    exact ⟨further, rfl⟩
  · rintro ⟨further, rfl⟩
    exact ⟨Nat.lt_of_succ_lt further, rfl⟩

/-- A reading whose value passes a check recognises the spellings of what the check gives. -/
lemma Recognises.andCheck {check : α → Except CodecFault β} (hfirst : Recognises record first p) :
    Recognises record (Decoder.andCheck first check) fun result bytes =>
      ∃ value, check value = .ok result ∧ p value bytes := by
  intro result next
  constructor
  · rintro ⟨advanced, h⟩
    unfold Decoder.andCheck at h
    split at h
    · contradiction
    rename_i value after hafter
    split at h
    · contradiction
    rename_i found hfound
    obtain ⟨rfl, rfl⟩ : found = result ∧ after = next := by simpa using h
    obtain ⟨hle, hlast, hbytes⟩ := (hfirst value after).mp ⟨hafter, rfl⟩
    exact ⟨hle, hlast, value, hfound, hbytes⟩
  · rintro ⟨hle, hlast, value, hcheck, hbytes⟩
    obtain ⟨advanced, rfl⟩ := (hfirst value next).mpr ⟨hle, hlast, hbytes⟩
    exact ⟨advanced, by simp only [Decoder.andCheck, hcheck]⟩

/-- A reading whose value is changed by a function recognises the spellings of the original. -/
lemma Recognises.andMap (f : α → β) (hfirst : Recognises record first p) :
    Recognises record (Decoder.andMap first f) fun result bytes =>
      ∃ value, f value = result ∧ p value bytes :=
  hfirst.andCheck.congr fun result bytes => by simp only [Except.ok.injEq]

end Combined

/-- A failed reading recognises nothing. -/
lemma recognises_error {spelled : α → List UInt8 → Prop} (fault : CodecFault)
    (h : ∀ value next, ¬Stretch record (spelled value) cursor next) :
    Recognises record (.error fault : Except CodecFault (Parsed α cursor)) spelled := by
  intro value next
  refine iff_of_false ?_ (h value next)
  rintro ⟨_, h⟩
  contradiction

/-- A reading that fails for the byte at the cursor recognises nothing that starts with another. -/
lemma recognises_error_of_head {spelled : α → List UInt8 → Prop} (fault : CodecFault)
    (hnil : ∀ value, ¬spelled value [])
    (h : ∀ value head after, record[cursor]? = some head → ¬spelled value (head :: after)) :
    Recognises record (.error fault : Except CodecFault (Parsed α cursor)) spelled := by
  refine recognises_error fault fun value next hstretch => ?_
  obtain ⟨head, hhead, -, hspelled⟩ := hstretch.exists_head (hnil value)
  exact h value head _ hhead hspelled

/-! ## Bytes, numbers and texts -/

/-- A value that one byte gives is spelled by that byte. -/
lemma recognises_ofByte {head : UInt8} (hhead : record[cursor]? = some head) (value : α) :
    Recognises record (.ok (.ofByte value) : Except CodecFault (Parsed α cursor))
      fun found bytes => value = found ∧ bytes = [head] := by
  intro found next
  have hbyte : Stretch record (· = [head]) cursor next ↔
      record[cursor]? = some head ∧ next = cursor + 1 := stretch_byte_iff
  constructor
  · rintro ⟨_, h⟩
    obtain ⟨rfl, rfl⟩ : value = found ∧ cursor + 1 = next := by simpa [Parsed.ofByte] using h
    obtain ⟨hle, hlast, hbytes⟩ := hbyte.mpr ⟨hhead, rfl⟩
    exact ⟨hle, hlast, rfl, hbytes⟩
  · rintro ⟨hle, hlast, rfl, hbytes⟩
    obtain ⟨-, rfl⟩ := hbyte.mp ⟨hle, hlast, hbytes⟩
    exact ⟨Nat.lt_succ_self cursor, rfl⟩

/-- A byte is spelled by itself. -/
lemma recognises_byte (fault : CodecFault) :
    Recognises record (byte fault record cursor) fun head => (· = [head]) := by
  unfold byte
  split
  · rename_i hnone
    exact recognises_error_of_head fault (by simp) (by simp [hnone])
  · rename_i head hhead
    exact (recognises_ofByte hhead head).congr_cons hhead (by simp +contextual) (by simp) (by simp)

/-- Bytes are those of the number they hold. -/
lemma littleEndian_ofLittleEndian (bytes : List UInt8) :
    littleEndian bytes.length (ofLittleEndian bytes) = bytes := by
  induction bytes with
  | nil => rfl
  | cons byte rest ih =>
    have hbyte : byte.toNat < 256 := byte.toNat_lt
    have hlow : (byte.toNat + 256 * ofLittleEndian rest) % 256 = byte.toNat := by omega
    have hhigh : (byte.toNat + 256 * ofLittleEndian rest) / 256 = ofLittleEndian rest := by omega
    rw [ofLittleEndian, List.length_cons, littleEndian, hlow, hhigh, ih, UInt8.ofNat_toNat]

/-- The number that bytes hold fits in them. -/
lemma ofLittleEndian_lt (bytes : List UInt8) : ofLittleEndian bytes < 256 ^ bytes.length := by
  induction bytes with
  | nil => simp [ofLittleEndian]
  | cons byte rest ih =>
    have hbyte : byte.toNat < 256 := byte.toNat_lt
    rw [ofLittleEndian, List.length_cons, Nat.pow_succ]
    omega

/-- A number is spelled by its bytes, if it fits in the width. -/
lemma recognises_number (width : Nat) : Recognises record (number width record cursor)
    fun n bytes => n < 256 ^ (width + 1) ∧ bytes = littleEndian (width + 1) n := by
  intro n next
  unfold number
  dsimp only
  constructor
  · rintro ⟨_, h⟩
    split at h
    · contradiction
    rename_i henough
    obtain ⟨rfl, rfl⟩ : ofLittleEndian (record.extract cursor (cursor + (width + 1))) = n ∧
        cursor + (width + 1) = next := by simpa using h
    have hlength : (record.extract cursor (cursor + (width + 1))).length = width + 1 := by
      rw [length_extract (by omega)]
      omega
    refine ⟨by omega, by omega, ?_, ?_⟩
    · simpa only [hlength] using ofLittleEndian_lt (record.extract cursor (cursor + (width + 1)))
    · simpa only [hlength] using
        (littleEndian_ofLittleEndian (record.extract cursor (cursor + (width + 1)))).symm
  · rintro ⟨hle, hlast, hsmall, hbytes⟩
    have hlength := congrArg List.length hbytes
    rw [length_extract hlast, length_littleEndian] at hlength
    obtain rfl : next = cursor + (width + 1) := by omega
    refine ⟨by omega, ?_⟩
    simp only [if_neg (Nat.not_lt.mpr hlast), hbytes, ofLittleEndian_littleEndian,
      Nat.mod_eq_of_lt hsmall]

/-- A word of 64 bits is spelled by its eight bytes. -/
lemma exists_word_iff {word : UInt64} {bytes : List UInt8} :
    (∃ n, UInt64.ofNat n = word ∧ n < 256 ^ (7 + 1) ∧ bytes = littleEndian (7 + 1) n) ↔
      bytes = littleEndian 8 word.toNat := by
  constructor
  · rintro ⟨n, rfl, hsmall, rfl⟩
    rw [UInt64.toNat_ofNat_of_lt' hsmall]
  · rintro rfl
    exact ⟨word.toNat, UInt64.ofNat_toNat, lt_of_lt_of_eq word.toNat_lt (by decide), rfl⟩

/-- Bytes are those of a text exactly if they are read as it. -/
lemma textOfBytes_eq_ok_iff {bytes : List UInt8} {s : String} :
    textOfBytes bytes = .ok s ↔ bytes = utf8 s := by
  unfold textOfBytes String.fromUTF8?
  constructor
  · intro h
    split at h
    · rename_i t ht
      split at ht
      · obtain rfl := Option.some.inj ht
        obtain rfl := Except.ok.inj h
        rfl
      · contradiction
    · contradiction
  · rintro rfl
    have hbytes : (⟨(utf8 s).toArray⟩ : ByteArray) = s.toByteArray := by
      rw [utf8, Array.toArray_toList]
      rfl
    simp only [hbytes, dif_pos s.isValidUTF8]
    rfl

/-- The record of a text is its length in four bytes and then its UTF-8. -/
lemma gives_text_iff {s : String} {bytes : List UInt8} : (Written.text s).Gives bytes ↔
    (utf8 s).length < 256 ^ 4 ∧ bytes = littleEndian 4 (utf8 s).length ++ utf8 s := by
  unfold Written.text
  dsimp only
  split
  · rename_i hsmall
    rw [Written.gives_ofBytes]
    exact ⟨fun h => ⟨hsmall, h⟩, And.right⟩
  · rename_i hlarge
    rw [Written.gives_stopped]
    exact ⟨False.elim, fun h => hlarge h.1⟩

/-- A text is spelled by its record. -/
lemma recognises_text :
    Recognises record (text record cursor) fun s => (Written.text s).Gives := by
  intro s next
  have hgives : Stretch record (Written.text s).Gives cursor next ↔
      ∃ start, Stretch record (fun bytes => (utf8 s).length < 256 ^ 4 ∧
        bytes = littleEndian 4 (utf8 s).length) cursor start ∧
          Stretch record (· = utf8 s) start next := by
    rw [← stretch_inTurn_iff]
    refine stretch_congr fun bytes => ?_
    rw [gives_text_iff, InTurn]
    simp
  rw [hgives]
  unfold text
  constructor
  · rintro ⟨_, h⟩
    split at h
    · contradiction
    rename_i length start hadvanced hnumber
    dsimp only at h
    split at h
    · contradiction
    rename_i henough
    split at h
    · contradiction
    rename_i t htext
    obtain ⟨rfl, rfl⟩ : t = s ∧ start + length = next := by simpa using h
    have hbytes := textOfBytes_eq_ok_iff.mp htext
    have hlength : (utf8 t).length = length := by
      rw [← hbytes, length_extract (by omega)]
      omega
    refine ⟨start, ?_, Nat.le_add_right _ _, by omega, hbytes⟩
    rw [hlength]
    exact (recognises_number 3 length start).mp ⟨hadvanced, hnumber⟩
  · rintro ⟨start, hnumber, hle, hlast, hbytes⟩
    obtain ⟨hadvanced, hnumber⟩ := (recognises_number 3 (utf8 s).length start).mpr hnumber
    have hlength := congrArg List.length hbytes
    rw [length_extract hlast] at hlength
    obtain rfl : next = start + (utf8 s).length := by omega
    have htext : textOfBytes (utf8 s) = .ok s := textOfBytes_eq_ok_iff.mpr rfl
    refine ⟨by omega, ?_⟩
    simp only [hnumber, if_neg (Nat.not_lt.mpr hlast), hbytes, htext]

/-- The record of an optional text starts with its marker. -/
lemma gives_optionalText_iff {s : Option String} {bytes : List UInt8} :
    (Written.optionalText s).Gives bytes ↔
      none = s ∧ bytes = [0] ∨ ∃ t, some t = s ∧ InTurn (· = [1]) (Written.text t).Gives bytes := by
  cases s with
  | none => simp [Written.optionalText, Written.gives_ofBytes]
  | some s =>
    rw [Written.optionalText, Written.gives_append, Written.gives_ofBytes]
    simp

/-- An optional text is spelled by its record. -/
lemma recognises_optionalText :
    Recognises record (optionalText record cursor) fun s => (Written.optionalText s).Gives := by
  refine Recognises.congr ?_ fun s bytes => gives_optionalText_iff.symm
  unfold optionalText
  split
  · rename_i hnone
    exact (recognises_ofByte hnone none).congr_cons hnone (by simp) (by simp) (by simp)
  · rename_i hsome
    exact ((recognises_text.andMap some).afterByte hsome).congr_cons hsome (by simp) (by simp)
      (by simp)
  · rename_i hnone hsome
    refine recognises_error_of_head _ (by simp) ?_
    rintro s head after hhead (⟨rfl, hbytes⟩ | ⟨t, rfl, h⟩)
    · rw [(List.cons.inj hbytes).1] at hhead
      exact hnone hhead
    · rw [(inTurn_byte_cons_iff.mp h).1] at hhead
      exact hsome hhead

end Decoder

/-! ## Values, columns and trees -/

/-- A byte stands for the type whose byte it is. -/
lemma ColumnType.ofCode?_eq_some_iff {code : UInt8} {type : ColumnType} :
    ofCode? code = some type ↔ code = type.code := by
  constructor
  · intro h
    have hcode := List.find?_some (p := fun type : ColumnType => type.code == code) h
    exact (beq_iff_eq.mp hcode).symm
  · rintro rfl
    exact ofCode?_code type

open Decoder

variable {record : List UInt8} {cursor : Nat}

namespace Value

/-- The data of a value are what follows the byte of its type in a spelling, with any byte but 0 for
TRUE. -/
lemma recognises_decodeData (type : ColumnType) : Recognises record (decodeData type record cursor)
    fun value bytes => value.SpelledBy (· ≠ 0) (type.code :: bytes) := by
  cases type with
  | integer =>
    refine ((recognises_number 7).andMap _).congr fun value bytes => ?_
    cases value with
    | integer n =>
      have hword (m : Nat) : (UInt64.ofNat m).toInt64 = n ↔ UInt64.ofNat m = n.toUInt64 :=
        ⟨fun h => by rw [← h, UInt64.toUInt64_toInt64], fun h => by rw [h, Int64.toInt64_toUInt64]⟩
      simp only [integer.injEq, hword, exists_word_iff, spelledBy_integer_iff, List.cons.injEq,
        true_and]
    | _ => simp [ColumnType.code]
  | real =>
    refine ((recognises_number 7).andMap _).congr fun value bytes => ?_
    cases value with
    | real x =>
      have hword (m : Nat) : (⟨UInt64.ofNat m⟩ : Binary64) = x ↔ UInt64.ofNat m = x.bits := by
        cases x
        simp only [Binary64.mk.injEq]
      simp only [real.injEq, hword, exists_word_iff, spelledBy_real_iff, List.cons.injEq, true_and]
    | _ => simp [ColumnType.code]
  | text =>
    refine (recognises_text.andMap _).congr fun value bytes => ?_
    cases value <;> simp [ColumnType.code]
  | boolean =>
    refine ((recognises_byte _).andMap _).congr fun value bytes => ?_
    cases value with
    | boolean b => cases b <;> simp
    | _ => simp [ColumnType.code]

/-- A value is spelled by its record, with any byte but 0 for TRUE. -/
lemma recognises_decode : Recognises record (Value.decode record cursor) (SpelledBy (· ≠ 0)) := by
  unfold Value.decode
  split
  · rename_i hnone
    exact recognises_error_of_head _ (by simp) (by simp [hnone])
  · rename_i hnull
    refine (recognises_ofByte hnull null).congr_cons hnull (fun value after => ?_) (by simp)
      (by simp)
    cases value <;> simp [ColumnType.code]
  · rename_i code hnull hcode
    split
    · rename_i hunknown
      refine recognises_error_of_head _ (by simp) fun value head after hhead h => ?_
      obtain rfl : code = head := Option.some.inj (hcode.symm.trans hhead)
      rcases head_of_spelledBy h with rfl | ⟨type, rfl⟩
      · exact hnull rfl
      · rw [ColumnType.ofCode?_code] at hunknown
        contradiction
    · rename_i type htype
      obtain rfl := ColumnType.ofCode?_eq_some_iff.mp htype
      exact ((recognises_decodeData type).afterByte hcode).congr_cons hcode (by simp) (by simp)
        (by simp)

end Value

namespace ColumnRef

/-- The record of an optional position starts with its marker. -/
lemma gives_encodeIndex_iff {index : Option Nat} {bytes : List UInt8} :
    (encodeIndex index).Gives bytes ↔ none = index ∧ bytes = [0] ∨
      ∃ n, some n = index ∧ InTurn (· = [1]) (fun after => n < 256 ^ 4 ∧ after = littleEndian 4 n)
        bytes := by
  cases index with
  | none => simp [encodeIndex, Written.gives_ofBytes]
  | some n =>
    have hgives : (encodeIndex (some n)).Gives bytes ↔
        n < 256 ^ 4 ∧ bytes = 1 :: littleEndian 4 n := by
      rw [encodeIndex]
      split
      · rename_i hsmall
        rw [Written.gives_ofBytes]
        exact ⟨fun h => ⟨hsmall, h⟩, And.right⟩
      · rename_i hlarge
        rw [Written.gives_stopped]
        exact ⟨False.elim, fun h => hlarge h.1⟩
    rw [hgives]
    simp [inTurn_byte_iff]

/-- An optional position is spelled by its record. -/
lemma recognises_decodeIndex :
    Recognises record (decodeIndex record cursor) fun index => (encodeIndex index).Gives := by
  refine Recognises.congr ?_ fun index bytes => gives_encodeIndex_iff.symm
  unfold decodeIndex
  split
  · rename_i hnone
    exact (recognises_ofByte hnone none).congr_cons hnone (by simp) (by simp) (by simp)
  · rename_i hsome
    exact (((recognises_number 3).andMap some).afterByte hsome).congr_cons hsome (by simp)
      (by simp) (by simp)
  · rename_i hnone hsome
    refine recognises_error_of_head _ (by simp) ?_
    rintro index head after hhead (⟨rfl, hbytes⟩ | ⟨n, rfl, h⟩)
    · rw [(List.cons.inj hbytes).1] at hhead
      exact hnone hhead
    · rw [(inTurn_byte_cons_iff.mp h).1] at hhead
      exact hsome hhead

/-- A byte is read as the optional type that it stands for. -/
lemma decodeType_eq_ok_iff {code : UInt8} {type : Option ColumnType} :
    decodeType code = .ok type ↔ code = encodeType type := by
  constructor
  · intro h
    unfold decodeType at h
    split at h
    · obtain rfl := Except.ok.inj h
      assumption
    · split at h
      · rename_i found hfound
        obtain rfl := Except.ok.inj h
        exact ColumnType.ofCode?_eq_some_iff.mp hfound
      · contradiction
  · rintro rfl
    rcases type with _ | type
    · rfl
    · cases type <;> rfl

/-- A column reference is spelled by its record. -/
lemma recognises_decode :
    Recognises record (ColumnRef.decode record cursor) fun ref => ref.encode.Gives := by
  refine Recognises.congr (recognises_text.andThen fun name _ _ =>
    recognises_optionalText.andThen fun table _ _ => (recognises_byte _).andCheck.andThen
      fun type _ _ => recognises_decodeIndex.andMap _) fun ref bytes => ?_
  simp only [decodeType_eq_ok_iff, encode, Written.gives_append, Written.gives_ofBytes]
  constructor
  · rintro ⟨name, _, _, hname, ⟨table, _, _, htable, ⟨type, _, _, ⟨_, rfl, rfl⟩,
      ⟨index, rfl, hindex⟩, rfl⟩, rfl⟩, rfl⟩
    exact ⟨_, _, hname, ⟨_, _, htable, ⟨_, _, rfl, hindex, rfl⟩, rfl⟩, rfl⟩
  · rintro ⟨_, _, hname, ⟨_, _, htable, ⟨_, _, rfl, hindex, rfl⟩, rfl⟩, rfl⟩
    exact ⟨_, _, _, hname, ⟨_, _, _, htable, ⟨_, _, _, ⟨_, rfl, rfl⟩, ⟨_, rfl, hindex⟩, rfl⟩,
      rfl⟩, rfl⟩

end ColumnRef

/-! ## Expressions -/

/-- A byte stands for the operator whose byte it is. -/
lemma BinaryOp.ofCode?_eq_some_iff {code : UInt8} {op : BinaryOp} :
    ofCode? code = some op ↔ code = op.code := by
  constructor
  · intro h
    obtain ⟨hplace, hop⟩ := List.getElem?_eq_some_iff.mp h
    have hfirst : all.idxOf op = code.toNat := by
      rw [← hop]
      exact List.Nodup.idxOf_getElem (by decide) _ hplace
    rw [BinaryOp.code, hfirst, UInt8.ofNat_toNat]
  · rintro rfl
    exact ofCode?_code op

namespace Expr

/-- A byte is read as the operator that it stands for. -/
lemma decodeOp_eq_ok_iff {code : UInt8} {op : BinaryOp} :
    decodeOp code = .ok op ↔ code = op.code := by
  unfold decodeOp
  constructor
  · intro h
    split at h
    · rename_i found hfound
      obtain rfl := Except.ok.inj h
      exact BinaryOp.ofCode?_eq_some_iff.mp hfound
    · contradiction
  · rintro rfl
    rw [BinaryOp.ofCode?_code]

/-- The alias ends a node. -/
lemma recognises_decodeLabelled (node : Option String → Expr) :
    Recognises record (decodeLabelled node record cursor) fun e bytes =>
      ∃ label, node label = e ∧ (Written.optionalText label).Gives bytes :=
  recognises_optionalText.andMap node

/-- A spelling of an expression is not empty. -/
@[simp] lemma not_spelledBy_nil {admitted : UInt8 → Prop} {e : Expr} :
    ¬e.SpelledBy admitted [] := by
  cases e <;> simp [SpelledBy]

/-- An expression is spelled by its record, with any byte but 0 for TRUE. -/
lemma recognises_decode (record : List UInt8) (cursor : Nat) :
    Recognises record (decode record cursor) (SpelledBy (· ≠ 0)) := by
  unfold decode
  split
  · rename_i hnone
    exact recognises_error_of_head _ (by simp) (by simp [hnone])
  rename_i form hform
  have hlt : cursor < record.length := (List.getElem?_eq_some_iff.mp hform).1
  have hcodes : literalCode ≠ columnCode ∧ literalCode ≠ binaryCode ∧ literalCode ≠ negateCode ∧
      columnCode ≠ binaryCode ∧ columnCode ≠ negateCode ∧ binaryCode ≠ negateCode := by decide
  split_ifs with hliteral hcolumn hbinary hnegate hfunction
  · refine ((Value.recognises_decode.andThen fun value _ _ =>
      recognises_decodeLabelled (literal value)).afterByte hform).congr_cons hform
        (fun e after => ?_) (by simp) (by simp)
    subst hliteral
    cases e <;> simp [SpelledBy, hcodes]
  · refine ((ColumnRef.recognises_decode.andThen fun ref _ _ =>
      recognises_decodeLabelled (column ref)).afterByte hform).congr_cons hform
        (fun e after => ?_) (by simp) (by simp)
    subst hcolumn
    cases e <;> simp [SpelledBy, hcodes, hliteral]
  · refine (((recognises_byte _).andCheck.andThen fun op _ _ =>
      (recognises_decode record _).andThen fun left _ _ =>
        (recognises_decode record _).andThen fun right _ _ =>
          recognises_decodeLabelled (binary op left right)).afterByte hform).congr_cons hform
            (fun e after => ?_) (by simp) (by simp)
    subst hbinary
    cases e <;> simp [SpelledBy, hcodes, hliteral, hcolumn, decodeOp_eq_ok_iff]
  · refine (((recognises_decode record _).andThen fun operand _ _ =>
      recognises_decodeLabelled (negate operand)).afterByte hform).congr_cons hform
        (fun e after => ?_) (by simp) (by simp)
    subst hnegate
    cases e <;> simp [SpelledBy, hliteral, hcolumn, hbinary]
  · refine recognises_error_of_head _ (by simp) fun e head after hhead h => ?_
    obtain rfl : form = head := Option.some.inj (hform.symm.trans hhead)
    cases e <;> simp_all [SpelledBy]
  · refine recognises_error_of_head _ (by simp) fun e head after hhead h => ?_
    obtain rfl : form = head := Option.some.inj (hform.symm.trans hhead)
    cases e <;> simp_all [SpelledBy]
termination_by record.length - cursor

end Expr

end RelQuery
