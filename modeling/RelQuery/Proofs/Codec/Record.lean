import Mathlib.Algebra.Group.Nat.Defs
import Mathlib.Tactic.Lemma
import RelQuery.Codec.Value

/-!
# Records tell values apart

No record of a value is the start of the record of another one: the first byte gives the kind, a
number has a fixed width, and a text comes after its length.  So the values can be told from a run
of records.
-/

namespace RelQuery

/-! ## Numbers -/

/-- A number in so many bytes. -/
@[simp] lemma length_littleEndian (width n : Nat) : (littleEndian width n).length = width := by
  induction width generalizing n with
  | zero => rfl
  | succ width ih => rw [littleEndian, List.length_cons, ih]

/-- Reading the bytes of a number gives the number, cut down to the width. -/
lemma ofLittleEndian_littleEndian (width n : Nat) :
    ofLittleEndian (littleEndian width n) = n % 256 ^ width := by
  induction width generalizing n with
  | zero => simp [littleEndian, ofLittleEndian, Nat.mod_one]
  | succ width ih =>
    have hbyte : (UInt8.ofNat (n % 256)).toNat = n % 256 := by
      rw [UInt8.toNat_ofNat']
      exact Nat.mod_eq_of_lt (Nat.mod_lt _ (by decide))
    rw [littleEndian, ofLittleEndian, ih, hbyte, Nat.pow_succ', Nat.mod_mul]

/-- Numbers that fit in the width are told apart by their bytes. -/
lemma littleEndian_inj {width m n : Nat} (hm : m < 256 ^ width) (hn : n < 256 ^ width)
    (h : littleEndian width m = littleEndian width n) : m = n := by
  have hvalue := congrArg ofLittleEndian h
  rwa [ofLittleEndian_littleEndian, ofLittleEndian_littleEndian, Nat.mod_eq_of_lt hm,
    Nat.mod_eq_of_lt hn] at hvalue

/-- A word of 64 bits is told from its eight bytes and what follows them. -/
lemma littleEndian_append_inj {a b : UInt64} {rest rest' : List UInt8}
    (h : littleEndian 8 a.toNat ++ rest = littleEndian 8 b.toNat ++ rest') :
    a = b ∧ rest = rest' := by
  obtain ⟨hbytes, hrest⟩ := List.append_inj h (by simp)
  refine ⟨UInt64.toNat_inj.mp (littleEndian_inj ?_ ?_ hbytes), hrest⟩
  · exact lt_of_lt_of_eq a.toNat_lt (by decide)
  · exact lt_of_lt_of_eq b.toNat_lt (by decide)

/-! ## Texts -/

/-- Texts are told apart by their bytes. -/
lemma utf8_inj {s t : String} (h : utf8 s = utf8 t) : s = t := by
  have hdata : s.toUTF8.data = t.toUTF8.data := Array.toList_inj.mp h
  exact String.toByteArray_inj.mp (ByteArray.ext hdata)

namespace Written

/-- The run is complete and has these bytes. -/
def Gives (written : Written) (bytes : List UInt8) : Prop :=
  written.complete = .ok bytes

/-- A run of bytes gives these and no others. -/
lemma gives_ofBytes_iff {bytes found : List UInt8} :
    (ofBytes bytes).Gives found ↔ bytes = found := by
  simp [Gives, complete, ofBytes]

/-- Two joined runs give what they give one after the other. -/
lemma gives_append_iff {first second : Written} {bytes : List UInt8} :
    (first ++ second).Gives bytes ↔
      ∃ before after, first.Gives before ∧ second.Gives after ∧ bytes = before ++ after := by
  obtain ⟨written, _ | fault⟩ := first <;> obtain ⟨written', _ | fault'⟩ := second <;>
    simp [Gives, complete, append_eq, append, eq_comm]

/-- The text is told from its record and what follows it. -/
lemma text_append_inj {s t : String} {bytes bytes' rest rest' : List UInt8}
    (hs : (text s).Gives bytes) (ht : (text t).Gives bytes')
    (h : bytes ++ rest = bytes' ++ rest') : s = t ∧ rest = rest' := by
  unfold text at hs ht
  dsimp only at hs ht
  split at hs
  · rename_i hsmall
    split at ht
    · rename_i hsmall'
      rw [gives_ofBytes_iff] at hs ht
      subst hs ht
      rw [List.append_assoc, List.append_assoc] at h
      -- the lengths agree, so the bytes of the texts do
      obtain ⟨hlength, h⟩ := List.append_inj h (by simp)
      obtain ⟨hbytes, hrest⟩ := List.append_inj h (littleEndian_inj hsmall hsmall' hlength)
      exact ⟨utf8_inj hbytes, hrest⟩
    · simp [Gives, complete, stopped] at ht
  · simp [Gives, complete, stopped] at hs

end Written

/-! ## Values -/

namespace Value

/-- The byte for the kind of a value. -/
def code (value : Value) : UInt8 :=
  (value.type?.map ColumnType.code).getD 0

/-- The byte tells the kind. -/
lemma type?_eq_of_code_eq {a b : Value} (h : a.code = b.code) : a.type? = b.type? := by
  unfold code at h
  generalize a.type? = s at h ⊢
  generalize b.type? = t at h ⊢
  rcases s with _ | s <;> rcases t with _ | t
  · rfl
  · cases t <;> exact absurd h (by decide)
  · cases s <;> exact absurd h (by decide)
  · cases s <;> cases t <;> first | rfl | exact absurd h (by decide)

/-- The record of a value starts with the byte for its kind. -/
lemma exists_data {a : Value} {bytes : List UInt8} (h : a.encode.Gives bytes) :
    ∃ data, bytes = a.code :: data := by
  cases a with
  | text s =>
    obtain ⟨before, after, hbefore, -, rfl⟩ := Written.gives_append_iff.mp h
    rw [← Written.gives_ofBytes_iff.mp hbefore]
    exact ⟨after, rfl⟩
  | null => exact ⟨_, (Written.gives_ofBytes_iff.mp h).symm⟩
  | integer n => exact ⟨_, (Written.gives_ofBytes_iff.mp h).symm⟩
  | real x => exact ⟨_, (Written.gives_ofBytes_iff.mp h).symm⟩
  | boolean b => exact ⟨_, (Written.gives_ofBytes_iff.mp h).symm⟩

/-- The value is told from its record and what follows it. -/
lemma encode_append_inj {a b : Value} {bytes bytes' rest rest' : List UInt8}
    (ha : a.encode.Gives bytes) (hb : b.encode.Gives bytes')
    (h : bytes ++ rest = bytes' ++ rest') : a = b ∧ rest = rest' := by
  have htype : a.type? = b.type? := by
    obtain ⟨data, rfl⟩ := exists_data ha
    obtain ⟨data', rfl⟩ := exists_data hb
    exact type?_eq_of_code_eq (List.cons.inj h).1
  cases a with
  | null =>
    cases b with
    | null =>
      obtain rfl := Written.gives_ofBytes_iff.mp ha
      obtain rfl := Written.gives_ofBytes_iff.mp hb
      exact ⟨rfl, (List.cons.inj h).2⟩
    | _ => simp [type?] at htype
  | integer m =>
    cases b with
    | integer n =>
      obtain rfl := Written.gives_ofBytes_iff.mp ha
      obtain rfl := Written.gives_ofBytes_iff.mp hb
      obtain ⟨hword, hrest⟩ := littleEndian_append_inj (List.cons.inj h).2
      exact ⟨congrArg (fun word => integer (.ofUInt64 word)) hword, hrest⟩
    | _ => simp [type?] at htype
  | real x =>
    cases b with
    | real y =>
      obtain rfl := Written.gives_ofBytes_iff.mp ha
      obtain rfl := Written.gives_ofBytes_iff.mp hb
      obtain ⟨hword, hrest⟩ := littleEndian_append_inj (List.cons.inj h).2
      exact ⟨congrArg (fun word => real ⟨word⟩) hword, hrest⟩
    | _ => simp [type?] at htype
  | text s =>
    cases b with
    | text t =>
      obtain ⟨before, after, hbefore, hafter, rfl⟩ := Written.gives_append_iff.mp ha
      obtain ⟨before', after', hbefore', hafter', rfl⟩ := Written.gives_append_iff.mp hb
      obtain rfl := Written.gives_ofBytes_iff.mp hbefore
      obtain rfl := Written.gives_ofBytes_iff.mp hbefore'
      obtain ⟨rfl, hrest⟩ := Written.text_append_inj hafter hafter' (List.cons.inj h).2
      exact ⟨rfl, hrest⟩
    | _ => simp [type?] at htype
  | boolean x =>
    cases b with
    | boolean y =>
      obtain rfl := Written.gives_ofBytes_iff.mp ha
      obtain rfl := Written.gives_ofBytes_iff.mp hb
      obtain ⟨hbyte, hrest⟩ := List.cons.inj (List.cons.inj h).2
      refine ⟨?_, hrest⟩
      cases x <;> cases y <;> first | rfl | exact absurd hbyte (by decide)
    | _ => simp [type?] at htype

/-- A record is not empty. -/
lemma ne_nil_of_encode {a : Value} {bytes : List UInt8} (h : a.encode.Gives bytes) :
    bytes ≠ [] := by
  obtain ⟨data, rfl⟩ := exists_data h
  exact List.cons_ne_nil _ _

end Value

end RelQuery
