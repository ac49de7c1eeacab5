import RelQuery.Error

/-!
# Writing records

What is written is a run of bytes, cut short by the first fault.  Two runs are joined by appending
the second to the first unless the first was cut short, so writing a tree is written down as the
joined runs of its parts.
-/

namespace RelQuery

/-- The bytes written so far and the fault that stopped the writing, if one did. -/
structure Written where
  bytes : List UInt8
  fault : Option CodecFault
  deriving DecidableEq

namespace Written

/-- Bytes without a fault. -/
def ofBytes (bytes : List UInt8) : Written where
  bytes := bytes
  fault := none

/-- A fault before anything is written. -/
def stopped (fault : CodecFault) : Written where
  bytes := []
  fault := some fault

/-- The second run after the first, if the first is complete. -/
def append (first second : Written) : Written :=
  match first.fault with
  | some _ => first
  | none => ⟨first.bytes ++ second.bytes, second.fault⟩

instance : Append Written where
  append := append

/-- The bytes of a complete run, or the fault of one cut short. -/
def complete (written : Written) : Except CodecFault (List UInt8) :=
  match written.fault with
  | some fault => .error fault
  | none => .ok written.bytes

theorem append_eq (first second : Written) : first ++ second = first.append second := rfl

@[simp] theorem ofBytes_append (bytes : List UInt8) (second : Written) :
    ofBytes bytes ++ second = ⟨bytes ++ second.bytes, second.fault⟩ := rfl

@[simp] theorem stopped_append (fault : CodecFault) (second : Written) :
    stopped fault ++ second = stopped fault := rfl

theorem append_assoc (a b c : Written) : a ++ b ++ c = a ++ (b ++ c) := by
  obtain ⟨bytesA, _ | faultA⟩ := a <;> obtain ⟨bytesB, _ | faultB⟩ := b <;>
    simp [append_eq, append]

end Written

/-! ### Numbers and texts -/

/-- The number in the given count of bytes, the lowest first. -/
def littleEndian : (width : Nat) → Nat → List UInt8
  | 0, _ => []
  | width + 1, n => UInt8.ofNat (n % 256) :: littleEndian width (n / 256)

/-- The number that the bytes hold, the lowest first. -/
def ofLittleEndian : List UInt8 → Nat
  | [] => 0
  | byte :: rest => byte.toNat + 256 * ofLittleEndian rest

/-- The bytes of a text in UTF-8. -/
def utf8 (s : String) : List UInt8 :=
  s.toUTF8.data.toList

/-- A text after its length in four bytes. -/
def Written.text (s : String) : Written :=
  let bytes := utf8 s
  if bytes.length < 0x100000000 then .ofBytes (littleEndian 4 bytes.length ++ bytes)
  else .stopped .textTooLarge

/-- An optional text after a byte that says whether there is one. -/
def Written.optionalText : Option String → Written
  | some s => .ofBytes [1] ++ .text s
  | none => .ofBytes [0]

end RelQuery
