import Graft.Bytes

/-!
# Text in byte strings

A name inside a sample is text in UTF-8, and a file read as text must be UTF-8
throughout. The scan here finds the first place where a byte string stops being
UTF-8 and says how it stops: inside a character, or at octets that no character
contains. Reading is canonical, since a text has one UTF-8 form.
-/

namespace Graft.Text.Utf8

/-- Where a byte string stops being UTF-8. -/
structure Fault where
  /-- The octets before the character that fails; they are UTF-8. -/
  validUpTo : Nat
  /-- How many octets belong to the failing character, or none where the byte
      string ends inside it. -/
  errorLength : Option Nat
deriving DecidableEq, Repr

/-- An octet that may continue a character of any length. -/
def continuation : UInt8 × UInt8 := (0x80, 0xBF)

/-- The ranges owed after a leading octet, or none where no character starts
    with it. Overlong forms, surrogates and values past the last character are
    excluded by the range of the second octet. -/
def owedAfter (leading : UInt8) : Option (List (UInt8 × UInt8)) :=
  if leading < 0x80 then some []
  else if leading < 0xC2 then none
  else if leading < 0xE0 then some [continuation]
  else if leading = 0xE0 then some [(0xA0, 0xBF), continuation]
  else if leading = 0xED then some [(0x80, 0x9F), continuation]
  else if leading < 0xF0 then some [continuation, continuation]
  else if leading = 0xF0 then some [(0x90, 0xBF), continuation, continuation]
  else if leading < 0xF4 then some [continuation, continuation, continuation]
  else if leading = 0xF4 then some [(0x80, 0x8F), continuation, continuation]
  else none

/-- Scan on from an octet position, with the start of the present character and
    the ranges it still owes. -/
def scan (start position : Nat) (owed : List (UInt8 × UInt8)) : Bytes → Option Fault
  | [] => if owed.isEmpty then none else some ⟨start, none⟩
  | octet :: rest =>
    match owed with
    | [] =>
      match owedAfter octet with
      | none => some ⟨position, some 1⟩
      | some owed => scan position (position + 1) owed rest
    | (low, high) :: owed =>
      if low ≤ octet ∧ octet ≤ high then scan start (position + 1) owed rest
      else some ⟨start, some (position - start)⟩

/-- The first fault of a byte string, if it is not UTF-8. -/
def fault? (octets : Bytes) : Option Fault :=
  scan 0 0 [] octets

/-- Read a byte string as text. -/
def decode (octets : Bytes) : Except Fault String :=
  match String.fromUTF8? octets.toByteArray with
  | some text => .ok text
  | none => .error ((fault? octets).getD ⟨0, none⟩)

/-- A text is read back from its octets. -/
theorem decode_ofString (text : String) : decode (Bytes.ofString text) = .ok text := by
  have whole : (Bytes.ofString text).toByteArray = text.toByteArray := by
    ext1
    simp [Bytes.ofString]
  have valid : String.fromUTF8? text.toByteArray = some text := by
    simp only [String.fromUTF8?, text.isValidUTF8, ↓reduceDIte]
    rfl
  rw [decode, whole, valid]

/-- Only the octets of a text are read as that text. A reader that took overlong forms as well would
break this. -/
theorem ofString_of_decode (octets : Bytes) (text : String) (read : decode octets = .ok text) :
    Bytes.ofString text = octets := by
  unfold decode at read
  split at read
  · next found equal =>
    injection read with same
    subst same
    rw [String.fromUTF8?] at equal
    split at equal
    · injection equal with same
      subst same
      show (List.toByteArray octets).data.toList = octets
      simp
    · simp at equal
  · simp at read

/-- Each text has exactly one form in octets, so that a text that was read tells what it was read
from. -/
theorem decode_eq_ok_iff (octets : Bytes) (text : String) :
    decode octets = .ok text ↔ octets = Bytes.ofString text :=
  ⟨fun read => (ofString_of_decode octets text read).symm,
    fun same => same ▸ decode_ofString text⟩

end Graft.Text.Utf8
