/-
UTF-8. `encode` writes a text as bytes and `decode` reads it back; a byte
sequence that is no UTF-8 is refused with the place and length of the
first offending sequence (`Flaw`).

The lead byte of a sequence fixes how many further bytes are owed
(`tailCount`) and the range of the first of them (`secondRange`); all
others lie in 0x80 to 0xBF. A sequence is refused at the first byte out
of range, and the bytes before that one are the offending sequence.
-/
import TaggedSource.Text

namespace TaggedSource

/-- A byte sequence as files hold it. -/
abbrev Bytes := List UInt8

namespace Utf8

/-- The bytes of a character. -/
abbrev encodeChar (c : Char) : Bytes := String.utf8EncodeChar c

/-- The bytes of a text. -/
def encode (t : Text) : Bytes := t.flatMap encodeChar

/-- What keeps bytes from being UTF-8. -/
inductive Flaw where
  /-- `length` bytes from `offset` on begin no character. -/
  | invalid (length offset : Nat)
  /-- The bytes end within the character that begins at `offset`. -/
  | incomplete (offset : Nat)
  deriving DecidableEq, Repr

/-- The wording of a flaw. -/
def Flaw.message : Flaw → String
  | .invalid length offset =>
    s!"invalid utf-8 sequence of {length} bytes from index {offset}"
  | .incomplete offset => s!"incomplete utf-8 byte sequence from index {offset}"

-- ============================================================== decoding

/-- How many bytes follow a lead byte, and the bits it contributes. -/
def tailCount (lead : Nat) : Option (Nat × Nat) :=
  if lead < 0x80 then some (0, lead)
  else if 0xC2 ≤ lead ∧ lead ≤ 0xDF then some (1, lead - 0xC0)
  else if 0xE0 ≤ lead ∧ lead ≤ 0xEF then some (2, lead - 0xE0)
  else if 0xF0 ≤ lead ∧ lead ≤ 0xF4 then some (3, lead - 0xF0)
  else none

/-- The least and the greatest second byte after a lead byte. It rules out
overlong forms, surrogates and numbers past the last code point. -/
def secondRange (lead : Nat) : Nat × Nat :=
  if lead = 0xE0 then (0xA0, 0xBF)
  else if lead = 0xED then (0x80, 0x9F)
  else if lead = 0xF0 then (0x90, 0xBF)
  else if lead = 0xF4 then (0x80, 0x8F)
  else (0x80, 0xBF)

/-- Reads `count` further bytes, the first of them in `range`. A failure
carries the number of bytes of the sequence that were in order, or none
if the bytes ran out. -/
def readTail (seen : Nat) :
    (count : Nat) → (range : Nat × Nat) → (value : Nat) → Bytes →
      Except (Option Nat) (Nat × Bytes)
  | 0, _, value, rest => .ok (value, rest)
  | _ + 1, _, _, [] => .error none
  | count + 1, range, value, b :: rest =>
    if range.1 ≤ b.toNat ∧ b.toNat ≤ range.2 then
      readTail (seen + 1) count (0x80, 0xBF) (value * 64 + (b.toNat - 0x80)) rest
    else
      .error (some seen)

/-- Reading the tail of a character leaves no more bytes than there were. -/
private theorem length_of_readTail {seen count value value' : Nat} {range : Nat × Nat}
    {bytes rest : Bytes}
    (h : readTail seen count range value bytes = .ok (value', rest)) :
    rest.length ≤ bytes.length := by
  induction count generalizing seen range value bytes with
  | zero => simp_all [readTail]
  | succ count ih =>
    cases bytes with
    | nil => simp [readTail] at h
    | cons b bytes =>
      simp only [readTail] at h
      split at h
      · exact Nat.le_succ_of_le (ih h)
      · simp at h

/-- The text of the bytes that begin at `offset`. -/
def decodeFrom (offset : Nat) (bytes : Bytes) : Except Flaw Text :=
  match bytes with
  | [] => .ok []
  | lead :: rest =>
    match tailCount lead.toNat with
    | none => .error (.invalid 1 offset)
    | some (count, value) =>
      match _h : readTail 1 count (secondRange lead.toNat) value rest with
      | .error none => .error (.incomplete offset)
      | .error (some seen) => .error (.invalid seen offset)
      | .ok (value, after) =>
        match decodeFrom (offset + 1 + count) after with
        | .error flaw => .error flaw
        | .ok t => .ok (Char.ofNat value :: t)
termination_by bytes.length
decreasing_by
  have := length_of_readTail ‹_›
  simp only [List.length_cons]
  omega

/-- The text that bytes spell. -/
def decode (bytes : Bytes) : Except Flaw Text := decodeFrom 0 bytes

end Utf8

end TaggedSource
