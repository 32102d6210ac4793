/-!
# Reading UTF-8

The strict reader of UTF-8: shortest forms only, no surrogates, nothing above U+10FFFF. A text that
is not well formed is refused with the place where reading stopped: the bytes from the lead byte up
to the first one that cannot continue it, and why.

A lead byte fixes how many bytes follow and narrows the range of the first of them; that narrowing
is what excludes long forms (`E0`, `F0`), surrogates (`ED`) and values past the end (`F4`).
-/

namespace Runbook.Text.Utf8

/-- Why a byte sequence is no character. -/
inductive Fault where
  /-- No character starts with this byte. -/
  | badStart
  /-- The byte after the sequence cannot continue it. -/
  | badContinuation
  /-- The text ends inside the sequence. -/
  | cutShort
deriving DecidableEq, Repr

/-- The sequence at which reading stopped. -/
structure DecodeError where
  /-- The lead byte of the sequence. -/
  lead : UInt8
  /-- The number of bytes before the sequence. -/
  start : Nat
  /-- The number of bytes that belong to the sequence. -/
  length : Nat
  /-- What is wrong with it. -/
  fault : Fault
deriving DecidableEq, Repr

/-- What a lead byte announces. -/
structure Lead where
  /-- The payload bits of the lead byte. -/
  payload : Nat
  /-- How many bytes follow. -/
  following : Nat
  /-- The least first following byte. -/
  low : UInt8
  /-- The greatest first following byte. -/
  high : UInt8
deriving DecidableEq, Repr

/-- Reads a lead byte, or returns `none` for a byte with which no character starts. -/
def lead? (b : UInt8) : Option Lead :=
  let n := b.toNat
  if n < 0x80 then some ⟨n, 0, 0x80, 0xBF⟩
  else if n < 0xC2 then none
  else if n < 0xE0 then some ⟨n - 0xC0, 1, 0x80, 0xBF⟩
  else if n < 0xF0 then
    some ⟨n - 0xE0, 2, if n = 0xE0 then 0xA0 else 0x80, if n = 0xED then 0x9F else 0xBF⟩
  else if n < 0xF5 then
    some ⟨n - 0xF0, 3, if n = 0xF0 then 0x90 else 0x80, if n = 0xF4 then 0x8F else 0xBF⟩
  else none

/-- Adds `count` following bytes to `payload`, the first of them between `low` and `high`. On
failure, the number of bytes read and the reason. -/
def following : (count : Nat) → (low high : UInt8) → (seen payload : Nat) → List UInt8 →
    Except (Nat × Fault) Nat
  | 0, _, _, _, payload, _ => .ok payload
  | _ + 1, _, _, seen, _, [] => .error (seen, .cutShort)
  | count + 1, low, high, seen, payload, b :: bytes =>
    if low ≤ b && b ≤ high then
      following count 0x80 0xBF (seen + 1) (payload * 64 + (b.toNat - 0x80)) bytes
    else .error (seen, .badContinuation)

/-- Reads characters to the end, `position` bytes into the text. -/
def decodeFrom (position : Nat) : List UInt8 → Except DecodeError (List Char)
  | [] => .ok []
  | b :: bytes =>
    match lead? b with
    | none => .error ⟨b, position, 1, .badStart⟩
    | some lead =>
      match following lead.following lead.low lead.high 1 lead.payload bytes with
      | .error (length, fault) => .error ⟨b, position, length, fault⟩
      | .ok code =>
        match decodeFrom (position + 1 + lead.following) (bytes.drop lead.following) with
        | .error e => .error e
        | .ok cs => .ok (Char.ofNat code :: cs)
termination_by bytes => bytes.length
decreasing_by simp only [List.length_drop, List.length_cons]; omega

def decode (bytes : List UInt8) : Except DecodeError (List Char) := decodeFrom 0 bytes

def encode (s : String) : List UInt8 := s.toUTF8.toList

def Fault.message : Fault → String
  | .badStart => "invalid start byte"
  | .badContinuation => "invalid continuation byte"
  | .cutShort => "unexpected end of data"

def hexDigit (n : Nat) : Char := "0123456789abcdef".toList.getD n '0'

/-- One line that names the codec, the offending byte or range of bytes, and the fault. -/
def DecodeError.message (e : DecodeError) : String :=
  let place :=
    if e.length = 1 then
      let byte := String.ofList [hexDigit (e.lead.toNat / 16), hexDigit (e.lead.toNat % 16)]
      "byte 0x" ++ byte ++ " in position " ++ toString e.start
    else
      "bytes in position " ++ toString e.start ++ "-" ++ toString (e.start + e.length - 1)
  "'utf-8' codec can't decode " ++ place ++ ": " ++ e.fault.message

end Runbook.Text.Utf8
