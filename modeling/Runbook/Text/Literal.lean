import Runbook.Text.Printable
import Runbook.Text.Utf8

/-!
# Quoted literals

The one-line written form of a text or of a byte string, as it stands in diagnostics. A literal is
put between single quotes, or between double quotes if it holds a single quote and no double quote.
Backslash and the chosen quote are escaped by a backslash, tab, line feed and carriage return by
their letters, and whatever is not printable by its number in hexadecimal, in the shortest of the
forms of two, four and eight digits. All else stands for itself, so that a literal has no line
break and can be read back.
-/

namespace Runbook.Text

/-- The last `width` hexadecimal digits of a number. -/
def hexDigits : (width n : Nat) → List Char
  | 0, _ => []
  | width + 1, n => hexDigits width (n / 16) ++ [Utf8.hexDigit (n % 16)]

def numericEscape (n : Nat) : List Char :=
  if n < 0x100 then '\\' :: 'x' :: hexDigits 2 n
  else if n < 0x10000 then '\\' :: 'u' :: hexDigits 4 n
  else '\\' :: 'U' :: hexDigits 8 n

/-- The quote around a literal: single, unless only double quotes save an escape. -/
def literalQuote (cs : List Char) : Char :=
  if cs.contains '\'' && !cs.contains '"' then '"' else '\''

/-- A character inside a literal, where `plain` says which characters stand for themselves. -/
def literalChar (plain : Char → Bool) (quote c : Char) : List Char :=
  if c = '\\' ∨ c = quote then ['\\', c]
  else if c = '\t' then ['\\', 't']
  else if c = '\n' then ['\\', 'n']
  else if c = '\r' then ['\\', 'r']
  else if plain c then [c]
  else numericEscape c.toNat

def literal (cs : List Char) : List Char :=
  let quote := literalQuote cs
  quote :: cs.flatMap (literalChar isPrintable quote) ++ [quote]

/-- Whether a byte stands for itself in a byte literal: printable ASCII. -/
def isPlainByte (c : Char) : Bool := 0x20 ≤ c.toNat && c.toNat < 0x7F

/-- The literal of a byte string: a `b`, then each byte as the character of its number. -/
def byteLiteral (bytes : List UInt8) : List Char :=
  let cs := bytes.map fun b ↦ Char.ofNat b.toNat
  let quote := literalQuote cs
  'b' :: quote :: cs.flatMap (literalChar isPlainByte quote) ++ [quote]

/-- The literal of a string. -/
def quoted (s : String) : String := String.ofList (literal s.toList)

end Runbook.Text
