import Mathlib.Algebra.Group.Nat.Defs
import Runbook.Text.Literal

/-!
# Literals are told from what follows them

A way of writing things down is `PrefixFree` if what is written can be told from whatever stands
behind it: two texts that start with something written start with the same thing and go on in the
same way. Then things that are written one after another up to a stop can be told apart as well
(`PrefixFree.flatMap_stop`), and that is how a literal is made: characters up to the closing quote.

For a single character this is shown by reading it back (`readLiteralChar_append`), one case for
each way in which a character is written. The reader need not know which quote was chosen, since a
backslash in front of a quote always protects it, nor which characters are printable, since no
character that stands for itself is a backslash. For a whole literal the quote is its first
character, and no other character starts with it.
-/

namespace Runbook.Text

variable {α : Type}

/-! ## Codes -/

/-- What is written can be told from what follows it. -/
def PrefixFree (write : α → List Char) : Prop :=
  ∀ a b s t, write a ++ s = write b ++ t → a = b ∧ s = t

/-- What can be read back can be told from what follows it. -/
theorem PrefixFree.of_read {write : α → List Char} (read : List Char → Option (α × List Char))
    (h : ∀ a s, read (write a ++ s) = some (a, s)) : PrefixFree write := by
  intro a b s t heq
  have hread := (h a s).symm.trans (heq ▸ h b t)
  exact Prod.mk.inj (Option.some.inj hread)

theorem PrefixFree.flatMap_stop {write : α → List Char} (h : PrefixFree write) {stop : Char}
    (hstop : ∀ a, ∃ c cs, write a = c :: cs ∧ c ≠ stop) {as bs : List α} {s t : List Char}
    (heq : as.flatMap write ++ stop :: s = bs.flatMap write ++ stop :: t) : as = bs ∧ s = t := by
  induction as generalizing bs with
  | nil =>
    rcases bs with _ | ⟨b, bs⟩
    · exact ⟨rfl, (List.cons.inj heq).2⟩
    · obtain ⟨c, cs, hb, hc⟩ := hstop b
      rw [List.flatMap_cons, hb] at heq
      exact absurd (List.cons.inj heq).1.symm hc
  | cons a as ih =>
    rcases bs with _ | ⟨b, bs⟩
    · obtain ⟨c, cs, ha, hc⟩ := hstop a
      rw [List.flatMap_cons, ha] at heq
      exact absurd (List.cons.inj heq).1 hc
    · rw [List.flatMap_cons, List.flatMap_cons, List.append_assoc, List.append_assoc] at heq
      obtain ⟨rfl, hrest⟩ := h _ _ _ _ heq
      obtain ⟨rfl, rfl⟩ := ih hrest
      exact ⟨rfl, rfl⟩

/-! ## Numeric escapes -/

def hexValue (c : Char) : Nat := "0123456789abcdef".toList.idxOf c

def hexNumber (cs : List Char) : Nat := cs.foldl (fun n c ↦ n * 16 + hexValue c) 0

theorem hexValue_hexDigit {n : Nat} (h : n < 16) : hexValue (Utf8.hexDigit n) = n := by
  have hall : ∀ n < 16, hexValue (Utf8.hexDigit n) = n := by decide
  exact hall n h

theorem length_hexDigits (width n : Nat) : (hexDigits width n).length = width := by
  induction width generalizing n with
  | zero => rfl
  | succ width ih => rw [hexDigits, List.length_append, ih, List.length_singleton]

theorem hexNumber_hexDigits {width n : Nat} (h : n < 16 ^ width) :
    hexNumber (hexDigits width n) = n := by
  induction width generalizing n with
  | zero => exact (Nat.lt_one_iff.mp h).symm
  | succ width ih =>
    have hhigh : n / 16 < 16 ^ width := by
      rw [Nat.pow_succ] at h
      exact Nat.div_lt_of_lt_mul (Nat.mul_comm _ _ ▸ h)
    have hlow : n % 16 < 16 := Nat.mod_lt n (by decide)
    have hprefix := ih hhigh
    rw [hexNumber] at hprefix
    rw [hexDigits, hexNumber, List.foldl_append, hprefix, List.foldl_cons, List.foldl_nil,
      hexValue_hexDigit hlow]
    omega

/-! ## Characters of a literal -/

/-- Reads the character with a number of the given width. -/
def readNumeric (width : Nat) (cs : List Char) : Char × List Char :=
  (Char.ofNat (hexNumber (cs.take width)), cs.drop width)

/-- Reads a character of a literal. -/
def readLiteralChar : List Char → Option (Char × List Char)
  | [] => none
  | '\\' :: 'x' :: cs => some (readNumeric 2 cs)
  | '\\' :: 'u' :: cs => some (readNumeric 4 cs)
  | '\\' :: 'U' :: cs => some (readNumeric 8 cs)
  | '\\' :: 't' :: cs => some ('\t', cs)
  | '\\' :: 'n' :: cs => some ('\n', cs)
  | '\\' :: 'r' :: cs => some ('\r', cs)
  | '\\' :: c :: cs => some (c, cs)
  | c :: cs => some (c, cs)

theorem readNumeric_hexDigits {width : Nat} {c : Char} (h : c.toNat < 16 ^ width) (s : List Char) :
    readNumeric width (hexDigits width c.toNat ++ s) = (c, s) := by
  have hlength := length_hexDigits width c.toNat
  rw [readNumeric, List.take_left' hlength, List.drop_left' hlength, hexNumber_hexDigits h,
    Char.ofNat_toNat]

theorem readLiteralChar_numericEscape (c : Char) (s : List Char) :
    readLiteralChar (numericEscape c.toNat ++ s) = some (c, s) := by
  rw [numericEscape]
  split
  · next h =>
    have hmax : c.toNat < 16 ^ 2 := h
    exact congrArg some (readNumeric_hexDigits hmax s)
  · split
    · next h => exact congrArg some (readNumeric_hexDigits h s)
    · have hmax : c.toNat < 16 ^ 8 := Nat.lt_of_lt_of_eq c.val.toNat_lt (by decide)
      exact congrArg some (readNumeric_hexDigits hmax s)

theorem readLiteralChar_of_ne {c : Char} (h : c ≠ '\\') (cs : List Char) :
    readLiteralChar (c :: cs) = some (c, cs) := by
  unfold readLiteralChar
  split <;> simp_all

def IsQuote (c : Char) : Prop := c = '\'' ∨ c = '"'

theorem isQuote_literalQuote (cs : List Char) : IsQuote (literalQuote cs) := by
  rw [literalQuote]
  split
  · exact .inr rfl
  · exact .inl rfl

section LiteralChar

variable {plain : Char → Bool} {quote : Char}

/-- A character of a literal is read back, whatever the quotes are. -/
theorem readLiteralChar_append (hquote : IsQuote quote) (c : Char) (s : List Char) :
    readLiteralChar (literalChar plain quote c ++ s) = some (c, s) := by
  rw [literalChar]
  split
  · next h =>
    rcases h with rfl | rfl
    · rfl
    · rcases hquote with rfl | rfl <;> rfl
  · next h =>
    split
    · next hc => rw [hc]; rfl
    split
    · next hc => rw [hc]; rfl
    split
    · next hc => rw [hc]; rfl
    split
    · exact readLiteralChar_of_ne (not_or.mp h).1 s
    · exact readLiteralChar_numericEscape c s

theorem prefixFree_literalChar (hquote : IsQuote quote) : PrefixFree (literalChar plain quote) :=
  .of_read readLiteralChar (readLiteralChar_append hquote)

theorem literalChar_ne_quote (hquote : IsQuote quote) (c : Char) :
    ∃ d cs, literalChar plain quote c = d :: cs ∧ d ≠ quote := by
  have hbackslash : '\\' ≠ quote := by rcases hquote with rfl | rfl <;> decide
  rw [literalChar]
  split
  · exact ⟨_, _, rfl, hbackslash⟩
  · next h =>
    split
    · exact ⟨_, _, rfl, hbackslash⟩
    split
    · exact ⟨_, _, rfl, hbackslash⟩
    split
    · exact ⟨_, _, rfl, hbackslash⟩
    split
    · exact ⟨_, _, rfl, (not_or.mp h).2⟩
    · rw [numericEscape]
      split
      · exact ⟨_, _, rfl, hbackslash⟩
      · split <;> exact ⟨_, _, rfl, hbackslash⟩

end LiteralChar

/-! ## Literals -/

theorem literal_append (cs s : List Char) :
    literal cs ++ s = literalQuote cs :: cs.flatMap (literalChar isPrintable (literalQuote cs))
      ++ literalQuote cs :: s := by
  simp [literal]

def byteChars (bytes : List UInt8) : List Char := bytes.map fun b ↦ Char.ofNat b.toNat

theorem byteChars_injective {bytes bytes' : List UInt8} (h : byteChars bytes = byteChars bytes') :
    bytes = bytes' := by
  have hnumber : ∀ n < 2 ^ 8, (Char.ofNat n).toNat = n := by decide +kernel
  refine (List.map_inj_right fun b b' hsame ↦ ?_).mp h
  rw [← UInt8.toNat_inj, ← hnumber _ b.toNat_lt, hsame, hnumber _ b'.toNat_lt]

theorem byteLiteral_append (bytes : List UInt8) (s : List Char) :
    byteLiteral bytes ++ s = 'b' :: (literalQuote (byteChars bytes) ::
      (byteChars bytes).flatMap (literalChar isPlainByte (literalQuote (byteChars bytes)))
        ++ literalQuote (byteChars bytes) :: s) := by
  simp [byteLiteral, byteChars]

/-- Two quoted texts that are the same up to what follows them hold the same characters. -/
theorem eq_of_quoted {plain : Char → Bool} {cs ds s t : List Char}
    (h : literalQuote cs :: cs.flatMap (literalChar plain (literalQuote cs)) ++ literalQuote cs :: s
      = literalQuote ds :: ds.flatMap (literalChar plain (literalQuote ds))
        ++ literalQuote ds :: t) : cs = ds ∧ s = t := by
  obtain ⟨hquote, hrest⟩ := List.cons.inj h
  rw [← hquote] at hrest
  have hcode := isQuote_literalQuote cs
  exact (prefixFree_literalChar hcode).flatMap_stop (literalChar_ne_quote hcode) hrest

/-- **The literal** of a text can be told from what follows it. -/
theorem prefixFree_literal : PrefixFree literal := by
  intro cs ds s t h
  rw [literal_append, literal_append] at h
  exact eq_of_quoted h

/-- **The literal of a byte string** can be told from what follows it. -/
theorem prefixFree_byteLiteral : PrefixFree byteLiteral := by
  intro bytes bytes' s t h
  rw [byteLiteral_append, byteLiteral_append] at h
  obtain ⟨hsame, hrest⟩ := eq_of_quoted (List.cons.inj h).2
  exact ⟨byteChars_injective hsame, hrest⟩

end Runbook.Text
