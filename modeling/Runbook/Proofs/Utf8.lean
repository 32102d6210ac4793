import Runbook.Text.Utf8

/-!
# Reading back UTF-8

Whatever is written as UTF-8 is read back as it was (`decode_encode`).

A character is written as one to four bytes. In each of the four forms the lead byte announces the
bytes that follow it, and with their payload they come to the code point again: that is what it is
for bytes to spell a code point (`Spells`), and the four forms are gone through once, by
arithmetic. The narrow ranges of the first following byte, which shut out long forms and surrogates,
are met because a character has the shortest form and is no surrogate. Reading a text is then one
step for each character.
-/

namespace Runbook.Text.Utf8

/-! ## Code points -/

/-- The bytes are read as the code point, whatever comes behind them. -/
def Spells (bytes : List UInt8) (code : Nat) : Prop :=
  ∃ b tail lead, bytes = b :: tail ∧ lead? b = some lead ∧ lead.following = tail.length ∧
    ∀ rest, following lead.following lead.low lead.high 1 lead.payload (tail ++ rest) = .ok code

theorem lead?_ofNat {n : Nat} (h : n < 256) : lead? (UInt8.ofNat n) =
    if n < 0x80 then some ⟨n, 0, 0x80, 0xBF⟩
    else if n < 0xC2 then none
    else if n < 0xE0 then some ⟨n - 0xC0, 1, 0x80, 0xBF⟩
    else if n < 0xF0 then
      some ⟨n - 0xE0, 2, if n = 0xE0 then 0xA0 else 0x80, if n = 0xED then 0x9F else 0xBF⟩
    else if n < 0xF5 then
      some ⟨n - 0xF0, 3, if n = 0xF0 then 0x90 else 0x80, if n = 0xF4 then 0x8F else 0xBF⟩
    else none := by
  rw [lead?, UInt8.toNat_ofNat_of_lt' h]

theorem following_cons {low high : UInt8} {a : Nat} (hlow : low.toNat ≤ a + 128)
    (hhigh : a + 128 ≤ high.toNat) (count seen payload : Nat) (bytes : List UInt8) :
    following (count + 1) low high seen payload (UInt8.ofNat (a + 128) :: bytes)
      = following count 0x80 0xBF (seen + 1) (payload * 64 + a) bytes := by
  have hbyte : (UInt8.ofNat (a + 128)).toNat = a + 128 :=
    UInt8.toNat_ofNat_of_lt' (Nat.lt_of_le_of_lt hhigh high.toNat_lt)
  have hrange : (low ≤ UInt8.ofNat (a + 128) && UInt8.ofNat (a + 128) ≤ high) = true := by
    simp only [Bool.and_eq_true, decide_eq_true_eq, UInt8.le_iff_toNat_le, hbyte]
    exact ⟨hlow, hhigh⟩
  rw [following, if_pos hrange, hbyte, Nat.add_sub_cancel]

theorem following_cons_of_lt {a : Nat} (ha : a < 64) (count seen payload : Nat)
    (bytes : List UInt8) :
    following (count + 1) 0x80 0xBF seen payload (UInt8.ofNat (a + 128) :: bytes)
      = following count 0x80 0xBF (seen + 1) (payload * 64 + a) bytes :=
  following_cons (Nat.le_add_left 128 a) (Nat.add_le_add_right (Nat.le_of_lt_succ ha) 128)
    count seen payload bytes

section Forms

variable {v : Nat}

theorem spells_one (h : v < 0x80) : Spells [UInt8.ofNat v] v := by
  have hlead : lead? (UInt8.ofNat v) = some ⟨v, 0, 0x80, 0xBF⟩ := by
    rw [lead?_ofNat (by omega), if_pos h]
  exact ⟨_, _, _, rfl, hlead, rfl, fun rest ↦ rfl⟩

theorem spells_two (hlow : 0x80 ≤ v) (hhigh : v < 0x800) :
    Spells [UInt8.ofNat (v / 64 % 32 + 192), UInt8.ofNat (v % 64 + 128)] v := by
  have hlead : lead? (UInt8.ofNat (v / 64 % 32 + 192)) = some ⟨v / 64, 1, 0x80, 0xBF⟩ := by
    have hpayload : v / 64 % 32 = v / 64 := by omega
    rw [hpayload, lead?_ofNat (by omega), if_neg (by omega), if_neg (by omega), if_pos (by omega),
      Nat.add_sub_cancel]
  refine ⟨_, _, _, rfl, hlead, rfl, fun rest ↦ ?_⟩
  have hcode : v / 64 * 64 + v % 64 = v := by omega
  rw [List.cons_append, following_cons_of_lt (by omega), following, hcode]

theorem spells_three (hlow : 0x800 ≤ v) (hhigh : v < 0x10000)
    (hvalid : v < 0xD800 ∨ 0xDFFF < v) :
    Spells [UInt8.ofNat (v / 4096 % 16 + 224), UInt8.ofNat (v / 64 % 64 + 128),
      UInt8.ofNat (v % 64 + 128)] v := by
  have hlead : lead? (UInt8.ofNat (v / 4096 % 16 + 224)) = some ⟨v / 4096, 2,
      if v / 4096 + 224 = 0xE0 then 0xA0 else 0x80,
      if v / 4096 + 224 = 0xED then 0x9F else 0xBF⟩ := by
    have hpayload : v / 4096 % 16 = v / 4096 := by omega
    rw [hpayload, lead?_ofNat (by omega), if_neg (by omega), if_neg (by omega), if_neg (by omega),
      if_pos (by omega), Nat.add_sub_cancel]
  refine ⟨_, _, _, rfl, hlead, rfl, fun rest ↦ ?_⟩
  -- Below `0xA0` the form would be too long, and above `0x9F` behind `0xED` are the surrogates.
  have hfirst : (if v / 4096 + 224 = 0xE0 then (0xA0 : UInt8) else 0x80).toNat
      ≤ v / 64 % 64 + 128 := by
    split
    · show 160 ≤ _
      omega
    · show 128 ≤ _
      omega
  have hlast : v / 64 % 64 + 128
      ≤ (if v / 4096 + 224 = 0xED then (0x9F : UInt8) else 0xBF).toNat := by
    split
    · show _ ≤ 159
      omega
    · show _ ≤ 191
      omega
  have hcode : (v / 4096 * 64 + v / 64 % 64) * 64 + v % 64 = v := by omega
  rw [List.cons_append, List.cons_append, following_cons hfirst hlast,
    following_cons_of_lt (by omega), following, hcode]

theorem spells_four (hlow : 0x10000 ≤ v) (hhigh : v < 0x110000) :
    Spells [UInt8.ofNat (v / 262144 % 8 + 240), UInt8.ofNat (v / 4096 % 64 + 128),
      UInt8.ofNat (v / 64 % 64 + 128), UInt8.ofNat (v % 64 + 128)] v := by
  have hlead : lead? (UInt8.ofNat (v / 262144 % 8 + 240)) = some ⟨v / 262144, 3,
      if v / 262144 + 240 = 0xF0 then 0x90 else 0x80,
      if v / 262144 + 240 = 0xF4 then 0x8F else 0xBF⟩ := by
    have hpayload : v / 262144 % 8 = v / 262144 := by omega
    rw [hpayload, lead?_ofNat (by omega), if_neg (by omega), if_neg (by omega), if_neg (by omega),
      if_neg (by omega), if_pos (by omega), Nat.add_sub_cancel]
  refine ⟨_, _, _, rfl, hlead, rfl, fun rest ↦ ?_⟩
  have hfirst : (if v / 262144 + 240 = 0xF0 then (0x90 : UInt8) else 0x80).toNat
      ≤ v / 4096 % 64 + 128 := by
    split
    · show 144 ≤ _
      omega
    · show 128 ≤ _
      omega
  have hlast : v / 4096 % 64 + 128
      ≤ (if v / 262144 + 240 = 0xF4 then (0x8F : UInt8) else 0xBF).toNat := by
    split
    · show _ ≤ 143
      omega
    · show _ ≤ 191
      omega
  have hcode : ((v / 262144 * 64 + v / 4096 % 64) * 64 + v / 64 % 64) * 64 + v % 64 = v := by omega
  rw [List.cons_append, List.cons_append, List.cons_append, following_cons hfirst hlast,
    following_cons_of_lt (by omega), following_cons_of_lt (by omega), following, hcode]

end Forms

theorem spells_utf8EncodeChar (c : Char) : Spells (String.utf8EncodeChar c) c.toNat := by
  have hvalid : c.toNat < 0xD800 ∨ 0xDFFF < c.toNat ∧ c.toNat < 0x110000 := c.valid
  rw [String.utf8EncodeChar]
  split
  · next h => exact spells_one (Nat.lt_succ_of_le h)
  split
  · next hlow hhigh => exact spells_two (Nat.lt_of_not_le hlow) (Nat.lt_succ_of_le hhigh)
  split
  · next hlow hhigh =>
    exact spells_three (Nat.lt_of_not_le hlow) (Nat.lt_succ_of_le hhigh) (hvalid.imp_right And.left)
  · next hlow =>
    exact spells_four (Nat.lt_of_not_le hlow) (hvalid.elim (Nat.lt_trans · (by decide)) And.right)

/-! ## Texts -/

theorem decodeFrom_append {bytes : List UInt8} {code : Nat} (h : Spells bytes code)
    (position : Nat) (rest : List UInt8) :
    decodeFrom position (bytes ++ rest)
      = (decodeFrom (position + bytes.length) rest).map (Char.ofNat code :: ·) := by
  obtain ⟨b, tail, lead, rfl, hlead, hlength, hfollowing⟩ := h
  have hposition : position + 1 + tail.length = position + (b :: tail).length := by
    rw [List.length_cons]
    omega
  rw [List.cons_append, decodeFrom, hlead]
  dsimp only
  rw [hfollowing rest, hlength, List.drop_left, hposition]
  rcases decodeFrom (position + (b :: tail).length) rest with e | cs <;> rfl

theorem toList_loop (bytes : ByteArray) (i : Nat) (taken : List UInt8) :
    ByteArray.toList.loop bytes i taken = taken.reverse ++ bytes.data.toList.drop i := by
  fun_induction ByteArray.toList.loop bytes i taken with
  | case1 i taken h ih =>
    have hi : i < bytes.data.toList.length := h
    rw [ih, List.drop_eq_getElem_cons hi]
    simp [ByteArray.get!, h]
  | case2 i taken h => rw [List.drop_eq_nil_of_le (Nat.le_of_not_lt h), List.append_nil]

theorem encode_eq (s : String) : encode s = s.toList.flatMap String.utf8EncodeChar := by
  have hbytes : s.toByteArray = s.toList.utf8Encode := by
    rw [← String.toByteArray_ofList, String.ofList_toList]
  rw [encode, String.toUTF8_eq_toByteArray, hbytes, ByteArray.toList, toList_loop,
    List.reverse_nil, List.nil_append, List.drop_zero, List.utf8Encode,
    List.toList_data_toByteArray]

/-- **UTF-8.** What is written is read back. -/
theorem decode_encode (s : String) : decode (encode s) = .ok s.toList := by
  have hfrom : ∀ (cs : List Char) (position : Nat),
      decodeFrom position (cs.flatMap String.utf8EncodeChar) = .ok cs := by
    intro cs
    induction cs with
    | nil =>
      intro position
      rw [List.flatMap_nil, decodeFrom]
    | cons c rest ih =>
      intro position
      rw [List.flatMap_cons, decodeFrom_append (spells_utf8EncodeChar c), ih, Char.ofNat_toNat]
      rfl
  rw [decode, encode_eq, hfrom]

end Runbook.Text.Utf8
