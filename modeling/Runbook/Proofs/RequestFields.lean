import Mathlib.Algebra.Group.Int.Defs
import Mathlib.Data.List.Forall2
import Mathlib.Data.List.Nodup
import Runbook.Request

/-!
# Requests from outside

Fields of any kind are either taken as a request or turned down with a list of complaints. What a
request has to look like is said by `Describes`: the argument vector is there and is a list of
texts, the environment is a mapping to texts or is not there, and the capture flag stands for a
truth value. Nothing is converted on the way, so the request that comes out is told by the fields.

## Complaints

Each of the three fields has its own list of things that can be wrong with it (`WrongArgv`,
`WrongEnvironment`, `WrongCapture`), which looks at no other field. The complaints about a request
are those about its fields, each once: a complaint names its field first and the member of the field
second, so that two of them are never the same.

A mapping from outside has texts for its keys, and has each of them once. This is what `IsJson` says
at all depths, and what keeps the complaints about two entries apart. Fractional numbers are no
values (`Value`), so nothing is said about a capture flag that is one.
-/

namespace Runbook

/-- A mapping with texts for its keys. -/
def Value.object (entries : List (String × Value)) : Value :=
  .dict (entries.map fun e ↦ (.text e.1, e.2))

theorem Value.object_inj {entries entries' : List (String × Value)} :
    Value.object entries = .object entries' ↔ entries = entries' := by
  rw [Value.object, Value.object, Value.dict.injEq]
  refine List.map_inj_right fun e e' he ↦ ?_
  obtain ⟨hkey, hvalue⟩ := Prod.mk.inj he
  exact Prod.ext (Value.text.inj hkey) hvalue

/-- The values that come from outside: texts, whole numbers, truth values and nothing, and lists of
them and mappings to them, with texts for keys. -/
inductive Value.IsJson : Value → Prop
  | text (s : String) : IsJson (.text s)
  | int (n : Int) : IsJson (.int n)
  | truth (b : Bool) : IsJson (.truth b)
  | null : IsJson .null
  | list {items : List Value} (hitems : ∀ v ∈ items, IsJson v) : IsJson (.list items)
  | object {entries : List (String × Value)} (hkeys : (entries.map Prod.fst).Nodup)
      (hvalues : ∀ e ∈ entries, IsJson e.2) : IsJson (Value.object entries)

def Value.IsNoText (v : Value) : Prop := ∀ s, v ≠ .text s

theorem Value.exists_eq_text_or (v : Value) : (∃ s, v = .text s) ∨ v.IsNoText := by
  by_cases h : ∃ s, v = .text s
  · exact .inl h
  · exact .inr (not_exists.mp h)

namespace Request

/-! ## The argument vector -/

/-- The complaints about an argument vector. -/
inductive WrongArgv : Option Value → Complaint → Prop
  /-- There is none. -/
  | missing : WrongArgv none ⟨["argv"], .missing⟩
  /-- It is no list. -/
  | noList {v : Value} (hv : ∀ items, v ≠ .list items) : WrongArgv (some v) ⟨["argv"], .listType⟩
  /-- It names no program. -/
  | empty : WrongArgv (some (.list [])) ⟨["argv"], .tooShort⟩
  /-- A member is no text. -/
  | member {items : List Value} {index : Nat} {v : Value} (hv : items[index]? = some v)
      (htext : v.IsNoText) :
      WrongArgv (some (.list items)) ⟨["argv", toString index], .stringType⟩

theorem checkWords_cons_text (index : Nat) (s : String) (items : List Value) :
    checkWords index (.text s :: items)
      = (s :: (checkWords (index + 1) items).1, (checkWords (index + 1) items).2) := rfl

theorem checkWords_cons_of_isNoText (index : Nat) {v : Value} (hv : v.IsNoText)
    (items : List Value) :
    checkWords index (v :: items) = ((checkWords (index + 1) items).1,
      ⟨["argv", toString index], .stringType⟩ :: (checkWords (index + 1) items).2) := by
  cases v with
  | text s => exact absurd rfl (hv s)
  | _ => rfl

theorem checkWords_texts (index : Nat) (words : List String) :
    checkWords index (words.map .text) = (words, []) := by
  induction words generalizing index with
  | nil => rfl
  | cons word rest ih => rw [List.map_cons, checkWords_cons_text, ih]

theorem eq_texts_of_checkWords {index : Nat} {items : List Value}
    (h : (checkWords index items).2 = []) : items = (checkWords index items).1.map .text := by
  induction items generalizing index with
  | nil => rfl
  | cons v items ih =>
    rcases v.exists_eq_text_or with ⟨s, rfl⟩ | hv
    · rw [checkWords_cons_text] at h ⊢
      rw [List.map_cons, ← ih h]
    · rw [checkWords_cons_of_isNoText index hv] at h
      contradiction

/-- A number can be read back from its decimal digits. -/
theorem decimal_inj {k l : Nat} (h : k.repr = l.repr) : k = l := by
  rw [Nat.repr_eq_ofList_toDigits, Nat.repr_eq_ofList_toDigits, String.ofList_inj] at h
  rw [← Nat.ofDigitChars_toDigits (b := 10) (n := k) (by decide) (by decide), h,
    Nat.ofDigitChars_toDigits (by decide) (by decide)]

theorem mem_checkWords_iff {index : Nat} {items : List Value} {c : Complaint} :
    c ∈ (checkWords index items).2 ↔ ∃ k v, items[k]? = some v ∧ v.IsNoText ∧
      c = ⟨["argv", toString (index + k)], .stringType⟩ := by
  induction items generalizing index with
  | nil => simp [checkWords]
  | cons v items ih =>
    have hrest : c ∈ (checkWords (index + 1) items).2 ↔ ∃ k w, (v :: items)[k + 1]? = some w ∧
        w.IsNoText ∧ c = ⟨["argv", toString (index + (k + 1))], .stringType⟩ := by
      simp only [ih, List.getElem?_cons_succ, Nat.add_right_comm index 1, Nat.add_assoc]
    rcases v.exists_eq_text_or with ⟨s, rfl⟩ | hv
    · rw [checkWords_cons_text, hrest]
      constructor
      · rintro ⟨k, hk⟩
        exact ⟨k + 1, hk⟩
      · rintro ⟨_ | k, w, hw, hno, hc⟩
        · obtain rfl := Option.some.inj hw
          exact absurd rfl (hno s)
        · exact ⟨k, w, hw, hno, hc⟩
    · rw [checkWords_cons_of_isNoText index hv, List.mem_cons, hrest]
      constructor
      · rintro (rfl | ⟨k, hk⟩)
        · exact ⟨0, v, rfl, hv, rfl⟩
        · exact ⟨k + 1, hk⟩
      · rintro ⟨_ | k, w, hw, hno, hc⟩
        · exact .inl hc
        · exact .inr ⟨k, w, hw, hno, hc⟩

theorem nodup_checkWords (index : Nat) (items : List Value) :
    (checkWords index items).2.Nodup := by
  induction items generalizing index with
  | nil => exact List.nodup_nil
  | cons v items ih =>
    rcases v.exists_eq_text_or with ⟨s, rfl⟩ | hv
    · exact ih (index + 1)
    · rw [checkWords_cons_of_isNoText index hv, List.nodup_cons]
      refine ⟨?_, ih (index + 1)⟩
      rw [mem_checkWords_iff]
      rintro ⟨k, -, -, -, hc⟩
      simp only [Complaint.mk.injEq, List.cons.injEq, and_true, true_and] at hc
      have := decimal_inj hc
      omega

theorem checkArgv_eq_ok_iff {v : Option Value} {program : String} {arguments : List String} :
    checkArgv v = .ok (program, arguments) ↔
      v = some (.list ((program :: arguments).map .text)) := by
  constructor
  · intro h
    unfold checkArgv at h
    split at h
    · contradiction
    · next items =>
      split at h
      · next hwords =>
        obtain ⟨rfl, rfl⟩ := Prod.mk.inj (Except.ok.inj h)
        have hitems := eq_texts_of_checkWords (congrArg Prod.snd hwords)
        rw [hwords] at hitems
        rw [hitems]
      · contradiction
      · contradiction
    · contradiction
  · rintro rfl
    rw [checkArgv, checkWords_texts]

theorem checkArgv_list_eq (items : List Value) :
    complaintsOf (checkArgv (some (.list items))) =
      if items = [] then [⟨["argv"], .tooShort⟩] else (checkWords 0 items).2 := by
  rcases hwords : checkWords 0 items with ⟨words, _ | ⟨c, complaints⟩⟩
  · have hitems : items = words.map .text := by
      rw [eq_texts_of_checkWords (congrArg Prod.snd hwords), hwords]
    rw [checkArgv, hwords]
    subst hitems
    cases words <;> rfl
  · have hitems : items ≠ [] := by
      rintro rfl
      obtain ⟨-, ⟨⟩⟩ := Prod.mk.inj hwords
    rw [checkArgv, hwords, if_neg hitems]
    cases words <;> rfl

theorem mem_complaintsOf_checkArgv_iff {v : Option Value} {c : Complaint} :
    c ∈ complaintsOf (checkArgv v) ↔ WrongArgv v c := by
  constructor
  · intro h
    rcases v with _ | v
    · obtain rfl := List.mem_singleton.mp h
      exact .missing
    · cases v with
      | list items =>
        rw [checkArgv_list_eq] at h
        split at h
        · next hitems =>
          subst hitems
          obtain rfl := List.mem_singleton.mp h
          exact .empty
        · obtain ⟨k, v, hv, htext, rfl⟩ := mem_checkWords_iff.mp h
          rw [Nat.zero_add]
          exact .member hv htext
      | _ =>
        obtain rfl := List.mem_singleton.mp h
        exact .noList (by simp)
  · intro h
    cases h with
    | missing | empty => exact List.mem_singleton.mpr rfl
    | @noList v hv =>
      cases v with
      | list items => exact absurd rfl (hv items)
      | _ => exact List.mem_singleton.mpr rfl
    | @member items index v hv htext =>
      have hitems : items ≠ [] := by
        rintro rfl
        contradiction
      rw [checkArgv_list_eq, if_neg hitems, mem_checkWords_iff]
      exact ⟨index, v, hv, htext, by rw [Nat.zero_add]⟩

theorem nodup_complaintsOf_checkArgv (v : Option Value) : (complaintsOf (checkArgv v)).Nodup := by
  rcases v with _ | v
  · exact List.nodup_singleton _
  · cases v with
    | list items =>
      rw [checkArgv_list_eq]
      split
      · exact List.nodup_singleton _
      · exact nodup_checkWords 0 items
    | _ => exact List.nodup_singleton _

/-! ## The environment -/

/-- The complaints about an environment. -/
inductive WrongEnvironment : Option Value → Complaint → Prop
  /-- It is no mapping. -/
  | noMapping {v : Value} (hv : ∀ entries, v ≠ .dict entries) :
      WrongEnvironment (some v) ⟨["env"], .dictType⟩
  /-- A value is no text. -/
  | value {entries : List (String × Value)} {key : String} {v : Value} (hv : (key, v) ∈ entries)
      (htext : v.IsNoText) :
      WrongEnvironment (some (.object entries)) ⟨["env", key], .stringType⟩

/-- The check of the entries of a mapping with texts for keys. -/
def checkEntries (entries : List (String × Value)) : Keyed String × List Complaint :=
  checkBindings (entries.map fun e ↦ (.text e.1, e.2))

theorem checkEntries_cons_text (key s : String) (entries : List (String × Value)) :
    checkEntries ((key, .text s) :: entries)
      = ((key, s) :: (checkEntries entries).1, (checkEntries entries).2) := rfl

theorem checkEntries_cons_of_isNoText (key : String) {v : Value} (hv : v.IsNoText)
    (entries : List (String × Value)) :
    checkEntries ((key, v) :: entries)
      = ((checkEntries entries).1, ⟨["env", key], .stringType⟩ :: (checkEntries entries).2) := by
  cases v with
  | text s => exact absurd rfl (hv s)
  | _ => rfl

theorem checkEntries_texts (values : Keyed String) :
    checkEntries (Keyed.mapValues .text values) = (values, []) := by
  induction values with
  | nil => rfl
  | cons e rest ih => exact (checkEntries_cons_text _ _ _).trans (by rw [← Keyed.mapValues, ih])

theorem eq_texts_of_checkEntries {entries : List (String × Value)}
    (h : (checkEntries entries).2 = []) :
    entries = Keyed.mapValues .text (checkEntries entries).1 := by
  induction entries with
  | nil => rfl
  | cons e entries ih =>
    obtain ⟨key, v⟩ := e
    rcases v.exists_eq_text_or with ⟨s, rfl⟩ | hv
    · rw [checkEntries_cons_text] at h ⊢
      rw [Keyed.mapValues, List.map_cons, ← Keyed.mapValues, ← ih h]
    · rw [checkEntries_cons_of_isNoText key hv] at h
      contradiction

theorem mem_checkEntries_iff {entries : List (String × Value)} {c : Complaint} :
    c ∈ (checkEntries entries).2 ↔
      ∃ key v, (key, v) ∈ entries ∧ v.IsNoText ∧ c = ⟨["env", key], .stringType⟩ := by
  induction entries with
  | nil => simp [checkEntries, checkBindings]
  | cons e entries ih =>
    obtain ⟨key, v⟩ := e
    rcases v.exists_eq_text_or with ⟨s, rfl⟩ | hv
    · rw [checkEntries_cons_text, ih]
      constructor
      · rintro ⟨k, w, hw, hc⟩
        exact ⟨k, w, List.mem_cons_of_mem _ hw, hc⟩
      · rintro ⟨k, w, hw, hno, hc⟩
        refine ⟨k, w, (List.mem_cons.mp hw).resolve_left ?_, hno, hc⟩
        rintro ⟨⟩
        exact hno s rfl
    · rw [checkEntries_cons_of_isNoText key hv, List.mem_cons, ih]
      constructor
      · rintro (rfl | ⟨k, w, hw, hc⟩)
        · exact ⟨key, v, List.mem_cons_self, hv, rfl⟩
        · exact ⟨k, w, List.mem_cons_of_mem _ hw, hc⟩
      · rintro ⟨k, w, hw, hno, hc⟩
        rcases List.mem_cons.mp hw with ⟨⟨⟩⟩ | hw
        · exact .inl hc
        · exact .inr ⟨k, w, hw, hno, hc⟩

theorem nodup_checkEntries {entries : List (String × Value)} (h : (entries.map Prod.fst).Nodup) :
    (checkEntries entries).2.Nodup := by
  induction entries with
  | nil => exact List.nodup_nil
  | cons e entries ih =>
    obtain ⟨key, v⟩ := e
    rw [List.map_cons, List.nodup_cons] at h
    rcases v.exists_eq_text_or with ⟨s, rfl⟩ | hv
    · exact ih h.2
    · rw [checkEntries_cons_of_isNoText key hv, List.nodup_cons]
      refine ⟨?_, ih h.2⟩
      rw [mem_checkEntries_iff]
      rintro ⟨k, w, hw, -, hc⟩
      obtain rfl : key = k := by simpa using hc
      exact h.1 (List.mem_map.mpr ⟨_, hw, rfl⟩)

theorem complaintsOf_checkEnvironment_object (entries : List (String × Value)) :
    complaintsOf (checkEnvironment (some (.object entries))) = (checkEntries entries).2 := by
  rw [Value.object, checkEnvironment, ← checkEntries]
  rcases checkEntries entries with ⟨values, _ | ⟨c, complaints⟩⟩ <;> rfl

theorem checkEnvironment_object_eq_ok_iff {entries : List (String × Value)}
    {environment : Keyed String} :
    checkEnvironment (some (.object entries)) = .ok environment ↔
      entries = Keyed.mapValues .text environment := by
  constructor
  · intro h
    rw [Value.object, checkEnvironment, ← checkEntries] at h
    split at h
    · next hentries =>
      obtain rfl := Except.ok.inj h
      have := eq_texts_of_checkEntries (congrArg Prod.snd hentries)
      rwa [hentries] at this
    · contradiction
  · rintro rfl
    rw [Value.object, checkEnvironment, ← checkEntries, checkEntries_texts]

theorem exists_object_of_isJson {v : Value} (h : v.IsJson) :
    (∀ entries, v ≠ .dict entries) ∨
      ∃ entries, v = .object entries ∧ (entries.map Prod.fst).Nodup := by
  cases h with
  | object hkeys => exact .inr ⟨_, rfl, hkeys⟩
  | _ => exact .inl fun _ ↦ nofun

theorem checkEnvironment_of_noMapping {v : Value} (hv : ∀ entries, v ≠ .dict entries) :
    checkEnvironment (some v) = .error [⟨["env"], .dictType⟩] := by
  cases v with
  | dict entries => exact absurd rfl (hv entries)
  | _ => rfl

section Environment

variable {v : Option Value} (hv : ∀ w, v = some w → w.IsJson)

include hv

theorem checkEnvironment_eq_ok_iff {environment : Keyed String} :
    checkEnvironment v = .ok environment ↔ v = none ∧ environment = [] ∨
      v = some (.object (Keyed.mapValues .text environment)) := by
  rcases v with _ | v
  · simp [checkEnvironment, eq_comm]
  rcases exists_object_of_isJson (hv v rfl) with hno | ⟨entries, rfl, -⟩
  · rw [checkEnvironment_of_noMapping hno]
    simp [hno _, Value.object]
  · rw [checkEnvironment_object_eq_ok_iff, Option.some.injEq, Value.object_inj]
    simp

theorem mem_complaintsOf_checkEnvironment_iff {c : Complaint} :
    c ∈ complaintsOf (checkEnvironment v) ↔ WrongEnvironment v c := by
  constructor
  · intro h
    rcases v with _ | v
    · contradiction
    rcases exists_object_of_isJson (hv v rfl) with hno | ⟨entries, rfl, -⟩
    · rw [checkEnvironment_of_noMapping hno] at h
      obtain rfl := List.mem_singleton.mp h
      exact .noMapping hno
    · rw [complaintsOf_checkEnvironment_object, mem_checkEntries_iff] at h
      obtain ⟨key, w, hw, htext, rfl⟩ := h
      exact .value hw htext
  · intro h
    cases h with
    | noMapping hno =>
      rw [checkEnvironment_of_noMapping hno]
      exact List.mem_singleton.mpr rfl
    | value hw htext =>
      rw [complaintsOf_checkEnvironment_object, mem_checkEntries_iff]
      exact ⟨_, _, hw, htext, rfl⟩

theorem nodup_complaintsOf_checkEnvironment : (complaintsOf (checkEnvironment v)).Nodup := by
  rcases v with _ | v
  · exact List.nodup_nil
  rcases exists_object_of_isJson (hv v rfl) with hno | ⟨entries, rfl, hkeys⟩
  · rw [checkEnvironment_of_noMapping hno]
    exact List.nodup_singleton _
  · rw [complaintsOf_checkEnvironment_object]
    exact nodup_checkEntries hkeys

end Environment

/-! ## The capture flag -/

/-- The text is the word in some letter case: each character is that of the word or its capital. -/
def InSomeCase (s word : String) : Prop :=
  List.Forall₂ (fun c d ↦ c = d ∨ c = d.toUpper) s.toList word.toList

/-- What the capture flag stands for. -/
inductive CaptureFlag : Option Value → Bool → Prop
  /-- Without one, nothing is captured. -/
  | absent : CaptureFlag none false
  | truth (b : Bool) : CaptureFlag (some (.truth b)) b
  | zero : CaptureFlag (some (.int 0)) false
  | one : CaptureFlag (some (.int 1)) true
  | word {s word : String} {b : Bool} (hword : (word, b) ∈ truthWords) (hs : InSomeCase s word) :
      CaptureFlag (some (.text s)) b

/-- The complaints about a capture flag. -/
inductive WrongCapture : Option Value → Complaint → Prop
  /-- It is a number of at most 64 bits, and neither 0 nor 1. -/
  | number {n : Int} (hzero : n ≠ 0) (hone : n ≠ 1) (hlow : -2 ^ 63 ≤ n) (hhigh : n < 2 ^ 63) :
      WrongCapture (some (.int n)) ⟨["capture_stdout"], .boolParsing⟩
  /-- It is a word that stands for nothing. -/
  | word {s : String} (hs : ∀ word b, (word, b) ∈ truthWords → ¬InSomeCase s word) :
      WrongCapture (some (.text s)) ⟨["capture_stdout"], .boolParsing⟩
  /-- It is a number of more than 64 bits. -/
  | large {n : Int} (hn : n < -2 ^ 63 ∨ 2 ^ 63 ≤ n) :
      WrongCapture (some (.int n)) ⟨["capture_stdout"], .boolType⟩
  /-- It is of a kind that stands for nothing. -/
  | kind {v : Value} (htruth : ∀ b, v ≠ .truth b) (hint : ∀ n, v ≠ .int n) (htext : v.IsNoText) :
      WrongCapture (some v) ⟨["capture_stdout"], .boolType⟩

/-- Only the 26 letters have a case: both functions move a character by 32 or leave it. -/
theorem toLower_eq_iff {c d : Char} (hd : d.isUpper = false) :
    c.toLower = d ↔ c = d ∨ c = d.toUpper := by
  delta Char.isUpper at hd
  simp only [decide_eq_false_iff_not, ge_iff_le] at hd
  delta Char.toLower Char.toUpper
  simp only [Char.ext_iff, ge_iff_le]
  split <;> split <;> grind [UInt32.toNat_inj, UInt32.le_iff_toNat_le, UInt32.toNat_add]

theorem map_toLower_eq_iff {cs ds : List Char} (hds : ∀ d ∈ ds, d.isUpper = false) :
    cs.map Char.toLower = ds ↔ List.Forall₂ (fun c d ↦ c = d ∨ c = d.toUpper) cs ds := by
  induction ds generalizing cs with
  | nil => simp
  | cons d ds ih =>
    obtain ⟨hd, hds⟩ := List.forall_mem_cons.mp hds
    cases cs with
    | nil => simp
    | cons c cs => rw [List.map_cons, List.cons.injEq, toLower_eq_iff hd, ih hds, List.forall₂_cons]

theorem lower_of_mem_truthWords : ∀ e ∈ truthWords, ∀ d ∈ e.1.toList, d.isUpper = false := by
  simp [truthWords]

theorem nodup_truthWords : (truthWords.map Prod.fst).Nodup := by decide

theorem lookup_truthWords_eq_some_iff {s : String} {b : Bool} :
    truthWords.lookup (s.map Char.toLower) = some b ↔
      ∃ word, (word, b) ∈ truthWords ∧ InSomeCase s word := by
  have hcase : ∀ {word}, (word, b) ∈ truthWords →
      (s.map Char.toLower = word ↔ InSomeCase s word) := by
    intro word hword
    rw [InSomeCase, ← map_toLower_eq_iff (lower_of_mem_truthWords _ hword), ← String.toList_inj,
      String.toList_map]
  rw [Keyed.lookup_eq_some_iff_mem nodup_truthWords]
  constructor
  · intro h
    exact ⟨_, h, (hcase h).mp rfl⟩
  · rintro ⟨word, hword, hs⟩
    rwa [(hcase hword).mpr hs]

theorem isMachineInt_iff {n : Int} : isMachineInt n = true ↔ -2 ^ 63 ≤ n ∧ n < 2 ^ 63 := by
  rw [isMachineInt, Bool.and_eq_true, decide_eq_true_iff, decide_eq_true_iff]
  omega

theorem checkCapture_eq_ok_iff {v : Option Value} {b : Bool} :
    checkCapture v = .ok b ↔ CaptureFlag v b := by
  constructor
  · intro h
    unfold checkCapture at h
    split at h
    · obtain rfl := Except.ok.inj h
      exact .absent
    · obtain rfl := Except.ok.inj h
      exact .truth _
    · next n =>
      split at h
      · next hn =>
        subst hn
        obtain rfl := Except.ok.inj h
        exact .zero
      split at h
      · next hn =>
        subst hn
        obtain rfl := Except.ok.inj h
        exact .one
      split at h <;> contradiction
    · split at h
      · next hlookup =>
        obtain rfl := Except.ok.inj h
        obtain ⟨word, hword, hs⟩ := lookup_truthWords_eq_some_iff.mp hlookup
        exact .word hword hs
      · contradiction
    · contradiction
  · intro h
    cases h with
    | absent | truth | zero | one => rfl
    | word hword hs => rw [checkCapture, lookup_truthWords_eq_some_iff.mpr ⟨_, hword, hs⟩]

theorem checkCapture_int_eq_error {n : Int} (hzero : n ≠ 0) (hone : n ≠ 1) :
    checkCapture (some (.int n)) = if -2 ^ 63 ≤ n ∧ n < 2 ^ 63
      then .error [⟨["capture_stdout"], .boolParsing⟩]
      else .error [⟨["capture_stdout"], .boolType⟩] := by
  simp only [checkCapture, if_neg hzero, if_neg hone, isMachineInt_iff]

theorem mem_complaintsOf_checkCapture_iff {v : Option Value} {c : Complaint} :
    c ∈ complaintsOf (checkCapture v) ↔ WrongCapture v c := by
  constructor
  · intro h
    rcases v with _ | v
    · contradiction
    · cases v with
      | truth b => contradiction
      | int n =>
        by_cases hzero : n = 0
        · subst hzero
          contradiction
        by_cases hone : n = 1
        · subst hone
          contradiction
        rw [checkCapture_int_eq_error hzero hone] at h
        split at h
        · next hn =>
          obtain rfl := List.mem_singleton.mp h
          exact .number hzero hone hn.1 hn.2
        · next hn =>
          obtain rfl := List.mem_singleton.mp h
          exact .large (by omega)
      | text s =>
        rw [checkCapture] at h
        split at h
        · contradiction
        · next hlookup =>
          obtain rfl := List.mem_singleton.mp h
          refine .word fun word b hword hs ↦ ?_
          rw [lookup_truthWords_eq_some_iff.mpr ⟨word, hword, hs⟩] at hlookup
          contradiction
      | _ =>
        obtain rfl := List.mem_singleton.mp h
        exact .kind (by simp) (by simp) (by simp [Value.IsNoText])
  · intro h
    cases h with
    | number hzero hone hlow hhigh =>
      rw [checkCapture_int_eq_error hzero hone, if_pos ⟨hlow, hhigh⟩]
      exact List.mem_singleton.mpr rfl
    | word hs =>
      rw [checkCapture]
      split
      · next hlookup =>
        obtain ⟨word, hword, hcase⟩ := lookup_truthWords_eq_some_iff.mp hlookup
        exact absurd hcase (hs word _ hword)
      · exact List.mem_singleton.mpr rfl
    | large hn =>
      rw [checkCapture_int_eq_error (by omega) (by omega), if_neg (by omega)]
      exact List.mem_singleton.mpr rfl
    | @kind v htruth hint htext =>
      cases v with
      | truth b => exact absurd rfl (htruth b)
      | int n => exact absurd rfl (hint n)
      | text s => exact absurd rfl (htext s)
      | _ => exact List.mem_singleton.mpr rfl

theorem nodup_complaintsOf_checkCapture (v : Option Value) :
    (complaintsOf (checkCapture v)).Nodup := by
  unfold checkCapture
  repeat' split
  all_goals simp [complaintsOf]

/-! ## No complaints

A field that is not taken is complained about. -/

theorem checkArgv_ne_error_nil (v : Option Value) : checkArgv v ≠ .error [] := by
  unfold checkArgv
  split
  · rintro ⟨⟩
  · split
    · rintro ⟨⟩
    · rintro ⟨⟩
    · next words complaints hfirst hsecond _ =>
      rintro ⟨rfl⟩
      cases words with
      | nil => exact hsecond rfl rfl
      | cons word rest => exact hfirst word rest rfl rfl
  · rintro ⟨⟩

theorem checkEnvironment_ne_error_nil (v : Option Value) : checkEnvironment v ≠ .error [] := by
  unfold checkEnvironment
  split
  · rintro ⟨⟩
  · split
    · rintro ⟨⟩
    · next bindings complaints hfirst _ =>
      rintro ⟨rfl⟩
      exact hfirst rfl
  · rintro ⟨⟩

theorem checkCapture_ne_error_nil (v : Option Value) : checkCapture v ≠ .error [] := by
  unfold checkCapture
  repeat' split
  all_goals simp

theorem exists_eq_ok_of_complaintsOf {α : Type} {x : Except (List Complaint) α}
    (hx : x ≠ .error []) (h : complaintsOf x = []) : ∃ a, x = .ok a := by
  rcases x with complaints | a
  · exact absurd (congrArg Except.error h) hx
  · exact ⟨a, rfl⟩

/-! ## All fields -/

def fieldNames : List String := ["argv", "env", "capture_stdout"]

/-- The fields describe the request, word by word and value by value. -/
structure Describes (fields : List (String × Value)) (r : Request) : Prop where
  /-- The argument vector is there, and is that of the request. -/
  argv : fields.lookup "argv" = some (.list (r.argv.map .text))
  /-- The environment is that of the request, or there is none. -/
  environment : fields.lookup "env" = none ∧ r.environment = [] ∨
    fields.lookup "env" = some (.object (Keyed.mapValues .text r.environment))
  /-- The capture flag stands for that of the request. -/
  capture : CaptureFlag (fields.lookup "capture_stdout") r.capture

variable {fields : List (String × Value)}

@[simp] theorem complaintsOf_ok {α : Type} (a : α) :
    complaintsOf (.ok a : Except (List Complaint) α) = [] := rfl

theorem complaintsOf_ofFields (fields : List (String × Value)) :
    complaintsOf (ofFields fields) = complaintsOf (checkArgv (fields.lookup "argv"))
      ++ complaintsOf (checkEnvironment (fields.lookup "env"))
      ++ complaintsOf (checkCapture (fields.lookup "capture_stdout")) := by
  unfold ofFields
  split
  · next hargv henv hcapture =>
    rw [hargv, henv, hcapture]
    rfl
  · rfl

theorem ofFields_eq_ok_iff {r : Request} :
    ofFields fields = .ok r ↔ checkArgv (fields.lookup "argv") = .ok (r.program, r.arguments) ∧
      checkEnvironment (fields.lookup "env") = .ok r.environment ∧
      checkCapture (fields.lookup "capture_stdout") = .ok r.capture := by
  constructor
  · intro h
    unfold ofFields at h
    split at h
    · next hargv henv hcapture =>
      obtain rfl := Except.ok.inj h
      exact ⟨hargv, henv, hcapture⟩
    · contradiction
  · rintro ⟨hargv, henv, hcapture⟩
    rw [ofFields, hargv, henv, hcapture]

theorem ofFields_ne_error_nil (fields : List (String × Value)) : ofFields fields ≠ .error [] := by
  intro h
  have hnone := complaintsOf_ofFields fields
  rw [h, complaintsOf, List.nil_eq, List.append_eq_nil_iff, List.append_eq_nil_iff] at hnone
  obtain ⟨⟨hargv, henv⟩, hcapture⟩ := hnone
  obtain ⟨⟨program, arguments⟩, hargv⟩ :=
    exists_eq_ok_of_complaintsOf (checkArgv_ne_error_nil _) hargv
  obtain ⟨environment, henv⟩ :=
    exists_eq_ok_of_complaintsOf (checkEnvironment_ne_error_nil _) henv
  obtain ⟨capture, hcapture⟩ :=
    exists_eq_ok_of_complaintsOf (checkCapture_ne_error_nil _) hcapture
  have hok := ofFields_eq_ok_iff (r := ⟨program, arguments, environment, capture⟩).mpr
    ⟨hargv, henv, hcapture⟩
  rw [h] at hok
  contradiction

/-! ## The place of a complaint

A complaint names its field first. -/

theorem WrongArgv.head?_place {v : Option Value} {c : Complaint} (h : WrongArgv v c) :
    c.place.head? = some "argv" := by
  cases h <;> rfl

theorem WrongEnvironment.head?_place {v : Option Value} {c : Complaint}
    (h : WrongEnvironment v c) : c.place.head? = some "env" := by
  cases h <;> rfl

theorem WrongCapture.head?_place {v : Option Value} {c : Complaint} (h : WrongCapture v c) :
    c.place.head? = some "capture_stdout" := by
  cases h <;> rfl

theorem isJson_of_lookup (hjson : ∀ e ∈ fields, e.2.IsJson) (name : String) :
    ∀ v, fields.lookup name = some v → v.IsJson :=
  fun v hv ↦ hjson (name, v) (Keyed.mem_of_lookup hv)

theorem mem_complaintsOf_ofFields_iff (hjson : ∀ e ∈ fields, e.2.IsJson) {c : Complaint} :
    c ∈ complaintsOf (ofFields fields) ↔ WrongArgv (fields.lookup "argv") c ∨
      WrongEnvironment (fields.lookup "env") c ∨
      WrongCapture (fields.lookup "capture_stdout") c := by
  rw [complaintsOf_ofFields, List.mem_append, List.mem_append, mem_complaintsOf_checkArgv_iff,
    mem_complaintsOf_checkEnvironment_iff (isJson_of_lookup hjson "env"),
    mem_complaintsOf_checkCapture_iff, or_assoc]

theorem nodup_complaintsOf_ofFields (hjson : ∀ e ∈ fields, e.2.IsJson) :
    (complaintsOf (ofFields fields)).Nodup := by
  have henv := isJson_of_lookup hjson "env"
  rw [complaintsOf_ofFields, List.nodup_append, List.nodup_append]
  refine ⟨⟨nodup_complaintsOf_checkArgv _, nodup_complaintsOf_checkEnvironment henv, ?_⟩,
    nodup_complaintsOf_checkCapture _, ?_⟩
  · rintro c hc _ hd rfl
    have hargv := (mem_complaintsOf_checkArgv_iff.mp hc).head?_place
    have henv := ((mem_complaintsOf_checkEnvironment_iff henv).mp hd).head?_place
    rw [hargv] at henv
    exact absurd henv (by decide)
  · rintro c hc _ hd rfl
    have hcapture := (mem_complaintsOf_checkCapture_iff.mp hd).head?_place
    rcases List.mem_append.mp hc with hc | hc
    · rw [(mem_complaintsOf_checkArgv_iff.mp hc).head?_place] at hcapture
      exact absurd hcapture (by decide)
    · rw [((mem_complaintsOf_checkEnvironment_iff henv).mp hc).head?_place] at hcapture
      exact absurd hcapture (by decide)

theorem ofFields_eq_ok_iff_describes (hjson : ∀ e ∈ fields, e.2.IsJson) {r : Request} :
    ofFields fields = .ok r ↔ Describes fields r := by
  rw [ofFields_eq_ok_iff, checkArgv_eq_ok_iff,
    checkEnvironment_eq_ok_iff (isJson_of_lookup hjson "env"), checkCapture_eq_ok_iff]
  constructor
  · rintro ⟨hargv, henv, hcapture⟩
    exact ⟨hargv, henv, hcapture⟩
  · rintro ⟨hargv, henv, hcapture⟩
    exact ⟨hargv, henv, hcapture⟩

/-! ## One field at a time -/

/-- The fields of one name. -/
def only (name : String) (fields : List (String × Value)) : List (String × Value) :=
  fields.filter fun e ↦ e.1 == name

theorem lookup_only (name : String) (fields : List (String × Value)) (key : String) :
    (only name fields).lookup key = if key = name then fields.lookup key else none := by
  rw [only, Keyed.lookup_filter (· == name)]
  simp only [beq_iff_eq]

/-- The complaints about a request are those about each of its fields, where nothing is wrong with
the others. -/
theorem complaintsOf_ofFields_eq_only (fields : List (String × Value)) (program : String) :
    complaintsOf (ofFields fields) = complaintsOf (ofFields (only "argv" fields))
      ++ complaintsOf (ofFields (("argv", .list [.text program]) :: only "env" fields))
      ++ complaintsOf (ofFields
        (("argv", .list [.text program]) :: only "capture_stdout" fields)) := by
  have hargv : checkArgv (some (.list [.text program])) = .ok (program, []) := rfl
  have henv : checkEnvironment none = .ok [] := rfl
  have hcapture : checkCapture none = .ok false := rfl
  simp only [complaintsOf_ofFields, lookup_only, List.lookup_cons]
  simp [hargv, henv, hcapture]

theorem ofFields_filter_fieldNames (fields : List (String × Value)) :
    ofFields (fields.filter fun e ↦ fieldNames.contains e.1) = ofFields fields := by
  have hlookup : ∀ name ∈ fieldNames,
      (fields.filter fun e ↦ fieldNames.contains e.1).lookup name = fields.lookup name := by
    intro name hname
    rw [Keyed.lookup_filter, if_pos (List.contains_iff_mem.mpr hname)]
  rw [ofFields, hlookup "argv" (by decide), hlookup "env" (by decide),
    hlookup "capture_stdout" (by decide), ofFields]

def toFields (r : Request) : List (String × Value) :=
  [("argv", .list (r.argv.map .text)), ("env", .object (Keyed.mapValues .text r.environment)),
    ("capture_stdout", .truth r.capture)]

/-- A request that is written out as fields is taken for itself. -/
theorem ofFields_toFields (r : Request) : ofFields r.toFields = .ok r := by
  rw [ofFields_eq_ok_iff]
  refine ⟨checkArgv_eq_ok_iff.mpr ?_, checkEnvironment_object_eq_ok_iff.mpr rfl, rfl⟩
  rfl

end Request

open Request

/-- **Requests from outside.** Fields are taken as a request exactly if they describe it, word by
word and value by value. Otherwise there are complaints, none of them twice: exactly those about
each field, which are the ones that the field alone gives rise to. Fields of other names do not
count. -/
theorem request_fields {fields : List (String × Value)} (hjson : ∀ e ∈ fields, e.2.IsJson) :
    (∀ r, ofFields fields = .ok r ↔ Describes fields r) ∧
      (∀ complaints, ofFields fields = .error complaints →
        complaints ≠ [] ∧ complaints.Nodup ∧
        (∀ c, c ∈ complaints ↔ WrongArgv (fields.lookup "argv") c ∨
          WrongEnvironment (fields.lookup "env") c ∨
          WrongCapture (fields.lookup "capture_stdout") c) ∧
        ∀ program, complaints = complaintsOf (ofFields (only "argv" fields))
          ++ complaintsOf (ofFields (("argv", .list [.text program]) :: only "env" fields))
          ++ complaintsOf (ofFields
            (("argv", .list [.text program]) :: only "capture_stdout" fields))) ∧
      ofFields (fields.filter fun e ↦ fieldNames.contains e.1) = ofFields fields := by
  refine ⟨fun r ↦ ofFields_eq_ok_iff_describes hjson, ?_, ofFields_filter_fieldNames fields⟩
  intro complaints h
  have hcomplaints : complaintsOf (ofFields fields) = complaints := by rw [h, complaintsOf]
  refine ⟨?_, ?_, ?_, ?_⟩
  · rintro rfl
    exact ofFields_ne_error_nil fields h
  · rw [← hcomplaints]
    exact nodup_complaintsOf_ofFields hjson
  · intro c
    rw [← hcomplaints]
    exact mem_complaintsOf_ofFields_iff hjson
  · intro program
    rw [← hcomplaints]
    exact complaintsOf_ofFields_eq_only fields program

/-- Two fields are wrong, each in one member, and the third is not. -/
theorem request_fields_two_wrong :
    let fields := [("argv", Value.list [.text "cargo", .int 1]),
      ("env", .object [("A", .text "1"), ("B", .null)]), ("capture_stdout", .int 1)]
    (∀ e ∈ fields, e.2.IsJson) ∧
      ∀ c : Complaint, c ∈ [⟨["argv", "1"], .stringType⟩, ⟨["env", "B"], .stringType⟩] ↔
        WrongArgv (fields.lookup "argv") c ∨ WrongEnvironment (fields.lookup "env") c ∨
          WrongCapture (fields.lookup "capture_stdout") c := by
  intro fields
  have hjson : ∀ e ∈ fields, e.2.IsJson := by
    simp only [fields, List.forall_mem_cons]
    refine ⟨.list ?_, .object (by decide) ?_, .int _, fun _ ↦ nofun⟩
    · simp only [List.forall_mem_cons]
      exact ⟨.text _, .int _, fun _ ↦ nofun⟩
    · simp only [List.forall_mem_cons]
      exact ⟨.text _, .null, fun _ ↦ nofun⟩
  have hwrong : ofFields fields
      = .error [⟨["argv", "1"], .stringType⟩, ⟨["env", "B"], .stringType⟩] := by rfl
  obtain ⟨-, -, hmem, -⟩ := (request_fields hjson).2.1 _ hwrong
  exact ⟨hjson, hmem⟩

end Runbook
