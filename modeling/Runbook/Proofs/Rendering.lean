import Runbook.Proofs.Literals
import Runbook.Report
import Runbook.Text.Span

/-!
# Reports tell their contexts apart

The written form of a value can be told from what follows it, at any depth (`Value.legible`). What
kind of value it is shows in its first character (`Shape.of?`). Texts and byte strings end with the
quote they start with, and lists, tuples and dictionaries with a bracket behind their last member.
Only a whole number has no end of its own: `1` is also the beginning of `12`. So nothing is claimed
of a value with a digit behind it (`EndsNumber`), and inside a value no digit ever stands there: a
member is followed by a comma or a bracket, and a key by a colon.

Two contexts with the same written form are therefore the same. A report does not show all of a long
context, but one that it shows in full is not taken for another one: the written form of a
context ends with a brace and what is left of a long one with a dot (`Report.line_tells_context`).
-/

namespace Runbook

open Text

/-! ## Whole numbers -/

/-- No digit comes first. -/
def EndsNumber (s : List Char) : Prop := ∀ c, s.head? = some c → c.isDigit = false

theorem endsNumber_nil : EndsNumber [] := by
  intro c h
  cases h

theorem endsNumber_cons {c : Char} (h : c.isDigit = false) (s : List Char) :
    EndsNumber (c :: s) := by
  rintro _ ⟨⟩
  exact h

def readNat (cs : List Char) : Nat × List Char :=
  (Nat.ofDigitChars 10 (cs.takeWhile Char.isDigit) 0, cs.dropWhile Char.isDigit)

def readInt : List Char → Int × List Char
  | '-' :: cs => (-((readNat cs).1 : Int), (readNat cs).2)
  | cs => ((readNat cs).1, (readNat cs).2)

theorem readNat_toDigits (n : Nat) {s : List Char} (hs : EndsNumber s) :
    readNat (Nat.toDigits 10 n ++ s) = (n, s) := by
  have hdigits : ∀ c ∈ Nat.toDigits 10 n, c.isDigit = true :=
    fun c hc ↦ Nat.isDigit_of_mem_toDigits (by decide) (by decide) hc
  obtain ⟨htake, hdrop⟩ := span_append hdigits hs
  rw [readNat, htake, hdrop, Nat.ofDigitChars_ten_toDigits]

theorem exists_toDigits_eq_cons (n : Nat) :
    ∃ c cs, Nat.toDigits 10 n = c :: cs ∧ c.isDigit = true := by
  obtain ⟨c, cs, h⟩ := List.exists_cons_of_ne_nil (Nat.toDigits_ne_nil (n := n) (b := 10))
  refine ⟨c, cs, h, Nat.isDigit_of_mem_toDigits (by decide) (by decide) (b := 10) (n := n) ?_⟩
  rw [h]
  exact List.mem_cons_self

theorem toList_toString_int (n : Int) : (toString n).toList =
    if 0 ≤ n then Nat.toDigits 10 n.toNat else '-' :: Nat.toDigits 10 (-n).toNat := by
  rw [Int.toString_eq_repr, Int.repr_eq_if]
  split
  · exact Nat.toList_repr
  · rw [String.toList_append, Nat.toList_repr]
    rfl

theorem readInt_append (n : Int) {s : List Char} (hs : EndsNumber s) :
    readInt ((toString n).toList ++ s) = (n, s) := by
  rw [toList_toString_int]
  split
  · next h =>
    obtain ⟨c, cs, hdigits, hc⟩ := exists_toDigits_eq_cons n.toNat
    have hread := readNat_toDigits n.toNat hs
    rw [hdigits, List.cons_append] at hread ⊢
    have hsign : c ≠ '-' := by
      rintro rfl
      contradiction
    unfold readInt
    split
    · next heq => exact absurd (List.cons.inj heq).1 hsign
    · rw [hread, Int.toNat_of_nonneg h]
  · next h =>
    rw [List.cons_append, readInt, readNat_toDigits _ hs]
    exact Prod.ext (by simp only; omega) rfl

/-! ## What shows in the first character -/

namespace Value

/-- What holds of a value if it holds of its members holds of every value. -/
@[induction_eliminator]
theorem induction {motive : Value → Prop} (text : ∀ s, motive (.text s))
    (int : ∀ n, motive (.int n)) (truth : ∀ b, motive (.truth b)) (null : motive .null)
    (bytes : ∀ bs, motive (.bytes bs))
    (list : ∀ items, (∀ v ∈ items, motive v) → motive (.list items))
    (tuple : ∀ items, (∀ v ∈ items, motive v) → motive (.tuple items))
    (dict : ∀ entries, (∀ e ∈ entries, motive e.1 ∧ motive e.2) → motive (.dict entries))
    (v : Value) : motive v := by
  refine @Value.rec motive (fun items ↦ ∀ v ∈ items, motive v)
    (fun entries ↦ ∀ e ∈ entries, motive e.1 ∧ motive e.2) (fun e ↦ motive e.1 ∧ motive e.2)
    text int truth null bytes list tuple dict ?_ ?_ ?_ ?_ (fun _ _ hkey hv ↦ ⟨hkey, hv⟩) v
  · exact List.forall_mem_nil _
  · exact fun v items hv hitems ↦ List.forall_mem_cons.mpr ⟨hv, hitems⟩
  · exact List.forall_mem_nil _
  · exact fun e entries he hentries ↦ List.forall_mem_cons.mpr ⟨he, hentries⟩

/-- The kinds of values. -/
inductive Shape where
  | text
  | int
  | truth
  | null
  | bytes
  | list
  | tuple
  | dict

/-- The kind of the value whose written form starts with the character. -/
def Shape.of? (c : Char) : Option Shape :=
  if c.isDigit then some .int
  else match c with
    | '\'' | '"' => some .text
    | '-' => some .int
    | 'T' | 'F' => some .truth
    | 'N' => some .null
    | 'b' => some .bytes
    | '[' => some .list
    | '(' => some .tuple
    | '\x7b' => some .dict
    | _ => none

theorem Shape.of?_of_isDigit {c : Char} (h : c.isDigit = true) : of? c = some .int := if_pos h

def shape : Value → Shape
  | .text _ => .text
  | .int _ => .int
  | .truth _ => .truth
  | .null => .null
  | .bytes _ => .bytes
  | .list _ => .list
  | .tuple _ => .tuple
  | .dict _ => .dict

theorem exists_render_eq_cons (v : Value) :
    ∃ c cs, v.render = c :: cs ∧ Shape.of? c = some v.shape := by
  cases v with
  | text s =>
    refine ⟨_, _, by rw [render]; rfl, ?_⟩
    rcases isQuote_literalQuote s.toList with h | h <;> rw [h] <;> rfl
  | int n =>
    rw [render, toList_toString_int]
    split
    · obtain ⟨c, cs, hdigits, hc⟩ := exists_toDigits_eq_cons n.toNat
      exact ⟨c, cs, hdigits, Shape.of?_of_isDigit hc⟩
    · exact ⟨_, _, rfl, rfl⟩
  | truth b =>
    rw [render]
    cases b
    · exact ⟨_, _, rfl, rfl⟩
    · exact ⟨_, _, rfl, rfl⟩
  | null => exact ⟨_, _, by rw [render]; rfl, rfl⟩
  | bytes bs => exact ⟨_, _, by rw [render]; rfl, rfl⟩
  | list items => exact ⟨_, _, by rw [render]; rfl, rfl⟩
  | tuple items => exact ⟨_, _, by rw [render]; rfl, rfl⟩
  | dict entries => exact ⟨_, _, by rw [render]; rfl, rfl⟩

theorem shape_eq_of_render {v w : Value} {s t : List Char} (h : v.render ++ s = w.render ++ t) :
    v.shape = w.shape := by
  obtain ⟨c, cs, hv, hc⟩ := v.exists_render_eq_cons
  obtain ⟨d, ds, hw, hd⟩ := w.exists_render_eq_cons
  rw [hv, hw] at h
  rw [(List.cons.inj h).1, hd] at hc
  exact (Option.some.inj hc).symm

end Value

/-! ## Members between brackets -/

section Joined

variable {α : Type} {write : α → List Char}

/-- What is written for `a` is written for nothing else and shows where it ends, unless a digit
follows. -/
def Legible (write : α → List Char) (a : α) : Prop :=
  ∀ b s t, EndsNumber s → EndsNumber t → write a ++ s = write b ++ t → a = b ∧ s = t

/-- Members behind the first one, each with a comma and a space before it. -/
def further (write : α → List Char) (as : List α) : List Char :=
  as.flatMap fun a ↦ ',' :: ' ' :: write a

theorem further_cons (write : α → List Char) (a : α) (as : List α) :
    further write (a :: as) = ',' :: ' ' :: (write a ++ further write as) := rfl

/-- Members with a comma and a space between neighbours. -/
def joined (write : α → List Char) : List α → List Char
  | [] => []
  | a :: as => write a ++ further write as

theorem eq_joined {join : List α → List Char} (hnil : join [] = [])
    (hone : ∀ a, join [a] = write a)
    (hmore : ∀ a b as, join (a :: b :: as) = write a ++ ',' :: ' ' :: join (b :: as))
    (as : List α) : join as = joined write as := by
  induction as with
  | nil => exact hnil
  | cons a as ih =>
    rcases as with _ | ⟨b, as⟩
    · rw [hone, joined, further, List.flatMap_nil, List.append_nil]
    · rw [hmore, ih, joined, joined, further_cons]

/-- A bracket closes, or the comma of a single member before the bracket. -/
inductive Closes : List Char → Prop
  /-- A bracket. -/
  | bracket {c : Char} (hc : c = ']' ∨ c = ')' ∨ c = '\x7d') (s : List Char) : Closes (c :: s)
  /-- The comma of a single member. -/
  | single (s : List Char) : Closes (',' :: ')' :: s)

/-- No value starts with what closes. -/
theorem Closes.head {s : List Char} (h : Closes s) :
    ∃ c cs, s = c :: cs ∧ Value.Shape.of? c = none := by
  cases h with
  | bracket hc cs =>
    refine ⟨_, cs, rfl, ?_⟩
    rcases hc with rfl | rfl | rfl <;> rfl
  | single cs => exact ⟨_, _, rfl, rfl⟩

theorem Closes.endsNumber {s : List Char} (h : Closes s) : EndsNumber s := by
  obtain ⟨c, cs, rfl, hc⟩ := h.head
  refine endsNumber_cons (Bool.eq_false_iff.mpr fun hdigit ↦ ?_) cs
  rw [Value.Shape.of?_of_isDigit hdigit] at hc
  contradiction

theorem Closes.endsNumber_further {s : List Char} (h : Closes s) (as : List α) :
    EndsNumber (further write as ++ s) := by
  rcases as with _ | ⟨a, as⟩
  · exact h.endsNumber
  · exact endsNumber_cons (by decide) _

/-- A member does not start with a space, so what closes is no separator. -/
theorem Closes.ne_further {s t : List Char} (h : Closes s) (a : α) (as : List α) :
    s ≠ further write (a :: as) ++ t := by
  intro heq
  cases h with
  | bracket hc s =>
    obtain rfl := (List.cons.inj heq).1
    exact absurd hc (by decide)
  | single s =>
    have hspace := (List.cons.inj (List.cons.inj heq).2).1
    contradiction

theorem eq_of_further {as bs : List α} (h : ∀ a ∈ as, Legible write a) {s t : List Char}
    (hs : Closes s) (ht : Closes t) (heq : further write as ++ s = further write bs ++ t) :
    as = bs ∧ s = t := by
  induction as generalizing bs with
  | nil =>
    rcases bs with _ | ⟨b, bs⟩
    · exact ⟨rfl, heq⟩
    · exact absurd heq (hs.ne_further b bs)
  | cons a as ih =>
    rcases bs with _ | ⟨b, bs⟩
    · exact absurd heq.symm (ht.ne_further a as)
    · obtain ⟨ha, has⟩ := List.forall_mem_cons.mp h
      have hmember : write a ++ (further write as ++ s) = write b ++ (further write bs ++ t) := by
        simpa [further_cons] using heq
      obtain ⟨rfl, hrest⟩ := ha _ _ _ (hs.endsNumber_further as) (ht.endsNumber_further bs) hmember
      obtain ⟨rfl, rfl⟩ := ih has hrest
      exact ⟨rfl, rfl⟩

/-- A member does not start with what closes. -/
theorem Closes.ne_append (hstart : ∀ a, ∃ c cs, write a = c :: cs ∧ Value.Shape.of? c ≠ none)
    {s : List Char} (h : Closes s) (a : α) (t : List Char) : s ≠ write a ++ t := by
  rintro rfl
  obtain ⟨c, cs, hwrite, hc⟩ := hstart a
  obtain ⟨d, ds, hcons, hd⟩ := h.head
  rw [hwrite] at hcons
  rw [← (List.cons.inj hcons).1] at hd
  exact hc hd

/-- Members up to what closes are the same if they are written the same. -/
theorem eq_of_joined (hstart : ∀ a, ∃ c cs, write a = c :: cs ∧ Value.Shape.of? c ≠ none)
    {as bs : List α} (h : ∀ a ∈ as, Legible write a) {s t : List Char} (hs : Closes s)
    (ht : Closes t) (heq : joined write as ++ s = joined write bs ++ t) : as = bs ∧ s = t := by
  rcases as with _ | ⟨a, as⟩ <;> rcases bs with _ | ⟨b, bs⟩
  · exact ⟨rfl, heq⟩
  · rw [joined, joined, List.append_assoc] at heq
    exact absurd heq (hs.ne_append hstart b _)
  · rw [joined, joined, List.append_assoc] at heq
    exact absurd heq.symm (ht.ne_append hstart a _)
  · obtain ⟨ha, has⟩ := List.forall_mem_cons.mp h
    rw [joined, joined, List.append_assoc, List.append_assoc] at heq
    obtain ⟨rfl, hrest⟩ := ha _ _ _ (hs.endsNumber_further as) (ht.endsNumber_further bs) heq
    obtain ⟨rfl, rfl⟩ := eq_of_further has hs ht hrest
    exact ⟨rfl, rfl⟩

end Joined

/-! ## Values -/

namespace Value

theorem renderItems_eq_joined (items : List Value) : renderItems items = joined render items :=
  eq_joined (by rw [renderItems]) (fun v ↦ by rw [renderItems])
    (fun v w vs ↦ by rw [renderItems]) items

theorem renderEntries_eq_joined (entries : List (Value × Value)) :
    renderEntries entries = joined renderEntry entries :=
  eq_joined (by rw [renderEntries]) (fun e ↦ by rw [renderEntries])
    (fun e f es ↦ by rw [renderEntries]) entries

theorem exists_render_start (v : Value) : ∃ c cs, v.render = c :: cs ∧ Shape.of? c ≠ none := by
  obtain ⟨c, cs, hv, hc⟩ := v.exists_render_eq_cons
  exact ⟨c, cs, hv, hc ▸ Option.some_ne_none _⟩

theorem exists_renderEntry_start (e : Value × Value) :
    ∃ c cs, renderEntry e = c :: cs ∧ Shape.of? c ≠ none := by
  obtain ⟨c, cs, hkey, hc⟩ := e.1.exists_render_start
  exact ⟨c, _, by rw [renderEntry, hkey]; rfl, hc⟩

theorem legible_renderEntry {e : Value × Value} (hkey : Legible render e.1)
    (hv : Legible render e.2) : Legible renderEntry e := by
  intro f s t hs ht h
  rw [renderEntry, renderEntry, List.append_assoc, List.append_assoc] at h
  obtain ⟨hfst, hrest⟩ := hkey _ _ _ (endsNumber_cons (by decide) _)
    (endsNumber_cons (by decide) _) h
  obtain ⟨hsnd, hst⟩ := hv _ _ _ hs ht (List.cons.inj (List.cons.inj hrest).2).2
  exact ⟨Prod.ext hfst hsnd, hst⟩

theorem closes_tuple (items : List Value) (s : List Char) :
    Closes ((if items.length = 1 then [',', ')'] else [')']) ++ s) := by
  split
  · exact .single s
  · exact .bracket (.inr (.inl rfl)) s

/-- **A value** is told from what follows it, unless a digit does. -/
theorem legible (v : Value) : Legible render v := by
  induction v with
  | text a =>
    intro w s t _ _ h
    have hshape := shape_eq_of_render h
    cases w with
    | text b =>
      rw [render, render] at h
      obtain ⟨hab, hst⟩ := prefixFree_literal _ _ _ _ h
      exact ⟨congrArg Value.text (String.toList_inj.mp hab), hst⟩
    | _ => cases hshape
  | int n =>
    intro w s t hs ht h
    have hshape := shape_eq_of_render h
    cases w with
    | int m =>
      rw [render, render] at h
      have hread := (readInt_append n hs).symm.trans (h ▸ readInt_append m ht)
      exact ⟨congrArg Value.int (Prod.mk.inj hread).1, (Prod.mk.inj hread).2⟩
    | _ => cases hshape
  | truth a =>
    intro w s t _ _ h
    have hshape := shape_eq_of_render h
    cases w with
    | truth b =>
      rw [render, render] at h
      cases a <;> cases b <;> simp_all
    | _ => cases hshape
  | null =>
    intro w s t _ _ h
    have hshape := shape_eq_of_render h
    cases w with
    | null => exact ⟨rfl, List.append_cancel_left h⟩
    | _ => cases hshape
  | bytes a =>
    intro w s t _ _ h
    have hshape := shape_eq_of_render h
    cases w with
    | bytes b =>
      rw [render, render] at h
      obtain ⟨hab, hst⟩ := prefixFree_byteLiteral _ _ _ _ h
      exact ⟨congrArg Value.bytes hab, hst⟩
    | _ => cases hshape
  | list items ih =>
    intro w s t _ _ h
    have hshape := shape_eq_of_render h
    cases w with
    | list items' =>
      rw [render, render, renderItems_eq_joined, renderItems_eq_joined, List.append_assoc,
        List.append_assoc] at h
      obtain ⟨rfl, hst⟩ := eq_of_joined exists_render_start ih
        (.bracket (.inl rfl) s) (.bracket (.inl rfl) t) (List.cons.inj h).2
      exact ⟨rfl, (List.cons.inj hst).2⟩
    | _ => cases hshape
  | tuple items ih =>
    intro w s t _ _ h
    have hshape := shape_eq_of_render h
    cases w with
    | tuple items' =>
      rw [render, render, renderItems_eq_joined, renderItems_eq_joined, List.append_assoc,
        List.append_assoc] at h
      obtain ⟨rfl, hst⟩ := eq_of_joined exists_render_start ih (closes_tuple items s)
        (closes_tuple items' t) (List.cons.inj h).2
      exact ⟨rfl, List.append_cancel_left hst⟩
    | _ => cases hshape
  | dict entries ih =>
    intro w s t _ _ h
    have hshape := shape_eq_of_render h
    cases w with
    | dict entries' =>
      rw [render, render, renderEntries_eq_joined, renderEntries_eq_joined, List.append_assoc,
        List.append_assoc] at h
      obtain ⟨rfl, hst⟩ := eq_of_joined exists_renderEntry_start
        (fun e he ↦ legible_renderEntry (ih e he).1 (ih e he).2)
        (.bracket (.inr (.inr rfl)) s) (.bracket (.inr (.inr rfl)) t) (List.cons.inj h).2
      exact ⟨rfl, (List.cons.inj hst).2⟩
    | _ => cases hshape

theorem render_injective : Function.Injective render := by
  intro v w h
  have happend : v.render ++ [] = w.render ++ [] := by rw [h]
  exact (v.legible w [] [] endsNumber_nil endsNumber_nil happend).1

end Value

/-! ## Reports -/

namespace Report

theorem contextValue_injective : Function.Injective contextValue := by
  intro context context' h
  refine (List.map_inj_right fun e f hsame ↦ ?_).mp (Value.dict.inj h)
  obtain ⟨hkey, hv⟩ := Prod.mk.inj hsame
  exact Prod.ext (Value.text.inj hkey) hv

theorem getLast?_render_contextValue (context : List (String × Value)) :
    (contextValue context).render.getLast? = some '\x7d' := by
  rw [contextValue, Value.render]
  exact List.getLast?_concat

theorem cut_of_length_le {cs : List Char} (h : cs.length ≤ contextLimit) : cut cs = cs :=
  if_neg (Nat.not_lt.mpr h)

theorem getLast?_cut_of_lt {cs : List Char} (h : contextLimit < cs.length) :
    (cut cs).getLast? = some '.' := by
  rw [cut, if_pos h]
  simp

/-- A context that is shown in full is not taken for another one. -/
theorem suffix_inj {context context' : List (String × Value)}
    (h : (contextValue context).render.length ≤ contextLimit)
    (heq : suffix context = suffix context') : context = context' := by
  rcases context with _ | ⟨e, es⟩ <;> rcases context' with _ | ⟨f, fs⟩
  · rfl
  · cases heq
  · cases heq
  · have hcut : cut (contextValue (e :: es)).render = cut (contextValue (f :: fs)).render :=
      List.append_cancel_left heq
    rw [cut_of_length_le h] at hcut
    rcases Nat.lt_or_ge contextLimit (contextValue (f :: fs)).render.length with hlong | hshort
    · have hlast := getLast?_cut_of_lt hlong
      rw [← hcut, getLast?_render_contextValue] at hlast
      cases hlast
    · rw [cut_of_length_le hshort] at hcut
      exact contextValue_injective (Value.render_injective hcut)

theorem length_suffix_le (context : List (String × Value)) : (suffix context).length ≤ 311 := by
  rw [suffix]
  split
  · exact Nat.zero_le _
  · rw [List.length_append]
    exact Nat.add_le_add_left (length_cut_le _) 11

/-- **A report tells its context** by its one-line form, if it shows it in full. If two reports of
the same kind and with the same message have the same line, and the context of one of them takes up
at most 300 characters, then their contexts are the same, in the same order. Behind the message
there are never more than 311 characters. -/
theorem line_tells_context (kind message : String) :
    (∀ (step step' : String) (context context' : List (String × Value)),
      (contextValue context).render.length ≤ 300 →
        (line ⟨step, kind, message, context⟩ = line ⟨step', kind, message, context'⟩ ↔
          context = context')) ∧
      ∀ (step : String) (context : List (String × Value)),
        ∃ rest, line ⟨step, kind, message, context⟩ = kind ++ ": " ++ message ++ rest ∧
          rest.length ≤ 311 := by
  refine ⟨fun step step' context context' h ↦ ⟨fun heq ↦ ?_, fun heq ↦ ?_⟩,
    fun step context ↦ ⟨String.ofList (suffix context), rfl, ?_⟩⟩
  · have hchars := congrArg String.toList heq
    simp only [line, String.toList_append, String.toList_ofList] at hchars
    exact suffix_inj h (List.append_cancel_left hchars)
  · rw [heq]
    rfl
  · rw [String.length_ofList]
    exact length_suffix_le context

/-- A list with one text in it, and the text that is written like it. -/
theorem line_tells_context_quoted :
    (contextValue [("path", .list [.text "a"])]).render.length ≤ 300 ∧
      line ⟨"run", "Failed", "stopped", [("path", .list [.text "a"])]⟩ ≠
        line ⟨"run", "Failed", "stopped", [("path", .text "['a']")]⟩ := by
  have hshort : (contextValue [("path", .list [.text "a"])]).render.length ≤ 300 := by
    decide +kernel
  refine ⟨hshort, fun heq ↦ ?_⟩
  have hsame := ((line_tells_context "Failed" "stopped").1 "run" "run" _ _ hshort).mp heq
  cases hsame

end Report

end Runbook
