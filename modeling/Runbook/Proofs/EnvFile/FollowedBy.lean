import Mathlib.Data.List.TakeWhile
import Runbook.Proofs.EnvFile.Provenance

/-!
# A line and the text behind it

What is said about one line of an env file is said of a cursor that has nothing else before it. In
the whole text the rest of the text follows the line, and each part of the reader, on the line, does
the same with and without it: the equations about `Cursor.followedBy`. They hold as long as no quote
on the line can find another one behind it, and they lead up to one statement
(`readBinding_followedBy`).
-/

namespace Runbook.Text

/-- What is left of a text behind the line break with which it starts. -/
def afterBreak : List Char → List Char
  | '\r' :: '\n' :: cs => cs
  | cs => cs.drop 1

/-- The text is at the end of a line, or empty. -/
def AtBreak (cs : List Char) : Prop := ∀ b rest, cs = b :: rest → isLineEnd b = true

end Runbook.Text

namespace Runbook.EnvFile

open Text

def QuoteFree (cs : List Char) : Prop := '\'' ∉ cs ∧ '"' ∉ cs

theorem QuoteFree.subset {cs ds : List Char} (h : QuoteFree cs) (hsub : ds ⊆ cs) : QuoteFree ds :=
  ⟨fun hq ↦ h.1 (hsub hq), fun hq ↦ h.2 (hsub hq)⟩

/-- The text is a part of a line behind which there is `tail`, and no quote in it can be closed by
one in `tail`. -/
structure OnLine (tail cs : List Char) : Prop where
  /-- There are no quotes in it, or there are none behind the line. -/
  quoteFree : QuoteFree cs ∨ QuoteFree tail
  /-- It does not reach over the end of a line. -/
  unbroken : ∀ c ∈ cs, isLineEnd c = false

theorem OnLine.subset {tail cs ds : List Char} (h : OnLine tail cs) (hsub : ds ⊆ cs) :
    OnLine tail ds :=
  ⟨h.quoteFree.imp_left fun hfree ↦ hfree.subset hsub, fun c hc ↦ h.unbroken c (hsub hc)⟩

theorem OnLine.countBreaks_eq_zero {tail cs : List Char} (h : OnLine tail cs) :
    countBreaks cs = 0 := by
  refine Text.countBreaks_eq_zero fun c hc ↦ ?_
  have hend := h.unbroken c hc
  simpa [isLineEnd] using hend

/-! ## A line in a text -/

section Tail

variable {tail : List Char}

theorem takeWhile_append_of_atBreak {p : Char → Bool} (htail : AtBreak tail)
    (hp : ∀ b, isLineEnd b = true → p b = false) (line : List Char) :
    (line ++ tail).takeWhile p = line.takeWhile p := by
  induction line with
  | nil =>
    cases tail with
    | nil => rfl
    | cons b rest => exact List.takeWhile_cons_of_neg (by simp [hp b (htail b rest rfl)])
  | cons c line ih =>
    rw [List.cons_append, List.takeWhile_cons, List.takeWhile_cons, ih]

theorem dropWhile_append_of_atBreak {p : Char → Bool} (htail : AtBreak tail)
    (hp : ∀ b, isLineEnd b = true → p b = false) (line : List Char) :
    (line ++ tail).dropWhile p = line.dropWhile p ++ tail := by
  induction line with
  | nil =>
    cases tail with
    | nil => rfl
    | cons b rest => exact List.dropWhile_cons_of_neg (by simp [hp b (htail b rest rfl)])
  | cons c line ih =>
    rw [List.cons_append, List.dropWhile_cons, List.dropWhile_cons, ih]
    split <;> rfl

theorem isPrefixOf_append_of_atBreak {word : List Char} (htail : AtBreak tail)
    (hword : ∀ c ∈ word, isLineEnd c = false) (line : List Char) :
    word.isPrefixOf (line ++ tail) = word.isPrefixOf line := by
  induction word generalizing line with
  | nil => simp
  | cons c word ih =>
    have hc := hword c List.mem_cons_self
    cases line with
    | nil =>
      cases tail with
      | nil => rfl
      | cons b rest =>
        have hne : c ≠ b := by
          rintro rfl
          rw [htail c rest rfl] at hc
          contradiction
        simp [List.isPrefixOf, hne]
    | cons d line =>
      rw [List.cons_append, List.isPrefixOf, List.isPrefixOf,
        ih (fun e he ↦ hword e (List.mem_cons_of_mem _ he))]

theorem head?_append_of_atBreak {d : Char} (htail : AtBreak tail) (hd : isLineEnd d = false)
    (line : List Char) : (line ++ tail).head? = some d ↔ line.head? = some d := by
  cases line with
  | cons c line => rfl
  | nil =>
    cases tail with
    | nil => rfl
    | cons b rest =>
      have hb := htail b rest rfl
      simp only [List.nil_append, List.head?_cons, Option.some.injEq, List.head?_nil, reduceCtorEq,
        iff_false]
      rintro rfl
      rw [hd] at hb
      contradiction

end Tail

namespace Cursor

theorem skip_append {p : Char → Bool} {run rest : List Char} (hrun : ∀ c ∈ run, p c = true)
    (hstop : ∀ d, rest.head? = some d → p d = false) (n : Nat) :
    (⟨n, run ++ rest⟩ : Cursor).skip p = ⟨n + countBreaks run, rest⟩ := by
  obtain ⟨htake, hdrop⟩ := span_append hrun hstop
  rw [skip, htake, hdrop]

theorem skip_of_stop {p : Char → Bool} {rest : List Char}
    (hstop : ∀ d, rest.head? = some d → p d = false) (n : Nat) :
    (⟨n, rest⟩ : Cursor).skip p = ⟨n, rest⟩ :=
  skip_append (List.forall_mem_nil _) hstop n

theorem advance_append (run rest : List Char) (n : Nat) :
    (⟨n, run ++ rest⟩ : Cursor).advance run.length = ⟨n + countBreaks run, rest⟩ := by
  rw [advance, List.take_left, List.drop_left]

/-- The cursor, on line `n`, if the text goes on with `tail`. -/
def followedBy (n : Nat) (tail : List Char) (c : Cursor) : Cursor := ⟨n, c.rest ++ tail⟩

@[simp] theorem followedBy_rest (n : Nat) (tail : List Char) (c : Cursor) :
    (c.followedBy n tail).rest = c.rest ++ tail := rfl

variable {n : Nat} {tail : List Char} {c : Cursor}

theorem skip_followedBy {p : Char → Bool} (htail : AtBreak tail) (hc : OnLine tail c.rest)
    (hp : ∀ b, isLineEnd b = true → p b = false) :
    (c.followedBy n tail).skip p = (c.skip p).followedBy n tail := by
  rw [skip, followedBy_rest, takeWhile_append_of_atBreak htail hp,
    dropWhile_append_of_atBreak htail hp,
    (hc.subset (List.takeWhile_subset p)).countBreaks_eq_zero]
  rfl

theorem advance_followedBy {k : Nat} (hc : OnLine tail c.rest) (hk : k ≤ c.rest.length) :
    (c.followedBy n tail).advance k = (c.advance k).followedBy n tail := by
  rw [advance, followedBy_rest, List.take_append_of_le_length hk, List.drop_append_of_le_length hk,
    (hc.subset (List.take_subset k _)).countBreaks_eq_zero]
  rfl

theorem skipComment_eq (c : Cursor) : c.skipComment =
    if (c.skip isGap).rest.head? = some '#' then (c.skip isGap).skip fun d ↦ !isLineEnd d
    else c := by
  unfold skipComment
  split <;> simp_all [List.head?_eq_some_iff]

theorem skipComment_followedBy (htail : AtBreak tail) (hc : OnLine tail c.rest) :
    (c.followedBy n tail).skipComment = c.skipComment.followedBy n tail := by
  have hgap := hc.subset (skip_suffix isGap c).subset
  rw [skipComment_eq, skipComment_eq, skip_followedBy htail hc fun b ↦ isGap_of_isLineEnd,
    followedBy_rest, skip_followedBy htail hgap (by simp)]
  simp only [head?_append_of_atBreak htail (d := '#') (by decide)]
  split <;> rfl

theorem endLine?_eq_none {d : Char} {rest : List Char} (hd : isLineEnd d = false)
    (h : (c.skip isGap).rest = d :: rest) : c.endLine? = none := by
  simp only [isLineEnd, Bool.or_eq_false_iff, decide_eq_false_iff_not] at hd
  rw [endLine?, h]
  split <;> simp_all

theorem endLine?_of_atBreak (h : AtBreak (c.skip isGap).rest) :
    ∃ k, c.endLine? = some ⟨k, afterBreak (c.skip isGap).rest⟩ := by
  rw [endLine?]
  split
  · next hrest => exact ⟨_, by rw [hrest]; exact congrArg _ (congrArg _ hrest)⟩
  · next rest hrest => exact ⟨_, by rw [advance, hrest]; rfl⟩
  · next rest hrest => exact ⟨_, by rw [advance, hrest]; rfl⟩
  · next rest hpair hrest =>
    have hafter : afterBreak ('\r' :: rest) = rest := by
      rw [afterBreak]
      · rfl
      · intro rest' hrest'
        exact hpair rest' (List.cons.inj hrest').2
    exact ⟨_, by rw [advance, hrest, hafter]; rfl⟩
  · next hnil _ hfeed hreturn =>
    cases hrest : (c.skip isGap).rest with
    | nil => exact absurd hrest hnil
    | cons b rest =>
      have hb := h b rest hrest
      simp only [isLineEnd, Bool.or_eq_true, decide_eq_true_eq] at hb
      rcases hb with rfl | rfl
      · exact absurd hrest (hfeed rest)
      · exact absurd hrest (hreturn rest)

theorem endLine?_at {cs : List Char} (h : AtBreak cs) (n : Nat) :
    ∃ k, (⟨n, cs⟩ : Cursor).endLine? = some ⟨k, afterBreak cs⟩ := by
  have hstay : (⟨n, cs⟩ : Cursor).skip isGap = ⟨n, cs⟩ := by
    refine skip_of_stop (fun d hd ↦ ?_) n
    obtain ⟨rest, hrest⟩ := List.head?_eq_some_iff.mp hd
    exact isGap_of_isLineEnd (h d rest hrest)
  have hend := endLine?_of_atBreak (c := ⟨n, cs⟩) (by rwa [hstay])
  rwa [hstay] at hend

theorem endLine?_followedBy (htail : AtBreak tail) (hc : OnLine tail c.rest) :
    (c.endLine? = none → (c.followedBy n tail).endLine? = none) ∧
      ∀ next, c.endLine? = some next →
        ∃ k, (c.followedBy n tail).endLine? = some ⟨k, afterBreak tail⟩ := by
  have hgap := hc.subset (skip_suffix isGap c).subset
  have hskip : ((c.followedBy n tail).skip isGap).rest = (c.skip isGap).rest ++ tail := by
    rw [skip_followedBy htail hc fun b ↦ isGap_of_isLineEnd, followedBy_rest]
  cases hrest : (c.skip isGap).rest with
  | nil =>
    rw [hrest, List.nil_append] at hskip
    constructor
    · intro hnone
      obtain ⟨k, hsome⟩ := endLine?_of_atBreak (c := c) (by rw [hrest]; rintro _ _ ⟨⟩)
      rw [hsome] at hnone
      contradiction
    · intro next _
      obtain ⟨k, hsome⟩ := endLine?_of_atBreak (c := c.followedBy n tail) (by rwa [hskip])
      exact ⟨k, by rw [hsome, hskip]⟩
  | cons d rest =>
    have hd := hgap.unbroken d (by rw [hrest]; exact List.mem_cons_self)
    rw [hrest] at hskip
    refine ⟨fun _ ↦ endLine?_eq_none hd hskip, fun next hsome ↦ ?_⟩
    rw [endLine?_eq_none hd hrest] at hsome
    contradiction

theorem rest_skipLine_followedBy (htail : AtBreak tail) (hc : ∀ d ∈ c.rest, isLineEnd d = false) :
    (c.followedBy n tail).skipLine.rest = tail.drop 1 := by
  have hline : c.rest.dropWhile (fun d ↦ !isLineEnd d) = [] :=
    List.dropWhile_eq_nil_iff.mpr fun d hd ↦ by simp [hc d hd]
  rw [skipLine, advance, skip, followedBy_rest, dropWhile_append_of_atBreak htail (by simp), hline]
  rfl

end Cursor

/-! ## The parts of the reader -/

section Parts

variable {n : Nat} {tail : List Char} {c : Cursor}

theorem skipExport_followedBy (htail : AtBreak tail) (hc : OnLine tail c.rest) :
    skipExport (c.followedBy n tail) = (skipExport c).followedBy n tail := by
  have hexport : ∀ d ∈ "export".toList, isLineEnd d = false := by simp [isLineEnd]
  rw [skipExport, skipExport, Cursor.followedBy_rest, isPrefixOf_append_of_atBreak htail hexport]
  split
  · next hword =>
    have hpast := hc.subset (Cursor.advance_suffix 6 c).subset
    have hlength : 6 ≤ c.rest.length := (List.isPrefixOf_iff_prefix.mp hword).length_le
    dsimp only
    rw [Cursor.advance_followedBy hc hlength,
      Cursor.skip_followedBy htail hpast fun b ↦ isGap_of_isLineEnd]
    simp only [Cursor.followedBy_rest, List.length_append, Nat.add_lt_add_iff_right]
    split <;> rfl
  · rfl

/-- The outcome of a part of the reader, if the text goes on with `tail`. -/
def followedBy {α : Type} (n : Nat) (tail : List Char) :
    Except Cursor (α × Cursor) → Except Cursor (α × Cursor)
  | .error stuck => .error (stuck.followedBy n tail)
  | .ok (a, next) => .ok (a, next.followedBy n tail)

theorem isKeyChar_of_isLineEnd {b : Char} (h : isLineEnd b = true) : isKeyChar b = false := by
  rw [isKeyChar, isBlank_of_isLineEnd h]
  exact Bool.and_false _

theorem readKey_eq (h : c.rest.head? ≠ some '\'') : readKey c =
    if c.rest.head? = some '#' then .ok (none, c)
    else if c.rest.takeWhile isKeyChar = [] then .error c
    else .ok (some (String.ofList (c.rest.takeWhile isKeyChar)),
      c.advance (c.rest.takeWhile isKeyChar).length) := by
  unfold readKey
  split <;> simp_all [List.head?_eq_some_iff]

theorem readKey_of_quote {cs : List Char} (h : c.rest = '\'' :: cs) : readKey c =
    if cs.takeWhile (· != '\'') = [] ∨ cs.dropWhile (· != '\'') = [] then .error c
    else .ok (some (String.ofList (cs.takeWhile (· != '\''))),
      c.advance ((cs.takeWhile (· != '\'')).length + 2)) := by
  rw [readKey, h]
  rfl

theorem readKey_followedBy (htail : AtBreak tail) (hc : OnLine tail c.rest) :
    readKey (c.followedBy n tail) = followedBy n tail (readKey c) := by
  by_cases hquote : c.rest.head? = some '\''
  · -- A key in quotes is closed on its line, or not at all.
    obtain ⟨cs, hrest⟩ := List.head?_eq_some_iff.mp hquote
    have hfree : ∀ d ∈ tail, (d != '\'') = true := by
      have hline : ¬QuoteFree c.rest := fun h ↦ h.1 (by rw [hrest]; exact List.mem_cons_self)
      have hquotes := (hc.quoteFree.resolve_left hline).1
      rintro d hd
      exact bne_iff_ne.mpr fun h ↦ hquotes (h ▸ hd)
    have hrest' : (c.followedBy n tail).rest = '\'' :: (cs ++ tail) := by
      rw [Cursor.followedBy_rest, hrest]
      rfl
    rw [readKey_of_quote hrest, readKey_of_quote hrest']
    by_cases hopen : cs.dropWhile (· != '\'') = []
    · rw [if_pos (.inr (dropWhile_append_of_all hopen hfree)), if_pos (.inr hopen)]
      rfl
    · obtain ⟨htake, hdrop⟩ := span_append_of_stop hopen tail
      have hle : (cs.takeWhile (· != '\'')).length + 2 ≤ c.rest.length := by
        have hlength := congrArg List.length
          (List.takeWhile_append_dropWhile (p := (· != '\'')) (l := cs))
        have hpos := List.length_pos_iff.mpr hopen
        rw [List.length_append] at hlength
        rw [hrest, List.length_cons]
        omega
      rw [htake, hdrop, Cursor.advance_followedBy hc hle]
      simp only [List.append_eq_nil_iff, hopen, false_and, or_false]
      split <;> rfl
  · have hquote' : (c.rest ++ tail).head? ≠ some '\'' := by
      rwa [ne_eq, head?_append_of_atBreak htail (by decide)]
    rw [readKey_eq hquote', readKey_eq hquote, Cursor.followedBy_rest,
      takeWhile_append_of_atBreak htail fun b ↦ isKeyChar_of_isLineEnd,
      Cursor.advance_followedBy hc (List.takeWhile_prefix _).length_le]
    simp only [head?_append_of_atBreak htail (d := '#') (by decide)]
    split
    · rfl
    · split <;> rfl

theorem readValue_eq (hsingle : c.rest.head? ≠ some '\'') (hdouble : c.rest.head? ≠ some '"') :
    readValue c = .ok (String.ofList (plainValue (c.rest.takeWhile fun d ↦ !isLineEnd d)),
      c.advance (c.rest.takeWhile fun d ↦ !isLineEnd d).length) := by
  unfold readValue
  split <;> simp_all

theorem quotedBody_eq_some {quote : Char} {cs body : List Char}
    (h : quotedBody quote cs = some body) : ∃ rest, cs = body ++ quote :: rest := by
  fun_induction quotedBody quote cs generalizing body with
  | case1 => cases h
  | case2 c cs ih =>
    obtain ⟨tail, htail, rfl⟩ := Option.map_eq_some_iff.mp h
    obtain ⟨rest, rfl⟩ := ih htail
    exact ⟨rest, rfl⟩
  | case3 cs =>
    obtain rfl := Option.some.inj h
    exact ⟨cs, rfl⟩
  | case4 => cases h
  | case5 c cs _ _ _ ih =>
    obtain ⟨tail, htail, rfl⟩ := Option.map_eq_some_iff.mp h
    obtain ⟨rest, rfl⟩ := ih htail
    exact ⟨rest, rfl⟩

theorem quotedBody_of_notMem {quote : Char} {cs : List Char} (h : quote ∉ cs) :
    quotedBody quote cs = none := by
  cases hbody : quotedBody quote cs with
  | none => rfl
  | some body =>
    obtain ⟨rest, rfl⟩ := quotedBody_eq_some hbody
    exact absurd (List.mem_append_right body List.mem_cons_self) h

theorem quotedBody_append {quote : Char} (hquote : quote ≠ '\\') (h : quote ∉ tail)
    (cs : List Char) : quotedBody quote (cs ++ tail) = quotedBody quote cs := by
  fun_induction quotedBody quote cs with
  | case1 => exact quotedBody_of_notMem h
  | case2 c cs ih => rw [List.cons_append, List.cons_append, quotedBody, ih]
  | case3 cs hpair =>
    rw [List.cons_append, quotedBody, if_pos rfl]
    rintro _ _ heq
    exact absurd heq hquote
  | case4 cs hpair hne =>
    -- A backslash at the end of the line protects what follows.
    have hnil : cs = [] := by
      cases cs with
      | nil => rfl
      | cons d ds => exact absurd rfl (hpair d ds rfl)
    subst hnil
    cases tail with
    | nil => simp [quotedBody, hne]
    | cons d ds =>
      have hds : quote ∉ ds := fun hmem ↦ h (List.mem_cons_of_mem d hmem)
      rw [List.cons_append, List.nil_append, quotedBody, quotedBody_of_notMem hds]
      rfl
  | case5 c cs hpair hne hbackslash ih =>
    rw [List.cons_append, quotedBody, if_neg hne, if_neg hbackslash, ih]
    rintro _ _ heq
    exact absurd heq hbackslash

theorem readValue_of_quote {quote : Char} {letter? : Char → Option Char} {cs : List Char}
    (hquote : quote = '\'' ∧ letter? = singleQuoteLetter? ∨
      quote = '"' ∧ letter? = doubleQuoteLetter?) (h : c.rest = quote :: cs) :
    readValue c = match quotedBody quote cs with
      | none => .error c
      | some body =>
        .ok (String.ofList (unescape letter? body), c.advance (body.length + 2)) := by
  rcases hquote with ⟨rfl, rfl⟩ | ⟨rfl, rfl⟩ <;> rw [readValue, h] <;> rfl

theorem readValue_followedBy_of_quote {quote : Char} {letter? : Char → Option Char}
    {cs : List Char} (hquote : quote = '\'' ∧ letter? = singleQuoteLetter? ∨
      quote = '"' ∧ letter? = doubleQuoteLetter?) (h : c.rest = quote :: cs)
    (hc : OnLine tail c.rest) :
    readValue (c.followedBy n tail) = followedBy n tail (readValue c) := by
  have hfree : quote ∉ tail := by
    have hmem : quote ∈ c.rest := by
      rw [h]
      exact List.mem_cons_self
    rcases hquote with ⟨rfl, -⟩ | ⟨rfl, -⟩
    · exact (hc.quoteFree.resolve_left fun hline ↦ hline.1 hmem).1
    · exact (hc.quoteFree.resolve_left fun hline ↦ hline.2 hmem).2
  have hne : quote ≠ '\\' := by
    rcases hquote with ⟨rfl, -⟩ | ⟨rfl, -⟩ <;> decide
  have h' : (c.followedBy n tail).rest = quote :: (cs ++ tail) := by
    rw [Cursor.followedBy_rest, h]
    rfl
  rw [readValue_of_quote hquote h, readValue_of_quote hquote h', quotedBody_append hne hfree]
  cases hbody : quotedBody quote cs with
  | none => rfl
  | some body =>
    obtain ⟨rest, rfl⟩ := quotedBody_eq_some hbody
    have hle : body.length + 2 ≤ c.rest.length := by
      rw [h, List.length_cons, List.length_append, List.length_cons]
      omega
    dsimp only
    rw [Cursor.advance_followedBy hc hle]
    rfl

theorem readValue_followedBy (htail : AtBreak tail) (hc : OnLine tail c.rest) :
    readValue (c.followedBy n tail) = followedBy n tail (readValue c) := by
  by_cases hsingle : c.rest.head? = some '\''
  · obtain ⟨cs, hrest⟩ := List.head?_eq_some_iff.mp hsingle
    exact readValue_followedBy_of_quote (.inl ⟨rfl, rfl⟩) hrest hc
  by_cases hdouble : c.rest.head? = some '"'
  · obtain ⟨cs, hrest⟩ := List.head?_eq_some_iff.mp hdouble
    exact readValue_followedBy_of_quote (.inr ⟨rfl, rfl⟩) hrest hc
  have hsingle' : (c.rest ++ tail).head? ≠ some '\'' := by
    rwa [ne_eq, head?_append_of_atBreak htail (by decide)]
  have hdouble' : (c.rest ++ tail).head? ≠ some '"' := by
    rwa [ne_eq, head?_append_of_atBreak htail (by decide)]
  rw [readValue_eq hsingle' hdouble', readValue_eq hsingle hdouble, Cursor.followedBy_rest,
    takeWhile_append_of_atBreak htail (by simp),
    Cursor.advance_followedBy hc (List.takeWhile_prefix _).length_le]
  rfl

theorem readAssignment_eq (c : Cursor) : readAssignment c =
    if c.rest.head? = some '=' then
      if ((c.advance 1).skip isGap).rest.head? = some '#' ∧
          ((c.advance 1).skip isGap).rest.length + 1 < c.rest.length then
        .ok (some "", (c.advance 1).skip isGap)
      else (readValue ((c.advance 1).skip isGap)).map fun r ↦ (some r.1, r.2)
    else .ok (none, c) := by
  unfold readAssignment
  split
  · next cs hrest =>
    have hlength : ∀ k, k + 1 < c.rest.length ↔ k < cs.length := by
      intro k
      rw [hrest, List.length_cons]
      exact Nat.add_lt_add_iff_right
    have hhead : c.rest.head? = some '=' := by
      rw [hrest]
      rfl
    dsimp only
    rcases readValue ((c.advance 1).skip isGap) with stuck | ⟨value, next⟩ <;>
      simp only [hhead, if_true, hlength, Except.map]
  · next hrest =>
    rw [if_neg]
    intro hhead
    obtain ⟨cs, hcs⟩ := List.head?_eq_some_iff.mp hhead
    exact hrest cs hcs

theorem readAssignment_followedBy (htail : AtBreak tail) (hc : OnLine tail c.rest) :
    readAssignment (c.followedBy n tail) = followedBy n tail (readAssignment c) := by
  have hpast := hc.subset (Cursor.advance_suffix 1 c).subset
  rw [readAssignment_eq, readAssignment_eq, Cursor.followedBy_rest]
  simp only [head?_append_of_atBreak htail (d := '=') (by decide)]
  split
  · next hequals =>
    have hlength : 1 ≤ c.rest.length := by
      obtain ⟨cs, hcs⟩ := List.head?_eq_some_iff.mp hequals
      simp [hcs]
    rw [Cursor.advance_followedBy hc hlength,
      Cursor.skip_followedBy htail hpast fun b ↦ isGap_of_isLineEnd,
      readValue_followedBy htail (hpast.subset (Cursor.skip_suffix isGap _).subset)]
    simp only [Cursor.followedBy_rest, head?_append_of_atBreak htail (d := '#') (by decide),
      List.length_append, Nat.add_right_comm _ tail.length 1, Nat.add_lt_add_iff_right]
    split
    · rfl
    · rcases readValue ((c.advance 1).skip isGap) with stuck | ⟨value, next⟩ <;> rfl
  · rfl

/-- What reading a statement gives on a line, and what it gives in the text. -/
inductive ReadAlike (n : Nat) (tail : List Char) :
    Except Cursor (Statement × Cursor) → Except Cursor (Statement × Cursor) → Prop
  /-- The reader gives up at the same place. -/
  | error (stuck : Cursor) : ReadAlike n tail (.error stuck) (.error (stuck.followedBy n tail))
  /-- The statement is the same, and behind it the break that follows the line is taken. -/
  | ok (statement : Statement) (next : Cursor) (k : Nat) :
    ReadAlike n tail (.ok (statement, next)) (.ok (statement, ⟨k, afterBreak tail⟩))

/-- **One statement.** A statement of a line is the same in the text. -/
theorem readBinding_followedBy (htail : AtBreak tail) (hc : OnLine tail c.rest) :
    ReadAlike n tail (readBinding c) (readBinding (c.followedBy n tail)) := by
  have hexport := hc.subset (skipExport_suffix c).subset
  rw [readBinding, readBinding, skipExport_followedBy htail hc, readKey_followedBy htail hexport]
  cases hkey : readKey (skipExport c) with
  | error stuck => exact .error stuck
  | ok r =>
    obtain ⟨key?, c₁⟩ := r
    have hc₁ := hexport.subset (readKey_suffix hkey).subset
    have hgap := hc₁.subset (Cursor.skip_suffix isGap c₁).subset
    dsimp only [followedBy]
    rw [Cursor.skip_followedBy htail hc₁ fun b ↦ isGap_of_isLineEnd,
      readAssignment_followedBy htail hgap]
    cases hassignment : readAssignment (c₁.skip isGap) with
    | error stuck => exact .error stuck
    | ok r =>
      obtain ⟨value?, c₂⟩ := r
      have hc₂ := hgap.subset (readAssignment_eq_ok hassignment).1.subset
      dsimp only [followedBy]
      rw [Cursor.skipComment_followedBy htail hc₂]
      obtain ⟨hnone, hsome⟩ := Cursor.endLine?_followedBy (n := n) htail
        (hc₂.subset (Cursor.skipComment_suffix c₂).subset)
      cases hend : c₂.skipComment.endLine? with
      | none =>
        rw [hnone hend]
        exact .error c₂.skipComment
      | some next =>
        obtain ⟨k, hk⟩ := hsome next hend
        rw [hk]
        cases key? with
        | none => exact .ok .nothing next k
        | some key => exact .ok (.binding key value?) next k

/-- A comment is read to the end of its line, whatever it holds. -/
theorem readBinding_comment (n : Nat) (cs : List Char) :
    ∃ k, readBinding ⟨n, '#' :: cs⟩
      = .ok (.nothing, ⟨k, afterBreak (cs.dropWhile fun d ↦ !isLineEnd d)⟩) := by
  have hgap : ∀ m, (⟨m, '#' :: cs⟩ : Cursor).skip isGap = ⟨m, '#' :: cs⟩ :=
    Cursor.skip_of_stop (by rintro _ ⟨⟩; decide)
  have hexport : skipExport ⟨n, '#' :: cs⟩ = ⟨n, '#' :: cs⟩ := rfl
  have hkey : readKey ⟨n, '#' :: cs⟩ = .ok (none, ⟨n, '#' :: cs⟩) := rfl
  have hassignment : readAssignment ⟨n, '#' :: cs⟩ = .ok (none, ⟨n, '#' :: cs⟩) := rfl
  have hbreak : AtBreak (cs.dropWhile fun d ↦ !isLineEnd d) := fun d rest hrest ↦ by
    simpa using stop_of_dropWhile hrest
  have hcomment : ∃ m, (⟨n, '#' :: cs⟩ : Cursor).skipComment
      = ⟨m, cs.dropWhile fun d ↦ !isLineEnd d⟩ := by
    rw [Cursor.skipComment_eq, hgap, if_pos (by rfl), Cursor.skip,
      List.dropWhile_cons_of_pos (by decide)]
    exact ⟨_, rfl⟩
  obtain ⟨m, hcomment⟩ := hcomment
  obtain ⟨k, hend⟩ := Cursor.endLine?_at hbreak m
  refine ⟨k, ?_⟩
  rw [readBinding, hexport, hkey]
  dsimp only
  rw [hgap, hassignment]
  dsimp only
  rw [hcomment, hend]

end Parts

end Runbook.EnvFile
