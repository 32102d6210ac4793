import Runbook.EnvFile.Statement
import Runbook.Text.Span

/-!
# Where the bindings of an env file come from

What a statement binds is taken from the text. A key is never empty. Without quotes it ends before
an equals sign, so a key that holds one is written in quotes, and the quotes are the first thing on
their line but for blanks and the word `export` (`QuotedKey`). A written value holds characters of
the text and those that escapes stand for, and no escape stands for NUL.

For the place of the quotes the reader has to be followed from one statement to the next. Whether a
statement was read or skipped, the reader stands behind the end of a line afterwards, or at the end
of the text (`Cursor.AtLine`).
-/

namespace Runbook.EnvFile

open Text

/-! ## At the start of a line -/

/-- The cursor stands in the text at the start of a line, or at the end of the text. -/
inductive Cursor.AtLine (text : List Char) (c : Cursor) : Prop
  /-- Nothing has been taken yet. -/
  | first (h : text = c.rest)
  /-- Everything has been taken. -/
  | last (h : c.rest = [])
  /-- What was taken ends with the end of a line. -/
  | next {before : List Char} {b : Char} (h : text = before ++ b :: c.rest)
      (hb : isLineEnd b = true)

namespace Cursor

variable {text : List Char} {c next : Cursor}

theorem skip_suffix (p : Char → Bool) (c : Cursor) : (c.skip p).rest <:+ c.rest :=
  List.dropWhile_suffix p

theorem advance_suffix (n : Nat) (c : Cursor) : (c.advance n).rest <:+ c.rest :=
  List.drop_suffix n c.rest

theorem skipComment_suffix (c : Cursor) : c.skipComment.rest <:+ c.rest := by
  rw [skipComment]
  split
  · exact (skip_suffix _ _).trans (skip_suffix _ _)
  · exact List.suffix_refl _

theorem AtLine.suffix (h : c.AtLine text) : c.rest <:+ text := by
  cases h with
  | first h => exact h ▸ List.suffix_refl _
  | last h => exact h ▸ List.nil_suffix
  | @next before b h => exact ⟨before ++ [b], by rw [h, List.append_assoc]; rfl⟩

/-- A cursor that has just taken the end of a line stands at the start of one. -/
theorem atLine_of_suffix {b : Char} (hb : isLineEnd b = true) (h : b :: c.rest <:+ text) :
    c.AtLine text := by
  obtain ⟨before, htext⟩ := h
  exact .next htext.symm hb

theorem atLine_endLine? (hc : c.rest <:+ text) (h : c.endLine? = some next) :
    next.AtLine text := by
  have hgap := (skip_suffix isGap c).trans hc
  rw [endLine?] at h
  split at h
  · next hend =>
    obtain rfl := Option.some.inj h
    exact .last hend
  · next cs hend =>
    obtain rfl := Option.some.inj h
    rw [hend] at hgap
    refine atLine_of_suffix (b := '\n') (by decide) ?_
    rw [advance, hend]
    exact (List.suffix_cons '\r' ('\n' :: cs)).trans hgap
  · next cs hend =>
    obtain rfl := Option.some.inj h
    rw [hend] at hgap
    refine atLine_of_suffix (b := '\n') (by decide) ?_
    rw [advance, hend]
    exact hgap
  · next cs _ hend =>
    obtain rfl := Option.some.inj h
    rw [hend] at hgap
    refine atLine_of_suffix (b := '\r') (by decide) ?_
    rw [advance, hend]
    exact hgap
  · contradiction

theorem atLine_skipLine (hc : c.rest <:+ text) : c.skipLine.AtLine text := by
  have hline := (skip_suffix (fun d ↦ !isLineEnd d) c).trans hc
  rcases hrest : (c.skip fun d ↦ !isLineEnd d).rest with _ | ⟨b, cs⟩
  · refine .last ?_
    rw [skipLine, advance, hrest]
    rfl
  · have hb : isLineEnd b = true := by simpa using stop_of_dropWhile hrest
    refine atLine_of_suffix hb ?_
    rw [skipLine, advance, hrest]
    rw [hrest] at hline
    exact hline

end Cursor

/-! ## Keys -/

/-- The key stands in single quotes at the start of a line of the text, behind nothing but blanks
and the word `export`. -/
inductive QuotedKey (text : List Char) (key : List Char) : Prop
  /-- The text up to the line, the blanks, the word with its gap, and the text behind the quotes. -/
  | intro {before blanks word after : List Char}
      (h : text = before ++ (blanks ++ (word ++ '\'' :: (key ++ '\'' :: after))))
      (hbefore : before = [] ∨ ∃ earlier b, before = earlier ++ [b] ∧ isLineEnd b = true)
      (hblanks : ∀ b ∈ blanks, isBlank b = true)
      (hword : word = [] ∨ ∃ gap, word = "export".toList ++ gap ∧ ∀ b ∈ gap, isGap b = true)

theorem rest_skipExport (c : Cursor) :
    ∃ word, c.rest = word ++ (skipExport c).rest ∧
      (word = [] ∨ ∃ gap, word = "export".toList ++ gap ∧ ∀ b ∈ gap, isGap b = true) := by
  rw [skipExport]
  split
  · next hword =>
    dsimp only
    split
    · obtain ⟨tail, htail⟩ := List.isPrefixOf_iff_prefix.mp hword
      have hpast : (c.advance 6).rest = tail := by
        rw [Cursor.advance, ← htail]
        rfl
      refine ⟨"export".toList ++ tail.takeWhile isGap, ?_, .inr ⟨_, rfl, ?_⟩⟩
      · rw [Cursor.skip, hpast, List.append_assoc, List.takeWhile_append_dropWhile, htail]
      · intro b hb
        exact List.all_eq_true.mp List.all_takeWhile b hb
    · exact ⟨[], rfl, .inl rfl⟩
  · exact ⟨[], rfl, .inl rfl⟩

/-- What a text can be bound to. -/
structure BindingIn (text : List Char) (key : String) (written? : Option String) : Prop where
  /-- The key is not empty. -/
  named : key ≠ ""
  /-- A key with an equals sign is in quotes. -/
  quoted : '=' ∈ key.toList → QuotedKey text key.toList
  /-- The key is part of the text. -/
  key_subset : key.toList ⊆ text
  /-- A NUL character in the value is one of the text. -/
  nul : ∀ written, written? = some written → '\x00' ∈ written.toList → '\x00' ∈ text

theorem readKey_suffix {c next : Cursor} {key? : Option String}
    (h : readKey c = .ok (key?, next)) : next.rest <:+ c.rest := by
  rw [readKey] at h
  split at h
  · cases h
    exact List.suffix_refl _
  all_goals
    dsimp only at h
    split at h
    · contradiction
    · cases h
      exact Cursor.advance_suffix _ _

theorem readKey_eq_ok {c next : Cursor} {key : String} (h : readKey c = .ok (some key, next)) :
    key ≠ "" ∧ key.toList ⊆ c.rest ∧
      ('=' ∈ key.toList → ∃ after, c.rest = '\'' :: (key.toList ++ '\'' :: after)) := by
  have hnamed : ∀ {cs : List Char}, cs ≠ [] → String.ofList cs ≠ "" := by
    intro cs hcs hempty
    exact hcs (String.ofList_eq_empty_iff.mp hempty)
  rw [readKey] at h
  split at h
  · cases h
  · next cs hc =>
    dsimp only at h
    split at h
    · contradiction
    · next hkey =>
      obtain ⟨hkey, hclosed⟩ := not_or.mp hkey
      simp only [Except.ok.injEq, Prod.mk.injEq, Option.some.injEq] at h
      obtain ⟨rfl, rfl⟩ := h
      rw [String.toList_ofList]
      refine ⟨hnamed hkey, ?_, fun _ ↦ ?_⟩
      · rw [hc]
        exact List.Subset.trans (List.takeWhile_subset _) (List.subset_cons_self _ _)
      · -- The key ends at the first quote behind the opening one.
        obtain ⟨b, after, hrest⟩ := List.exists_cons_of_ne_nil hclosed
        obtain rfl : b = '\'' := by simpa using stop_of_dropWhile hrest
        exact ⟨after, by rw [hc, ← hrest, List.takeWhile_append_dropWhile]⟩
  · dsimp only at h
    split at h
    · contradiction
    · next hkey =>
      simp only [Except.ok.injEq, Prod.mk.injEq, Option.some.injEq] at h
      obtain ⟨rfl, rfl⟩ := h
      rw [String.toList_ofList]
      refine ⟨hnamed hkey, List.takeWhile_subset _, ?_⟩
      intro hequals
      have hchar := List.all_eq_true.mp List.all_takeWhile _ hequals
      exact absurd hchar (by decide)

/-! ## Values -/

theorem quotedBody_subset {quote : Char} {cs body : List Char}
    (h : quotedBody quote cs = some body) : body ⊆ cs := by
  fun_induction quotedBody quote cs generalizing body with
  | case1 => cases h
  | case2 c cs ih =>
    obtain ⟨tail, htail, rfl⟩ := Option.map_eq_some_iff.mp h
    exact List.cons_subset_cons _ (List.cons_subset_cons _ (ih htail))
  | case3 =>
    obtain rfl := Option.some.inj h
    exact List.nil_subset _
  | case4 => cases h
  | case5 c cs _ _ _ ih =>
    obtain ⟨tail, htail, rfl⟩ := Option.map_eq_some_iff.mp h
    exact List.cons_subset_cons _ (ih htail)

theorem mem_of_mem_unescape {letter? : Char → Option Char} {d : Char}
    (hletter : ∀ c, letter? c ≠ some d) {cs : List Char} (h : d ∈ unescape letter? cs) :
    d ∈ cs := by
  fun_induction unescape letter? cs with
  | case1 c cs e he ih =>
    rcases List.mem_cons.mp h with rfl | h
    · exact absurd he (hletter c)
    · exact List.mem_cons_of_mem _ (List.mem_cons_of_mem _ (ih h))
  | case2 c cs _ ih =>
    rcases List.mem_cons.mp h with rfl | h
    · exact List.mem_cons_self
    · rcases List.mem_cons.mp h with rfl | h
      · exact List.mem_cons_of_mem _ List.mem_cons_self
      · exact List.mem_cons_of_mem _ (List.mem_cons_of_mem _ (ih h))
  | case3 c cs _ ih =>
    rcases List.mem_cons.mp h with rfl | h
    · exact List.mem_cons_self
    · exact List.mem_cons_of_mem _ (ih h)
  | case4 => contradiction

theorem singleQuoteLetter?_ne_nul (c : Char) : singleQuoteLetter? c ≠ some '\x00' := by
  unfold singleQuoteLetter?
  split <;> decide

theorem doubleQuoteLetter?_ne_nul (c : Char) : doubleQuoteLetter? c ≠ some '\x00' := by
  unfold doubleQuoteLetter?
  split <;> decide

theorem dropComment_subset (afterBlank : Bool) (cs : List Char) :
    dropComment afterBlank cs ⊆ cs := by
  induction cs generalizing afterBlank with
  | nil => exact List.nil_subset _
  | cons c cs ih =>
    rw [dropComment]
    split
    · exact List.nil_subset _
    · exact List.cons_subset_cons c (ih _)

theorem trimRight_subset (cs : List Char) : trimRight cs ⊆ cs := by
  intro d hd
  rw [trimRight, List.mem_reverse] at hd
  exact List.mem_reverse.mp ((List.dropWhile_suffix isBlank).subset hd)

theorem plainValue_subset (line : List Char) : plainValue line ⊆ line :=
  List.Subset.trans (trimRight_subset _) (dropComment_subset _ _)

theorem readValue_eq_ok {c next : Cursor} {value : String} (h : readValue c = .ok (value, next)) :
    next.rest <:+ c.rest ∧ ('\x00' ∈ value.toList → '\x00' ∈ c.rest) := by
  -- The two kinds of quotes differ in their escapes.
  have hquoted : ∀ {quote : Char} {letter? : Char → Option Char} {cs body : List Char},
      c.rest = quote :: cs → quotedBody quote cs = some body →
        (∀ d, letter? d ≠ some '\x00') →
          '\x00' ∈ (String.ofList (unescape letter? body)).toList → '\x00' ∈ c.rest := by
    intro quote letter? cs body hc hbody hletter hnul
    rw [String.toList_ofList] at hnul
    rw [hc]
    exact List.mem_cons_of_mem _ (quotedBody_subset hbody (mem_of_mem_unescape hletter hnul))
  rw [readValue] at h
  split at h
  · next cs hc =>
    split at h
    · contradiction
    · next body hbody =>
      simp only [Except.ok.injEq, Prod.mk.injEq] at h
      obtain ⟨rfl, rfl⟩ := h
      exact ⟨Cursor.advance_suffix _ _, hquoted hc hbody singleQuoteLetter?_ne_nul⟩
  · next cs hc =>
    split at h
    · contradiction
    · next body hbody =>
      simp only [Except.ok.injEq, Prod.mk.injEq] at h
      obtain ⟨rfl, rfl⟩ := h
      exact ⟨Cursor.advance_suffix _ _, hquoted hc hbody doubleQuoteLetter?_ne_nul⟩
  · simp only [Except.ok.injEq, Prod.mk.injEq] at h
    obtain ⟨rfl, rfl⟩ := h
    refine ⟨Cursor.advance_suffix _ _, fun hnul ↦ ?_⟩
    rw [String.toList_ofList] at hnul
    exact List.takeWhile_subset _ (plainValue_subset _ hnul)

theorem readAssignment_eq_ok {c next : Cursor} {value? : Option String}
    (h : readAssignment c = .ok (value?, next)) :
    next.rest <:+ c.rest ∧
      ∀ value, value? = some value → '\x00' ∈ value.toList → '\x00' ∈ c.rest := by
  have hpast : ((c.advance 1).skip isGap).rest <:+ c.rest :=
    (Cursor.skip_suffix _ _).trans (Cursor.advance_suffix _ _)
  rw [readAssignment] at h
  split at h
  · dsimp only at h
    split at h
    · simp only [Except.ok.injEq, Prod.mk.injEq] at h
      obtain ⟨rfl, rfl⟩ := h
      refine ⟨hpast, ?_⟩
      rintro _ ⟨rfl⟩ hnul
      contradiction
    · split at h
      · contradiction
      · next value next' hvalue =>
        simp only [Except.ok.injEq, Prod.mk.injEq] at h
        obtain ⟨rfl, rfl⟩ := h
        obtain ⟨hsuffix, hnul⟩ := readValue_eq_ok hvalue
        refine ⟨hsuffix.trans hpast, ?_⟩
        rintro _ ⟨rfl⟩ hmem
        exact hpast.subset (hnul hmem)
  · simp only [Except.ok.injEq, Prod.mk.injEq] at h
    obtain ⟨rfl, rfl⟩ := h
    exact ⟨List.suffix_refl _, fun _ hnone ↦ by cases hnone⟩

theorem readAssignment_error {c stuck : Cursor} (h : readAssignment c = .error stuck) :
    stuck.rest <:+ c.rest := by
  rw [readAssignment] at h
  split at h
  · dsimp only at h
    split at h
    · contradiction
    · split at h
      · next stuck' hvalue =>
        obtain rfl := Except.error.inj h
        rw [readValue_error hvalue]
        exact (Cursor.skip_suffix _ _).trans (Cursor.advance_suffix _ _)
      · contradiction
  · contradiction

/-! ## Statements -/

theorem skipExport_suffix (c : Cursor) : (skipExport c).rest <:+ c.rest := by
  obtain ⟨word, hword, -⟩ := rest_skipExport c
  exact ⟨word, hword.symm⟩

theorem readBinding_eq_ok {text : List Char} {c next : Cursor} {statement : Statement}
    (hc : c.rest <:+ text) (h : readBinding c = .ok (statement, next)) :
    next.AtLine text ∧ ∀ key written?, statement = .binding key written? →
      ∃ c₁ c₂, readKey (skipExport c) = .ok (some key, c₁) ∧
        readAssignment (c₁.skip isGap) = .ok (written?, c₂) := by
  rw [readBinding] at h
  split at h
  · contradiction
  · next key? c₁ hkey =>
    split at h
    · contradiction
    · next value? c₂ hassignment =>
      have hsuffix : c₂.skipComment.rest <:+ c.rest := (Cursor.skipComment_suffix c₂).trans <|
        (readAssignment_eq_ok hassignment).1.trans <| (Cursor.skip_suffix _ _).trans <|
          (readKey_suffix hkey).trans (skipExport_suffix c)
      split at h
      · contradiction
      · next c₃ hend =>
        have hline := Cursor.atLine_endLine? (hsuffix.trans hc) hend
        split at h
        · simp only [Except.ok.injEq, Prod.mk.injEq] at h
          obtain ⟨rfl, rfl⟩ := h
          exact ⟨hline, fun _ _ h ↦ by cases h⟩
        · next key =>
          simp only [Except.ok.injEq, Prod.mk.injEq] at h
          obtain ⟨rfl, rfl⟩ := h
          refine ⟨hline, ?_⟩
          rintro _ _ ⟨⟩
          exact ⟨c₁, c₂, hkey, hassignment⟩

theorem readBinding_error {c stuck : Cursor} (h : readBinding c = .error stuck) :
    stuck.rest <:+ c.rest := by
  rw [readBinding] at h
  split at h
  · next hkey =>
    obtain rfl := Except.error.inj h
    rw [length_readKey_error hkey]
    exact skipExport_suffix c
  · next key? c₁ hkey =>
    have hsuffix : (c₁.skip isGap).rest <:+ c.rest :=
      (Cursor.skip_suffix _ _).trans ((readKey_suffix hkey).trans (skipExport_suffix c))
    split at h
    · next hassignment =>
      obtain rfl := Except.error.inj h
      exact (readAssignment_error hassignment).trans hsuffix
    · next value? c₂ hassignment =>
      split at h
      · obtain rfl := Except.error.inj h
        exact (Cursor.skipComment_suffix c₂).trans
          ((readAssignment_eq_ok hassignment).1.trans hsuffix)
      · split at h <;> contradiction

variable {text : List Char} {c : Cursor}

theorem atLine_readStatement (hc : c.AtLine text) : (readStatement c).2.AtLine text := by
  have hstart : (c.skip isBlank).rest <:+ text := (Cursor.skip_suffix _ _).trans hc.suffix
  rw [readStatement]
  split
  · next hend => exact .last hend
  · split
    · next hread => exact (readBinding_eq_ok hstart hread).1
    · next hread => exact Cursor.atLine_skipLine ((readBinding_error hread).trans hstart)

theorem Cursor.AtLine.quotedKey (hc : c.AtLine text) {key after : List Char}
    (h : (skipExport (c.skip isBlank)).rest = '\'' :: (key ++ '\'' :: after)) :
    QuotedKey text key := by
  obtain ⟨word, hrest, hword⟩ := rest_skipExport (c.skip isBlank)
  have hline : c.rest
      = c.rest.takeWhile isBlank ++ (word ++ '\'' :: (key ++ '\'' :: after)) := by
    rw [← h, ← hrest, Cursor.skip, List.takeWhile_append_dropWhile]
  have hblanks : ∀ b ∈ c.rest.takeWhile isBlank, isBlank b = true :=
    List.all_eq_true.mp List.all_takeWhile
  cases hc with
  | first htext =>
    have hcut : text
        = [] ++ (c.rest.takeWhile isBlank ++ (word ++ '\'' :: (key ++ '\'' :: after))) :=
      htext.trans hline
    exact .intro hcut (.inl rfl) hblanks hword
  | last hend =>
    rw [hend] at hline
    simp at hline
  | @next before b htext hb =>
    have hcut : text = (before ++ [b])
        ++ (c.rest.takeWhile isBlank ++ (word ++ '\'' :: (key ++ '\'' :: after))) := by
      rw [← hline, htext, List.append_assoc]
      rfl
    exact .intro hcut (.inr ⟨before, b, rfl, hb⟩) hblanks hword

/-- **One statement.** What a statement binds comes from the text, in which it starts a line. -/
theorem bindingIn_of_readStatement (hc : c.AtLine text) {key : String} {written? : Option String}
    (h : (readStatement c).1 = .binding key written?) : BindingIn text key written? := by
  have hstart : (c.skip isBlank).rest <:+ text := (Cursor.skip_suffix _ _).trans hc.suffix
  rw [readStatement] at h
  split at h
  · contradiction
  · split at h
    · next statement next hread =>
      obtain ⟨c₁, c₂, hkey, hassignment⟩ := (readBinding_eq_ok hstart hread).2 key written? h
      have hexport := (skipExport_suffix _).trans hstart
      have hgap := (Cursor.skip_suffix isGap c₁).trans ((readKey_suffix hkey).trans hexport)
      obtain ⟨hnamed, hsubset, hquoted⟩ := readKey_eq_ok hkey
      refine ⟨hnamed, ?_, List.Subset.trans hsubset hexport.subset, ?_⟩
      · intro hequals
        obtain ⟨after, hafter⟩ := hquoted hequals
        exact hc.quotedKey hafter
      · intro written hwritten hnul
        exact hgap.subset ((readAssignment_eq_ok hassignment).2 written hwritten hnul)
    · contradiction

/-- **All statements.** The reader goes from one start of a line to the next, so what any statement
binds comes from the text. -/
theorem bindingIn_of_mem_statementsFrom (hc : c.AtLine text) {key : String}
    {written? : Option String} (h : .binding key written? ∈ statementsFrom c) :
    BindingIn text key written? := by
  fun_induction statementsFrom c with
  | case1 => contradiction
  | case2 c _ ih =>
    rcases List.mem_cons.mp h with hfirst | hrest
    · exact bindingIn_of_readStatement hc hfirst.symm
    · exact ih (atLine_readStatement hc) hrest

theorem bindingIn_of_mem_bindings {text : String} {key : String} {written? : Option String}
    (h : (key, written?) ∈ bindings text) :
    BindingIn (dropMark text.toList) key written? := by
  obtain ⟨statement, hmem, hbinding⟩ := List.mem_filterMap.mp h
  cases statement with
  | binding key' written?' =>
    obtain ⟨rfl, rfl⟩ := Prod.mk.inj (Option.some.inj hbinding)
    exact bindingIn_of_mem_statementsFrom (.first rfl) hmem
  | nothing | malformed => contradiction

end Runbook.EnvFile
