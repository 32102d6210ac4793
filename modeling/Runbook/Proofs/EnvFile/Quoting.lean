import Runbook.Proofs.EnvFile.FollowedBy
import Runbook.Proofs.EnvFile.Interpolation

/-!
# Values in single quotes

Between single quotes a backslash and a quote are written with a backslash before them, and all else
stands for itself (`unescape_escaped`). So any value can be written on the line of any key that
needs no quotes, and the line is read back whatever follows it (`readBinding_quoted`).

What the quotes do not keep away are references: they are filled in behind the reader, when it is
forgotten how a value was written. A value without a backslash or a quote is taken as it stands
between the quotes if and only if there is no reference in it (`single_quoted_value`).
-/

namespace Runbook.EnvFile

open Text

/-! ## Escapes -/

/-- A value as it is written between single quotes. -/
def escaped : List Char → List Char
  | [] => []
  | c :: cs => if c = '\\' ∨ c = '\'' then '\\' :: c :: escaped cs else c :: escaped cs

theorem escaped_of_notMem {cs : List Char} (hquote : '\'' ∉ cs) (hbackslash : '\\' ∉ cs) :
    escaped cs = cs := by
  induction cs with
  | nil => rfl
  | cons c cs ih =>
    rw [List.mem_cons, not_or] at hquote hbackslash
    have hc : ¬(c = '\\' ∨ c = '\'') := not_or.mpr ⟨Ne.symm hbackslash.1, Ne.symm hquote.1⟩
    rw [escaped, if_neg hc, ih hquote.2 hbackslash.2]

/-- The first quote that is not protected is the one behind the value. -/
theorem quotedBody_escaped (cs tail : List Char) :
    quotedBody '\'' (escaped cs ++ '\'' :: tail) = some (escaped cs) := by
  induction cs with
  | nil => simp [escaped, quotedBody]
  | cons c cs ih =>
    rw [escaped]
    split
    · rw [List.cons_append, List.cons_append, quotedBody, ih]
      rfl
    · next hc =>
      obtain ⟨hbackslash, hquote⟩ := not_or.mp hc
      rw [List.cons_append, quotedBody, if_neg hquote, if_neg hbackslash, ih]
      · rfl
      · exact fun _ _ heq ↦ absurd heq hbackslash

theorem unescape_escaped (cs : List Char) : unescape singleQuoteLetter? (escaped cs) = cs := by
  induction cs with
  | nil => rfl
  | cons c cs ih =>
    rw [escaped]
    split
    · next hc =>
      have hletter : singleQuoteLetter? c = some c := by
        rcases hc with rfl | rfl <;> rfl
      rw [unescape, hletter]
      exact congrArg _ ih
    · next hc =>
      rw [unescape, ih]
      exact fun _ _ heq ↦ absurd (.inl heq) hc

/-! ## Keys without quotes -/

/-- The key can be written without quotes. -/
structure PlainKey (key : List Char) : Prop where
  /-- It is not empty. -/
  named : key ≠ []
  /-- It ends before an equals sign. -/
  equals : '=' ∉ key
  /-- It ends before a comment. -/
  hash : '#' ∉ key
  /-- It ends before a blank. -/
  blank : ∀ c ∈ key, isBlank c = false
  /-- It is not taken for a key in quotes. -/
  unquoted : key.head? ≠ some '\''

section Key

variable {key : List Char} (hkey : PlainKey key)

include hkey

theorem PlainKey.isKeyChar : ∀ c ∈ key, isKeyChar c = true := by
  intro c hc
  have hequals : c ≠ '=' := fun h ↦ hkey.equals (h ▸ hc)
  have hhash : c ≠ '#' := fun h ↦ hkey.hash (h ▸ hc)
  simp [EnvFile.isKeyChar, hequals, hhash, hkey.blank c hc]

theorem PlainKey.head?_append (tail : List Char) : ∃ b, (key ++ tail).head? = some b ∧ b ∈ key ∧
    key.head? = some b := by
  obtain ⟨b, cs, rfl⟩ := List.exists_cons_of_ne_nil hkey.named
  exact ⟨b, rfl, List.mem_cons_self, rfl⟩

theorem PlainKey.skipExport_eq (n : Nat) (tail : List Char) :
    skipExport ⟨n, key ++ '=' :: tail⟩ = ⟨n, key ++ '=' :: tail⟩ := by
  rw [skipExport]
  split
  · next hword =>
    have hahead := List.isPrefixOf_iff_prefix.mp hword
    have hlong : 6 ≤ key.length := by
      refine Nat.le_of_not_lt fun hshort ↦ ?_
      -- There is no equals sign in the word.
      have hequals : key ++ ['='] <+: "export".toList := by
        refine List.prefix_of_prefix_length_le ⟨tail, by simp⟩ hahead ?_
        rw [List.length_append]
        exact hshort
      have hmem := hequals.subset (List.mem_append_right key List.mem_cons_self)
      exact absurd hmem (by decide)
    have hpast : (⟨n, key ++ '=' :: tail⟩ : Cursor).advance 6
        = ⟨n + countBreaks ((key ++ '=' :: tail).take 6), key.drop 6 ++ '=' :: tail⟩ :=
      congrArg _ (List.drop_append_of_le_length hlong)
    have hstop : ∀ d, (key.drop 6 ++ '=' :: tail).head? = some d → isGap d = false := by
      intro d hd
      have hblank : isBlank d = false := by
        cases hdrop : key.drop 6 with
        | nil =>
          rw [hdrop] at hd
          obtain rfl := Option.some.inj hd
          decide
        | cons b cs =>
          rw [hdrop] at hd
          obtain rfl := Option.some.inj hd
          exact hkey.blank _ ((List.drop_suffix 6 key).subset (hdrop ▸ List.mem_cons_self))
      rw [isGap, hblank]
      rfl
    dsimp only
    rw [hpast, Cursor.skip_of_stop hstop, if_neg (Nat.lt_irrefl _)]
  · rfl

theorem PlainKey.readKey_eq (n : Nat) (tail : List Char) :
    ∃ k, readKey ⟨n, key ++ '=' :: tail⟩ = .ok (some (String.ofList key), ⟨k, '=' :: tail⟩) := by
  obtain ⟨b, hhead, hb, hfirst⟩ := hkey.head?_append ('=' :: tail)
  have hquote : (key ++ '=' :: tail).head? ≠ some '\'' := by
    rw [hhead, ← hfirst]
    exact hkey.unquoted
  have hhash : (key ++ '=' :: tail).head? ≠ some '#' := by
    rw [hhead]
    rintro ⟨rfl⟩
    exact hkey.hash hb
  have hrun : (key ++ '=' :: tail).takeWhile EnvFile.isKeyChar = key :=
    (span_append hkey.isKeyChar (by rintro _ ⟨⟩; decide)).1
  refine ⟨n + countBreaks key, ?_⟩
  rw [EnvFile.readKey_eq (c := ⟨n, key ++ '=' :: tail⟩) hquote, if_neg hhash, hrun,
    if_neg hkey.named, Cursor.advance_append]

end Key

/-! ## Reading the line -/

/-- Nothing but a comment is left of the line with which `tail` starts, and behind it is `rest`. -/
def EndsLine (tail rest : List Char) : Prop :=
  ∀ n, ∃ k, (⟨n, tail⟩ : Cursor).skipComment.endLine? = some ⟨k, rest⟩

theorem endsLine_of_atBreak {tail : List Char} (h : AtBreak tail) :
    EndsLine tail (afterBreak tail) := by
  intro n
  have hstop : ∀ d, tail.head? = some d → isLineEnd d = true := by
    intro d hd
    obtain ⟨rest, hrest⟩ := List.head?_eq_some_iff.mp hd
    exact h d rest hrest
  have hnone : tail.head? ≠ some '#' := fun hhash ↦ absurd (hstop _ hhash) (by decide)
  have hgap := Cursor.skip_of_stop (fun d hd ↦ isGap_of_isLineEnd (hstop d hd)) n
  rw [Cursor.skipComment_eq, hgap, if_neg hnone]
  exact Cursor.endLine?_at h n

theorem endsLine_comment {gap text tail : List Char} (hgap : ∀ c ∈ gap, isGap c = true)
    (htext : ∀ c ∈ text, isLineEnd c = false) (htail : AtBreak tail) :
    EndsLine (gap ++ '#' :: (text ++ tail)) (afterBreak tail) := by
  intro n
  have hcomment : ∀ c ∈ '#' :: text, (!isLineEnd c) = true := by
    intro c hc
    rcases List.mem_cons.mp hc with rfl | hc
    · decide
    · simp [htext c hc]
  have hstop : ∀ d, tail.head? = some d → (!isLineEnd d) = false := by
    intro d hd
    obtain ⟨rest, hrest⟩ := List.head?_eq_some_iff.mp hd
    simp [htail d rest hrest]
  rw [Cursor.skipComment_eq, Cursor.skip_append hgap (by rintro _ ⟨⟩; decide), if_pos (by rfl),
    ← List.cons_append, Cursor.skip_append hcomment hstop]
  exact Cursor.endLine?_at htail _

theorem readValue_escaped (value tail : List Char) (n : Nat) :
    ∃ k, readValue ⟨n, '\'' :: (escaped value ++ '\'' :: tail)⟩
      = .ok (String.ofList value, ⟨k, tail⟩) := by
  have htaken := Cursor.advance_append ('\'' :: (escaped value ++ ['\''])) tail n
  have hlength : ('\'' :: (escaped value ++ ['\''])).length = (escaped value).length + 2 := by simp
  have hshape : '\'' :: (escaped value ++ ['\'']) ++ tail
      = '\'' :: (escaped value ++ '\'' :: tail) := by simp
  rw [hlength, hshape] at htaken
  refine ⟨n + countBreaks ('\'' :: (escaped value ++ ['\''])), ?_⟩
  rw [readValue_of_quote (.inl ⟨rfl, rfl⟩) rfl, quotedBody_escaped]
  dsimp only
  rw [unescape_escaped, htaken]

theorem readAssignment_escaped (value tail : List Char) (n : Nat) :
    ∃ k, readAssignment ⟨n, '=' :: '\'' :: (escaped value ++ '\'' :: tail)⟩
      = .ok (some (String.ofList value), ⟨k, tail⟩) := by
  have hpast := Cursor.advance_append ['='] ('\'' :: (escaped value ++ '\'' :: tail)) n
  rw [List.singleton_append, List.length_singleton] at hpast
  obtain ⟨k, hvalue⟩ := readValue_escaped value tail (n + countBreaks ['='])
  refine ⟨k, ?_⟩
  rw [readAssignment_eq, if_pos (by rfl), hpast, Cursor.skip_of_stop (by rintro _ ⟨⟩; decide),
    if_neg (by rintro ⟨⟨⟩, -⟩), hvalue]
  rfl

/-- **A value in quotes.** It is read back, and so is what follows its line. -/
theorem readBinding_quoted {key : List Char} (hkey : PlainKey key) (value : List Char)
    {tail rest : List Char} (htail : EndsLine tail rest) (n : Nat) :
    ∃ k, readBinding ⟨n, key ++ '=' :: '\'' :: (escaped value ++ '\'' :: tail)⟩
      = .ok (.binding (String.ofList key) (some (String.ofList value)), ⟨k, rest⟩) := by
  obtain ⟨k₁, hread⟩ := hkey.readKey_eq n ('\'' :: (escaped value ++ '\'' :: tail))
  obtain ⟨k₂, hassignment⟩ := readAssignment_escaped value tail k₁
  obtain ⟨k, hend⟩ := htail k₂
  refine ⟨k, ?_⟩
  rw [readBinding, hkey.skipExport_eq, hread]
  dsimp only
  rw [Cursor.skip_of_stop (by rintro _ ⟨⟩; decide), hassignment]
  dsimp only
  rw [hend]

theorem readStatement_of_readBinding {blanks cs rest : List Char} {statement : Statement}
    (hblanks : ∀ c ∈ blanks, isBlank c = true) (hcs : ∃ b, cs.head? = some b ∧ isBlank b = false)
    (h : ∀ n, ∃ k, readBinding ⟨n, cs⟩ = .ok (statement, ⟨k, rest⟩)) (n : Nat) :
    ∃ k, readStatement ⟨n, blanks ++ cs⟩ = (statement, ⟨k, rest⟩) := by
  obtain ⟨b, hhead, hb⟩ := hcs
  have hstart : (⟨n, blanks ++ cs⟩ : Cursor).skip isBlank = ⟨n + countBreaks blanks, cs⟩ :=
    Cursor.skip_append hblanks (fun d hd ↦ by rwa [← Option.some.inj (hhead.symm.trans hd)]) n
  have hne : cs ≠ [] := by
    rintro rfl
    contradiction
  obtain ⟨k, hread⟩ := h (n + countBreaks blanks)
  refine ⟨k, ?_⟩
  rw [readStatement, hstart]
  dsimp only
  rw [if_neg hne, hread]

/-! ## What a text comes to -/

/-- The bindings are what is read from the cursor on, and there is no damage. -/
structure Reads (c : Cursor) (bs : List (String × Option String)) : Prop where
  /-- The bindings are those that are read. -/
  bindings : (statementsFrom c).filterMap Statement.binding? = bs
  /-- All statements can be read. -/
  undamaged : (statementsFrom c).filterMap Statement.malformed? = []

section Reads

variable {c next : Cursor} {bs : List (String × Option String)}

theorem Reads.of_nil (h : c.rest = []) : Reads c [] := by
  constructor <;> rw [statementsFrom, dif_pos h] <;> rfl

theorem Reads.of_nothing (hc : c.rest ≠ []) (hread : readStatement c = (.nothing, next))
    (h : Reads next bs) : Reads c bs := by
  constructor <;> rw [statementsFrom, dif_neg hc, hread]
  · exact h.bindings
  · exact h.undamaged

theorem Reads.of_binding {key : String} {value? : Option String} (hc : c.rest ≠ [])
    (hread : readStatement c = (.binding key value?, next)) (h : Reads next bs) :
    Reads c ((key, value?) :: bs) := by
  constructor <;> rw [statementsFrom, dif_neg hc, hread]
  · exact congrArg _ h.bindings
  · exact h.undamaged

theorem dropMark_of_head? {cs : List Char} (h : cs.head? ≠ some '\ufeff') : dropMark cs = cs := by
  unfold dropMark
  split
  · exact absurd rfl h
  · rfl

theorem Reads.of_text {cs : List Char} (h : Reads ⟨1, dropMark cs⟩ bs) :
    EnvFile.bindings (String.ofList cs) = bs ∧ malformedLines (String.ofList cs) = [] := by
  rw [EnvFile.bindings, malformedLines, statements, String.toList_ofList]
  exact ⟨h.bindings, h.undamaged⟩

end Reads

/-! ## References in quotes -/

/-- The text that binds a key to a value in single quotes, and nothing else. -/
def quotedLine (key value : List Char) : String :=
  String.ofList (key ++ '=' :: '\'' :: (value ++ ['\'']))

theorem contents_quotedLine {key value : List Char} (hkey : PlainKey key)
    (hmark : key.head? ≠ some '\ufeff') (hquote : '\'' ∉ value) (hbackslash : '\\' ∉ value)
    (environment : Keyed String) : Contents.ofText environment (quotedLine key value)
      = ⟨[(String.ofList key, expand environment [] (String.ofList value))], [], []⟩ := by
  obtain ⟨b, hhead, hb, hfirst⟩ := hkey.head?_append ('=' :: '\'' :: (value ++ ['\'']))
  have hstart : (key ++ '=' :: '\'' :: (value ++ ['\''])).head? ≠ some '\ufeff' := by
    rwa [hhead, ← hfirst]
  have hbreak : AtBreak [] := by rintro _ _ ⟨⟩
  have hend : EndsLine [] [] := endsLine_of_atBreak hbreak
  have hread := fun n ↦ readBinding_quoted hkey value hend n
  rw [escaped_of_notMem hquote hbackslash] at hread
  obtain ⟨k, hstatement⟩ := readStatement_of_readBinding (List.forall_mem_nil _)
    ⟨b, hhead, hkey.blank b hb⟩ hread 1
  have hreads : Reads ⟨1, key ++ '=' :: '\'' :: (value ++ ['\''])⟩ _ :=
    .of_binding (by simp) hstatement (.of_nil rfl)
  rw [← dropMark_of_head? hstart] at hreads
  obtain ⟨hbindings, hmalformed⟩ := hreads.of_text
  rw [quotedLine, Contents.ofText, resolvedBindings, hbindings, hmalformed]
  rfl

/-- **Values in single quotes.** A value without a quote and without a backslash is put between
single quotes. Whatever else it holds, the text is read without damage and without a warning, and
the value is what its references make of it. So it is literal in all environments if there is no
complete reference in it, and if there is one, it loses some of its characters where nothing is
known. -/
theorem single_quoted_value {key value : List Char} (hkey : PlainKey key)
    (hmark : key.head? ≠ some '\ufeff') (hquote : '\'' ∉ value) (hbackslash : '\\' ∉ value) :
    (∀ environment, ∃ v : String, Interpolates environment [] value v.toList ∧
      Contents.ofText environment (quotedLine key value) = ⟨[(String.ofList key, v)], [], []⟩) ∧
    (Referenceless value → ∀ environment, Contents.ofText environment (quotedLine key value)
      = ⟨[(String.ofList key, String.ofList value)], [], []⟩) ∧
    (¬Referenceless value → ∃ v : String, v.toList.length < value.length ∧
      Contents.ofText [] (quotedLine key value) = ⟨[(String.ofList key, v)], [], []⟩) := by
  have hcontents := contents_quotedLine hkey hmark hquote hbackslash
  refine ⟨fun environment ↦ ⟨_, interpolates_expand [] value, hcontents environment⟩,
    fun hliteral environment ↦ ?_, fun hreference ↦ ⟨_, ?_, hcontents []⟩⟩
  · rw [hcontents, Referenceless.expand_eq (by rwa [String.toList_ofList])]
  · exact (interpolates_expand [] value).length_le.2 hreference

/-- What would start a comment or a value in double quotes is literal, and so is a line feed. -/
theorem single_quoted_value_lines :
    PlainKey ['K'] ∧ '\'' ∉ "two \"lines\"\n# $K".toList ∧ '\\' ∉ "two \"lines\"\n# $K".toList ∧
      Referenceless "two \"lines\"\n# $K".toList ∧
      ∀ environment, Contents.ofText environment "K='two \"lines\"\n# $K'"
        = ⟨[("K", "two \"lines\"\n# $K")], [], []⟩ := by
  have hkey : PlainKey ['K'] :=
    ⟨by decide, by decide, by decide, List.forall_mem_singleton.mpr rfl, by decide⟩
  have hquote : '\'' ∉ "two \"lines\"\n# $K".toList := by decide
  have hbackslash : '\\' ∉ "two \"lines\"\n# $K".toList := by decide
  have hliteral : Referenceless "two \"lines\"\n# $K".toList := by
    refine referenceless_of_unopened fun h ↦ ?_
    have hbrace := h.subset (List.mem_cons_of_mem '$' List.mem_cons_self)
    exact absurd hbrace (by decide)
  have hline : quotedLine ['K'] "two \"lines\"\n# $K".toList = "K='two \"lines\"\n# $K'" := by
    decide +kernel
  have hread := (single_quoted_value hkey (by decide) hquote hbackslash).2.1 hliteral
  rw [hline, String.ofList_toList] at hread
  exact ⟨hkey, hquote, hbackslash, hliteral, hread⟩

/-- A reference in single quotes is filled in, and its characters are lost. -/
theorem single_quoted_value_reference :
    '\'' ∉ "$\x7bX\x7d".toList ∧ '\\' ∉ "$\x7bX\x7d".toList ∧
      Contents.ofText [] "K='$\x7bX\x7d'" = ⟨[("K", "")], [], []⟩ ∧
      Contents.ofText [("X", "x")] "K='$\x7bX\x7d'" = ⟨[("K", "x")], [], []⟩ :=
  ⟨by decide, by decide, by decide +kernel, by decide +kernel⟩

end Runbook.EnvFile
