import Runbook.EnvFile.Cursor

/-!
# Statements of an env file

An env file is a sequence of statements, `KEY=value` with optional `export`, quotes and comment.
If a piece is not what the grammar asks for, the statement is malformed: what was taken stays
taken, the rest of the line is skipped, and the line on which the reader stood before the statement
is noted. A piece that spans several lines is taken whole, so damage can reach over more than a
line.

Each statement takes at least one character (`length_readStatement_lt`), which is why reading ends.
-/

namespace Runbook.EnvFile

open Text

/-- One statement. -/
inductive Statement where
  /-- Blank space or a comment. -/
  | nothing
  /-- A key, with a value if an equals sign follows it. -/
  | binding (key : String) (value : Option String)
  /-- A statement that cannot be read, with the line on which it starts. -/
  | malformed (line : Nat)
deriving DecidableEq, Repr

/-- Past the word `export` and the gap that has to follow it, if both are there. -/
def skipExport (c : Cursor) : Cursor :=
  if "export".toList.isPrefixOf c.rest then
    let past := c.advance 6
    let next := past.skip isGap
    if next.rest.length < past.rest.length then next else c
  else c

def isKeyChar (c : Char) : Bool := c != '=' && c != '#' && !isBlank c

/-- The text up to the closing quote, if there is one. A backslash protects the character after
it. -/
def quotedBody (quote : Char) : List Char → Option (List Char)
  | [] => none
  | '\\' :: c :: cs => (quotedBody quote cs).map ('\\' :: c :: ·)
  | c :: cs =>
    if c = quote then some []
    else if c = '\\' then none
    else (quotedBody quote cs).map (c :: ·)

/-- Replaces each backslash and the letter after it by the character that `letter?` gives. -/
def unescape (letter? : Char → Option Char) : List Char → List Char
  | '\\' :: c :: cs =>
    match letter? c with
    | some d => d :: unescape letter? cs
    | none => '\\' :: c :: unescape letter? cs
  | c :: cs => c :: unescape letter? cs
  | [] => []

def singleQuoteLetter? : Char → Option Char
  | '\\' => some '\\'
  | '\'' => some '\''
  | _ => none

def doubleQuoteLetter? : Char → Option Char
  | '\\' => some '\\'
  | '\'' => some '\''
  | '"' => some '"'
  | 'a' => some '\x07'
  | 'b' => some '\x08'
  | 'f' => some '\x0c'
  | 'n' => some '\n'
  | 'r' => some '\r'
  | 't' => some '\t'
  | 'v' => some '\x0b'
  | _ => none

/-- The text up to the first `#` that stands behind a blank. -/
def dropComment : (afterBlank : Bool) → List Char → List Char
  | _, [] => []
  | afterBlank, c :: cs =>
    if afterBlank && c = '#' then [] else c :: dropComment (isBlank c) cs

/-- The value of a line that is not quoted: without its comment and the blanks before it. -/
def plainValue (line : List Char) : List Char := trimRight (dropComment false line)

/-! ## Keys and values -/

/-- Reads a key. A comment has none. On failure, where the reader stands. -/
def readKey (c : Cursor) : Except Cursor (Option String × Cursor) :=
  match c.rest with
  | '#' :: _ => .ok (none, c)
  | '\'' :: cs =>
    let key := cs.takeWhile (· != '\'')
    if key = [] ∨ cs.dropWhile (· != '\'') = [] then .error c
    else .ok (some (String.ofList key), c.advance (key.length + 2))
  | cs =>
    let key := cs.takeWhile isKeyChar
    if key = [] then .error c
    else .ok (some (String.ofList key), c.advance key.length)

/-- Reads what follows the equals sign and the gap after it. -/
def readValue (c : Cursor) : Except Cursor (String × Cursor) :=
  match c.rest with
  | '\'' :: cs =>
    match quotedBody '\'' cs with
    | none => .error c
    | some body =>
      .ok (String.ofList (unescape singleQuoteLetter? body), c.advance (body.length + 2))
  | '"' :: cs =>
    match quotedBody '"' cs with
    | none => .error c
    | some body =>
      .ok (String.ofList (unescape doubleQuoteLetter? body), c.advance (body.length + 2))
  | cs =>
    let line := cs.takeWhile fun d ↦ !isLineEnd d
    .ok (String.ofList (plainValue line), c.advance line.length)

/-- Reads the equals sign and the value, if an equals sign follows. A `#` behind a gap starts a
comment at once. -/
def readAssignment (c : Cursor) : Except Cursor (Option String × Cursor) :=
  match c.rest with
  | '=' :: cs =>
    let past := (c.advance 1).skip isGap
    if past.rest.head? = some '#' ∧ past.rest.length < cs.length then .ok (some "", past)
    else match readValue past with
      | .error stuck => .error stuck
      | .ok (value, next) => .ok (some value, next)
  | _ => .ok (none, c)

/-- Reads a statement that starts with a character that is not blank. -/
def readBinding (c : Cursor) : Except Cursor (Statement × Cursor) :=
  match readKey (skipExport c) with
  | .error stuck => .error stuck
  | .ok (key?, c) =>
    match readAssignment (c.skip isGap) with
    | .error stuck => .error stuck
    | .ok (value?, c) =>
      match c.skipComment.endLine? with
      | none => .error c.skipComment
      | some next =>
        match key? with
        | none => .ok (.nothing, next)
        | some key => .ok (.binding key value?, next)

/-- Reads the next statement, blanks before it included. -/
def readStatement (c : Cursor) : Statement × Cursor :=
  let start := c.skip isBlank
  if start.rest = [] then (.nothing, start)
  else match readBinding start with
    | .ok (statement, next) => (statement, next)
    | .error stuck => (.malformed c.line, stuck.skipLine)

/-! ## Every statement takes something -/

theorem length_skipExport_le (c : Cursor) : (skipExport c).rest.length ≤ c.rest.length := by
  unfold skipExport
  split
  · dsimp only
    split
    · exact Nat.le_trans (Cursor.length_skip_le _ _) (Cursor.length_advance_le _ _)
    · exact Nat.le_refl _
  · exact Nat.le_refl _

/-- A key takes at least one character; where there is no key, a comment starts. -/
theorem readKey_progress {c next : Cursor} {key? : Option String}
    (h : readKey c = .ok (key?, next)) :
    next.rest.length < c.rest.length ∨ key? = none ∧ next = c ∧ ∃ cs, c.rest = '#' :: cs := by
  unfold readKey at h
  split at h
  · next cs hc =>
    simp only [Except.ok.injEq, Prod.mk.injEq] at h
    exact .inr ⟨h.1.symm, h.2.symm, cs, hc⟩
  · next cs hc =>
    dsimp only at h
    split at h
    · cases h
    · simp only [Except.ok.injEq, Prod.mk.injEq] at h
      obtain ⟨-, rfl⟩ := h
      left
      simp only [Cursor.advance, hc, List.length_drop, List.length_cons]
      omega
  · dsimp only at h
    split at h
    · cases h
    · next hne =>
      simp only [Except.ok.injEq, Prod.mk.injEq] at h
      obtain ⟨-, rfl⟩ := h
      left
      have hpos := List.length_pos_iff.2 hne
      have hle := (List.takeWhile_prefix isKeyChar (l := c.rest)).length_le
      simp only [Cursor.advance, List.length_drop]
      omega

theorem length_readKey_error {c stuck : Cursor} (h : readKey c = .error stuck) : stuck = c := by
  unfold readKey at h
  split at h
  · cases h
  all_goals
    dsimp only at h
    split at h
    · exact (Except.error.inj h).symm
    · cases h

theorem length_readValue_le {c next : Cursor} {value : String}
    (h : readValue c = .ok (value, next)) : next.rest.length ≤ c.rest.length := by
  unfold readValue at h
  split at h
  · split at h
    · cases h
    · simp only [Except.ok.injEq, Prod.mk.injEq] at h
      exact h.2 ▸ Cursor.length_advance_le _ _
  · split at h
    · cases h
    · simp only [Except.ok.injEq, Prod.mk.injEq] at h
      exact h.2 ▸ Cursor.length_advance_le _ _
  · simp only [Except.ok.injEq, Prod.mk.injEq] at h
    exact h.2 ▸ Cursor.length_advance_le _ _

theorem readValue_error {c stuck : Cursor} (h : readValue c = .error stuck) : stuck = c := by
  unfold readValue at h
  split at h
  · split at h
    · exact (Except.error.inj h).symm
    · cases h
  · split at h
    · exact (Except.error.inj h).symm
    · cases h
  · cases h

theorem length_readAssignment_le {c : Cursor} :
    (∀ value? next, readAssignment c = .ok (value?, next) → next.rest.length ≤ c.rest.length) ∧
    (∀ stuck, readAssignment c = .error stuck → stuck.rest.length ≤ c.rest.length) := by
  have hpast : ((c.advance 1).skip isGap).rest.length ≤ c.rest.length :=
    Nat.le_trans (Cursor.length_skip_le _ _) (Cursor.length_advance_le _ _)
  unfold readAssignment
  split
  · dsimp only
    split
    · refine ⟨fun value? next h ↦ ?_, fun stuck h ↦ by cases h⟩
      simp only [Except.ok.injEq, Prod.mk.injEq] at h
      exact h.2 ▸ hpast
    · cases hv : readValue ((c.advance 1).skip isGap) with
      | error stuck =>
        refine ⟨fun value? next h ↦ (by cases h), fun stuck' h ↦ ?_⟩
        have hs : stuck = stuck' := Except.error.inj h
        rw [← hs, readValue_error hv]
        exact hpast
      | ok r =>
        obtain ⟨value, next⟩ := r
        refine ⟨fun value? next' h ↦ ?_, fun stuck h ↦ by cases h⟩
        simp only [Except.ok.injEq, Prod.mk.injEq] at h
        exact h.2 ▸ Nat.le_trans (length_readValue_le hv) hpast
  · refine ⟨fun value? next h ↦ ?_, fun stuck h ↦ by cases h⟩
    simp only [Except.ok.injEq, Prod.mk.injEq] at h
    exact h.2 ▸ Nat.le_refl _

theorem length_readBinding_lt {c next : Cursor} {statement : Statement}
    (h : readBinding c = .ok (statement, next)) : next.rest.length < c.rest.length := by
  unfold readBinding at h
  split at h
  · cases h
  · next key? c₁ hkey =>
    split at h
    · cases h
    · next value? c₂ hassign =>
      split at h
      · cases h
      · next c₃ hend =>
        have hexport := length_skipExport_le c
        have hgap := Cursor.length_skip_le isGap c₁
        have hassign' := length_readAssignment_le.1 _ _ hassign
        have hcomment := Cursor.length_skipComment_le c₂
        have hend' := Cursor.length_endLine?_le hend
        have hnext : next = c₃ := by
          split at h <;> simp only [Except.ok.injEq, Prod.mk.injEq] at h <;> exact h.2.symm
        subst hnext
        rcases readKey_progress hkey with hlt | ⟨-, hsame, cs, hcs⟩
        · omega
        · -- A comment: nothing is read up to it, and then it is skipped.
          rw [← hsame] at hcs hexport
          have hskip : c₁.skip isGap = c₁ := by
            simp only [Cursor.skip, hcs]
            rw [List.takeWhile_cons_of_neg (by decide), List.dropWhile_cons_of_neg (by decide)]
            simp [countBreaks, ← hcs]
          have hnone : readAssignment c₁ = .ok (none, c₁) := by
            simp [readAssignment, hcs]
          rw [hskip, hnone] at hassign
          simp only [Except.ok.injEq, Prod.mk.injEq] at hassign
          obtain ⟨-, rfl⟩ := hassign
          have := Cursor.length_skipComment_lt hcs
          omega

theorem length_readBinding_error {c stuck : Cursor} (h : readBinding c = .error stuck) :
    stuck.rest.length ≤ c.rest.length := by
  unfold readBinding at h
  have hexport := length_skipExport_le c
  split at h
  · next hkey =>
    rw [Except.error.inj h] at hkey
    rw [length_readKey_error hkey]
    exact hexport
  · next key? c₁ hkey =>
    have hle : c₁.rest.length ≤ (skipExport c).rest.length := by
      rcases readKey_progress hkey with hlt | ⟨-, rfl, -⟩
      · exact Nat.le_of_lt hlt
      · exact Nat.le_refl _
    have hgap := Cursor.length_skip_le isGap c₁
    split at h
    · next hassign =>
      rw [Except.error.inj h] at hassign
      have := length_readAssignment_le.2 _ hassign
      omega
    · next value? c₂ hassign =>
      have hassign' := length_readAssignment_le.1 _ _ hassign
      have hcomment := Cursor.length_skipComment_le c₂
      split at h
      · rw [← Except.error.inj h]
        omega
      · split at h <;> cases h

theorem length_readStatement_lt {c : Cursor} (h : c.rest ≠ []) :
    (readStatement c).2.rest.length < c.rest.length := by
  have hpos := List.length_pos_iff.2 h
  have hskip := Cursor.length_skip_le isBlank c
  unfold readStatement
  dsimp only
  split
  · next hnil =>
    rw [hnil]
    exact hpos
  · next hne =>
    have hstart := List.length_pos_iff.2 hne
    split
    · next hok =>
      have := length_readBinding_lt hok
      dsimp only
      omega
    · next stuck herr =>
      have := length_readBinding_error herr
      dsimp only
      by_cases hstuck : stuck.rest = []
      · simp only [Cursor.skipLine, Cursor.skip, Cursor.advance, hstuck, List.dropWhile_nil,
          List.drop_nil, List.length_nil]
        exact hpos
      · have := Cursor.length_skipLine_lt hstuck
        omega

/-! ## The whole text -/

/-- The statements from a cursor to the end of the text. -/
def statementsFrom (c : Cursor) : List Statement :=
  if _h : c.rest = [] then []
  else (readStatement c).1 :: statementsFrom (readStatement c).2
termination_by c.rest.length
decreasing_by exact length_readStatement_lt _h

/-- The text without one byte order mark at its start. -/
def dropMark : List Char → List Char
  | '\ufeff' :: cs => cs
  | cs => cs

def statements (text : String) : List Statement := statementsFrom ⟨1, dropMark text.toList⟩

/-- The key and value of a statement that has a key. -/
def Statement.binding? : Statement → Option (String × Option String)
  | .binding key value => some (key, value)
  | _ => none

/-- The line of a statement that cannot be read. -/
def Statement.malformed? : Statement → Option Nat
  | .malformed line => some line
  | _ => none

/-- The bindings of a text, in order, as they are written. -/
def bindings (text : String) : List (String × Option String) :=
  (statements text).filterMap Statement.binding?

/-- The lines on which a statement starts that cannot be read, in order. -/
def malformedLines (text : String) : List Nat :=
  (statements text).filterMap Statement.malformed?

end Runbook.EnvFile
