import Runbook.Request

/-!
# Shell lines are read back

The line that a diagnostic shows for an argument vector is meant to be pasted into a shell. So it is
put beside a reader that knows nothing of how the line was made (`ShellReader`): a machine that
takes one character after another and splits a line into words by the rules of a POSIX shell. Blanks
and line feeds separate words, single quotes take everything as it is, double quotes take all but a
few characters, and a backslash takes the next character. A line on which a shell would do more than
split, because of an operator, an expansion, a pattern or a comment, is refused.

A quoted word is one step of the reader for each way in which a character can be written: bare, as
it is between single quotes, or, for the single quote alone, between double quotes with the single
quotes closed around them (`read_shellChar`). Words do not run into one another because each one
leaves the reader outside quotes and the next character is a blank (`read_flatMap_shellWord`). **The
command line** of a request is therefore read as its argument vector (`commandLine_words`).
-/

namespace Runbook.Text

/-! ## Reading a line as a shell does -/

def separatesWords (c : Char) : Bool := " \t\n".toList.contains c

/-- Characters for which a shell does something outside quotes: operators, expansions, patterns. -/
def isActive (c : Char) : Bool := "|&;<>()$`*?[".toList.contains c

/-- Characters for which a shell does something at the start of a word: comments and home
directories. -/
def isActiveFirst (c : Char) : Bool := "#~".toList.contains c

/-- Characters that a backslash protects between double quotes. -/
def isActiveQuoted (c : Char) : Bool := "$`\"\\".toList.contains c

/-- How the next character of a line is taken. -/
inductive Quoting where
  /-- Outside quotes. -/
  | bare
  /-- Outside quotes, behind a backslash. -/
  | escaped
  /-- Between single quotes. -/
  | single
  /-- Between double quotes. -/
  | double
  /-- Between double quotes, behind a backslash. -/
  | doubleEscaped
deriving DecidableEq, Repr

/-- A reader in the middle of a line. -/
structure ShellReader where
  /-- The words that have ended, in order. -/
  words : List (List Char) := []
  /-- The word that has begun. -/
  word? : Option (List Char) := none
  /-- How the next character is taken. -/
  quoting : Quoting := .bare
deriving DecidableEq, Repr

namespace ShellReader

/-- The reader with some characters, or none, added to its word, which begins if there was none. -/
def push (r : ShellReader) (cs : List Char) : ShellReader :=
  { r with word? := some (r.word?.getD [] ++ cs) }

/-- The reader with its word ended, if it has one. -/
def endWord (r : ShellReader) : ShellReader :=
  { r with words := r.words ++ r.word?.toList, word? := none }

def step (r : ShellReader) (c : Char) : Option ShellReader :=
  match r.quoting with
  | .bare =>
    if separatesWords c then some r.endWord
    else if c = '\'' then some { r.push [] with quoting := .single }
    else if c = '"' then some { r.push [] with quoting := .double }
    else if c = '\\' then some { r with quoting := .escaped }
    else if isActive c || (r.word?.isNone && isActiveFirst c) then none
    else some (r.push [c])
  | .escaped =>
    -- A backslash at the end of a line joins it to the next one.
    if c = '\n' then some { r with quoting := .bare }
    else some { r.push [c] with quoting := .bare }
  | .single =>
    if c = '\'' then some { r with quoting := .bare } else some (r.push [c])
  | .double =>
    if c = '"' then some { r with quoting := .bare }
    else if c = '\\' then some { r with quoting := .doubleEscaped }
    else if isActiveQuoted c then none
    else some (r.push [c])
  | .doubleEscaped =>
    if c = '\n' then some { r with quoting := .double }
    else if isActiveQuoted c then some { r.push [c] with quoting := .double }
    else some { r.push ['\\', c] with quoting := .double }

def read (r : ShellReader) (cs : List Char) : Option ShellReader := cs.foldlM step r

/-- The words of a line that ends here. Quotes that are open and a backslash with nothing behind it
leave the line unfinished. -/
def finish (r : ShellReader) : Option (List (List Char)) :=
  if r.quoting = .bare then some r.endWord.words else none

end ShellReader

/-- The words of a line, or nothing if a shell would not just split it. -/
def shellWords (line : List Char) : Option (List (List Char)) :=
  (ShellReader.read {} line).bind ShellReader.finish

/-! ## Reading what was written -/

namespace ShellReader

variable {r : ShellReader}

theorem read_append (r : ShellReader) (cs ds : List Char) :
    r.read (cs ++ ds) = (r.read cs).bind fun r ↦ r.read ds := List.foldlM_append

theorem read_cons (r : ShellReader) (c : Char) (cs : List Char) :
    r.read (c :: cs) = (r.step c).bind fun r ↦ r.read cs := List.foldlM_cons

theorem push_push (r : ShellReader) (cs ds : List Char) :
    (r.push cs).push ds = r.push (cs ++ ds) := by
  simp [push]

theorem step_of_isBareChar (hbare : r.quoting = .bare) {c : Char} (hc : isBareChar c = true) :
    r.step c = some (r.push [c]) := by
  have hcontains : ∀ cs : List Char, cs.any isBareChar = false → cs.contains c = false := by
    intro cs hcs
    rw [Bool.eq_false_iff, ne_eq, List.contains_iff_mem]
    exact fun h ↦ List.any_eq_false.mp hcs c h hc
  have hne : ∀ d, isBareChar d = false → c ≠ d := by
    rintro d hd rfl
    exact Bool.false_ne_true (hd.symm.trans hc)
  have hactive : (isActive c || (r.word?.isNone && isActiveFirst c)) = false := by
    rw [isActive, isActiveFirst, hcontains _ (by decide), hcontains _ (by decide), Bool.and_false,
      Bool.or_false]
  rw [step, hbare]
  dsimp only
  rw [separatesWords, hcontains _ (by decide), if_neg Bool.false_ne_true,
    if_neg (hne _ (by decide)), if_neg (hne _ (by decide)), if_neg (hne _ (by decide)), hactive,
    if_neg Bool.false_ne_true]

/-- If each character comes to itself in the way in which it is written, they all come to the word
that has begun. -/
theorem read_push_flatMap {quoting : Quoting} {write : Char → List Char} {cs : List Char}
    (hwrite : ∀ c ∈ cs, ∀ r : ShellReader, r.quoting = quoting →
      r.read (write c) = some (r.push [c]))
    (hquoting : r.quoting = quoting) (begun : List Char) :
    (r.push begun).read (cs.flatMap write) = some (r.push (begun ++ cs)) := by
  induction cs generalizing begun with
  | nil => rw [List.append_nil]; rfl
  | cons c rest ih =>
    obtain ⟨hc, hrest⟩ := List.forall_mem_cons.mp hwrite
    rw [List.flatMap_cons, read_append, hc (r.push begun) hquoting, Option.bind_some, push_push,
      ih hrest, List.append_assoc]
    rfl

theorem read_push_bare (hbare : r.quoting = .bare) (begun : List Char) {cs : List Char}
    (hcs : ∀ c ∈ cs, isBareChar c = true) :
    (r.push begun).read cs = some (r.push (begun ++ cs)) := by
  have hsingleton : ∀ c ∈ cs, ∀ r : ShellReader, r.quoting = .bare →
      r.read [c] = some (r.push [c]) := by
    intro c hc r hr
    rw [read_cons, step_of_isBareChar hr (hcs c hc)]
    rfl
  have hread := read_push_flatMap hsingleton hbare begun
  rwa [List.flatMap_singleton'] at hread

theorem read_shellChar (hsingle : r.quoting = .single) (c : Char) :
    r.read (shellChar c) = some (r.push [c]) := by
  rw [shellChar]
  split
  · next hc =>
    -- The single quotes are closed, a pair of double quotes holds the quote, and they open again.
    obtain ⟨words, word?, quoting⟩ := r
    obtain rfl : quoting = .single := hsingle
    subst hc
    simp [read, step, push, separatesWords, isActiveQuoted]
  · next hc =>
    rw [read_cons, step, hsingle]
    dsimp only
    rw [if_neg hc]
    rfl

/-- A word is read as it was before it was written, whether or not it has quotes. -/
theorem read_shellWord (hbare : r.quoting = .bare) (word : List Char) :
    r.read (shellWord word) = some (r.push word) := by
  rw [shellWord]
  split
  · next h =>
    rw [Bool.and_eq_true, Bool.not_eq_true', List.isEmpty_eq_false_iff, List.all_eq_true] at h
    obtain ⟨c, rest, rfl⟩ := List.exists_cons_of_ne_nil h.1
    have hrest := fun d hd ↦ h.2 d (List.mem_cons_of_mem c hd)
    rw [read_cons, step_of_isBareChar hbare (h.2 c List.mem_cons_self), Option.bind_some,
      read_push_bare hbare _ hrest]
    rfl
  · have hopen : r.step '\'' = some { r.push [] with quoting := .single } := by
      rw [step, hbare]
      rfl
    have hinside : ShellReader.read { r.push [] with quoting := .single } (word.flatMap shellChar)
        = some { r.push word with quoting := .single } :=
      read_push_flatMap (r := { r with quoting := .single })
        (fun c _ _ hsingle ↦ read_shellChar hsingle c) rfl []
    have hclose : ShellReader.step { r.push word with quoting := .single } '\''
        = some { r.push word with quoting := .bare } := rfl
    rw [List.cons_append, read_cons, hopen, Option.bind_some, read_append, hinside,
      Option.bind_some, read_cons, hclose, Option.bind_some, ← hbare]
    rfl

theorem step_space (hbare : r.quoting = .bare) : r.step ' ' = some r.endWord := by
  rw [step, hbare]
  rfl

/-- Words with a space before each of them end the word that has begun, and follow it. -/
theorem read_flatMap_shellWord (hbare : r.quoting = .bare) {word : List Char}
    (hword : r.word? = some word) (words : List (List Char)) :
    (r.read (words.flatMap fun w ↦ ' ' :: shellWord w)).bind finish
      = some (r.words ++ word :: words) := by
  induction words generalizing r word with
  | nil =>
    have hfinish : r.finish = some (r.words ++ r.word?.toList) := if_pos hbare
    rw [hword] at hfinish
    exact hfinish
  | cons next rest ih =>
    have hnext : r.endWord.read (shellWord next) = some (r.endWord.push next) :=
      read_shellWord (r := r.endWord) hbare next
    have hended : r.endWord.words = r.words ++ [word] := by
      rw [endWord, hword]
      rfl
    rw [List.flatMap_cons, List.cons_append, read_cons, step_space hbare, Option.bind_some,
      read_append, hnext, Option.bind_some, ih (r := r.endWord.push next) hbare rfl, push, hended,
      List.append_assoc, List.singleton_append]
    rfl

end ShellReader

theorem shellLine_cons (word : List Char) (words : List (List Char)) :
    shellLine (word :: words) = shellWord word ++ words.flatMap fun w ↦ ' ' :: shellWord w := by
  induction words generalizing word with
  | nil => simp [shellLine]
  | cons next rest ih =>
    rw [List.flatMap_cons, List.cons_append, ← ih]
    simp [shellLine, List.intercalate_cons_cons]

/-- **The line** of some words is split into these words again. -/
theorem shellWords_shellLine (words : List (List Char)) :
    shellWords (shellLine words) = some words := by
  rcases words with _ | ⟨word, rest⟩
  · rfl
  · have hfirst := ShellReader.read_shellWord (r := {}) rfl word
    rw [shellWords, shellLine_cons, ShellReader.read_append, hfirst, Option.bind_some]
    exact ShellReader.read_flatMap_shellWord rfl rfl rest

example : shellWords (shellLine ["a=b".toList, [], "it's $x\n".toList])
    = some ["a=b".toList, [], "it's $x\n".toList] := by decide

end Runbook.Text

namespace Runbook

/-- **The command line.** A shell splits it into the argument vector, so the command lines of two
requests are the same exactly if they start the same program with the same arguments. -/
theorem commandLine_words :
    (∀ r : Request, Text.shellWords r.commandLine.toList = some (r.argv.map String.toList)) ∧
      ∀ r s : Request, r.commandLine = s.commandLine ↔ r.argv = s.argv := by
  have hwords : ∀ r : Request,
      Text.shellWords r.commandLine.toList = some (r.argv.map String.toList) := by
    intro r
    rw [Request.commandLine, String.toList_ofList, Text.shellWords_shellLine]
  refine ⟨hwords, fun r s ↦ ⟨fun h ↦ ?_, fun h ↦ ?_⟩⟩
  · have hsame := (hwords r).symm.trans (h ▸ hwords s)
    exact (List.map_inj_right fun _ _ ↦ String.toList_inj.mp).mp (Option.some.inj hsame)
  · rw [Request.commandLine, Request.commandLine, h]

end Runbook
