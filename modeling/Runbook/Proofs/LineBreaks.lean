import Runbook.Proofs.Endings
import Runbook.Proofs.FileSystem.Creating
import Runbook.Proofs.Rendering
import Runbook.Proofs.ShellLine

/-!
# Where the line of a report breaks

The one-line form of a report goes to the debug journal, an entry for each failure. It is one line
as long as nothing in it breaks. The context never does: every text and byte string in it is a
literal, and a literal has its line breaks escaped (`Text.breaks_literal`), at any depth and also
after it has been cut (`Report.breaks_suffix`). The kind and the message stand in front of it as
they are (`Report.breaks_line`).

Into a message come names of commands, paths, command lines, and what the system says. A command
line is quoted, but quoting for a shell leaves a line break as it is (`Text.breaks_shellLine`). The
paths are those of the schema, and the tools those of the command table, which are all unbroken. So
there are few ways in which the line can break, and `Invocation.Breaks` is the list of them.
-/

namespace Runbook

open Command

namespace Text

/-- Whether a line break stands in the text. -/
def breaks (cs : List Char) : Bool := cs.any isLineEnd

@[simp] theorem breaks_nil : breaks [] = false := rfl

theorem breaks_cons (c : Char) (cs : List Char) : breaks (c :: cs) = (isLineEnd c || breaks cs) :=
  rfl

@[simp] theorem breaks_append (cs ds : List Char) : breaks (cs ++ ds) = (breaks cs || breaks ds) :=
  List.any_append

theorem breaks_eq_false_iff {cs : List Char} :
    breaks cs = false ↔ ∀ c ∈ cs, isLineEnd c = false := by
  simp [breaks]

theorem breaks_of_subset {cs ds : List Char} (h : ds ⊆ cs) (hcs : breaks cs = false) :
    breaks ds = false :=
  breaks_eq_false_iff.mpr fun c hc ↦ breaks_eq_false_iff.mp hcs c (h hc)

theorem breaks_flatMap_of_forall {write : Char → List Char} {cs : List Char}
    (h : ∀ c, breaks (write c) = false) : breaks (cs.flatMap write) = false := by
  rw [breaks_eq_false_iff]
  intro d hd
  obtain ⟨c, -, hc⟩ := List.mem_flatMap.mp hd
  exact breaks_eq_false_iff.mp (h c) d hc

/-! ## Literals -/

theorem breaks_hexDigits (width n : Nat) : breaks (hexDigits width n) = false := by
  have hdigit : ∀ n < 16, isLineEnd (Utf8.hexDigit n) = false := by decide
  induction width generalizing n with
  | zero => rfl
  | succ width ih =>
    rw [hexDigits, breaks_append, ih, breaks_cons, hdigit _ (Nat.mod_lt n (by decide))]
    rfl

theorem breaks_numericEscape (n : Nat) : breaks (numericEscape n) = false := by
  rw [numericEscape]
  split
  · exact breaks_hexDigits 2 n
  · split
    · exact breaks_hexDigits 4 n
    · exact breaks_hexDigits 8 n

theorem IsQuote.not_isLineEnd {quote : Char} (h : IsQuote quote) : isLineEnd quote = false := by
  rcases h with rfl | rfl <;> rfl

theorem breaks_literalChar {plain : Char → Bool} {quote : Char} (hquote : IsQuote quote)
    (c : Char) : breaks (literalChar plain quote c) = false := by
  rw [literalChar]
  split
  · next h =>
    rcases h with rfl | rfl
    · rfl
    · rw [breaks_cons, breaks_cons, hquote.not_isLineEnd]
      rfl
  split
  · rfl
  split
  · rfl
  split
  · rfl
  next hfeed hreturn =>
  split
  · simp [breaks, isLineEnd, hfeed, hreturn]
  · exact breaks_numericEscape c.toNat

theorem breaks_quotedChars (plain : Char → Bool) (cs : List Char) :
    breaks (literalQuote cs :: cs.flatMap (literalChar plain (literalQuote cs))
      ++ [literalQuote cs]) = false := by
  have hquote := isQuote_literalQuote cs
  rw [List.cons_append, breaks_cons, breaks_append,
    breaks_flatMap_of_forall (breaks_literalChar hquote), breaks_cons, hquote.not_isLineEnd]
  rfl

/-- **A literal** has no line break. -/
theorem breaks_literal (cs : List Char) : breaks (literal cs) = false :=
  breaks_quotedChars isPrintable cs

theorem breaks_byteLiteral (bytes : List UInt8) : breaks (byteLiteral bytes) = false :=
  breaks_quotedChars isPlainByte (byteChars bytes)

/-! ## Command lines -/

theorem breaks_shellChar (c : Char) : breaks (shellChar c) = isLineEnd c := by
  rw [shellChar]
  split
  · next h =>
    subst h
    rfl
  · simp [breaks]

theorem breaks_shellWord (word : List Char) : breaks (shellWord word) = breaks word := by
  have hinside : breaks (word.flatMap shellChar) = breaks word := by
    induction word with
    | nil => rfl
    | cons c rest ih =>
      rw [List.flatMap_cons, breaks_append, breaks_shellChar, ih, breaks_cons]
  rw [shellWord]
  split
  · rfl
  · rw [List.cons_append, breaks_cons, breaks_append, hinside]
    simp [breaks, isLineEnd]

/-- **A command line** breaks where one of its words does. -/
theorem breaks_shellLine (words : List (List Char)) :
    breaks (shellLine words) = words.any breaks := by
  rcases words with _ | ⟨word, rest⟩
  · rfl
  · have hrest : breaks (rest.flatMap fun w ↦ ' ' :: shellWord w) = rest.any breaks := by
      induction rest with
      | nil => rfl
      | cons next rest ih =>
        rw [List.flatMap_cons, breaks_append, ih, breaks_cons, breaks_shellWord, List.any_cons]
        rfl
    rw [shellLine_cons, breaks_append, breaks_shellWord, hrest, List.any_cons]

end Text

open Text

/-! ## Values -/

section Joined

variable {α : Type} {write : α → List Char}

theorem breaks_joined {as : List α} (h : ∀ a ∈ as, breaks (write a) = false) :
    breaks (joined write as) = false := by
  have hfurther : ∀ {as : List α}, (∀ a ∈ as, breaks (write a) = false) →
      breaks (further write as) = false := by
    intro as h
    induction as with
    | nil => rfl
    | cons a as ih =>
      obtain ⟨ha, has⟩ := List.forall_mem_cons.mp h
      rw [further_cons, breaks_cons, breaks_cons, breaks_append, ha, ih has]
      rfl
  rcases as with _ | ⟨a, as⟩
  · rfl
  · obtain ⟨ha, has⟩ := List.forall_mem_cons.mp h
    rw [joined, breaks_append, ha, hfurther has]
    rfl

end Joined

theorem breaks_toString_int (n : Int) : breaks (toString n).toList = false := by
  have hdigits : ∀ k : Nat, breaks (Nat.toDigits 10 k) = false := by
    intro k
    rw [breaks_eq_false_iff]
    intro c hc
    have hdigit := Nat.isDigit_of_mem_toDigits (by decide) (by decide) hc
    rw [Bool.eq_false_iff]
    intro hend
    simp only [isLineEnd, Bool.or_eq_true, decide_eq_true_eq] at hend
    rcases hend with rfl | rfl <;> contradiction
  rw [toList_toString_int]
  split
  · exact hdigits _
  · rw [breaks_cons, hdigits]
    rfl

/-- **A value** is written on one line. -/
theorem Value.breaks_render (v : Value) : breaks v.render = false := by
  induction v with
  | text s => rw [render]; exact breaks_literal _
  | int n => rw [render]; exact breaks_toString_int n
  | truth b => cases b <;> rfl
  | null => rfl
  | bytes bs => rw [render]; exact breaks_byteLiteral bs
  | list items ih =>
    rw [render, renderItems_eq_joined, List.cons_append, breaks_cons, breaks_append,
      breaks_joined ih]
    rfl
  | tuple items ih =>
    rw [render, renderItems_eq_joined, List.cons_append, breaks_cons, breaks_append,
      breaks_joined ih]
    split <;> rfl
  | dict entries ih =>
    have hentry : ∀ e ∈ entries, breaks (renderEntry e) = false := by
      intro e he
      obtain ⟨hkey, hv⟩ := ih e he
      rw [renderEntry, breaks_append, hkey, breaks_cons, breaks_cons, hv]
      rfl
    rw [render, renderEntries_eq_joined, List.cons_append, breaks_cons, breaks_append,
      breaks_joined hentry]
    rfl

/-! ## Reports -/

namespace Report

theorem breaks_cut {cs : List Char} (h : breaks cs = false) : breaks (cut cs) = false := by
  rw [cut]
  split
  · rw [breaks_append, breaks_of_subset (List.take_subset _ cs) h]
    rfl
  · exact h

theorem breaks_suffix (context : List (String × Value)) : breaks (suffix context) = false := by
  rw [suffix]
  split
  · rfl
  · rw [breaks_append, breaks_cut (Value.breaks_render _)]
    decide

theorem breaks_line (r : Report) :
    breaks r.line.toList = (breaks r.kind.toList || breaks r.message.toList) := by
  have hcolon : breaks ": ".toList = false := by decide
  simp only [line, String.toList_append, String.toList_ofList, breaks_append, breaks_suffix, hcolon,
    Bool.or_false]

end Report

/-! ## What the system says -/

def SystemError.text : SystemError → String
  | .numbered _ text _ => text
  | .named _ text => text

/-- The number of an error and the name of its file do not break its message. -/
theorem SystemError.breaks_message (e : SystemError) :
    breaks e.message.toList = breaks e.text.toList := by
  have hopen : breaks "[Errno ".toList = false := by decide
  have hclose : breaks "] ".toList = false := by decide
  have hcolon : breaks ": ".toList = false := by decide
  rcases e with ⟨number, text, _ | subject⟩ | ⟨kind, text⟩
  · simp only [message, SystemError.text, String.toList_append, breaks_append, hopen, hclose,
      breaks_toString_int, Bool.false_or]
  · simp only [message, SystemError.text, Text.quoted, String.toList_append, String.toList_ofList,
      breaks_append, hopen, hclose, hcolon, breaks_toString_int, breaks_literal, Bool.false_or,
      Bool.or_false]
  · rfl

theorem ErrorCode.breaks_text (code : ErrorCode) : breaks code.text.toList = false := by
  cases code <;> decide

/-- The errors with which an operation on the files is answered: the planned ones, and those of the
file system itself. -/
inductive Fault.Answers (faults : List Fault) (operation : Operation) : SystemError → Prop
  /-- The operation is refused on one of its paths. -/
  | planned {f : Fault} (hf : f ∈ faults) (hoperation : f.operation = operation) :
      Answers faults operation (.numbered f.number f.text (some f.path))
  /-- The file system does not admit it. -/
  | own (code : ErrorCode) (subject : String) : Answers faults operation (code.about subject)

/-- Of the errors with which an operation is answered, only a planned one has a text that breaks. -/
theorem Fault.Answers.breaks_text_iff {faults : List Fault} {operation : Operation}
    {cause : SystemError} (h : Answers faults operation cause) :
    breaks cause.text.toList = true ↔ ∃ f ∈ faults, f.operation = operation ∧
      breaks f.text.toList = true ∧ cause = .numbered f.number f.text (some f.path) := by
  constructor
  · intro hbreak
    cases h with
    | planned hf hoperation => exact ⟨_, hf, hoperation, hbreak, rfl⟩
    | own code => exact absurd (code.breaks_text.symm.trans hbreak) Bool.false_ne_true
  · rintro ⟨f, -, -, hbreak, rfl⟩
    exact hbreak

/-- The errors that cut the writing of a file short. -/
inductive Fault.CutsShort (faults : List Fault) : SystemError → Prop
  /-- They are planned, and do not name the file. -/
  | planned {f : Fault} {written : Nat} (hf : f ∈ faults)
      (hoperation : f.operation = .fill written) : CutsShort faults (.numbered f.number f.text none)

theorem Fault.cutsShort_of_shortfall? {faults : List Fault} {path : String} {written : Nat}
    {e : SystemError} (h : shortfall? faults path = some (written, e)) : CutsShort faults e := by
  obtain ⟨f, hf, hwritten⟩ := List.exists_of_findSome?_eq_some h
  split at hwritten
  · next hoperation =>
    split at hwritten
    · obtain ⟨⟨rfl, rfl⟩⟩ := hwritten
      exact .planned hf hoperation
    · contradiction
  · contradiction

theorem Fault.answers_of_error? {faults : List Fault} {operation : Operation} {path : String}
    {e : SystemError} (h : error? faults operation path = some e) : Answers faults operation e := by
  obtain ⟨f, hfind, rfl⟩ := Option.map_eq_some_iff.mp h
  have hf := List.find?_some hfind
  rw [Bool.and_eq_true, beq_iff_eq, beq_iff_eq] at hf
  obtain ⟨hoperation, rfl⟩ := hf
  exact .planned (List.mem_of_find?_eq_some hfind) hoperation

namespace FileSystem

variable {fs : FileSystem} {faults : List Fault} {here : Location} {p : Path}
  {e cause : SystemError}

theorem answers_of_tryDirectory (h : fs.tryDirectory faults here p = .error cause) :
    Fault.Answers faults .mkdir cause := by
  rw [tryDirectory] at h
  split at h
  · next hfault =>
    obtain rfl := Except.error.inj h
    exact Fault.answers_of_error? hfault
  · split at h
    · next code _ =>
      obtain rfl := Except.error.inj h
      exact .own code _
    · contradiction

theorem answers_of_forgive (he : Fault.Answers faults .mkdir e)
    (h : fs.forgive here p e = .error cause) : Fault.Answers faults .mkdir cause := by
  rw [forgive] at h
  split at h
  · next code _ =>
    obtain rfl := Except.error.inj h
    exact .own code _
  · contradiction
  · obtain rfl := Except.error.inj h
    exact he

theorem answers_of_addDirectories (h : (fs.addDirectories faults here p).2 = .error cause) :
    Fault.Answers faults .mkdir cause := by
  have hdecided := fs.decided_addDirectories faults here p
  rcases hmade : fs.addDirectories faults here p with ⟨made, verdict⟩
  rw [hmade] at h hdecided
  obtain rfl : verdict = .error cause := h
  obtain ⟨q, -, hobstructed⟩ := hdecided
  cases hobstructed with
  | refused htry _ hforgive => exact answers_of_forgive (answers_of_tryDirectory htry) hforgive
  | missing htry => exact answers_of_tryDirectory htry

end FileSystem

/-- The errors with which the writing of a file is answered: before the file is open, and after. -/
def Fault.AnswersWrite (faults : List Fault) (cause : SystemError) : Prop :=
  Answers faults .write cause ∨ CutsShort faults cause

theorem answers_of_writeFile {m n : Machine} {p : Path} {content : List UInt8} {failure : Failure}
    (h : writeFile p content m = .ok (.error failure) n) :
    ∃ cause, failure = .notWritten p cause ∧ Fault.AnswersWrite m.faults cause := by
  rw [writeFile] at h
  split at h
  · next cause hfault =>
    obtain ⟨⟨rfl⟩, -⟩ := EStateM.Result.ok.inj h
    exact ⟨cause, rfl, .inl (Fault.answers_of_error? hfault)⟩
  · split at h
    · contradiction
    · dsimp only at h
      split at h
      · next code _ =>
        obtain ⟨⟨rfl⟩, -⟩ := EStateM.Result.ok.inj h
        exact ⟨_, rfl, .inl (.own code _)⟩
      · rcases hshort : Fault.shortfall? m.faults p.toString with _ | ⟨written, e⟩
        · rw [Fault.portion_of_none hshort] at h
          cases h
        · rw [Fault.portion_of_some hshort] at h
          obtain ⟨⟨rfl⟩, -⟩ := EStateM.Result.ok.inj h
          exact ⟨e, rfl, .inr (Fault.cutsShort_of_shortfall? hshort)⟩

/-- A command that fails after its program has ended is answered an error about the schema file. -/
theorem Command.Entry.answers_of_settle {e : Entry} {finished : Finished} {l n : Machine}
    {failure : Failure} (h : e.settle finished l = .ok (.error failure) n) :
    ∃ cause, failure = .notWritten (Path.ofString schemaFile) cause ∧
      Fault.AnswersWrite l.faults cause := by
  by_cases he : e.action = .schema
  · rw [settle, he] at h
    rcases Run.bind_eq_failure_iff.mp h with hwrite | ⟨_, _, _, hpure⟩
    · exact answers_of_writeFile hwrite
    · obtain ⟨⟨⟩, -⟩ := EStateM.Result.ok.inj hpure
  · rw [settle_of_not_schema he] at h
    obtain ⟨⟨⟩, -⟩ := EStateM.Result.ok.inj h

/-! ## Failures -/

/-- The texts that the line of a failure shows as they are. -/
def Failure.shown : Failure → List String
  | .unknownCommand name => [name]
  | .missingTool tool => [tool]
  | .noEnvFile path => [path.toString]
  | .unreadable path cause =>
    [cause.kind, path.toString]
      ++ if cause.isNotFound || cause.isPermission then [] else [cause.message]
  | .notStarted r cause => if cause.isNotFound then [r.program] else r.argv ++ [cause.text]
  | .noDirectory path cause | .notWritten path cause => [path.toString, cause.text]
  | .stdoutFailed _ cause | .stderrFailed _ cause => [cause.text]

theorem Failure.breaks_line (f : Failure) :
    breaks f.report.line.toList = f.shown.any fun text ↦ breaks text.toList := by
  rw [Report.breaks_line]
  -- What is left of the kinds and the labels are fixed words, and none of them breaks.
  cases f with
  | unreadable path cause =>
    rcases hfound : cause.isNotFound <;> rcases hpermitted : cause.isPermission <;>
      simp [report, shown, breaks_cons, isLineEnd, hfound, hpermitted]
  | notStarted r cause =>
    rcases hfound : cause.isNotFound with _ | _
    · simp [report, shown, breaks_cons, isLineEnd, hfound, SystemError.breaks_message,
        Request.commandLine, breaks_shellLine, Function.comp_def]
    · simp [report, shown, breaks_cons, isLineEnd, hfound]
  | _ => simp [report, shown, breaks_cons, isLineEnd, SystemError.breaks_message]

/-! ## Failures of commands -/

theorem Command.keeps_journal_run (word : String) (trailing : List String) :
    Keeps Machine.journal (run word trailing) := by
  rw [run]
  split
  · exact fun _ ↦ rfl
  · exact Entry.keeps_run (fun _ _ ↦ rfl) (fun _ _ ↦ rfl) (fun _ _ ↦ rfl) keeps_journal_start _ _

theorem journal_final_announce (f : Failure) (m : Machine) :
    (Steps.final f.announce m).journal = m.journal ++ ["dispatch failed: " ++ f.report.line] := by
  rw [Steps.final, Failure.announce]
  cases f.callsForHelp <;> rfl

theorem Command.unbroken_of_mem_table : ∀ e ∈ table,
    ∀ word ∈ e.program.toList ++ e.fixedArgs ++ [separatorWord] ++ e.requiresTool.toList,
      breaks word.toList = false := by decide

theorem Command.Entry.breaks_program {e : Entry} (he : e ∈ table) {program : String}
    (hprogram : e.program = some program) : breaks program.toList = false :=
  unbroken_of_mem_table e he program (by simp [hprogram])

theorem Command.Entry.any_breaks_arguments {e : Entry} (he : e ∈ table) (trailing : List String) :
    ((e.arguments trailing).any fun word ↦ breaks word.toList)
      = (e.forwardsArgs && trailing.any fun word ↦ breaks word.toList) := by
  have hfixed : (e.fixedArgs.any fun word ↦ breaks word.toList) = false := by
    rw [List.any_eq_false]
    intro word hword
    exact Bool.eq_false_iff.mp (unbroken_of_mem_table e he word (by simp [hword]))
  have hseparator : breaks separatorWord.toList = false := by decide
  rw [Entry.arguments, List.any_append, List.any_append, hfixed]
  rcases e.separator <;> rcases e.forwardsArgs <;> simp [hseparator]

/-- What breaks the line of a failure with which a run of the invocation on the machine ends. -/
inductive Invocation.Breaks (i : Invocation) (m : Machine) : Failure → Prop
  /-- The name of a command that there is not. -/
  | command (hfind : find? i.command = none) (hbreak : breaks i.command.toList = true) :
      Breaks i m (.unknownCommand i.command)
  /-- A word that is passed on to a program. It is shown if the program is there and still does not
  start. -/
  | argument {e : Entry} {r : Request} {cause : SystemError} {word : String}
      (hfind : find? i.command = some e) (hforwards : e.forwardsArgs = true)
      (hword : word ∈ i.trailing) (hbreak : breaks word.toList = true)
      (hfound : cause.isNotFound = false) : Breaks i m (.notStarted r cause)
  /-- What the system says about a program that is there and still does not start. -/
  | program {r : Request} {cause : SystemError}
      (hrefuses : (m.children.headD .quiet).Refuses r cause) (hfound : cause.isNotFound = false)
      (hbreak : breaks cause.text.toList = true) : Breaks i m (.notStarted r cause)
  /-- What the system says when it refuses to create a directory. -/
  | directory {p : Path} {fault : Fault} (hfault : fault ∈ m.faults)
      (hoperation : fault.operation = .mkdir) (hbreak : breaks fault.text.toList = true) :
      Breaks i m (.noDirectory p (.numbered fault.number fault.text (some fault.path)))
  /-- What the system says when it refuses to write a file. -/
  | file {p : Path} {fault : Fault} (hfault : fault ∈ m.faults)
      (hoperation : fault.operation = .write) (hbreak : breaks fault.text.toList = true) :
      Breaks i m (.notWritten p (.numbered fault.number fault.text (some fault.path)))
  /-- What the system says when it cuts the writing of a file short. -/
  | shortfall {p : Path} {fault : Fault} {written : Nat} (hfault : fault ∈ m.faults)
      (hoperation : fault.operation = .fill written) (hbreak : breaks fault.text.toList = true) :
      Breaks i m (.notWritten p (.numbered fault.number fault.text none))

namespace Invocation

variable {i : Invocation} {m : Machine}

theorem breaks_iff_of_unknownCommand (hfind : find? i.command = none) :
    breaks (Failure.unknownCommand i.command).report.line.toList = true ↔
      i.Breaks m (.unknownCommand i.command) := by
  rw [Failure.breaks_line, Failure.shown, List.any_cons, List.any_nil, Bool.or_false]
  constructor
  · exact .command hfind
  · rintro ⟨⟩
    assumption

theorem breaks_iff_of_missingTool {e : Entry} (he : e ∈ table) {tool : String}
    (htool : e.requiresTool = some tool) :
    breaks (Failure.missingTool tool).report.line.toList = true ↔
      i.Breaks m (.missingTool tool) := by
  have hplain : breaks tool.toList = false := unbroken_of_mem_table e he tool (by simp [htool])
  rw [Failure.breaks_line, Failure.shown, List.any_cons, List.any_nil, Bool.or_false, hplain]
  constructor <;> rintro ⟨⟩

theorem breaks_iff_of_notStarted {e : Entry} (hfind : find? i.command = some e) {r : Request}
    {cause : SystemError} (hprogram : e.program = some r.program)
    (harguments : r.arguments = e.arguments i.trailing)
    (hrefuses : (m.children.headD .quiet).Refuses r cause) :
    breaks (Failure.notStarted r cause).report.line.toList = true ↔
      i.Breaks m (.notStarted r cause) := by
  obtain ⟨he, -⟩ := find?_eq_some_iff.mp hfind
  have hfirst := Entry.breaks_program he hprogram
  have hwords := Entry.any_breaks_arguments he i.trailing
  rw [Failure.breaks_line, Failure.shown]
  rcases hfound : cause.isNotFound with _ | _
  · rw [if_neg Bool.false_ne_true, List.any_append, Request.argv, List.any_cons, hfirst,
      harguments, hwords, List.any_cons, List.any_nil, Bool.or_false, Bool.false_or,
      Bool.or_eq_true, Bool.and_eq_true, List.any_eq_true]
    constructor
    · rintro (⟨hforwards, word, hword, hbreak⟩ | hbreak)
      · exact .argument hfind hforwards hword hbreak hfound
      · exact .program hrefuses hfound hbreak
    · intro h
      cases h with
      | argument hfind' hforwards hword hbreak =>
        obtain rfl := Option.some.inj (hfind.symm.trans hfind')
        exact .inl ⟨hforwards, _, hword, hbreak⟩
      | program _ _ hbreak => exact .inr hbreak
  · rw [if_pos rfl, List.any_cons, hfirst]
    constructor
    · rintro ⟨⟩
    · intro h
      cases h with
      | argument _ _ _ _ hfound' | program _ hfound' => exact absurd hfound (by simp [hfound'])

theorem breaks_iff_of_noDirectory {p : Path} (hp : breaks p.toString.toList = false)
    {cause : SystemError} (hcause : Fault.Answers m.faults .mkdir cause) :
    breaks (Failure.noDirectory p cause).report.line.toList = true ↔
      i.Breaks m (.noDirectory p cause) := by
  rw [Failure.breaks_line, Failure.shown, List.any_cons, List.any_cons, List.any_nil, hp,
    Bool.false_or, Bool.or_false, hcause.breaks_text_iff]
  constructor
  · rintro ⟨fault, hfault, hoperation, hbreak, rfl⟩
    exact .directory hfault hoperation hbreak
  · rintro ⟨⟩
    exact ⟨_, ‹_›, ‹_›, ‹_›, rfl⟩

theorem breaks_iff_of_notWritten {p : Path} (hp : breaks p.toString.toList = false)
    {cause : SystemError} (hcause : Fault.AnswersWrite m.faults cause) :
    breaks (Failure.notWritten p cause).report.line.toList = true ↔
      i.Breaks m (.notWritten p cause) := by
  rw [Failure.breaks_line, Failure.shown, List.any_cons, List.any_cons, List.any_nil, hp,
    Bool.false_or, Bool.or_false]
  constructor
  · intro hbreak
    rcases hcause with hanswer | ⟨hf, hoperation⟩
    · obtain ⟨fault, hfault, hoperation, hbreak, rfl⟩ := hanswer.breaks_text_iff.mp hbreak
      exact .file hfault hoperation hbreak
    · exact .shortfall hf hoperation hbreak
  · intro h
    cases h with
    | file _ _ hbreak | shortfall _ _ hbreak => exact hbreak

theorem breaks_iff_of_stdoutFailed {stream : Stream} {text : String} {cause : SystemError}
    (hwrite : m.stdout.write text = (.error cause, stream)) :
    breaks (Failure.stdoutFailed text cause).report.line.toList = true ↔
      i.Breaks m (.stdoutFailed text cause) := by
  have hcause : breaks cause.text.toList = false := by
    rw [Stream.write] at hwrite
    split at hwrite
    · obtain ⟨⟨⟩, -⟩ := Prod.mk.inj hwrite
    · obtain ⟨⟨rfl⟩, -⟩ := Prod.mk.inj hwrite
      decide
    · obtain ⟨⟨rfl⟩, -⟩ := Prod.mk.inj hwrite
      decide
  rw [Failure.breaks_line, Failure.shown, List.any_cons, List.any_nil, Bool.or_false, hcause]
  constructor <;> rintro ⟨⟩

theorem breaks_iff_of_ends {f : Failure} {n : Machine}
    (h : Command.Ends i.command i.trailing m (.error f) n) :
    breaks f.report.line.toList = true ↔ i.Breaks m f := by
  have hdirectory : breaks (Path.ofString schemaDirectory).toString.toList = false := by decide
  have hfile : breaks (Path.ofString schemaFile).toString.toList = false := by decide
  cases h with
  | unknown hfind => exact breaks_iff_of_unknownCommand hfind
  | unhelped _ _ hwrite => exact breaks_iff_of_stdoutFailed hwrite
  | blocked hfind _ happroach =>
    rcases Entry.approach_of_failure happroach with
      ⟨tool, htool, -, rfl, -⟩ | ⟨-, cause, -, hcause, rfl, -⟩
    · exact breaks_iff_of_missingTool (find?_eq_some_iff.mp hfind).1 htool
    · exact breaks_iff_of_noDirectory hdirectory (FileSystem.answers_of_addDirectories hcause)
  | refused hfind _ happroach hstart =>
    have hready := Entry.approached_of_approach happroach
    obtain ⟨cause, hrefuses, rfl, -⟩ := start_eq_failure_iff.mp hstart
    rw [hready.children_eq] at hrefuses
    exact breaks_iff_of_notStarted hfind hready.program hready.arguments hrefuses
  | @ended e r k _ _ _ _ _ _ happroach hstart hsettle =>
    have hready := Entry.approached_of_approach happroach
    obtain ⟨-, rfl⟩ := start_eq_ok_iff.mp hstart
    have hfaults : (k.afterSpawn r).faults = m.faults :=
      (k.faults_applyAll _).trans (hready.part_eq _ (fun _ _ ↦ rfl) fun _ _ ↦ rfl)
    obtain ⟨cause, rfl, hcause⟩ := Entry.answers_of_settle hsettle
    rw [hfaults] at hcause
    exact breaks_iff_of_notWritten hfile hcause

theorem final_journal_of_failure {f : Failure} {n : Machine}
    (h : Command.run i.command i.trailing m = .ok (.error f) n) :
    (Steps.final i.run m).journal = m.journal ++ ["dispatch failed: " ++ f.report.line] := by
  have hkept : n.journal = m.journal := by
    have hkeeps := keeps_journal_run i.command i.trailing m
    rw [Steps.final_of_ok h] at hkeeps
    exact hkeeps
  rw [Steps.final_of_ok (run_of_failure h), ← hkept]
  exact journal_final_announce f n

end Invocation

/-- **Where the line of a report breaks.** A failed command adds one entry to the debug journal,
the line of its report. That line breaks exactly in these cases: at the name of a command that there
is not; at a word for a program that is there and does not start; and at what the system says about
such a program, about a directory or about a file that cannot be opened or filled. Nothing else that
a report shows can break it, whatever the machine. -/
theorem report_line_breaks {i : Invocation} {m n : Machine} {f : Failure}
    (h : Command.run i.command i.trailing m = .ok (.error f) n) :
    (Steps.final i.run m).journal = m.journal ++ ["dispatch failed: " ++ f.report.line] ∧
      (breaks f.report.line.toList = true ↔ i.Breaks m f) :=
  ⟨Invocation.final_journal_of_failure h, Invocation.breaks_iff_of_ends (ends_of_run h)⟩

/-- A program that is not permitted to start breaks the line with a word that was passed to it. -/
theorem report_line_breaks_build :
    ∃ f n, Command.run "build" ["a\nb"] { children := [.refused 13 "Permission denied"] }
        = .ok (.error f) n ∧
      breaks f.report.line.toList = true := by
  obtain ⟨r, n, hrun⟩ : ∃ r n,
      Command.run "build" ["a\nb"] { children := [.refused 13 "Permission denied"] }
        = .ok (.error (.notStarted r (.numbered 13 "Permission denied" (some "cargo")))) n :=
    ⟨_, _, rfl⟩
  obtain ⟨e, hfind, hforwards⟩ : ∃ e, find? "build" = some e ∧ e.forwardsArgs = true :=
    ⟨_, rfl, rfl⟩
  refine ⟨_, n, hrun, (report_line_breaks (i := ⟨"build", ["a\nb"]⟩) hrun).2.mpr ?_⟩
  exact .argument hfind hforwards (List.mem_singleton.mpr rfl) rfl rfl

/-- The name of a command that there is not breaks the line of its report. -/
theorem report_line_broken :
    ∃ f n, Command.run "a\nb" [] {} = .ok (.error f) n ∧
      breaks f.report.line.toList = true := by
  refine ⟨_, _, rfl, ?_⟩
  rw [Failure.breaks_line]
  rfl

end Runbook
