import Runbook.Proofs.EnvFile.Influence
import Runbook.Proofs.EnvFile.Transcript
import Runbook.Proofs.Utf8

/-!
# How the lines of a file are ended

Lines may be ended by a line feed, by a carriage return, or by both, and a text is the same text in
all three spellings. Reading a file makes its line ends uniform before anything else looks at it
(`Text.LineEnd.unifyBreaks_spell`), so the reader of env files, which counts lines, takes line ends
for blanks, and lets quoted values run over them, never sees how they were spelled.

Two file systems that differ in nothing else (`FileSystem.SameTexts`) have the same outline, so an
env file is looked up at the same place in both; what is read there is the same text
(`Machine.readEnvText_of_sameTexts`), and so the overlay and the lines that tell about it are the
same. From there on the files are looked at only up to their bytes, and the rest of a run goes the
same way on both.
-/

namespace Runbook

open Command

/-! ## Spellings of a text -/

namespace Text

/-- The ways to end a line. -/
inductive LineEnd where
  /-- A line feed. -/
  | feed
  /-- A carriage return and a line feed. -/
  | both
  /-- A carriage return. -/
  | carriage
deriving DecidableEq, Repr

namespace LineEnd

def chars : LineEnd → List Char
  | .feed => ['\n']
  | .both => ['\r', '\n']
  | .carriage => ['\r']

/-- The text with all its lines ended in one way. -/
def spell (e : LineEnd) (cs : List Char) : List Char :=
  cs.flatMap fun c ↦ if c = '\n' then e.chars else [c]

/-- The bytes of a text with all its lines ended in one way. -/
def encode (e : LineEnd) (text : String) : List UInt8 :=
  Utf8.encode (String.ofList (e.spell text.toList))

end LineEnd

theorem unifyBreaks_cons {c : Char} (hc : c ≠ '\r') (cs : List Char) :
    unifyBreaks (c :: cs) = c :: unifyBreaks cs := by
  rw [unifyBreaks, if_neg hc]
  rintro rest rfl
  exact absurd rfl hc

theorem unifyBreaks_carriage {cs : List Char} (hcs : cs.head? ≠ some '\n') :
    unifyBreaks ('\r' :: cs) = '\n' :: unifyBreaks cs := by
  rw [unifyBreaks, if_pos rfl]
  rintro rest - rfl
  exact hcs rfl

namespace LineEnd

theorem head?_spell_carriage (cs : List Char) : (carriage.spell cs).head? ≠ some '\n' := by
  cases cs with
  | nil => simp [spell]
  | cons c rest =>
    rw [spell, List.flatMap_cons]
    split
    · simp [chars]
    · next hc => simpa using hc

/-- However the lines of a text are ended, it is the same text with uniform line ends. -/
theorem unifyBreaks_spell (e : LineEnd) {cs : List Char} (h : '\r' ∉ cs) :
    unifyBreaks (e.spell cs) = cs := by
  induction cs with
  | nil => rfl
  | cons c rest ih =>
    rw [List.mem_cons, not_or] at h
    have hrest := ih h.2
    by_cases hc : c = '\n'
    · subst hc
      have hcons : e.spell ('\n' :: rest) = e.chars ++ e.spell rest := by
        rw [spell, List.flatMap_cons, if_pos rfl, spell]
      rw [hcons]
      cases e with
      | feed => rw [chars, List.singleton_append, unifyBreaks_cons (by decide), hrest]
      | both => rw [chars, List.cons_append, List.singleton_append, unifyBreaks, hrest]
      | carriage =>
        rw [chars, List.singleton_append, unifyBreaks_carriage (head?_spell_carriage rest), hrest]
    · have hcons : e.spell (c :: rest) = c :: e.spell rest := by
        rw [spell, List.flatMap_cons, if_neg hc, List.singleton_append, spell]
      rw [hcons, unifyBreaks_cons (Ne.symm h.1), hrest]

end LineEnd

end Text

/-! ## Files with the same texts -/

/-- The bytes of two files spell texts that are the same with uniform line ends. -/
inductive SameText (bytes bytes' : List UInt8) : Prop
  /-- Both are texts. -/
  | intro {cs cs' : List Char} (h : Text.Utf8.decode bytes = .ok cs)
    (h' : Text.Utf8.decode bytes' = .ok cs') (hsame : Text.unifyBreaks cs' = Text.unifyBreaks cs)

namespace FileSystem

/-- The file systems differ at most in how the lines of their files are ended. -/
def SameTexts (fs fs' : FileSystem) : Prop :=
  ∀ here, fs'.node? here = fs.node? here ∨ ∃ bytes bytes' executable,
    fs.node? here = some (.file bytes executable) ∧
      fs'.node? here = some (.file bytes' executable) ∧ SameText bytes bytes'

variable {fs fs' : FileSystem}

theorem SameTexts.sameOutline (h : fs.SameTexts fs') : fs.SameOutline fs' := by
  intro here
  obtain hsame | ⟨bytes, bytes', executable, hnode, hnode', -⟩ := h here
  · rw [hsame]
  · rw [hnode, hnode']
    rfl

theorem SameTexts.nodeAt_cases (h : fs.SameTexts fs') (r : Route) :
    fs'.nodeAt r = fs.nodeAt r ∨ ∃ bytes bytes' executable,
      fs.nodeAt r = .ok (.file bytes executable) ∧
        fs'.nodeAt r = .ok (.file bytes' executable) ∧ SameText bytes bytes' := by
  rw [nodeAt, nodeAt, h.sameOutline.locate_eq]
  rcases fs.locate r with e | here
  · exact .inl rfl
  · dsimp only
    obtain hsame | ⟨bytes, bytes', executable, hnode, hnode', htext⟩ := h here
    · exact .inl (by rw [hsame])
    · exact .inr ⟨bytes, bytes', executable, by rw [hnode], by rw [hnode'], htext⟩

theorem sameTexts_put (fs : FileSystem) (place : Location) (executable : Bool) {text : String}
    (htext : '\r' ∉ text.toList) (e e' : Text.LineEnd) :
    (fs.put place (.file (e.encode text) executable)).SameTexts
      (fs.put place (.file (e'.encode text) executable)) := by
  have hdecode : ∀ e : Text.LineEnd,
      Text.Utf8.decode (e.encode text) = .ok (e.spell text.toList) := by
    intro e
    rw [Text.LineEnd.encode, Text.Utf8.decode_encode, String.toList_ofList]
  intro here
  rw [node?_put, node?_put]
  split
  · exact .inl rfl
  split
  · refine .inr ⟨_, _, executable, rfl, rfl, .intro (hdecode e) (hdecode e') ?_⟩
    rw [Text.LineEnd.unifyBreaks_spell e' htext, Text.LineEnd.unifyBreaks_spell e htext]
  · exact .inl rfl

end FileSystem

/-! ## Loading -/

section Root

variable {m : Machine} {files : FileSystem}

theorem Machine.resolve_of_sameOutline (h : m.files.SameOutline files) (p : Path) :
    resolve { m with files := files } p = m.resolve p := by
  rw [resolve, resolve]
  dsimp only
  rw [h.resolve_eq]
  split
  · rfl
  split
  · rfl
  · rfl
  · next stuck _ =>
    have hsame : pathOf { m with files := files } stuck = m.pathOf stuck := rfl
    rw [hsame]
    rcases m.pathOf stuck with escape | path
    · rfl
    · have hroute : route { m with files := files } path = m.route path := rfl
      simp only [bind, Except.bind, hroute]
      obtain hnode | ⟨bytes, bytes', executable, hnode, hnode'⟩ := h.nodeAt_cases (m.route path)
      · rw [hnode]
      · rw [hnode, hnode']

theorem nearestProject_of_sameOutline {fs fs' : FileSystem} (h : fs.SameOutline fs')
    (anchor : Anchor) (here : Location) :
    nearestProject fs' anchor here = nearestProject fs anchor here := by
  induction here with
  | nil => rfl
  | cons name above ih => rw [nearestProject, nearestProject, h.exists?_eq, ih]

namespace Machine

theorem toolRoot_of_sameOutline (h : m.files.SameOutline files) :
    toolRoot { m with files := files } = m.toolRoot := by
  have hproject : projectRoot { m with files := files } = m.projectRoot := by
    simp only [projectRoot, resolve_of_sameOutline h, nearestProject_of_sameOutline h]
  simp only [toolRoot, hproject, resolve_of_sameOutline h]

theorem envPath_of_sameOutline (h : m.files.SameOutline files) (name : String) :
    envPath { m with files := files } name = m.envPath name := by
  rw [envPath, envPath, toolRoot_of_sameOutline h]

/-- **Reading.** How the lines of a file are ended cannot be read from it. -/
theorem readEnvText_of_sameTexts (h : m.files.SameTexts files) (p : Path) :
    readEnvText { m with files := files } p = m.readEnvText p := by
  have hroute : route { m with files := files } p = m.route p := rfl
  by_cases hnul : p.hasNul = true
  · rw [readEnvText, readEnvText, isFile, isFile, if_pos hnul, if_pos hnul]
  · obtain hsame | ⟨bytes, bytes', executable, hnode, hnode', htext⟩ :=
      h.nodeAt_cases (m.route p)
    · have hfile : isFile { m with files := files } p = m.isFile p := by
        simp only [isFile, FileSystem.isFile, hroute, hsame]
      have hread : readText { m with files := files } p = m.readText p := by
        simp only [readText, FileSystem.read, hroute, hsame]
      rw [readEnvText, readEnvText, hfile, hread]
    · have hnul := Bool.eq_false_iff.mpr hnul
      have hfile : m.HasFile p bytes := ⟨hnul, executable, hnode⟩
      have hfile' : HasFile { m with files := files } p bytes' := ⟨hnul, executable, hnode'⟩
      obtain ⟨hdecode, hdecode', hunified⟩ := htext
      rw [hfile.readEnvText_eq, hfile'.readEnvText_eq, hdecode, hdecode']
      dsimp only
      rw [hunified]

/-- **Loading.** The overlay and the lines that tell about it are the same. -/
theorem envOverlay_of_sameTexts (h : m.files.SameTexts files) (name : String) :
    envOverlay { m with files := files } name = m.envOverlay name := by
  simp only [envOverlay, envPath_of_sameOutline h.sameOutline, readEnvText_of_sameTexts h]

end Machine

end Root

/-- The machine with a text stored in a file, its lines ended in one way. -/
def Machine.withText (m : Machine) (place : Location) (executable : Bool) (text : String)
    (e : Text.LineEnd) : Machine :=
  { m with files := m.files.put place (.file (e.encode text) executable) }

theorem Machine.finds_readable_of_hasFile {m : Machine} {p : Path} {text : String}
    {e : Text.LineEnd} (htext : '\r' ∉ text.toList) (hfile : m.HasFile p (e.encode text))
    (hpermitted : Fault.error? m.faults .read p.toString = none) : m.Finds p (.readable text) := by
  obtain ⟨hnul, executable, hnode⟩ := hfile
  refine .readable ⟨hnul, hpermitted, _, executable, _, hnode, Text.Utf8.decode_encode _, ?_⟩
  rw [String.toList_ofList, e.unifyBreaks_spell htext, String.ofList_toList]

/-- **Line ends.** Take a text without carriage returns, and store it in a file with its lines ended
in one way or in another. Whatever the file is, loading any env file comes to the same overlay,
every command and every command line come to the same end, and the machines that they leave behind
differ in the bytes of files only: the same is told, and the same programs are started in the same
environments. Where the file is the env file and can be read, the overlay and what is told are those
of the text itself. -/
theorem lineEnds_unseen (m : Machine) (place : Location) (executable : Bool) {text : String}
    (htext : '\r' ∉ text.toList) :
    let k := m.withText place executable text
    (∀ e e' : Text.LineEnd,
      (∀ name, SameOutcome Machine.Resembles (Overlay.load name (k e)) (Overlay.load name (k e'))) ∧
      (∀ word trailing, SameOutcome Machine.Resembles
        (Command.run word trailing (k e)) (Command.run word trailing (k e'))) ∧
      ∀ words, SameOutcome Machine.Resembles
        (CommandLine.run words (k e)) (CommandLine.run words (k e'))) ∧
    ∀ (e : Text.LineEnd) (name : String) (p : Path), (k e).envPath name = .ok p →
      (k e).HasFile p (e.encode text) → Fault.error? m.faults .read p.toString = none →
        (k e).envOverlay name = .ok ((EnvFile.Finding.readable text).overlay m.environment p,
          (EnvFile.Finding.readable text).lines m.environment p) := by
  intro k
  constructor
  · intro e e'
    have htexts : (k e).files.SameTexts (k e').files :=
      m.files.sameTexts_put place executable htext e e'
    have hresembles : (k e).Resembles (k e') := .intro _ _ htexts.sameOutline
    have hload : ∀ name, SameOutcome Machine.Resembles
        (Overlay.load name (k e)) (Overlay.load name (k e')) := fun name ↦
      sameOutcome_load respected_resembles.tell hresembles
        (Machine.envOverlay_of_sameTexts htexts name)
    have hoverlay : ∀ entry : Entry, SameOutcome Machine.Resembles
        (entry.overlay (k e)) (entry.overlay (k e')) := by
      intro entry
      rw [Entry.overlay]
      rcases entry.envFile with _ | name
      · exact .ok _ hresembles
      · exact hload name
    refine ⟨hload, fun word trailing ↦ ?_, fun words ↦ ?_⟩
    · exact respected_resembles.sameOutcome_runCommand trailing hresembles
        fun entry _ ↦ hoverlay entry
    · exact (respected_resembles.sameOutcome_run hresembles
        fun entry _ ↦ hoverlay entry).commandLine respects_mustTell_resembles
  · intro e name p hpath hfile hpermitted
    obtain ⟨r, hread⟩ : ∃ r, (k e).readEnvText p = .ok r := ⟨_, hfile.readEnvText_eq⟩
    have hfinds := Machine.finds_readable_of_hasFile htext hfile hpermitted
    rw [Machine.envOverlay_of_readEnvText hpath hread,
      ← (Machine.finds_iff_eq_ofRead hread _).mp hfinds]
    rfl

/-- A value that runs over a line end, and behind it a line that cannot be read, which is counted as
the third however the lines are ended. -/
theorem lineEnds_unseen_quoted :
    '\r' ∉ "A='x\ny'\n=\n".toList ∧ ∀ e : Text.LineEnd,
      (Machine.withText {} [".env"] false "A='x\ny'\n=\n" e).envOverlay "/.env"
        = .ok (⟨"/.env", [("A", "x\ny")], true⟩, ["Loading env: /.env",
          "python-dotenv could not parse statement starting at line 3"]) := by
  have htext : '\r' ∉ "A='x\ny'\n=\n".toList := by decide
  have hcontents : EnvFile.Contents.ofText [] "A='x\ny'\n=\n" = ⟨[("A", "x\ny")], [], [3]⟩ := by
    decide +kernel
  refine ⟨htext, fun e ↦ ?_⟩
  have hfound : ∀ bytes, (FileSystem.put {} [".env"] (.file bytes false)).nodeAt
      (Path.route [] ⟨.root, [".env"]⟩) = .ok (.file bytes false) := fun bytes ↦
    FileSystem.nodeAt_of_reaches (.file (by decide) rfl) rfl
  have hfile : (Machine.withText {} [".env"] false "A='x\ny'\n=\n" e).HasFile ⟨.root, [".env"]⟩
      (e.encode "A='x\ny'\n=\n") := ⟨by decide, false, hfound _⟩
  rw [(lineEnds_unseen {} [".env"] false htext).2 e "/.env" ⟨.root, [".env"]⟩ rfl hfile rfl,
    EnvFile.Finding.overlay, EnvFile.Finding.lines, hcontents]
  refine congrArg Except.ok ?_
  decide +kernel

end Runbook
