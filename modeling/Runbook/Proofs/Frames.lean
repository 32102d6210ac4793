import Runbook.Proofs.Steps

/-!
# What single steps do

For every step of a run, what comes out of it and which parts of the machine it leaves alone. The
parts are not listed one by one: a step keeps *every* part that does not look at the fields it
writes to, and which fields those are is said by the hypotheses of its lemma. Telling something
writes to standard error, loading an env file tells and does nothing else, creating a directory and
writing a file change the files.

The files behind `createDirectory` and `writeFile` are those that the operations on file systems
give, whether or not they succeed: a directory that was created on the way to a failure is there.
-/

namespace Runbook

variable {γ : Type}

/-! ## Parts of a machine -/

def IgnoresStderr (part : Machine → γ) : Prop :=
  ∀ m stream, part { m with stderr := stream } = part m

def IgnoresStdout (part : Machine → γ) : Prop :=
  ∀ m stream, part { m with stdout := stream } = part m

def IgnoresJournal (part : Machine → γ) : Prop :=
  ∀ m messages, part { m with journal := messages } = part m

def IgnoresFiles (part : Machine → γ) : Prop :=
  ∀ m files, part { m with files := files } = part m

variable {part : Machine → γ}

/-! ## Output -/

theorem keeps_tell (herr : IgnoresStderr part) (text : String) : Keeps part (tell text) :=
  fun m ↦ herr m _

theorem keeps_mustTell (herr : IgnoresStderr part) (text : String) :
    Keeps part (mustTell text) := by
  intro m
  rw [Steps.final, mustTell]
  rcases m.stderr.write text with ⟨_ | _, stream⟩
  · exact herr m stream
  · exact herr m stream

theorem keeps_printOut (hout : IgnoresStdout part) (text : String) : Keeps part (printOut text) :=
  fun m ↦ hout m _

theorem keeps_note (hjournal : IgnoresJournal part) (message : String) :
    Keeps part (note message) :=
  fun m ↦ hjournal m _

theorem keeps_announce (herr : IgnoresStderr part) (hjournal : IgnoresJournal part) (f : Failure) :
    Keeps part f.announce := by
  refine (keeps_note hjournal _).bind fun _ ↦ (keeps_tell herr _).bind fun _ ↦ ?_
  split
  · exact ((keeps_tell herr _).bind fun _ ↦ keeps_tell herr _).bind fun _ ↦ .pure _
  · exact .pure _

theorem announce_apply (f : Failure) (m : Machine) :
    f.announce m = .ok 1 (Steps.final f.announce m) := by
  rw [Steps.final, Failure.announce]
  cases f.callsForHelp <;> rfl

theorem keeps_tellAbort (herr : IgnoresStderr part) : Keeps part CommandLine.tellAbort :=
  (keeps_mustTell herr _).bind fun _ ↦ (keeps_mustTell herr _).bind fun _ ↦ .pure _

/-! ## Loading an env file -/

/-- The stream after some lines are written to it, whether or not they arrive. -/
def Stream.writeLines (s : Stream) (lines : List String) : Stream :=
  lines.foldl (fun s line ↦ (s.write (line ++ "\n")).2) s

theorem Stream.write_of_sound {s : Stream} (h : s.state = .sound) (text : String) :
    s.write text = (.ok (), { s with written := s.written ++ text }) := by
  rw [write, h]

theorem Stream.writeLines_of_sound {s : Stream} (h : s.state = .sound) (lines : List String) :
    s.writeLines lines
      = { s with written := s.written ++ String.join (lines.map (· ++ "\n")) } := by
  rw [writeLines]
  induction lines generalizing s with
  | nil => simp
  | cons line rest ih =>
    have hnext : Stream.state { s with written := s.written ++ (line ++ "\n") } = .sound := h
    rw [List.foldl_cons, write_of_sound h]
    exact (ih hnext).trans (by simp [String.append_assoc])

theorem forM_tell_apply (lines : List String) (m : Machine) :
    (lines.forM fun line ↦ tell (line ++ "\n")) m
      = .ok () { m with stderr := m.stderr.writeLines lines } := by
  induction lines generalizing m with
  | nil => rfl
  | cons line rest ih =>
    have hline : tell (line ++ "\n") m
        = .ok () { m with stderr := (m.stderr.write (line ++ "\n")).2 } := rfl
    exact (Steps.bind_of_ok (fun _ ↦ rest.forM fun line ↦ tell (line ++ "\n")) hline).trans (ih _)

theorem load_of_ok {m : Machine} {name : String} {overlay : Overlay} {lines : List String}
    (h : m.envOverlay name = .ok (overlay, lines)) :
    Overlay.load name m = .ok overlay { m with stderr := m.stderr.writeLines lines } := by
  rw [Overlay.load, h]
  exact Steps.bind_of_ok _ (forM_tell_apply lines m)

theorem load_of_error {m : Machine} {name : String} {escape : Escape}
    (h : m.envOverlay name = .error escape) : Overlay.load name m = .error escape m := by
  rw [Overlay.load, h]

theorem keeps_load (herr : IgnoresStderr part) (name : String) :
    Keeps part (Overlay.load name) := by
  intro m
  rcases h : m.envOverlay name with escape | ⟨overlay, lines⟩
  · rw [Steps.final_of_error (load_of_error h)]
  · rw [Steps.final_of_ok (load_of_ok h)]
    exact herr m _

/-! ## Directories and files -/

/-- The files after the directory of a path was created, and whether that succeeded. -/
def Machine.withDirectory (m : Machine) (p : Path) : FileSystem × Except SystemError Unit :=
  m.files.addDirectories m.faults m.workingDirectory p

theorem createDirectory_of_ok {m n : Machine} {p : Path} {r : Except Failure Path}
    (h : createDirectory p m = .ok r n) :
    r = ((m.withDirectory p).2.mapError (.noDirectory p)).map (fun _ ↦ p) ∧
      n = { m with files := (m.withDirectory p).1 } := by
  rw [createDirectory] at h
  split at h
  · contradiction
  · split at h
    · contradiction
    · obtain ⟨rfl, rfl⟩ := EStateM.Result.ok.inj h
      exact ⟨rfl, rfl⟩

theorem createDirectory_of_answer {m n : Machine} {p made : Path}
    (h : createDirectory p m = .ok (.ok made) n) :
    (m.withDirectory p).2 = .ok () ∧ n = { m with files := (m.withDirectory p).1 } := by
  obtain ⟨hr, hn⟩ := createDirectory_of_ok h
  refine ⟨?_, hn⟩
  rcases hverdict : (m.withDirectory p).2 with cause | _
  · rw [hverdict] at hr
    contradiction
  · rfl

theorem createDirectory_of_failure {m n : Machine} {p : Path} {failure : Failure}
    (h : createDirectory p m = .ok (.error failure) n) :
    ∃ cause, (m.withDirectory p).2 = .error cause ∧ failure = .noDirectory p cause ∧
      n = { m with files := (m.withDirectory p).1 } := by
  obtain ⟨hr, hn⟩ := createDirectory_of_ok h
  rcases hverdict : (m.withDirectory p).2 with cause | _
  · rw [hverdict] at hr
    exact ⟨cause, rfl, Except.error.inj hr, hn⟩
  · rw [hverdict] at hr
    contradiction

theorem FileSystem.missingDepth_le (fs : FileSystem) (faults : List Fault) (here : Location)
    (p : Path) : fs.missingDepth faults here p ≤ p.names.length := by
  fun_induction FileSystem.missingDepth fs faults here p with
  | case1 => exact Nat.zero_le _
  | case2 => exact Nat.zero_le _
  | case3 => exact Nat.zero_le _
  | case4 p e _ _ hne ih =>
    have hpos := List.length_pos_iff.mpr hne
    have hparent : p.parent.names.length = p.names.length - 1 := List.length_dropLast
    omega

theorem createDirectory_of_deep {p : Path} (hnul : p.hasNul = false) {m : Machine}
    (hdeep : FileSystem.depthLimit < m.files.missingDepth m.faults m.workingDirectory p) :
    createDirectory p m = .error .deepDirectories m := by
  rw [createDirectory, hnul, if_neg Bool.false_ne_true, if_pos hdeep]

theorem createDirectory_of_shallow {p : Path} (hnul : p.hasNul = false) {m : Machine}
    (hshallow : ¬FileSystem.depthLimit < m.files.missingDepth m.faults m.workingDirectory p) :
    createDirectory p m = .ok (((m.withDirectory p).2.mapError (.noDirectory p)).map fun _ ↦ p)
      { m with files := (m.withDirectory p).1 } := by
  rw [createDirectory, hnul, if_neg Bool.false_ne_true, if_neg hshallow]
  rfl

theorem exists_createDirectory_eq_ok {p : Path} (hnul : p.hasNul = false)
    (hshort : p.names.length ≤ FileSystem.depthLimit) (m : Machine) :
    ∃ r n, createDirectory p m = .ok r n := by
  have hdepth := Nat.le_trans (m.files.missingDepth_le m.faults m.workingDirectory p) hshort
  exact ⟨_, _, createDirectory_of_shallow hnul (Nat.not_lt.mpr hdepth)⟩

theorem createDirectory_of_error {m n : Machine} {p : Path} {e : Escape}
    (h : createDirectory p m = .error e n) : n = m := by
  rw [createDirectory] at h
  split at h
  · exact (EStateM.Result.error.inj h).2.symm
  · split at h
    · exact (EStateM.Result.error.inj h).2.symm
    · contradiction

theorem keeps_createDirectory (hfiles : IgnoresFiles part) (p : Path) :
    Keeps part (createDirectory p) := by
  intro m
  rcases h : createDirectory p m with ⟨r, n⟩ | ⟨e, n⟩
  · rw [Steps.final_of_ok h, (createDirectory_of_ok h).2]
    exact hfiles m _
  · rw [Steps.final_of_error h, createDirectory_of_error h]

/-- A file can be written: no fault refuses it or cuts it short, and the file system takes it. -/
def Machine.CanWrite (m : Machine) (p : Path) (content : List UInt8) : Prop :=
  Fault.error? m.faults .write p.toString = none ∧
    Fault.shortfall? m.faults p.toString = none ∧
    ∃ files, m.files.write (m.route p) content = .ok files

/-- How the files can be left by a write that fails. -/
inductive Machine.Spoils (m : Machine) (p : Path) (content : List UInt8) : FileSystem → Prop
  /-- The file could not be opened, and nothing has changed. -/
  | unopened (h : (Fault.error? m.faults .write p.toString).isSome = true ∨
        ∃ code, m.files.write (m.route p) content = .error code) :
      Spoils m p content m.files
  /-- The file was opened, and holds the first bytes. -/
  | short {written : Nat} {e : SystemError} {files : FileSystem}
      (hpermitted : Fault.error? m.faults .write p.toString = none)
      (hshort : Fault.shortfall? m.faults p.toString = some (written, e))
      (hwrite : m.files.write (m.route p) (content.take written) = .ok files) :
      Spoils m p content files

theorem Fault.portion_of_none {faults : List Fault} {path : String}
    (h : shortfall? faults path = none) (content : List UInt8) :
    portion faults path content = (content, .ok ()) := by
  rw [portion, h]

theorem Fault.portion_of_some {faults : List Fault} {path : String} {written : Nat}
    {e : SystemError} (h : shortfall? faults path = some (written, e)) (content : List UInt8) :
    portion faults path content = (content.take written, .error e) := by
  rw [portion, h]

theorem writeFile_of_ok {m n : Machine} {p : Path} {content : List UInt8}
    {r : Except Failure Path} (h : writeFile p content m = .ok r n) :
    n = { m with files := n.files } ∧
      (r = .ok p ∧ m.CanWrite p content ∧ m.files.write (m.route p) content = .ok n.files ∨
        (∃ cause, r = .error (.notWritten p cause)) ∧ ¬m.CanWrite p content ∧
          m.Spoils p content n.files) := by
  rw [writeFile] at h
  split at h
  · next e hfault =>
    obtain ⟨rfl, rfl⟩ := EStateM.Result.ok.inj h
    refine ⟨rfl, .inr ⟨⟨e, rfl⟩, ?_, .unopened (.inl (by rw [hfault, Option.isSome_some]))⟩⟩
    rintro ⟨hnone, -⟩
    exact absurd (hfault.symm.trans hnone) (Option.some_ne_none e)
  · next hfault =>
    split at h
    · contradiction
    · -- The file is opened, and the bytes that count are all of them or those before a shortfall.
      rcases hshort : Fault.shortfall? m.faults p.toString with _ | ⟨written, e⟩
      · rw [Fault.portion_of_none hshort] at h
        dsimp only at h
        rcases hwrite : m.files.write (m.route p) content with code | files
        · rw [hwrite] at h
          obtain ⟨rfl, rfl⟩ := EStateM.Result.ok.inj h
          refine ⟨rfl, .inr ⟨⟨_, rfl⟩, ?_, .unopened (.inr ⟨code, hwrite⟩)⟩⟩
          rintro ⟨-, -, files, hfiles⟩
          rw [hwrite] at hfiles
          contradiction
        · rw [hwrite] at h
          obtain ⟨rfl, rfl⟩ := EStateM.Result.ok.inj h
          exact ⟨rfl, .inl ⟨rfl, ⟨hfault, hshort, files, hwrite⟩, rfl⟩⟩
      · have hcannot : ¬m.CanWrite p content := by
          rintro ⟨-, hnone, -⟩
          exact absurd (hshort.symm.trans hnone) (Option.some_ne_none _)
        rw [Fault.portion_of_some hshort] at h
        dsimp only at h
        rcases hwrite : m.files.write (m.route p) (content.take written) with code | files
        · rw [hwrite] at h
          obtain ⟨rfl, rfl⟩ := EStateM.Result.ok.inj h
          have hcode := FileSystem.write_eq_error hwrite content
          exact ⟨rfl, .inr ⟨⟨_, rfl⟩, hcannot, .unopened (.inr ⟨code, hcode⟩)⟩⟩
        · rw [hwrite] at h
          obtain ⟨rfl, rfl⟩ := EStateM.Result.ok.inj h
          exact ⟨rfl, .inr ⟨⟨e, rfl⟩, hcannot, .short hfault hshort hwrite⟩⟩

theorem exists_writeFile_eq_ok {p : Path} (hnul : p.hasNul = false) (content : List UInt8)
    (m : Machine) : ∃ r n, writeFile p content m = .ok r n := by
  rw [writeFile]
  split
  · exact ⟨_, _, rfl⟩
  · rw [if_neg (by simp [hnul])]
    dsimp only
    split
    · exact ⟨_, _, rfl⟩
    · exact ⟨_, _, rfl⟩

theorem writeFile_of_error {m n : Machine} {p : Path} {content : List UInt8} {e : Escape}
    (h : writeFile p content m = .error e n) : n = m := by
  rw [writeFile] at h
  split at h
  · contradiction
  · split at h
    · exact (EStateM.Result.error.inj h).2.symm
    · dsimp only at h
      split at h <;> contradiction

theorem keeps_writeFile (hfiles : IgnoresFiles part) (p : Path) (content : List UInt8) :
    Keeps part (writeFile p content) := by
  intro m
  rcases h : writeFile p content m with ⟨r, n⟩ | ⟨e, n⟩
  · rw [Steps.final_of_ok h, (writeFile_of_ok h).1]
    exact hfiles m n.files
  · rw [Steps.final_of_error h, writeFile_of_error h]

end Runbook
