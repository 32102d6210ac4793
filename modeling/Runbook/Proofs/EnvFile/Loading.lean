import Runbook.EnvFile.Overlay

/-!
# Env files and their texts

Loading an env file asks three questions in turn: where the file is, whether a regular file is there
that can be read, and what its text says. `Machine.HoldsText` answers the second without the order
in which the reader meets its obstacles: a regular file stands at the path, reading it is not
refused, and its bytes are UTF-8. Whatever else the reader comes upon, it comes back without a text
(`readEnvText_eq_ok_iff`), and an overlay without a text has no values (`values_of_envOverlay`).
-/

namespace Runbook

/-! ## The text of an env file -/

/-- A regular file stands at the path and can be read, and its bytes spell the text, up to line
breaks, which the text has in their uniform form. -/
structure Machine.HoldsText (m : Machine) (p : Path) (text : String) : Prop where
  /-- The path can be asked for. -/
  nameable : p.hasNul = false
  /-- Reading is not refused. -/
  permitted : Fault.error? m.faults .read p.toString = none
  /-- The bytes of the file are those of the text. -/
  content : ∃ bytes executable cs, m.files.nodeAt (m.route p) = .ok (.file bytes executable) ∧
    Text.Utf8.decode bytes = .ok cs ∧ text = String.ofList (Text.unifyBreaks cs)

namespace Machine

theorem isFile_eq_true_iff {m : Machine} {p : Path} :
    m.isFile p = .ok true ↔
      p.hasNul = false ∧ ∃ bytes executable,
        m.files.nodeAt (m.route p) = .ok (.file bytes executable) := by
  rw [isFile, FileSystem.isFile]
  rcases p.hasNul with _ | _
  · rw [if_neg Bool.false_ne_true]
    rcases m.files.nodeAt (m.route p) with code | node
    · rcases code <;> simp [FileSystem.ask]
    · rcases node <;> simp [FileSystem.ask, Node.isFile]
  · simp

theorem isFile_eq_error_iff {m : Machine} {p : Path} {escape : Escape} :
    m.isFile p = .error escape ↔
      p.hasNul = false ∧ m.files.nodeAt (m.route p) = .error .nameTooLong ∧
        escape = .system (ErrorCode.nameTooLong.about p.toString) := by
  rw [isFile, FileSystem.isFile]
  rcases p.hasNul with _ | _
  · rw [if_neg Bool.false_ne_true]
    rcases m.files.nodeAt (m.route p) with code | node
    · rcases code <;> simp [FileSystem.ask, eq_comm]
    · simp [FileSystem.ask]
  · simp

/-- Reading leaves the run exactly for a NUL character in a path that is not refused beforehand. -/
theorem readText_eq_error_iff {m : Machine} {p : Path} {escape : Escape} :
    m.readText p = .error escape ↔
      Fault.error? m.faults .read p.toString = none ∧ p.hasNul = true ∧ escape = .nulInPath := by
  rw [readText]
  rcases Fault.error? m.faults .read p.toString with _ | e
  · dsimp only
    rcases p.hasNul with _ | _
    · rw [if_neg Bool.false_ne_true]
      rcases m.files.read (m.route p) with code | bytes
      · simp
      · dsimp only
        rcases Text.Utf8.decode bytes with e | cs <;> simp
    · simp [eq_comm]
  · simp

theorem readText_of_file {m : Machine} {p : Path} {bytes : List UInt8} {executable : Bool}
    (hnul : p.hasNul = false)
    (hnode : m.files.nodeAt (m.route p) = .ok (.file bytes executable)) :
    m.readText p = .ok (match Fault.error? m.faults .read p.toString with
      | some e => .error (.unreadable p (.system e))
      | none => match Text.Utf8.decode bytes with
        | .error e => .error (.unreadable p (.notUtf8 e))
        | .ok cs => .ok (String.ofList (Text.unifyBreaks cs))) := by
  rw [readText, FileSystem.read, hnode, hnul, if_neg Bool.false_ne_true]
  dsimp only
  rcases Fault.error? m.faults .read p.toString with _ | e
  · rcases Text.Utf8.decode bytes with e | cs <;> rfl
  · rfl

/-- What is read from an env file is the text that it holds. -/
theorem readEnvText_eq_ok_iff {m : Machine} {p : Path} {text : String} :
    m.readEnvText p = .ok (.ok text) ↔ m.HoldsText p text := by
  constructor
  · intro h
    have hfile : m.isFile p = .ok true := by
      rw [readEnvText] at h
      split at h
      · contradiction
      · obtain ⟨⟩ := h
      · assumption
    obtain ⟨hnul, bytes, executable, hnode⟩ := isFile_eq_true_iff.mp hfile
    rw [readEnvText, hfile] at h
    have htext := Except.ok.inj ((readText_of_file hnul hnode).symm.trans h)
    split at htext
    · contradiction
    · next hpermitted =>
      split at htext
      · contradiction
      · next cs hcs =>
        obtain rfl := Except.ok.inj htext
        exact ⟨hnul, hpermitted, bytes, executable, cs, hnode, hcs, rfl⟩
  · rintro ⟨hnul, hpermitted, bytes, executable, cs, hnode, hcs, rfl⟩
    rw [readEnvText, isFile_eq_true_iff.mpr ⟨hnul, bytes, executable, hnode⟩]
    dsimp only
    rw [readText_of_file hnul hnode, hpermitted, hcs]

/-- Reading an env file leaves the run exactly if its path, or a name on it, is too long. -/
theorem readEnvText_eq_error_iff {m : Machine} {p : Path} {escape : Escape} :
    m.readEnvText p = .error escape ↔
      p.hasNul = false ∧ m.files.nodeAt (m.route p) = .error .nameTooLong ∧
        escape = .system (ErrorCode.nameTooLong.about p.toString) := by
  have hread : m.isFile p = .ok true → m.readEnvText p ≠ .error escape := by
    intro hfile h
    obtain ⟨hnul, -⟩ := isFile_eq_true_iff.mp hfile
    rw [readEnvText, hfile] at h
    obtain ⟨-, hasNul, -⟩ := readText_eq_error_iff.mp h
    exact Bool.false_ne_true (hnul.symm.trans hasNul)
  constructor
  · intro h
    rcases hfile : m.isFile p with escape' | _ | _
    · rw [readEnvText, hfile] at h
      obtain rfl := Except.error.inj h
      exact isFile_eq_error_iff.mp hfile
    · rw [readEnvText, hfile] at h
      contradiction
    · exact absurd h (hread hfile)
  · intro h
    rw [readEnvText, isFile_eq_error_iff.mpr h]

def namedRoot (m : Machine) : String := (m.environment.lookup rootVariable).getD ""

theorem toolRoot_eq (m : Machine) :
    m.toolRoot = if m.namedRoot = "" then m.projectRoot
      else expandHome m.environment (Path.ofString m.namedRoot) >>= m.resolve := rfl

theorem expandHome_of_plain {environment : Keyed String} {name : String} {rest : List String}
    (h : name.toList.head? ≠ some '~') :
    expandHome environment ⟨.relative, name :: rest⟩ = .ok ⟨.relative, name :: rest⟩ := if_pos h

theorem envPath_of_programFile_root {m : Machine} {name : String}
    (hprogram : m.programFile = ⟨.root, []⟩) (hunset : m.environment.lookup rootVariable = none) :
    m.envPath name = .ok (Path.join ⟨.root, []⟩ (Path.ofString name)) := by
  have hresolve : m.resolve ⟨.root, []⟩ = .ok ⟨.root, []⟩ := by
    have hwalked : m.files.resolve m.workingDirectory ⟨.root, []⟩ = .ok .root := by
      rw [FileSystem.resolve, FileSystem.resolveFrom]
      rfl
    rw [resolve, hwalked]
    rfl
  have hroot : m.toolRoot = .ok ⟨.root, []⟩ := by
    have hunnamed : m.namedRoot = "" := by rw [namedRoot, hunset, Option.getD_none]
    rw [toolRoot_eq, if_pos hunnamed, projectRoot, hprogram, hresolve]
    rfl
  rw [envPath, hroot]
  dsimp only [Except.map]
  split
  · next habsolute => rw [Path.join, if_pos habsolute]
  · rfl

theorem envOverlay_of_envPath {m : Machine} {name : String} {p : Path}
    (hpath : m.envPath name = .ok p) :
    m.envOverlay name = match m.readEnvText p with
      | .error escape => .error escape
      | .ok (.error f) => .ok ({ path := p.toString }, [skippedLine p.toString f])
      | .ok (.ok text) =>
        let contents := EnvFile.Contents.ofText m.environment text
        .ok ({ path := p.toString, values := contents.values, loaded := true },
          ("Loading env: " ++ p.toString) :: contents.complaints
            ++ contents.warnings p.toString) := by
  simp only [envOverlay, hpath, bind, Except.bind]
  rcases m.readEnvText p with escape | f | text <;> rfl

theorem exists_envOverlay_eq_ok {m : Machine} {name : String} {p : Path}
    (hpath : m.envPath name = .ok p)
    (hshort : m.files.nodeAt (m.route p) ≠ .error .nameTooLong) :
    ∃ loaded, m.envOverlay name = .ok loaded := by
  rw [envOverlay_of_envPath hpath]
  rcases htext : m.readEnvText p with escape | f | text
  · exact absurd (readEnvText_eq_error_iff.mp htext).2.1 hshort
  · exact ⟨_, rfl⟩
  · exact ⟨_, rfl⟩

theorem overlay_of_envOverlay {m : Machine} {name : String} {overlay : Overlay}
    {lines : List String} (h : m.envOverlay name = .ok (overlay, lines)) :
    ∃ p, m.envPath name = .ok p ∧
      ((∃ text, m.HoldsText p text ∧
          overlay = ⟨p.toString, (EnvFile.Contents.ofText m.environment text).values, true⟩) ∨
        (∀ text, ¬m.HoldsText p text) ∧ overlay = ⟨p.toString, [], false⟩) := by
  rcases hpath : m.envPath name with escape | p
  · rw [envOverlay, hpath] at h
    contradiction
  · refine ⟨p, rfl, ?_⟩
    rw [envOverlay_of_envPath hpath] at h
    rcases htext : m.readEnvText p with escape | f | text
    · rw [htext] at h
      contradiction
    · rw [htext] at h
      obtain ⟨rfl, -⟩ := Prod.mk.inj (Except.ok.inj h)
      refine .inr ⟨fun text hholds ↦ ?_, rfl⟩
      cases htext.symm.trans (readEnvText_eq_ok_iff.mpr hholds)
    · rw [htext] at h
      obtain ⟨rfl, -⟩ := Prod.mk.inj (Except.ok.inj h)
      exact .inl ⟨text, readEnvText_eq_ok_iff.mp htext, rfl⟩

theorem HoldsText.eq {m : Machine} {p : Path} {text text' : String} (h : m.HoldsText p text)
    (h' : m.HoldsText p text') : text = text' := by
  have hsame := (readEnvText_eq_ok_iff.mpr h).symm.trans (readEnvText_eq_ok_iff.mpr h')
  exact Except.ok.inj (Except.ok.inj hsame)

/-- The values of an overlay are those of the text of the env file, and there are none without. -/
theorem values_of_envOverlay {m : Machine} {name : String} {overlay : Overlay}
    {lines : List String} (h : m.envOverlay name = .ok (overlay, lines)) :
    ∃ p, m.envPath name = .ok p ∧
      (∀ text, m.HoldsText p text →
        overlay.values = (EnvFile.Contents.ofText m.environment text).values) ∧
      ((∀ text, ¬m.HoldsText p text) → overlay.values = []) := by
  obtain ⟨p, hpath, ⟨text, hholds, rfl⟩ | ⟨hnone, rfl⟩⟩ := overlay_of_envOverlay h
  · refine ⟨p, hpath, ?_, fun hnone ↦ absurd hholds (hnone text)⟩
    intro text' hholds'
    rw [hholds.eq hholds']
  · exact ⟨p, hpath, fun text hholds ↦ absurd hholds (hnone text), fun _ ↦ rfl⟩

end Machine

end Runbook
