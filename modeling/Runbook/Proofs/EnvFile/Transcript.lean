import Runbook.Proofs.EnvFile.Leaving
import Runbook.Proofs.FileSystem.Reaching

/-!
# What loading an env file tells

Where loading an env file comes back, the machine has found one of three things at the path: a text,
nothing that counts as a file, or a file that has no text. `Machine.Finds` says which by what stands
at the path, whether reading it is refused, and what its bytes are. It does not say in which order
the reader comes upon its obstacles, and yet there is always one finding and never two
(`Machine.finds_iff_eq_ofRead`), so the three cases shut each other out.

The overlay and the lines on standard error are functions of the finding. A text is announced first,
then come the statements that cannot be read, then the keys without a value; the other two are one
line each. **Loading** does nothing else to the machine (`loading_told`).
-/

namespace Runbook

/-! ## Findings -/

/-- What a machine finds at the path of an env file. -/
inductive EnvFile.Finding where
  /-- A file with this text. -/
  | readable (text : String)
  /-- Nothing that counts as a file. -/
  | absent
  /-- A file that has no text. -/
  | unreadable (cause : ReadError)
deriving DecidableEq, Repr

namespace Machine

def HasFile (m : Machine) (p : Path) (bytes : List UInt8) : Prop :=
  p.hasNul = false ∧ ∃ executable, m.files.nodeAt (m.route p) = .ok (.file bytes executable)

/-- What the machine finds at a path. -/
inductive Finds (m : Machine) (p : Path) : EnvFile.Finding → Prop
  /-- A regular file that can be read, with bytes that spell a text. -/
  | readable {text : String} (h : m.HoldsText p text) : Finds m p (.readable text)
  /-- No regular file. -/
  | noFile (h : ∀ bytes, ¬m.HasFile p bytes) : Finds m p .absent
  /-- A regular file of which the reader is told that it is not there. -/
  | gone {bytes : List UInt8} {e : SystemError} (hfile : m.HasFile p bytes)
      (hrefused : Fault.error? m.faults .read p.toString = some e) (hgone : e.isNotFound = true) :
      Finds m p .absent
  /-- A regular file that is refused to the reader for some other reason. -/
  | refused {bytes : List UInt8} {e : SystemError} (hfile : m.HasFile p bytes)
      (hrefused : Fault.error? m.faults .read p.toString = some e) (hthere : e.isNotFound = false) :
      Finds m p (.unreadable (.system e))
  /-- A regular file that can be read, with bytes that spell no text. -/
  | notUtf8 {bytes : List UInt8} {e : Text.Utf8.DecodeError} (hfile : m.HasFile p bytes)
      (hpermitted : Fault.error? m.faults .read p.toString = none)
      (hdecode : Text.Utf8.decode bytes = .error e) : Finds m p (.unreadable (.notUtf8 e))

section Finds

variable {m : Machine} {p : Path} {bytes : List UInt8}

theorem isFile_eq_true_iff_hasFile : m.isFile p = .ok true ↔ ∃ bytes, m.HasFile p bytes := by
  rw [isFile_eq_true_iff]
  constructor
  · rintro ⟨hnul, bytes, h⟩
    exact ⟨bytes, hnul, h⟩
  · rintro ⟨bytes, hnul, h⟩
    exact ⟨hnul, bytes, h⟩

theorem HasFile.readEnvText_eq (h : m.HasFile p bytes) :
    m.readEnvText p = .ok (match Fault.error? m.faults .read p.toString with
      | some e => .error (.unreadable p (.system e))
      | none => match Text.Utf8.decode bytes with
        | .error e => .error (.unreadable p (.notUtf8 e))
        | .ok cs => .ok (String.ofList (Text.unifyBreaks cs))) := by
  rw [readEnvText, isFile_eq_true_iff_hasFile.mpr ⟨bytes, h⟩]
  obtain ⟨hnul, executable, hnode⟩ := h
  exact readText_of_file hnul hnode

theorem readEnvText_of_noFile {r : Except Failure String} (h : ∀ bytes, ¬m.HasFile p bytes)
    (hread : m.readEnvText p = .ok r) : r = .error (.noEnvFile p) := by
  rw [readEnvText] at hread
  split at hread
  · contradiction
  · exact (Except.ok.inj hread).symm
  · next hfile =>
    obtain ⟨bytes, hbytes⟩ := isFile_eq_true_iff_hasFile.mp hfile
    exact absurd hbytes (h bytes)

theorem failure_of_readEnvText {f : Failure} (hread : m.readEnvText p = .ok (.error f)) :
    f = .noEnvFile p ∨ ∃ cause, f = .unreadable p cause := by
  by_cases hfile : ∃ bytes, m.HasFile p bytes
  · obtain ⟨bytes, hfile⟩ := hfile
    rw [hfile.readEnvText_eq] at hread
    have hread := Except.ok.inj hread
    split at hread
    · exact .inr ⟨_, (Except.error.inj hread).symm⟩
    · split at hread
      · exact .inr ⟨_, (Except.error.inj hread).symm⟩
      · contradiction
  · exact .inl (Except.error.inj (readEnvText_of_noFile (not_exists.mp hfile) hread))

theorem exists_finds (m : Machine) (p : Path) : ∃ found, m.Finds p found := by
  by_cases hfile : ∃ bytes, m.HasFile p bytes
  · obtain ⟨bytes, hfile⟩ := hfile
    rcases hrefused : Fault.error? m.faults .read p.toString with _ | e
    · rcases hdecode : Text.Utf8.decode bytes with e | cs
      · exact ⟨_, .notUtf8 hfile hrefused hdecode⟩
      · obtain ⟨hnul, executable, hnode⟩ := hfile
        exact ⟨_, .readable ⟨hnul, hrefused, bytes, executable, cs, hnode, hdecode, rfl⟩⟩
    · rcases hkind : e.isNotFound with _ | _
      · exact ⟨_, .refused hfile hrefused hkind⟩
      · exact ⟨_, .gone hfile hrefused hkind⟩
  · exact ⟨_, .noFile (not_exists.mp hfile)⟩

end Finds

end Machine

/-! ## What the reader makes of a finding -/

/-- The finding behind the outcome of a reader. -/
def EnvFile.Finding.ofRead : Except Failure String → Finding
  | .ok text => .readable text
  | .error f => match f with
    | .unreadable _ cause => if cause.isNotFound then .absent else .unreadable cause
    | _ => .absent

theorem Machine.finds_iff_eq_ofRead {m : Machine} {p : Path} {r : Except Failure String}
    (hread : m.readEnvText p = .ok r) (found : EnvFile.Finding) :
    m.Finds p found ↔ found = .ofRead r := by
  have hunique : ∀ {other}, m.Finds p other → other = .ofRead r := by
    intro other h
    cases h with
    | readable h =>
      obtain rfl := Except.ok.inj ((readEnvText_eq_ok_iff.mpr h).symm.trans hread)
      rfl
    | noFile h =>
      rw [readEnvText_of_noFile h hread]
      rfl
    | gone hfile hrefused hgone =>
      rw [hfile.readEnvText_eq, hrefused] at hread
      obtain rfl := Except.ok.inj hread
      exact (if_pos hgone).symm
    | refused hfile hrefused hthere =>
      rw [hfile.readEnvText_eq, hrefused] at hread
      obtain rfl := Except.ok.inj hread
      exact (if_neg (Bool.eq_false_iff.mp hthere)).symm
    | notUtf8 hfile hpermitted hdecode =>
      rw [hfile.readEnvText_eq, hpermitted, hdecode] at hread
      obtain rfl := Except.ok.inj hread
      rfl
  constructor
  · exact hunique
  · rintro rfl
    obtain ⟨other, hother⟩ := m.exists_finds p
    exact hunique hother ▸ hother

/-! ## The transcript -/

namespace EnvFile.Finding

/-- The overlay that a finding leads to. -/
def overlay (environment : Keyed String) (p : Path) : Finding → Overlay
  | .readable text => ⟨p.toString, (Contents.ofText environment text).values, true⟩
  | .absent | .unreadable _ => ⟨p.toString, [], false⟩

def lines (environment : Keyed String) (p : Path) : Finding → List String
  | .readable text =>
    let contents := Contents.ofText environment text
    ("Loading env: " ++ p.toString) :: contents.complaints ++ contents.warnings p.toString
  | .absent => ["(env file not found, skipping): " ++ p.toString]
  | .unreadable cause =>
    ["(env file unreadable, skipping): " ++ (Failure.unreadable p cause).report.message]

def transcript (environment : Keyed String) (p : Path) (found : Finding) : String :=
  String.join ((found.lines environment p).map (· ++ "\n"))

end EnvFile.Finding

theorem Machine.envOverlay_of_readEnvText {m : Machine} {name : String} {p : Path}
    {r : Except Failure String} (hpath : m.envPath name = .ok p) (hread : m.readEnvText p = .ok r) :
    m.envOverlay name = .ok ((EnvFile.Finding.ofRead r).overlay m.environment p,
      (EnvFile.Finding.ofRead r).lines m.environment p) := by
  rw [envOverlay_of_envPath hpath, hread]
  rcases r with f | text
  · obtain rfl | ⟨cause, rfl⟩ := failure_of_readEnvText hread
    · rfl
    · rw [EnvFile.Finding.ofRead]
      dsimp only
      rw [skippedLine, Failure.isNotFound]
      rcases cause.isNotFound with _ | _ <;> rfl
  · rfl

/-- An env file that does not strand the run has a path, and the reader comes back from it. -/
theorem Machine.exists_readEnvText_eq_ok {m : Machine} {name : String}
    (h : ∀ escape, ¬m.Stranded name escape) :
    ∃ p r, m.envPath name = .ok p ∧ m.readEnvText p = .ok r := by
  rcases hpath : m.envPath name with escape | p
  · obtain ⟨hname, hrootless⟩ := envPath_eq_error_iff.mp hpath
    exact absurd (.rootless hname hrootless) (h escape)
  · rcases hread : m.readEnvText p with escape | r
    · obtain ⟨hnul, hlong, -⟩ := readEnvText_eq_error_iff.mp hread
      exact absurd (.overlong hpath hnul hlong) (h _)
    · exact ⟨p, r, rfl, hread⟩

/-- **Loading an env file, told.** While standard error works, loading comes back exactly where
nothing strands it. Then exactly one thing is found at the path. The overlay is the one of that
finding, and all that has changed is that its lines stand on standard error. -/
theorem loading_told {m : Machine} (hsound : m.stderr.state = .sound) (name : String)
    (overlay : Overlay) (n : Machine) :
    Overlay.load name m = .ok overlay n ↔
      (∀ escape, ¬m.Stranded name escape) ∧
      ∃ p found, m.envPath name = .ok p ∧ (∀ other, m.Finds p other ↔ other = found) ∧
        overlay = found.overlay m.environment p ∧
        n = { m with
          stderr := { m.stderr with
            written := m.stderr.written ++ found.transcript m.environment p } } := by
  have hload : ∀ {p r}, m.envPath name = .ok p → m.readEnvText p = .ok r →
      Overlay.load name m = .ok ((EnvFile.Finding.ofRead r).overlay m.environment p) { m with
        stderr := { m.stderr with
          written := m.stderr.written
            ++ (EnvFile.Finding.ofRead r).transcript m.environment p } } := by
    intro p r hpath hread
    rw [load_of_ok (Machine.envOverlay_of_readEnvText hpath hread),
      Stream.writeLines_of_sound hsound]
    rfl
  constructor
  · intro h
    have hfree : ∀ escape, ¬m.Stranded name escape := by
      intro escape hstranded
      cases (load_of_error (Machine.envOverlay_eq_error_iff.mpr hstranded)).symm.trans h
    obtain ⟨p, r, hpath, hread⟩ := Machine.exists_readEnvText_eq_ok hfree
    obtain ⟨rfl, rfl⟩ := EStateM.Result.ok.inj ((hload hpath hread).symm.trans h)
    exact ⟨hfree, p, .ofRead r, hpath, Machine.finds_iff_eq_ofRead hread, rfl, rfl⟩
  · rintro ⟨hfree, p, found, hpath, hfinds, rfl, rfl⟩
    obtain ⟨p', r, hpath', hread⟩ := Machine.exists_readEnvText_eq_ok hfree
    obtain rfl := Except.ok.inj (hpath'.symm.trans hpath)
    obtain rfl := (hfinds _).mp ((Machine.finds_iff_eq_ofRead hread _).mpr rfl)
    exact hload hpath hread

/-- A file of two lines of which neither can be given a value: the statement that cannot be read is
told first, although it stands behind the key without a value. -/
theorem loading_told_damaged :
    let m : Machine :=
      { files := ⟨.branch ".env" (some (.file [66, 13, 10, 61] false)) .empty .empty⟩ }
    ∃ n, Overlay.load "/.env" m = .ok ⟨"/.env", [], true⟩ n ∧
      n.stderr.written = "Loading env: /.env\n"
        ++ "python-dotenv could not parse statement starting at line 2\n"
        ++ "Skipping malformed line in /.env: B has no value\n" := by
  intro m
  have hpath : m.envPath "/.env" = .ok ⟨.root, [".env"]⟩ := rfl
  have hdecoded : Text.Utf8.decode [66, 13, 10, 61] = .ok ['B', '\r', '\n', '='] := by
    simp +decide [Text.Utf8.decode, Text.Utf8.decodeFrom, Text.Utf8.lead?, Text.Utf8.following]
  have hholds : m.HoldsText ⟨.root, [".env"]⟩ "B\n=" :=
    ⟨by decide, rfl, _, false, _,
      FileSystem.nodeAt_of_reaches (.file (by decide) rfl) rfl, hdecoded, rfl⟩
  have hread := Machine.readEnvText_eq_ok_iff.mpr hholds
  have hfree : ∀ escape, ¬m.Stranded "/.env" escape := by
    intro escape hstranded
    cases (Machine.envOverlay_of_readEnvText hpath hread).symm.trans
      (Machine.envOverlay_eq_error_iff.mpr hstranded)
  have hstatements : EnvFile.statements "B\n=" = [.binding "B" none, .malformed 2] := by
    rw [EnvFile.statements, EnvFile.statementsFrom, dif_neg (by decide), EnvFile.statementsFrom,
      dif_neg (by decide), EnvFile.statementsFrom, dif_pos (by decide)]
    rfl
  have hcontents : EnvFile.Contents.ofText m.environment "B\n=" = ⟨[], ["B"], [2]⟩ := by
    rw [EnvFile.Contents.ofText, EnvFile.resolvedBindings, EnvFile.bindings,
      EnvFile.malformedLines, hstatements]
    rfl
  refine ⟨_, (loading_told rfl "/.env" _ _).mpr
    ⟨hfree, _, _, hpath, Machine.finds_iff_eq_ofRead hread, ?_, rfl⟩, ?_⟩
  · rw [EnvFile.Finding.ofRead, EnvFile.Finding.overlay, hcontents]
    rfl
  · rw [EnvFile.Finding.ofRead, EnvFile.Finding.transcript, EnvFile.Finding.lines, hcontents]
    decide +kernel

end Runbook
