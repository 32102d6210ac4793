import Runbook.Proofs.EnvFile.Leaving
import Runbook.Proofs.FileSystem.Canonical
import Runbook.Proofs.FileSystem.Growth

/-!
# The nearest project

If the environment names no tool root, it is looked for from the program upwards. What the search is
for can be said without it: `IsNearestProject` is about all directories around the program, the root
of the file system apart, that hold a project file, and asks for the deepest of them. `ProjectFile`
says what it is to hold one, by the way on which a path leads to its end, so that a link counts for
what it leads to.

The search goes from a directory to the one around it. A directory that holds a project file is the
nearest one from there (`Nearest.here`), and one that holds none has the same nearest one as its
parent (`Nearest.above`). These are the two steps, and the search is an induction over them
(`nearest_of_nearestProject`). Nothing has to be known about links: one that leads nowhere, or in a
circle, only makes a project file one that is not there.

The search can be left only where the path of a project file is too long to be asked about.
-/

namespace Runbook

namespace Path

theorem isOn_iff {q p : Path} (hne : p.names ≠ []) : q.IsOn p ↔ q = p ∨ q.IsOn p.parent := by
  obtain ⟨anchor, names⟩ := p
  obtain ⟨anchor', names'⟩ := q
  obtain ⟨front, name, rfl⟩ := (List.eq_nil_or_concat names).resolve_left hne
  simp only [IsOn, parent, List.concat_eq_append, List.dropLast_concat, Path.mk.injEq,
    List.prefix_concat_iff]
  exact and_or_left

theorem names_eq_nil_of_isOn {q p : Path} (h : q.IsOn p) (hnil : p.names = []) :
    q.names = [] := by
  have hnames := h.2
  rw [hnil] at hnames
  exact List.prefix_nil.mp hnames

end Path

/-! ## Project files -/

/-- A project file stands in the directory, or a link that leads to something. -/
def ProjectFile (fs : FileSystem) (directory : Path) : Prop :=
  ∃ there node, fs.Reaches false FileSystem.linkBudget [] (directory.join projectFile).names there ∧
    fs.node? there = some node

theorem projectFile_iff {fs : FileSystem} {directory : Path} :
    ProjectFile fs directory ↔ ∃ there node,
      fs.walk false FileSystem.linkBudget [] (directory.join projectFile).names = .ok there ∧
        fs.node? there = some node := by
  simp only [ProjectFile, FileSystem.walk_eq_ok_iff]

theorem projectFile_iff_of_exists? {fs : FileSystem} {directory : Path} {b : Bool}
    (h : fs.exists? ((directory.join projectFile).route []) = .ok b) :
    b = true ↔ ProjectFile fs directory := by
  rw [FileSystem.exists?, FileSystem.nodeAt, FileSystem.locate, Path.route, ite_self] at h
  rw [projectFile_iff]
  split at h
  · next herror =>
    -- An error is an answer only if it is not about a name or path that is too long.
    split at herror
    · obtain rfl := Except.error.inj herror
      contradiction
    · next code _ =>
      have hb : b = false := by
        cases code <;> cases h <;> rfl
      simp [herror, hb]
  · next there hthere =>
    split at hthere
    · contradiction
    rcases hnode : fs.node? there with _ | node
    all_goals
      rw [hnode] at h
      obtain rfl := Except.ok.inj h
      simp [hthere, hnode]

/-! ## The search -/

/-- The directory is the deepest one at or above `start`, the root of the file system apart, that
holds a project file. -/
structure IsNearestProject (fs : FileSystem) (start root : Path) : Prop where
  /-- It is the directory itself, or one above it. -/
  isOn : root.IsOn start
  /-- It is not the root of the file system. -/
  below : root.names ≠ []
  /-- It holds a project file. -/
  holds : ProjectFile fs root
  /-- It is below all others of this kind. -/
  deepest : ∀ q : Path, q.IsOn start → q.names ≠ [] → ProjectFile fs q → q.IsOn root

/-- What there is to be found from a directory upwards. -/
inductive Nearest (fs : FileSystem) (start : Path) : Option Path → Prop
  /-- The nearest project. -/
  | project {root : Path} (h : IsNearestProject fs start root) : Nearest fs start (some root)
  /-- No project at all. -/
  | nothing (h : ∀ q : Path, q.IsOn start → q.names ≠ [] → ¬ProjectFile fs q) :
      Nearest fs start none

namespace Nearest

variable {fs : FileSystem} {start : Path}

theorem top (hnil : start.names = []) : Nearest fs start none :=
  .nothing fun _ hq hne _ ↦ hne (Path.names_eq_nil_of_isOn hq hnil)

theorem here (hne : start.names ≠ []) (h : ProjectFile fs start) : Nearest fs start (some start) :=
  .project ⟨start.isOn_self, hne, h, fun _ hq _ _ ↦ hq⟩

theorem above (hne : start.names ≠ []) (hnone : ¬ProjectFile fs start) {found : Option Path}
    (h : Nearest fs start.parent found) : Nearest fs start found := by
  have hup : ∀ {q : Path}, q.IsOn start → ProjectFile fs q → q.IsOn start.parent := by
    intro q hq hfile
    rcases (Path.isOn_iff hne).mp hq with rfl | hq
    · exact absurd hfile hnone
    · exact hq
  cases h with
  | project h =>
    exact .project ⟨h.isOn.of_parent, h.below, h.holds,
      fun q hq hbelow hfile ↦ h.deepest q (hup hq hfile) hbelow hfile⟩
  | nothing h => exact .nothing fun q hq hbelow hfile ↦ h q (hup hq hfile) hbelow hfile

end Nearest

/-- **The search.** What comes out of it is the nearest project. -/
theorem nearest_of_nearestProject {fs : FileSystem} {anchor : Anchor} {here : Location}
    {found : Option Path} (h : nearestProject fs anchor here = .ok found) :
    Nearest fs ⟨anchor, here.reverse⟩ found := by
  induction here with
  | nil =>
    obtain rfl := Except.ok.inj h
    exact .top rfl
  | cons name around ih =>
    rw [nearestProject] at h
    have hne : (name :: around).reverse ≠ [] := by simp
    have hparent : Path.parent ⟨anchor, (name :: around).reverse⟩ = ⟨anchor, around.reverse⟩ := by
      rw [Path.parent, List.reverse_cons, List.dropLast_concat]
    split at h
    · contradiction
    · next hasked =>
      obtain rfl := Except.ok.inj h
      exact .here hne ((projectFile_iff_of_exists? hasked).mp rfl)
    · next hasked =>
      refine .above hne ?_ (by rw [hparent]; exact ih h)
      rw [← projectFile_iff_of_exists? hasked]
      exact Bool.false_ne_true

/-! ## The tool root -/

namespace Machine

variable {m : Machine}

/-- Without a tool root that is named, the search begins around the program. -/
theorem toolRoot_eq_ok_iff (hunnamed : m.namedRoot = "") {root : Path} :
    m.toolRoot = .ok root ↔ ∃ program found, m.resolve m.programFile = .ok program ∧
      nearestProject m.files program.parent.anchor program.parent.names.reverse = .ok found ∧
      root = found.getD program.parent.parent.parent := by
  rw [toolRoot_eq, if_pos hunnamed, projectRoot]
  rcases m.resolve m.programFile with escape | program
  · simp [bind, Except.bind]
  · rcases hsearch :
        nearestProject m.files program.parent.anchor program.parent.names.reverse with _ | found
    · simp [bind, Except.bind, hsearch]
    · simp [bind, Except.bind, hsearch, pure, Except.pure, eq_comm]

/-- A tool root that is not named is found if the program has a canonical path, and the search from
there does not come to a path that is too long. -/
theorem exists_toolRoot_iff {m : Machine} (hunnamed : m.namedRoot = "") :
    (∃ root, m.toolRoot = .ok root) ↔ ∃ program, m.resolve m.programFile = .ok program ∧
      ∀ marker, ¬Overlong m.files program.parent.anchor program.parent.names.reverse marker := by
  constructor
  · rintro ⟨root, hroot⟩
    obtain ⟨program, found, hprogram, hsearch, -⟩ := (toolRoot_eq_ok_iff hunnamed).mp hroot
    refine ⟨program, hprogram, fun marker hlong ↦ ?_⟩
    rw [hlong.nearestProject_eq] at hsearch
    contradiction
  · rintro ⟨program, hprogram, hshort⟩
    rcases hsearch : nearestProject m.files program.parent.anchor program.parent.names.reverse with
      escape | found
    · obtain ⟨marker, hlong, -⟩ := nearestProject_eq_error_iff.mp hsearch
      exact absurd hlong (hshort marker)
    · exact ⟨_, (toolRoot_eq_ok_iff hunnamed).mpr ⟨program, found, hprogram, hsearch, rfl⟩⟩

end Machine

/-- **The nearest project.** A tool root that is not named is the nearest project: the deepest
directory around the program, the root of the file system apart, that holds a project file. If there
is no such directory, it is the directory three levels above the file of the program, wherever the
search has ended. There always is a tool root, unless the program has no canonical path or the path
of a project file is too long. -/
theorem toolRoot_nearest_project {m : Machine} (hunnamed : m.namedRoot = "") :
    (∀ root, m.toolRoot = .ok root → ∃ program, m.resolve m.programFile = .ok program ∧
      (IsNearestProject m.files program.parent root ∨
        (∀ q : Path, q.IsOn program.parent → q.names ≠ [] → ¬ProjectFile m.files q) ∧
          root = program.parent.parent.parent)) ∧
      ((∃ root, m.toolRoot = .ok root) ↔ ∃ program, m.resolve m.programFile = .ok program ∧
        ∀ marker, ¬Overlong m.files program.parent.anchor program.parent.names.reverse marker) := by
  refine ⟨fun root hroot ↦ ?_, Machine.exists_toolRoot_iff hunnamed⟩
  obtain ⟨program, found, hprogram, hsearch, rfl⟩ := (Machine.toolRoot_eq_ok_iff hunnamed).mp hroot
  refine ⟨program, hprogram, ?_⟩
  have hnearest := nearest_of_nearestProject hsearch
  rw [List.reverse_reverse] at hnearest
  cases hnearest with
  | project h => exact .inl h
  | nothing h => exact .inr ⟨h, rfl⟩

/-- A link that leads nowhere does not make the directory of the program the nearest project. -/
theorem toolRoot_nearest_project_dangling :
    let m : Machine := {
      files := (((FileSystem.put {} ["a"] .directory).put ["b", "a"] .directory).put
        ["pyproject.toml", "a"] (.file [] false)).put ["pyproject.toml", "b", "a"] (.link "gone")
      programFile := ⟨.root, ["a", "b", "program"]⟩ }
    m.namedRoot = "" ∧ m.toolRoot = .ok ⟨.root, ["a"]⟩ ∧
      IsNearestProject m.files ⟨.root, ["a", "b"]⟩ ⟨.root, ["a"]⟩ := by
  intro m
  have hunnamed : m.namedRoot = "" := by decide
  have hresolve : m.resolve m.programFile = .ok ⟨.root, ["a", "b", "program"]⟩ := by
    have hcanonical : m.files.IsCanonical ["program", "b", "a"] := by
      refine .down (by decide) (by decide) (by decide) ?_
        (.down (by decide) (by decide) (by decide) ?_
          (.down (by decide) (by decide) (by decide) ?_ .root)) <;> rintro _ ⟨⟩
    have hway : m.files.resolve [] ⟨.root, ["a", "b", "program"]⟩
        = .ok ⟨.root, 0, ["program", "b", "a"]⟩ := hcanonical.resolve_path []
    have hnul : m.programFile.hasNul = false := by decide
    rw [Machine.resolve, hnul, if_neg Bool.false_ne_true, hway]
    rfl
  have hdangling : m.files.exists? ((markerAt .root ["b", "a"]).route []) = .ok false := by
    have hgone : m.files.Reaches false FileSystem.linkBudget [] ["a", "b", "pyproject.toml"]
        ["gone", "b", "a"] :=
      .down (by decide) rfl (.down (by decide) rfl
        (.follow (by decide) rfl (by decide) (.vacant (by decide) rfl)))
    rw [FileSystem.exists?, FileSystem.nodeAt_of_vacant hgone rfl]
    rfl
  have hfile : m.files.exists? ((markerAt .root ["a"]).route []) = .ok true := by
    rw [FileSystem.exists?,
      FileSystem.nodeAt_of_reaches (.down (by decide) rfl (.file (by decide) rfl)) rfl]
    rfl
  have hsearch : nearestProject m.files .root ["b", "a"] = .ok (some ⟨.root, ["a"]⟩) := by
    rw [nearestProject, ← markerAt, hdangling]
    dsimp only
    rw [nearestProject, ← markerAt, hfile]
    rfl
  have hroot : m.toolRoot = .ok ⟨.root, ["a"]⟩ :=
    (Machine.toolRoot_eq_ok_iff hunnamed).mpr ⟨_, _, hresolve, hsearch, rfl⟩
  obtain ⟨program, hprogram, hnearest⟩ := (toolRoot_nearest_project hunnamed).1 _ hroot
  obtain rfl := Except.ok.inj (hresolve.symm.trans hprogram)
  rcases hnearest with hnearest | ⟨-, hthird⟩
  · exact ⟨hunnamed, hroot, hnearest⟩
  · contradiction

end Runbook
