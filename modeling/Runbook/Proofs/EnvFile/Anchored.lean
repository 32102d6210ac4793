import Runbook.Proofs.EnvFile.Loading
import Runbook.Proofs.FileSystem.Rooted
import Runbook.Proofs.Frames
import Runbook.Proofs.SideBySide

/-!
# Looking up env files from anywhere

An env file is meant to be found in the same place whatever the working directory is. For a program
with an absolute place this holds as long as the tool root that the environment names, if it names
one, does not begin at the working directory (`Machine.Anchored`): from the first question to the
last, everything is asked from the root. A relative tool root is bound to the working directory, and
there are always files among which that can be seen.
-/

namespace Runbook

namespace Machine

/-- The env file of the given name is looked up from the root: its name is absolute, or no tool root
is named, or the tool root that is named is absolute once its tilde is replaced. A tool root that no
file system has a name for is no matter. -/
def Anchored (m : Machine) (name : String) : Prop :=
  (Path.ofString name).isAbsolute = true ∨ m.namedRoot = "" ∨
    ∀ p, expandHome m.environment (Path.ofString m.namedRoot) = .ok p →
      p.hasNul = true ∨ p.isAbsolute = true

/-- The machines differ at most in their working directories. -/
inductive Elsewhere (m : Machine) : Machine → Prop
  /-- The machine stands in another directory. -/
  | intro (there : Location) : Elsewhere m { m with workingDirectory := there }

/-! ## From the root -/

theorem anchor_of_nearestProject {fs : FileSystem} {anchor : Anchor} {here : Location}
    {root : Path} (h : nearestProject fs anchor here = .ok (some root)) : root.anchor = anchor := by
  induction here with
  | nil => cases h
  | cons name above ih =>
    rw [nearestProject] at h
    split at h
    · cases h
    · cases h
      rfl
    · exact ih h

theorem projectRoot_of_isAbsolute (m : Machine) (there : Location)
    (hprogram : m.programFile.isAbsolute = true) :
    projectRoot { m with workingDirectory := there } = m.projectRoot ∧
      ∀ root, m.projectRoot = .ok root → root.isAbsolute = true := by
  obtain ⟨hsame, habsolute⟩ := m.resolve_of_isAbsolute there (.inr hprogram)
  constructor
  · rw [projectRoot, projectRoot, hsame]
  · intro root h
    rw [projectRoot] at h
    rcases hprogram' : m.resolve m.programFile with escape | program
    · rw [hprogram'] at h
      cases h
    · have hdirectory : program.parent.isAbsolute = true := habsolute program hprogram'
      simp only [hprogram', bind, Except.bind] at h
      split at h
      · cases h
      · next nearest hnearest =>
        obtain rfl := Except.ok.inj h
        rcases nearest with _ | found
        · exact hdirectory
        · have hanchor := anchor_of_nearestProject hnearest
          rw [Option.getD_some, Path.isAbsolute, hanchor]
          exact hdirectory

theorem toolRoot_of_anchored (m : Machine) (there : Location)
    (hprogram : m.programFile.isAbsolute = true)
    (h : m.namedRoot = "" ∨ ∀ p, expandHome m.environment (Path.ofString m.namedRoot) = .ok p →
      p.hasNul = true ∨ p.isAbsolute = true) :
    toolRoot { m with workingDirectory := there } = m.toolRoot ∧
      ∀ root, m.toolRoot = .ok root → root.isAbsolute = true := by
  have hsame : namedRoot { m with workingDirectory := there } = m.namedRoot := rfl
  rw [toolRoot_eq, toolRoot_eq, hsame]
  by_cases hnamed : m.namedRoot = ""
  · rw [if_pos hnamed, if_pos hnamed]
    exact m.projectRoot_of_isAbsolute there hprogram
  · rw [if_neg hnamed, if_neg hnamed]
    rcases hexpand : expandHome m.environment (Path.ofString m.namedRoot) with escape | p
    · exact ⟨rfl, fun _ h ↦ by cases h⟩
    · exact m.resolve_of_isAbsolute there (h.resolve_left hnamed p hexpand)

theorem envPath_of_anchored {m : Machine} {name : String} (there : Location)
    (hprogram : m.programFile.isAbsolute = true) (h : m.Anchored name) :
    envPath { m with workingDirectory := there } name = m.envPath name ∧
      ∀ p, m.envPath name = .ok p → p.isAbsolute = true := by
  rw [envPath, envPath]
  by_cases hname : (Path.ofString name).isAbsolute = true
  · rw [if_pos hname, if_pos hname]
    refine ⟨rfl, ?_⟩
    rintro _ ⟨rfl⟩
    exact hname
  · obtain ⟨hsame, habsolute⟩ :=
      m.toolRoot_of_anchored there hprogram (h.resolve_left hname)
    rw [if_neg hname, if_neg hname, hsame]
    refine ⟨rfl, ?_⟩
    intro p hp
    rcases hroot : m.toolRoot with escape | root
    · rw [hroot] at hp
      cases hp
    · rw [hroot] at hp
      obtain rfl := Except.ok.inj hp
      dsimp only
      rw [Path.join, if_neg hname]
      exact habsolute root hroot

theorem readEnvText_of_isAbsolute (m : Machine) (there : Location) {p : Path}
    (hp : p.isAbsolute = true) :
    readEnvText { m with workingDirectory := there } p = m.readEnvText p := by
  have hroute := m.route_of_isAbsolute there hp
  have hfile : isFile { m with workingDirectory := there } p = m.isFile p := by
    rw [isFile, isFile, hroute]
  have htext : readText { m with workingDirectory := there } p = m.readText p := by
    rw [readText, readText, hroute]
  rw [readEnvText, readEnvText, hfile, htext]

theorem envOverlay_of_anchored {m : Machine} {name : String} (there : Location)
    (hprogram : m.programFile.isAbsolute = true) (h : m.Anchored name) :
    envOverlay { m with workingDirectory := there } name = m.envOverlay name := by
  obtain ⟨hsame, habsolute⟩ := envPath_of_anchored there hprogram h
  rcases hpath : m.envPath name with escape | p
  · rw [hpath] at hsame
    simp only [envOverlay, hsame, hpath, bind, Except.bind]
  · rw [hpath] at hsame
    rw [envOverlay_of_envPath hpath, envOverlay_of_envPath hsame,
      m.readEnvText_of_isAbsolute there (habsolute p hpath)]

theorem load_of_anchored {m : Machine} {name : String} (there : Location)
    (hprogram : m.programFile.isAbsolute = true) (h : m.Anchored name) :
    SameOutcome Elsewhere (Overlay.load name m)
      (Overlay.load name { m with workingDirectory := there }) := by
  have hsame := envOverlay_of_anchored there hprogram h
  rcases hoverlay : m.envOverlay name with escape | ⟨overlay, lines⟩
  · rw [hoverlay] at hsame
    rw [load_of_error hoverlay, load_of_error hsame]
    exact .error escape (.intro there)
  · rw [hoverlay] at hsame
    rw [load_of_ok hoverlay, load_of_ok hsame]
    exact .ok overlay (.intro there)

end Machine

/-! ## From the working directory -/

/-- Directories of one name, one in the other. -/
def FileSystem.chain : Nat → FileSystem
  | 0 => {}
  | n + 1 => (chain n).put (List.replicate (n + 1) "d") .directory

theorem FileSystem.node?_empty_ne_link (place : Location) (target : String) :
    node? {} place ≠ some (.link target) := by
  rw [node?]
  split
  · simp
  · exact fun h ↦ Option.some_ne_none _ h.symm

theorem FileSystem.node?_put_ne_link {fs : FileSystem}
    (h : ∀ place target, fs.node? place ≠ some (.link target)) (here place : Location)
    (target : String) : (fs.put here .directory).node? place ≠ some (.link target) := by
  rw [node?_put]
  split
  · simp
  · split
    · simp
    · exact h place target

theorem FileSystem.node?_chain_ne_link (n : Nat) (place : Location) (target : String) :
    (chain n).node? place ≠ some (.link target) := by
  induction n generalizing place target with
  | zero => exact node?_empty_ne_link place target
  | succ n ih => exact node?_put_ne_link ih _ place target

theorem FileSystem.node?_chain_deepest (n : Nat) :
    (chain n).node? (List.replicate n "d") = some .directory := by
  cases n with
  | zero => exact node?_nil _
  | succ n =>
    rw [chain, node?_put]
    split
    · rfl
    · rw [if_pos rfl]

/-- Where there are no links, a tool root that is bound to the working directory is found from there
by its letter. -/
theorem Machine.envPath_of_bound {m : Machine} {name : String} {p : Path} {files : FileSystem}
    {place : Location} (hname : ¬(Path.ofString name).isAbsolute = true) (hnamed : m.namedRoot ≠ "")
    (hexpand : expandHome m.environment (Path.ofString m.namedRoot) = .ok p)
    (hnul : ¬p.hasNul = true) (hrelative : ¬p.isAbsolute = true)
    (hlinks : ∀ here target, files.node? here ≠ some (.link target))
    (hthere : place.isRemoved = false) :
    let w := Way.here.follow p.names
    envPath { m with files := files, workingDirectory := place } name
      = .ok ⟨.root, (w.names ++ place.drop w.ups).reverse ++ (Path.ofString name).names⟩ := by
  intro w
  have hanchor : w.anchor = .relative := Way.anchor_follow _ _
  have hway : files.resolve place p = .ok w := by
    rw [FileSystem.resolve, if_neg hrelative, FileSystem.resolveFrom_of_noLinks place hlinks]
    rfl
  have hroot : toolRoot { m with files := files, workingDirectory := place }
      = .ok ⟨.root, (w.names ++ place.drop w.ups).reverse⟩ := by
    have hsame : namedRoot { m with files := files, workingDirectory := place } = m.namedRoot :=
      rfl
    rw [toolRoot_eq, hsame, if_neg hnamed, hexpand]
    show resolve { m with files := files, workingDirectory := place } p = _
    rw [resolve, if_neg hnul]
    dsimp only
    rw [hway]
    dsimp only
    rw [pathOf, hanchor]
    dsimp only
    rw [hthere, if_neg Bool.false_ne_true, Way.location, if_pos hanchor]
    rfl
  rw [envPath, if_neg hname, hroot]
  dsimp only [Except.map]
  rw [Path.join, if_neg hname]

/-- A tool root that is bound to the working directory tells the top of a chain of directories from
its bottom, if the chain is longer than the way leads up. -/
theorem Machine.exists_envPath_ne {m : Machine} {name : String} (h : ¬m.Anchored name) :
    ∃ (files : FileSystem) (here there : Location),
      files.node? here = some .directory ∧ files.node? there = some .directory ∧
      envPath { m with files := files, workingDirectory := here } name
        ≠ envPath { m with files := files, workingDirectory := there } name := by
  rw [Anchored, not_or, not_or] at h
  obtain ⟨hname, hnamed, hbound⟩ := h
  obtain ⟨p, hp⟩ := Classical.not_forall.mp hbound
  obtain ⟨hexpand, hp⟩ := Classical.not_imp.mp hp
  obtain ⟨hnul, hrelative⟩ := not_or.mp hp
  let depth := (Way.here.follow p.names).ups + 1
  refine ⟨FileSystem.chain depth, [], List.replicate depth "d", FileSystem.node?_nil _,
    FileSystem.node?_chain_deepest _, ?_⟩
  have hlinks := FileSystem.node?_chain_ne_link depth
  have hremoved : Location.isRemoved (List.replicate depth "d") = false := by
    rw [List.replicate_succ]
    rfl
  rw [envPath_of_bound hname hnamed hexpand hnul hrelative hlinks rfl,
    envPath_of_bound hname hnamed hexpand hnul hrelative hlinks hremoved]
  intro hsame
  have hlength := congrArg List.length (Path.mk.inj (Except.ok.inj hsame)).2
  simp [depth] at hlength

/-! ## Lookup -/

/-- **Looking up env files.** For a program with an absolute place: if the lookup is anchored, the
path of the env file is the same in any two working directories, whatever the files are, and loading
comes to the same outcome. If it is not, then there are files with two directories in which the
paths differ. -/
theorem lookup_anchored (name : String) {m : Machine}
    (hprogram : m.programFile.isAbsolute = true) :
    (m.Anchored name → ∀ (files : FileSystem) (here there : Location),
      let k : Machine := { m with files := files, workingDirectory := here }
      let k' : Machine := { m with files := files, workingDirectory := there }
      k'.envPath name = k.envPath name ∧
        SameOutcome Machine.Elsewhere (Overlay.load name k) (Overlay.load name k')) ∧
    (¬m.Anchored name → ∃ (files : FileSystem) (here there : Location),
      files.node? here = some .directory ∧ files.node? there = some .directory ∧
        Machine.envPath { m with files := files, workingDirectory := here } name
          ≠ Machine.envPath { m with files := files, workingDirectory := there } name) := by
  refine ⟨?_, Machine.exists_envPath_ne⟩
  intro hanchored files here there k k'
  have hk : k.Anchored name := hanchored
  exact ⟨(Machine.envPath_of_anchored (m := k) there hprogram hk).1,
    Machine.load_of_anchored (m := k) there hprogram hk⟩

/-- No tool root is named, and the program lies in the root. -/
theorem lookup_anchored_unnamed :
    Machine.envPath { workingDirectory := ["w"] } ".env" = Machine.envPath {} ".env" :=
  ((lookup_anchored ".env" (m := {}) rfl).1 (.inr (.inl rfl)) {} [] ["w"]).1

/-- The tool root is called `proj`, and the root and a directory in it tell it apart. -/
theorem lookup_anchored_relative_root :
    let m : Machine :=
      { files := ⟨.branch "w" (some .directory) .empty .empty⟩
        environment := [(rootVariable, "proj")] }
    m.programFile.isAbsolute = true ∧
      m.envPath ".env" = .ok ⟨.root, ["proj", ".env"]⟩ ∧
      Machine.envPath { m with workingDirectory := ["w"] } ".env"
        = .ok ⟨.root, ["w", "proj", ".env"]⟩ := by
  intro m
  have hlinks := FileSystem.node?_put_ne_link FileSystem.node?_empty_ne_link ["w"]
  have hnamed : Path.ofString m.namedRoot = ⟨.relative, ["proj"]⟩ := by decide
  have hexpand : expandHome m.environment (Path.ofString m.namedRoot)
      = .ok ⟨.relative, ["proj"]⟩ := by
    rw [hnamed]
    exact Machine.expandHome_of_plain (by decide)
  have hname : ¬(Path.ofString ".env").isAbsolute = true := by decide
  have hbound : ∀ place : Location, place.isRemoved = false →
      Machine.envPath { m with workingDirectory := place } ".env"
        = .ok ⟨.root, (["proj"] ++ place).reverse ++ [".env"]⟩ := fun place hthere ↦
    Machine.envPath_of_bound (m := m) hname (by decide) hexpand (by decide) (by decide) hlinks
      hthere
  exact ⟨rfl, hbound [] rfl, hbound ["w"] rfl⟩

end Runbook
