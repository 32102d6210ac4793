import Runbook.Proofs.EnvFile.Loading
import Runbook.Proofs.FileSystem.Rooted
import Runbook.Proofs.Frames

/-!
# Where loading an env file leaves the run

Loading is prepared for a file that is not there or cannot be read: the overlay is empty then, and a
line is told. It is not prepared for what comes before that. The place of the file has to be found,
and the system has to accept its path before it can say whether a file stands there; whatever goes
wrong on this way leaves the run.

Each part of the way has its own list of what can go wrong on it, and a list is complete: resolving
a path (`Machine.Unresolvable`), replacing the tilde (`Homeless`), looking for a project file from
below (`Overlong`), finding the tool root (`Machine.Rootless`), and the whole of it
(`Machine.Stranded`). A refusal to read the file is in none of them.

Links make it hard to see in advance whether a path can be resolved or a name on the way is too
long. Where there are none, what goes wrong can be read off the paths themselves
(`Machine.Stranded.of_noLinks`).
-/

namespace Runbook

/-! ## Resolving -/

namespace Machine

/-- Why a path has no canonical path. -/
inductive Unresolvable (m : Machine) (p : Path) : Escape → Prop
  /-- A NUL character stands in the path. -/
  | nul (h : p.hasNul = true) : Unresolvable m p .nulInPath
  /-- Too many links wait for one another. -/
  | deep (hnul : p.hasNul = false) (h : m.files.resolve m.workingDirectory p = .error .tooDeep) :
      Unresolvable m p .deepLinks
  /-- What the path leads to can only be told from the working directory, which is removed. -/
  | adrift {w : Way} (hnul : p.hasNul = false)
      (h : m.files.resolve m.workingDirectory p = .ok w ∨
        m.files.resolve m.workingDirectory p = .error (.circle w))
      (hrelative : w.anchor = .relative) (hremoved : m.workingDirectory.isRemoved = true) :
      Unresolvable m p (.system ErrorCode.notFound.plain)
  /-- Links run in a circle, and what is spelled behind them does not lead out of it. -/
  | circle {stuck : Way} {path : Path} (hnul : p.hasNul = false)
      (h : m.files.resolve m.workingDirectory p = .error (.circle stuck))
      (hpath : m.pathOf stuck = .ok path)
      (hnode : m.files.nodeAt (m.route path) = .error .tooManyLinks) :
      Unresolvable m p (.linkCircle path)

theorem pathOf_eq_error_iff {m : Machine} {w : Way} {escape : Escape} :
    m.pathOf w = .error escape ↔
      w.anchor = .relative ∧ m.workingDirectory.isRemoved = true ∧
        escape = .system ErrorCode.notFound.plain := by
  rw [pathOf]
  rcases w.anchor with _ | _ | _
  · dsimp only
    split
    · next hremoved => simp [hremoved, eq_comm]
    · next hthere => simp [hthere]
  · simp
  · simp

theorem resolve_eq_error_iff {m : Machine} {p : Path} {escape : Escape} :
    m.resolve p = .error escape ↔ m.Unresolvable p escape := by
  constructor
  · intro h
    rcases hnul : p.hasNul with _ | _
    · rw [resolve, hnul, if_neg Bool.false_ne_true] at h
      rcases hwalk : m.files.resolve m.workingDirectory p with (stuck | _) | w
      · rcases hpath : m.pathOf stuck with escape' | path
        · obtain ⟨hrelative, hremoved, rfl⟩ := pathOf_eq_error_iff.mp hpath
          simp only [hwalk, hpath, bind, Except.bind] at h
          obtain rfl := Except.error.inj h
          exact .adrift hnul (.inr hwalk) hrelative hremoved
        · simp only [hwalk, hpath, bind, Except.bind] at h
          split at h
          · next hnode =>
            obtain rfl := Except.error.inj h
            exact .circle hnul hwalk hpath hnode
          · contradiction
      · rw [hwalk] at h
        obtain rfl := Except.error.inj h
        exact .deep hnul hwalk
      · rw [hwalk] at h
        obtain ⟨hrelative, hremoved, rfl⟩ := pathOf_eq_error_iff.mp h
        exact .adrift hnul (.inl hwalk) hrelative hremoved
    · rw [resolve, if_pos hnul] at h
      obtain rfl := Except.error.inj h
      exact .nul hnul
  · intro h
    rw [resolve]
    cases h with
    | nul hnul => rw [if_pos hnul]
    | deep hnul hwalk => rw [hnul, if_neg Bool.false_ne_true, hwalk]
    | adrift hnul hwalk hrelative hremoved =>
      have hpath := pathOf_eq_error_iff.mpr ⟨hrelative, hremoved, rfl⟩
      rw [hnul, if_neg Bool.false_ne_true]
      rcases hwalk with hwalk | hwalk
      · rw [hwalk]
        exact hpath
      · simp only [hwalk, hpath, bind, Except.bind]
    | circle hnul hwalk hpath hnode =>
      rw [hnul, if_neg Bool.false_ne_true]
      simp only [hwalk, hpath, bind, Except.bind, hnode]

end Machine

/-! ## The tilde -/

/-- The path starts with a tilde that cannot be replaced: a user's name is behind it, or there is no
home directory, or one that starts with a tilde itself. -/
def Homeless (environment : Keyed String) (p : Path) : Prop :=
  p.anchor = .relative ∧ ∃ name rest, p.names = name :: rest ∧ name.toList.head? = some '~' ∧
    (name = "~" → ∀ home, homeDirectory? environment = some home → home.head? = some '~')

theorem expandHome_eq_error_iff {environment : Keyed String} {p : Path} {escape : Escape} :
    expandHome environment p = .error escape ↔ Homeless environment p ∧ escape = .noHome := by
  obtain ⟨anchor, names⟩ := p
  rw [expandHome, Homeless]
  rcases anchor with _ | _ | _
  · rcases names with _ | ⟨name, rest⟩
    · simp
    · dsimp only
      by_cases htilde : name.toList.head? = some '~'
      · rw [if_neg (not_not_intro htilde)]
        by_cases hname : name = "~"
        · rw [if_neg (not_not_intro hname)]
          rcases homeDirectory? environment with _ | home
          · simp [htilde, eq_comm]
          · by_cases hhome : home.head? = some '~' <;> simp [hname, hhome, eq_comm]
        · simp [htilde, hname, eq_comm]
      · simp [htilde]
  · simp
  · simp

/-! ## The project file -/

/-- The path of the project file in a directory. -/
def markerAt (anchor : Anchor) (directory : Location) : Path :=
  Path.join ⟨anchor, directory.reverse⟩ projectFile

/-- On the way up from a directory, no project file is met before one whose path, or a name on it,
is too long to be asked about. -/
inductive Overlong (fs : FileSystem) (anchor : Anchor) : Location → Path → Prop
  /-- The path of the project file in this directory is too long. -/
  | here {name : String} {above : Location}
      (h : fs.nodeAt ((markerAt anchor (name :: above)).route []) = .error .nameTooLong) :
      Overlong fs anchor (name :: above) (markerAt anchor (name :: above))
  /-- There is no project file in this directory, and the way goes on above it. -/
  | above {name : String} {above : Location} {marker : Path}
      (hnone : fs.exists? ((markerAt anchor (name :: above)).route []) = .ok false)
      (hrest : Overlong fs anchor above marker) : Overlong fs anchor (name :: above) marker

theorem FileSystem.exists?_eq_error_iff {fs : FileSystem} {r : Route} {code : ErrorCode} :
    fs.exists? r = .error code ↔ fs.nodeAt r = .error .nameTooLong ∧ code = .nameTooLong := by
  rw [exists?]
  rcases fs.nodeAt r with found | node
  · rcases found <;> simp [ask, eq_comm]
  · simp [ask]

theorem Overlong.nearestProject_eq {fs : FileSystem} {anchor : Anchor} {here : Location}
    {marker : Path} (h : Overlong fs anchor here marker) :
    nearestProject fs anchor here
      = .error (.system (ErrorCode.nameTooLong.about marker.toString)) := by
  induction h with
  | here hlong =>
    rw [nearestProject, ← markerAt, FileSystem.exists?_eq_error_iff.mpr ⟨hlong, rfl⟩]
  | above hnone _ ih =>
    rw [nearestProject, ← markerAt, hnone]
    exact ih

theorem nearestProject_eq_error_iff {fs : FileSystem} {anchor : Anchor} {here : Location}
    {escape : Escape} :
    nearestProject fs anchor here = .error escape ↔
      ∃ marker, Overlong fs anchor here marker ∧
        escape = .system (ErrorCode.nameTooLong.about marker.toString) := by
  constructor
  · intro h
    induction here with
    | nil => contradiction
    | cons name above ih =>
      rw [nearestProject, ← markerAt] at h
      rcases hasked : fs.exists? ((markerAt anchor (name :: above)).route []) with code | _ | _
      · obtain ⟨hlong, rfl⟩ := FileSystem.exists?_eq_error_iff.mp hasked
        rw [hasked] at h
        exact ⟨_, .here hlong, (Except.error.inj h).symm⟩
      · rw [hasked] at h
        obtain ⟨marker, hmarker, rfl⟩ := ih h
        exact ⟨marker, .above hasked hmarker, rfl⟩
      · rw [hasked] at h
        contradiction
  · rintro ⟨marker, hmarker, rfl⟩
    exact hmarker.nearestProject_eq

/-! ## The tool root -/

namespace Machine

/-- Why there is no tool root. -/
inductive Rootless (m : Machine) : Escape → Prop
  /-- A tool root is named by a tilde that cannot be replaced. -/
  | homeless (hnamed : m.namedRoot ≠ "")
      (h : Homeless m.environment (Path.ofString m.namedRoot)) : Rootless m .noHome
  /-- The tool root that is named has no canonical path. -/
  | named {p : Path} {escape : Escape} (hnamed : m.namedRoot ≠ "")
      (hexpand : expandHome m.environment (Path.ofString m.namedRoot) = .ok p)
      (h : m.Unresolvable p escape) : Rootless m escape
  /-- No tool root is named, and the program has no canonical path. -/
  | program {escape : Escape} (hunnamed : m.namedRoot = "")
      (h : m.Unresolvable m.programFile escape) : Rootless m escape
  /-- No tool root is named, and from the directory of the program the search comes to a path that
  is too long. -/
  | search {program marker : Path} (hunnamed : m.namedRoot = "")
      (hprogram : m.resolve m.programFile = .ok program)
      (h : Overlong m.files program.parent.anchor program.parent.names.reverse marker) :
      Rootless m (.system (ErrorCode.nameTooLong.about marker.toString))

theorem toolRoot_eq_error_iff {m : Machine} {escape : Escape} :
    m.toolRoot = .error escape ↔ m.Rootless escape := by
  rw [toolRoot_eq]
  constructor
  · intro h
    by_cases hnamed : m.namedRoot = ""
    · rw [if_pos hnamed, projectRoot] at h
      rcases hprogram : m.resolve m.programFile with escape' | program
      · rw [hprogram] at h
        obtain rfl := Except.error.inj h
        exact .program hnamed (resolve_eq_error_iff.mp hprogram)
      · simp only [hprogram, bind, Except.bind] at h
        split at h
        · next hsearch =>
          obtain rfl := Except.error.inj h
          obtain ⟨marker, hmarker, rfl⟩ := nearestProject_eq_error_iff.mp hsearch
          exact .search hnamed hprogram hmarker
        · contradiction
    · rw [if_neg hnamed] at h
      rcases hexpand : expandHome m.environment (Path.ofString m.namedRoot) with escape' | p
      · rw [hexpand] at h
        obtain rfl := Except.error.inj h
        obtain ⟨hhomeless, rfl⟩ := expandHome_eq_error_iff.mp hexpand
        exact .homeless hnamed hhomeless
      · rw [hexpand] at h
        exact .named hnamed hexpand (resolve_eq_error_iff.mp h)
  · intro h
    cases h with
    | homeless hnamed hhomeless =>
      rw [if_neg hnamed, expandHome_eq_error_iff.mpr ⟨hhomeless, rfl⟩]
      rfl
    | named hnamed hexpand hresolve =>
      rw [if_neg hnamed, hexpand]
      exact resolve_eq_error_iff.mpr hresolve
    | program hunnamed hresolve =>
      rw [if_pos hunnamed, projectRoot, resolve_eq_error_iff.mpr hresolve]
      rfl
    | search hunnamed hprogram hmarker =>
      rw [if_pos hunnamed, projectRoot]
      simp only [hprogram, bind, Except.bind, hmarker.nearestProject_eq]

/-! ## The whole way -/

/-- Why the env file of the given name does not come back with an overlay. -/
inductive Stranded (m : Machine) (name : String) : Escape → Prop
  /-- The name is relative, and there is no tool root. -/
  | rootless {escape : Escape} (hname : (Path.ofString name).isAbsolute = false)
      (h : m.Rootless escape) : Stranded m name escape
  /-- The path of the file, or a name on it, is too long to be asked about. -/
  | overlong {p : Path} (hpath : m.envPath name = .ok p) (hnul : p.hasNul = false)
      (h : m.files.nodeAt (m.route p) = .error .nameTooLong) :
      Stranded m name (.system (ErrorCode.nameTooLong.about p.toString))

theorem envPath_eq_error_iff {m : Machine} {name : String} {escape : Escape} :
    m.envPath name = .error escape ↔
      (Path.ofString name).isAbsolute = false ∧ m.Rootless escape := by
  rw [← toolRoot_eq_error_iff, envPath]
  rcases (Path.ofString name).isAbsolute with _ | _
  · rcases m.toolRoot with escape' | root <;> simp [Except.map]
  · simp

theorem envOverlay_eq_error_iff {m : Machine} {name : String} {escape : Escape} :
    m.envOverlay name = .error escape ↔ m.Stranded name escape := by
  rcases hpath : m.envPath name with escape' | p
  · have hlost : m.envOverlay name = .error escape' := by
      rw [envOverlay, hpath]
      rfl
    obtain ⟨hname, hrootless⟩ := envPath_eq_error_iff.mp hpath
    rw [hlost]
    constructor
    · rintro ⟨⟩
      exact .rootless hname hrootless
    · intro h
      cases h with
      | rootless _ h =>
        obtain rfl :=
          Except.error.inj (hpath.symm.trans (envPath_eq_error_iff.mpr ⟨hname, h⟩))
        rfl
      | overlong hpath' =>
        rw [hpath] at hpath'
        contradiction
  · rw [envOverlay_of_envPath hpath]
    constructor
    · intro h
      split at h
      · next htext =>
        obtain rfl := Except.error.inj h
        obtain ⟨hnul, hlong, rfl⟩ := readEnvText_eq_error_iff.mp htext
        exact .overlong hpath hnul hlong
      · contradiction
      · contradiction
    · intro h
      cases h with
      | rootless hname h =>
        rw [envPath_eq_error_iff.mpr ⟨hname, h⟩] at hpath
        contradiction
      | overlong hpath' hnul hlong =>
        obtain rfl := Except.ok.inj (hpath.symm.trans hpath')
        rw [readEnvText_eq_error_iff.mpr ⟨hnul, hlong, rfl⟩]

end Machine

/-! ## Without links -/

/-- The path has too many bytes, or a name on it has. -/
def Path.IsOverlong (p : Path) : Prop :=
  maxPathSize < p.toString.utf8ByteSize ∨ ∃ name ∈ p.names, isLongName name = true

section NoLinks

variable {fs : FileSystem} (hlinks : ∀ place target, fs.node? place ≠ some (.link target))

include hlinks

theorem FileSystem.exists_isLongName_of_walk {create : Bool} {budget : Nat} {here : Location}
    {names : List String} (h : fs.walk create budget here names = .error .nameTooLong) :
    ∃ name ∈ names, isLongName name = true := by
  induction names generalizing here with
  | nil =>
    rw [walk_nil] at h
    contradiction
  | cons name rest ih =>
    have hrest : ∀ {place}, fs.walk create budget place rest = .error .nameTooLong →
        ∃ other ∈ name :: rest, isLongName other = true := by
      intro place hwalk
      obtain ⟨other, hmem, hlong⟩ := ih hwalk
      exact ⟨other, List.mem_cons_of_mem _ hmem, hlong⟩
    -- The guards of a step come one after another, and only one of them is about the name.
    rw [walk_cons] at h
    split at h
    · exact hrest h
    split at h
    · exact hrest h
    split at h
    · cases h
    split at h
    · cases h
    split at h
    · next hlong => exact ⟨name, List.mem_cons_self, hlong⟩
    split at h
    · split at h <;> cases h
    · exact hrest h
    · split at h <;> cases h
    · next target hlink => exact absurd hlink (hlinks _ target)

theorem Path.isOverlong_of_nodeAt {here : Location} {p : Path}
    (h : fs.nodeAt (p.route here) = .error .nameTooLong) : p.IsOverlong := by
  have hlost : fs.locate (p.route here) = .error .nameTooLong := by
    rw [FileSystem.nodeAt] at h
    split at h
    · next hlocate =>
      obtain rfl := Except.error.inj h
      exact hlocate
    · split at h <;> cases h
  rw [FileSystem.locate] at hlost
  split at hlost
  · next hlong => exact .inl (of_decide_eq_true hlong)
  · exact .inr (FileSystem.exists_isLongName_of_walk hlinks hlost)

theorem Overlong.isOverlong {anchor : Anchor} {here : Location} {marker : Path}
    (h : Overlong fs anchor here marker) : marker.IsOverlong := by
  induction h with
  | here hlong => exact Path.isOverlong_of_nodeAt hlinks hlong
  | above _ _ ih => exact ih

end NoLinks

namespace Machine

/-- Without links, a path has no canonical path only for a NUL character in it or for a working
directory that is removed. -/
theorem Unresolvable.of_noLinks {m : Machine} {p : Path} {escape : Escape}
    (h : m.Unresolvable p escape)
    (hlinks : ∀ place target, m.files.node? place ≠ some (.link target)) :
    p.hasNul = true ∧ escape = .nulInPath ∨
      m.workingDirectory.isRemoved = true ∧ escape = .system ErrorCode.notFound.plain := by
  have hway : ∃ w, m.files.resolve m.workingDirectory p = .ok w := by
    rw [FileSystem.resolve, FileSystem.resolveFrom_of_noLinks _ hlinks]
    exact ⟨_, rfl⟩
  obtain ⟨w, hway⟩ := hway
  cases h with
  | nul hnul => exact .inl ⟨hnul, rfl⟩
  | deep _ hwalk => cases hway.symm.trans hwalk
  | adrift _ _ _ hremoved => exact .inr ⟨hremoved, rfl⟩
  | circle _ hwalk => cases hway.symm.trans hwalk

/-- **Without links**, what strands the loading of an env file is a tilde that cannot be replaced, a
NUL character in the tool root or in the place of the program, a working directory that is removed,
or a path that is too long. -/
theorem Stranded.of_noLinks {m : Machine} {name : String} {escape : Escape}
    (h : m.Stranded name escape)
    (hlinks : ∀ place target, m.files.node? place ≠ some (.link target)) :
    Homeless m.environment (Path.ofString m.namedRoot) ∧ escape = .noHome ∨
      (∃ p, (expandHome m.environment (Path.ofString m.namedRoot) = .ok p ∨ p = m.programFile) ∧
        p.hasNul = true) ∧ escape = .nulInPath ∨
      m.workingDirectory.isRemoved = true ∧ escape = .system ErrorCode.notFound.plain ∨
      ∃ p : Path, p.IsOverlong ∧ escape = .system (ErrorCode.nameTooLong.about p.toString) := by
  cases h with
  | rootless _ hrootless =>
    cases hrootless with
    | homeless _ hhomeless => exact .inl ⟨hhomeless, rfl⟩
    | named _ hexpand hresolve =>
      rcases hresolve.of_noLinks hlinks with ⟨hnul, rfl⟩ | hremoved
      · exact .inr (.inl ⟨⟨_, .inl hexpand, hnul⟩, rfl⟩)
      · exact .inr (.inr (.inl hremoved))
    | program _ hresolve =>
      rcases hresolve.of_noLinks hlinks with ⟨hnul, rfl⟩ | hremoved
      · exact .inr (.inl ⟨⟨_, .inr rfl, hnul⟩, rfl⟩)
      · exact .inr (.inr (.inl hremoved))
    | search _ _ hmarker => exact .inr (.inr (.inr ⟨_, hmarker.isOverlong hlinks, rfl⟩))
  | overlong _ _ hlong =>
    exact .inr (.inr (.inr ⟨_, Path.isOverlong_of_nodeAt hlinks hlong, rfl⟩))

end Machine

/-! ## Overlong names -/

theorem ne_of_isLongName {name other : String} (hlong : isLongName name = true)
    (hother : isLongName other = false) : name ≠ other := by
  rintro rfl
  exact Bool.false_ne_true (hother.symm.trans hlong)

theorem Path.ofString_of_isLongName {cs : List Char} (hslash : '/' ∉ cs)
    (hlong : isLongName (String.ofList cs) = true) :
    ofString (String.ofList ('/' :: cs)) = ⟨.root, [String.ofList cs]⟩ := by
  have hanchor : anchorOf ('/' :: cs) = .root := by
    rcases cs with _ | ⟨c, cs⟩
    · rfl
    · have hc : c ≠ '/' := fun h ↦ hslash (h ▸ List.mem_cons_self)
      simp [anchorOf, hc]
  have hnames : namesOf (String.ofList ('/' :: cs)) = ["", String.ofList cs] := by
    rw [namesOf, String.toList_ofList, Text.fields, if_pos rfl, Text.fields_of_notMem hslash]
    rfl
  have hempty := ne_of_isLongName hlong (show isLongName "" = false by decide)
  have hdot := ne_of_isLongName hlong (show isLongName "." = false by decide)
  rw [ofString, String.toList_ofList, hanchor, hnames]
  simp [hempty, hdot]

theorem FileSystem.walk_of_isLongName {fs : FileSystem} {budget : Nat} {name : String}
    (hlong : isLongName name = true) :
    fs.walk false budget [] [name] = .error .nameTooLong := by
  have hempty := ne_of_isLongName hlong (show isLongName "" = false by decide)
  have hdot := ne_of_isLongName hlong (show isLongName "." = false by decide)
  have hdots := ne_of_isLongName hlong (show isLongName ".." = false by decide)
  rw [walk_cons, if_neg (not_or.mpr ⟨hempty, hdot⟩), if_neg hdots, if_neg (by decide),
    if_neg (by decide), if_pos hlong]

theorem Machine.stranded_of_isLongName (m : Machine) {cs : List Char} (hslash : '/' ∉ cs)
    (hnul : '\x00' ∉ cs) (hlong : isLongName (String.ofList cs) = true) :
    ∃ escape, m.Stranded (String.ofList ('/' :: cs)) escape := by
  have hpath : m.envPath (String.ofList ('/' :: cs)) = .ok ⟨.root, [String.ofList cs]⟩ := by
    rw [envPath, Path.ofString_of_isLongName hslash hlong]
    rfl
  have hnames : Path.hasNul ⟨.root, [String.ofList cs]⟩ = false := by
    simpa [Path.hasNul] using hnul
  have hlost : m.files.locate (m.route ⟨.root, [String.ofList cs]⟩) = .error .nameTooLong := by
    rw [FileSystem.locate]
    split
    · rfl
    · exact FileSystem.walk_of_isLongName hlong
  refine ⟨_, .overlong hpath hnames ?_⟩
  rw [FileSystem.nodeAt, hlost]

/-- **Loading an env file.** Loading is left exactly for the listed reasons, and the machine is as
before then. In all other cases there is an overlay, and nothing but standard error has changed. If
the file holds a text that can be read, the overlay is loaded with the values of the text; if not,
it is empty and not loaded. -/
theorem loading_stranded (name : String) (m : Machine) :
    (∀ escape n, Overlay.load name m = .error escape n ↔ m.Stranded name escape ∧ n = m) ∧
    ∀ overlay n, Overlay.load name m = .ok overlay n →
      (∃ stderr, n = { m with stderr := stderr }) ∧
      ∃ p, m.envPath name = .ok p ∧
        ((∃ text, m.HoldsText p text ∧
            overlay = ⟨p.toString, (EnvFile.Contents.ofText m.environment text).values, true⟩) ∨
          (∀ text, ¬m.HoldsText p text) ∧ overlay = ⟨p.toString, [], false⟩) := by
  rcases hload : m.envOverlay name with escape' | ⟨overlay', lines⟩
  · have hleft := load_of_error hload
    have hstranded := Machine.envOverlay_eq_error_iff.mp hload
    constructor
    · intro escape n
      rw [hleft]
      constructor
      · rintro ⟨⟩
        exact ⟨hstranded, rfl⟩
      · rintro ⟨h, rfl⟩
        rw [Except.error.inj (hload.symm.trans (Machine.envOverlay_eq_error_iff.mpr h))]
    · intro overlay n h
      cases hleft.symm.trans h
  · have hback := load_of_ok hload
    constructor
    · intro escape n
      rw [hback]
      constructor
      · rintro ⟨⟩
      · rintro ⟨h, -⟩
        cases hload.symm.trans (Machine.envOverlay_eq_error_iff.mpr h)
    · intro overlay n h
      obtain ⟨rfl, rfl⟩ := EStateM.Result.ok.inj (hback.symm.trans h)
      exact ⟨⟨_, rfl⟩, Machine.overlay_of_envOverlay hload⟩

/-- Loading a file in the root is left if its name has 256 bytes. -/
theorem loading_stranded_overlong :
    ∃ escape n, Overlay.load (String.ofList ('/' :: List.replicate 256 'd')) {}
      = .error escape n := by
  have hslash : '/' ∉ List.replicate 256 'd' := fun h ↦
    absurd (List.eq_of_mem_replicate h) (by decide)
  have hnul : '\x00' ∉ List.replicate 256 'd' := fun h ↦
    absurd (List.eq_of_mem_replicate h) (by decide)
  obtain ⟨escape, hstranded⟩ := Machine.stranded_of_isLongName {} hslash hnul (by decide +kernel)
  exact ⟨escape, {}, load_of_error (Machine.envOverlay_eq_error_iff.mpr hstranded)⟩

end Runbook
