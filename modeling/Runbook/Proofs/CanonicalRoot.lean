import Runbook.Proofs.EnvFile.Anchored
import Runbook.Proofs.FileSystem.Canonical
import Runbook.Proofs.NearestProject

/-!
# The tool root is canonical

However the tool root is found, it is the canonical path of its origin or a path on the way to it:
the origin is the tool root that the environment names, or else the file of the program
(`Machine.rootOrigin`), and the search for a project and the fallback only go up from there. So it
is enough to know about resolving and about paths above.

A tool root is absolute and has no double dots whatever the links are. If they do not run in
circles, no link stands on the way to it and resolving it again comes back with it, provided that
resolving the origin has seen all links that it came past. It does not see a link that is spelled
too long, and a relative tool root can spell its way up from a deep directory as long as it likes
(`toolRoot_canonical_hidden`).
-/

namespace Runbook

namespace Machine

/-- No link has a NUL character in its target, and the working directory, unless it is removed, is a
canonical place. -/
structure Genuine (m : Machine) : Prop where
  /-- Targets can be spelled by names of files. -/
  targets : m.files.NameableTargets
  /-- The working directory is where its path leads. -/
  workingDirectory : m.workingDirectory.isRemoved = false →
    m.files.IsCanonical m.workingDirectory

variable {m : Machine} {p path root : Path}

/-- A machine that changes its working directory stands in a canonical place again. -/
theorem Genuine.chdir {n : Machine} {written : String} (h : m.Genuine)
    (hthere : m.workingDirectory.isRemoved = false) (hchdir : m.chdir written = .ok n) :
    n.Genuine := by
  rw [Machine.chdir] at hchdir
  split at hchdir
  · contradiction
  next hnul =>
  split at hchdir
  · contradiction
  split at hchdir
  · contradiction
  next here hlocate =>
  rw [FileSystem.locate] at hlocate
  split at hlocate
  · contradiction
  have hreaches := FileSystem.walk_eq_ok_iff.mp hlocate
  have hstart : m.files.IsCanonical (Route.ofString m.workingDirectory written).start := by
    rw [Route.ofString]
    dsimp only
    split
    · exact h.workingDirectory hthere
    · exact .root
  have hnames : Nameable (Route.ofString m.workingDirectory written).names :=
    nameable_namesOf (by simpa using hnul)
  have hcanonical := hreaches.isCanonical h.targets hstart hnames
  split at hchdir
  · obtain rfl := Except.ok.inj hchdir
    exact ⟨h.targets, fun _ ↦ hcanonical⟩
  · contradiction
  · contradiction

/-! ## Canonical paths -/

theorem Genuine.upright_stage (h : m.Genuine) (hnul : Nameable p.names) :
    m.files.Upright m.workingDirectory p.stage := by
  refine ⟨?_, ?_, hnul⟩
  · rw [Path.stage]
    dsimp only
    split
    · rintro ⟨⟩
    · rintro ⟨⟩
  · rw [Path.stage]
    dsimp only
    split
    · exact fun _ ↦ .root
    · exact fun hthere ↦ h.workingDirectory (hthere rfl)

theorem pathOf_of_upright {w : Way} (hw : m.files.Upright m.workingDirectory ⟨w, []⟩)
    (hpath : m.pathOf w = .ok path) :
    m.files.IsCanonical (w.location m.workingDirectory) ∧
      path = (w.location m.workingDirectory).path := by
  obtain ⟨hanchor, hcanonical, -⟩ := hw
  rw [pathOf] at hpath
  dsimp only at hanchor hcanonical
  rcases hstart : w.anchor with _ | _ | _ <;> rw [hstart] at hpath hanchor hcanonical
  · dsimp only at hpath
    split at hpath
    · contradiction
    · next hthere =>
      exact ⟨hcanonical fun _ ↦ Bool.eq_false_iff.mpr hthere, (Except.ok.inj hpath).symm⟩
  · refine ⟨hcanonical (by rintro ⟨⟩), ?_⟩
    rw [Way.location, if_neg (by rw [hstart]; decide)]
    exact (Except.ok.inj hpath).symm
  · exact absurd rfl hanchor

/-- **Resolving.** Without loops and with all links in sight, a path is resolved to the path of the
place at which following it ends, and that place is canonical. -/
theorem ends_of_resolve (hgenuine : m.Genuine) (hloops : m.files.LoopFree)
    (hsight : m.files.InSight m.workingDirectory p.stage) (h : m.resolve p = .ok path) :
    ∃ w : Way, Relation.ReflTransGen (m.files.Onward m.workingDirectory) p.stage ⟨w, []⟩ ∧
      m.files.IsCanonical (w.location m.workingDirectory) ∧
      path = (w.location m.workingDirectory).path := by
  rw [resolve] at h
  split at h
  · contradiction
  · next hnul =>
    have hupright := hgenuine.upright_stage (hasNul_eq_false_iff.mp (Bool.eq_false_iff.mpr hnul))
    obtain htooDeep | ⟨w, hw, hends⟩ := FileSystem.resolve_of_loopFree hloops hsight
    · rw [htooDeep] at h
      contradiction
    · rw [hw] at h
      exact ⟨w, hends, pathOf_of_upright (hupright.of_reflTransGen hgenuine.targets hends) h⟩

/-- **Resolving again.** From anywhere, the path of a canonical place is resolved to itself. -/
theorem resolve_path {here : Location} (h : m.files.IsCanonical here) :
    m.resolve here.path = .ok here.path := by
  have hnul : here.path.hasNul = false := by
    rw [hasNul_eq_false_iff]
    exact fun name hname ↦ h.nameable name (List.mem_reverse.mp hname)
  rw [resolve, hnul, if_neg Bool.false_ne_true, h.resolve_path]
  rfl

theorem kept_dots_notMem : Way.Kept fun w ↦ ".." ∉ w.names where
  start _ := List.not_mem_nil
  up {w} h := by
    obtain ⟨anchor, ups, _ | ⟨name, above⟩⟩ := w
    · rw [Way.up]
      dsimp only
      split
      · exact h
      · exact h
    · exact fun hmem ↦ h (List.mem_cons_of_mem name hmem)
  down _ hdots h := by
    rw [Way.down, List.mem_cons, not_or]
    exact ⟨hdots.symm, h⟩

theorem pathOf_absolute (hgenuine : m.Genuine) {w : Way} (hw : ".." ∉ w.names)
    (hpath : m.pathOf w = .ok path) : path.isAbsolute = true ∧ ".." ∉ path.names := by
  rw [pathOf] at hpath
  split at hpath
  · next hanchor =>
    split at hpath
    · contradiction
    · next hthere =>
      obtain rfl := Except.ok.inj hpath
      have hdots := (hgenuine.workingDirectory (Bool.eq_false_iff.mpr hthere)).dots_notMem
      refine ⟨rfl, ?_⟩
      rw [Location.path, List.mem_reverse, Way.location, if_pos hanchor, List.mem_append, not_or]
      exact ⟨hw, fun hmem ↦ hdots (List.mem_of_mem_drop hmem)⟩
  · next hanchor =>
    obtain rfl := Except.ok.inj hpath
    rw [List.mem_reverse]
    exact ⟨bne_iff_ne.mpr hanchor, hw⟩

/-- What a path is resolved to is absolute and has no double dots, circles or not. -/
theorem resolve_absolute (hgenuine : m.Genuine) (h : m.resolve p = .ok path) :
    path.isAbsolute = true ∧ ".." ∉ path.names := by
  have hways : ∀ w, m.files.resolve m.workingDirectory p = .ok w ∨
      m.files.resolve m.workingDirectory p = .error (.circle w) → ".." ∉ w.names :=
    (FileSystem.resolve_of_kept kept_dots_notMem (fun _ _ ↦ rfl)
      (by split <;> exact List.not_mem_nil)).2
  rw [resolve] at h
  split at h
  · contradiction
  · split at h
    · next w hw => exact pathOf_absolute hgenuine (hways w (.inl hw)) h
    · contradiction
    · next stuck hstuck =>
      rcases hpath : m.pathOf stuck with escape | path'
      · rw [hpath] at h
        contradiction
      · rw [hpath] at h
        simp only [bind, Except.bind] at h
        split at h
        · contradiction
        · obtain rfl := Except.ok.inj h
          exact pathOf_absolute hgenuine (hways stuck (.inr hstuck)) hpath

/-! ## The origin of the tool root -/

/-- The path that the tool root comes from: the one that the environment names, or that of the file
of the program. -/
def rootOrigin (m : Machine) : Except Escape Path :=
  if m.namedRoot = "" then .ok m.programFile
  else expandHome m.environment (Path.ofString m.namedRoot)

/-- A tool root is on the way to the canonical path of its origin. -/
theorem exists_resolve_of_toolRoot (h : m.toolRoot = .ok root) :
    ∃ p path, m.rootOrigin = .ok p ∧ m.resolve p = .ok path ∧ root.IsOn path := by
  rw [rootOrigin]
  by_cases hnamed : m.namedRoot = ""
  · rw [if_pos hnamed]
    obtain ⟨program, found, hprogram, hsearch, rfl⟩ := (toolRoot_eq_ok_iff hnamed).mp h
    refine ⟨_, program, rfl, hprogram, ?_⟩
    have hnearest := nearest_of_nearestProject hsearch
    rw [List.reverse_reverse] at hnearest
    cases hnearest with
    | project hproject => exact hproject.isOn.of_parent
    | nothing => exact (Path.isOn_self _).of_parent.of_parent.of_parent
  · rw [if_neg hnamed]
    rw [toolRoot_eq, if_neg hnamed] at h
    rcases hexpand : expandHome m.environment (Path.ofString m.namedRoot) with escape | p
    · rw [hexpand] at h
      contradiction
    · rw [hexpand] at h
      exact ⟨p, root, rfl, h, root.isOn_self⟩

end Machine

/-! ## The tool root -/

/-- **The tool root is canonical.** It is absolute and has no double dots. On files without loops,
and if no link that its origin comes past is spelled too long to be looked at, no link stands at it
or above it, and resolving it again comes back with it, whatever the working directory is. -/
theorem toolRoot_canonical {m : Machine} {root : Path} (hgenuine : m.Genuine)
    (hroot : m.toolRoot = .ok root) :
    root.isAbsolute = true ∧ ".." ∉ root.names ∧
      (m.files.LoopFree →
        (∀ p, m.rootOrigin = .ok p → m.files.InSight m.workingDirectory p.stage) →
          (∀ q : Path, q.IsOn root →
            ∀ target, m.files.node? q.names.reverse ≠ some (.link target)) ∧
          ∀ there : Location,
            Machine.resolve { m with workingDirectory := there } root = .ok root) := by
  obtain ⟨p, path, horigin, hresolve, hon, hnames⟩ := Machine.exists_resolve_of_toolRoot hroot
  obtain ⟨habsolute, hdots⟩ := Machine.resolve_absolute hgenuine hresolve
  refine ⟨?_, fun hmem ↦ hdots (hnames.subset hmem), fun hloops hsight ↦ ?_⟩
  · rw [Path.isAbsolute, hon]
    exact habsolute
  · obtain ⟨w, -, hend, rfl⟩ := Machine.ends_of_resolve hgenuine hloops (hsight p horigin) hresolve
    have hcanonical : ∀ names, names <+: (w.location m.workingDirectory).reverse →
        m.files.IsCanonical names.reverse := by
      intro names habove
      refine hend.of_suffix ?_
      rw [← List.reverse_prefix, List.reverse_reverse]
      exact habove
    constructor
    · rintro q ⟨-, hq⟩ target
      exact (hcanonical _ (hq.trans hnames)).node?_ne_link target
    · intro there
      have hpath : root = Location.path root.names.reverse := by
        rw [Location.path, List.reverse_reverse, Path.mk.injEq]
        exact ⟨hon, rfl⟩
      have hagain := Machine.resolve_path (m := { m with workingDirectory := there })
        (hcanonical _ hnames)
      rw [← hpath] at hagain
      exact hagain

def twoLinks : FileSystem := (FileSystem.put {} ["l", "a"] (.link "../b")).put ["b"] (.link "c")

theorem resolve_twoLinks :
    twoLinks.resolve [] ⟨.relative, ["a", "l", "x", "..", "gone", "y"]⟩
      = .ok ⟨.relative, 0, ["y", "gone", "c"]⟩ := by
  let c : Way := ⟨.relative, 0, ["c"]⟩
  have hb : ∀ left known, twoLinks.resolveFrom [] left known .here (Path.namesOf "c")
      = .ok (c, known) := by
    intro left known
    show twoLinks.resolveFrom [] left known .here ["c"] = _
    rw [FileSystem.resolveFrom_down rfl, FileSystem.resolveFrom]
    rfl
  have hl : ∀ known : Resolutions, known.lookup (Way.here.down "b") = none →
      twoLinks.resolveFrom [] 979 known (Way.here.down "a") (Path.namesOf "../b")
        = .ok (c, (Way.here.down "b", some c) :: (Way.here.down "b", none) :: known) := by
    intro known hnew
    have hlink : twoLinks.linkAt? [] (Way.here.down "b") = some "c" := rfl
    show twoLinks.resolveFrom [] (978 + 1) known (Way.here.down "a") ["..", "b"] = _
    rw [FileSystem.resolveFrom, if_neg (by decide), if_pos rfl]
    show twoLinks.resolveFrom [] (978 + 1) known .here ["b"] = _
    rw [FileSystem.resolveFrom_follow hlink hnew (hb 978 _), FileSystem.resolveFrom]
  show Except.map Prod.fst (twoLinks.resolveFrom [] (979 + 1) [] .here _) = _
  rw [FileSystem.resolveFrom_down rfl, FileSystem.resolveFrom_follow rfl rfl (hl _ rfl),
    FileSystem.resolveFrom_down rfl, FileSystem.resolveFrom, if_neg (by decide), if_pos rfl,
    FileSystem.resolveFrom_down rfl, FileSystem.resolveFrom_down rfl, FileSystem.resolveFrom]
  rfl

/-- A tool root that is spelled over two links, a name that leads nowhere, and double dots behind
both. -/
theorem toolRoot_canonical_links :
    let m : Machine := {
      files := (FileSystem.put {} ["l", "a"] (.link "../b")).put ["b"] (.link "c")
      environment := [(rootVariable, "a/l/x/../gone/y")] }
    m.Genuine ∧ m.toolRoot = .ok ⟨.root, ["c", "gone", "y"]⟩ ∧ m.files.LoopFree ∧
      ∀ there : Location, Machine.resolve { m with workingDirectory := there }
        ⟨.root, ["c", "gone", "y"]⟩ = .ok ⟨.root, ["c", "gone", "y"]⟩ := by
  intro m
  have hnamed : Path.ofString m.namedRoot = ⟨.relative, ["a", "l", "x", "..", "gone", "y"]⟩ := by
    decide
  have hexpand : expandHome m.environment (Path.ofString m.namedRoot)
      = .ok ⟨.relative, ["a", "l", "x", "..", "gone", "y"]⟩ := by
    rw [hnamed]
    exact Machine.expandHome_of_plain (by decide)
  have horigin : m.rootOrigin = .ok ⟨.relative, ["a", "l", "x", "..", "gone", "y"]⟩ := by
    rw [Machine.rootOrigin, if_neg (by decide), hexpand]
  have hway : m.files.resolve [] ⟨.relative, ["a", "l", "x", "..", "gone", "y"]⟩
      = .ok ⟨.relative, 0, ["y", "gone", "c"]⟩ := resolve_twoLinks
  have hroot : m.toolRoot = .ok ⟨.root, ["c", "gone", "y"]⟩ := by
    have hnul : Path.hasNul ⟨.relative, ["a", "l", "x", "..", "gone", "y"]⟩ = false := by decide
    rw [Machine.toolRoot_eq, if_neg (by decide), hexpand]
    show m.resolve ⟨.relative, ["a", "l", "x", "..", "gone", "y"]⟩ = _
    rw [Machine.resolve, hnul, if_neg Bool.false_ne_true, hway]
    rfl
  have hlinks : ∀ place target, m.files.node? place = some (.link target) →
      place = ["b"] ∧ target = "c" ∨ place = ["l", "a"] ∧ target = "../b" := by
    intro place target hlink
    obtain ⟨rfl, hnode⟩ | hlink := FileSystem.link_of_put hlink
    · exact .inl ⟨rfl, (Node.link.inj hnode).symm⟩
    obtain ⟨rfl, hnode⟩ | hlink := FileSystem.link_of_put hlink
    · exact .inr ⟨rfl, (Node.link.inj hnode).symm⟩
    · exact absurd hlink (FileSystem.node?_chain_ne_link 0 place target)
  have hgenuine : m.Genuine := by
    refine ⟨fun place target hlink ↦ ?_, fun _ ↦ .root⟩
    obtain ⟨-, rfl⟩ | ⟨-, rfl⟩ := hlinks place target hlink
    · decide
    · decide
  have hweighed : m.files.Weighed fun name ↦
      name.utf8ByteSize + 1 + if name = "l" then 6 else if name = "b" then 1 else 0 := by
    refine ⟨fun name ↦ by omega, fun name above target hlink ↦ ?_⟩
    obtain ⟨hplace, rfl⟩ | ⟨hplace, rfl⟩ := hlinks _ target hlink
    · obtain ⟨rfl, -⟩ := List.cons.inj hplace
      decide
    · obtain ⟨rfl, -⟩ := List.cons.inj hplace
      decide
  obtain ⟨-, -, hcanonical⟩ := toolRoot_canonical hgenuine hroot
  refine ⟨hgenuine, hroot, hweighed.loopFree, (hcanonical hweighed.loopFree fun p hp ↦ ?_).2⟩
  obtain rfl := Except.ok.inj (horigin.symm.trans hp)
  exact hweighed.inSight (by decide)

/-! ## A link out of sight -/

/-- The written path that leads up a number of times and then down to `link`. -/
def climbing : Nat → String
  | 0 => "link"
  | n + 1 => "../" ++ climbing n

theorem ofString_climbing (n : Nat) :
    Path.ofString (climbing n) = ⟨.relative, List.replicate n ".." ++ ["link"]⟩ := by
  have hnames : Path.namesOf (climbing n) = List.replicate n ".." ++ ["link"] := by
    induction n with
    | zero => decide
    | succ n ih =>
      rw [climbing, Path.namesOf, String.toList_append, List.replicate_succ, List.cons_append, ← ih]
      rfl
  have hanchor : Path.anchorOf (climbing n).toList = .relative := by
    cases n with
    | zero => rfl
    | succ n =>
      rw [climbing, String.toList_append]
      rfl
  have hkept : ∀ name ∈ List.replicate n ".." ++ ["link"], (name != "" && name != ".") = true := by
    intro name hname
    obtain hname | hname := List.mem_append.mp hname
    · obtain rfl := List.eq_of_mem_replicate hname
      decide
    · obtain rfl := List.mem_singleton.mp hname
      decide
  rw [Path.ofString, hanchor, hnames, List.filter_eq_self.mpr hkept]

/-- Directories of one name, one in the other, and a link to the outermost of them. -/
def linkedChain (n : Nat) : FileSystem := (FileSystem.chain n).put ["link"] (.link "d")

theorem eq_of_link_linkedChain {n : Nat} {place : Location} {target : String}
    (h : (linkedChain n).node? place = some (.link target)) : place = ["link"] ∧ target = "d" := by
  obtain ⟨hplace, hnode⟩ | hlink := FileSystem.link_of_put h
  · exact ⟨hplace, (Node.link.inj hnode).symm⟩
  · exact absurd hlink (FileSystem.node?_chain_ne_link n place target)

theorem loopFree_linkedChain (n : Nat) : (linkedChain n).LoopFree := by
  have hweighed : (linkedChain n).Weighed fun name ↦ name.utf8ByteSize + 1 := by
    refine ⟨fun name ↦ Nat.lt_succ_self _, fun name above target hlink ↦ ?_⟩
    obtain ⟨hplace, rfl⟩ := eq_of_link_linkedChain hlink
    obtain ⟨rfl, -⟩ := List.cons.inj hplace
    decide
  exact hweighed.loopFree

theorem isCanonical_replicate (n k : Nat) :
    (linkedChain n).IsCanonical (List.replicate k "d") := by
  induction k with
  | zero => exact .root
  | succ k ih =>
    refine .down (by decide) (by decide) (by decide) (fun target hlink ↦ ?_) ih
    obtain ⟨hname, -⟩ := List.cons.inj (eq_of_link_linkedChain hlink).1
    exact absurd hname (by decide)

theorem resolveFrom_climbing (fs : FileSystem) (here : Location) (depth ups n : Nat)
    (known : Resolutions) (rest : List String) :
    fs.resolveFrom here depth known ⟨.relative, ups, []⟩ (List.replicate n ".." ++ rest)
      = fs.resolveFrom here depth known ⟨.relative, ups + n, []⟩ rest := by
  induction n generalizing ups with
  | zero => rfl
  | succ n ih =>
    rw [List.replicate_succ, List.cons_append, FileSystem.resolveFrom, if_neg (by decide),
      if_pos rfl]
    exact (ih (ups + 1)).trans (by rw [Nat.add_right_comm, Nat.add_assoc])

theorem node?_link_linkedChain (n : Nat) :
    (linkedChain n).node? ["link"] = some (.link "d") := by
  rw [linkedChain, FileSystem.node?_put, if_neg (by decide), if_pos rfl]

theorem node?_bottom_linkedChain (n : Nat) :
    (linkedChain n).node? (List.replicate n "d") = some .directory := by
  rw [linkedChain, FileSystem.node?_put]
  split
  · rfl
  split
  · next hplace =>
    have hmem : "link" ∈ List.replicate n "d" := by rw [hplace]; exact List.mem_singleton_self _
    exact absurd (List.eq_of_mem_replicate hmem) (by decide)
  · exact FileSystem.node?_chain_deepest n

theorem resolve_link_linkedChain (n : Nat) (start : Location) :
    (linkedChain n).resolve start ⟨.root, ["link"]⟩ = .ok ⟨.root, 0, ["d"]⟩ := by
  have hlink : (linkedChain n).linkAt? start (Way.root.down "link") = some "d" :=
    FileSystem.linkAt?_eq_some_iff.mpr ⟨by decide, node?_link_linkedChain n⟩
  have hplain : (linkedChain n).linkAt? start (Way.root.down "d") = none :=
    FileSystem.linkAt?_of_plain fun target hlink ↦
      absurd (List.cons.inj (eq_of_link_linkedChain hlink).1).1 (by decide)
  have htarget : ∀ (depth : Nat) (known : Resolutions),
      (linkedChain n).resolveFrom start depth known .root (Path.namesOf "d")
        = .ok (⟨.root, 0, ["d"]⟩, known) := by
    intro depth known
    show (linkedChain n).resolveFrom start depth known .root ["d"] = _
    rw [FileSystem.resolveFrom_down hplain, FileSystem.resolveFrom]
    rfl
  show Except.map Prod.fst
    ((linkedChain n).resolveFrom start (979 + 1) [] .root ["link"]) = .ok ⟨.root, 0, ["d"]⟩
  rw [FileSystem.resolveFrom_follow hlink rfl (htarget 979 _),
    FileSystem.resolveFrom]
  rfl

theorem resolve_climbing_linkedChain {n : Nat} (hn : 1363 < n) (start : Location) :
    (linkedChain n).resolve start ⟨.relative, List.replicate n ".." ++ ["link"]⟩
      = .ok ⟨.relative, n, ["link"]⟩ := by
  have hhidden : (linkedChain n).linkAt? start ((Way.mk .relative n []).down "link") = none := by
    have hsize : maxPathSize < ((Way.mk .relative n []).down "link").size := by
      have hname : "link".utf8ByteSize = 4 := by decide
      simp only [Way.size, Way.down, List.foldl_cons, List.foldl_nil, if_true, hname, maxPathSize]
      omega
    rw [FileSystem.linkAt?, if_pos hsize]
  have hup := resolveFrom_climbing (linkedChain n) start FileSystem.depthLimit 0 n [] ["link"]
  rw [Nat.zero_add, FileSystem.resolveFrom_down hhidden,
    FileSystem.resolveFrom] at hup
  exact congrArg (Except.map Prod.fst) hup

/-- A machine at the bottom of the chain, with the link for its tool root. -/
def climber (n : Nat) : Machine where
  files := linkedChain n
  environment := [(rootVariable, climbing n)]
  workingDirectory := List.replicate n "d"

theorem toolRoot_climber {n : Nat} (hn : 1363 < n) :
    (climber n).toolRoot = .ok ⟨.root, ["link"]⟩ := by
  have hnamed : (climber n).namedRoot = climbing n := rfl
  have hne : climbing n ≠ "" := by
    intro hempty
    have hpath := ofString_climbing n
    rw [hempty] at hpath
    have hnames : [] = List.replicate n ".." ++ ["link"] := (Path.mk.inj hpath).2
    simp at hnames
  obtain ⟨k, rfl⟩ : ∃ k, n = k + 1 := ⟨n - 1, by omega⟩
  have hexpand : expandHome (climber (k + 1)).environment (Path.ofString (climbing (k + 1)))
      = .ok ⟨.relative, List.replicate (k + 1) ".." ++ ["link"]⟩ := by
    rw [ofString_climbing, List.replicate_succ, List.cons_append]
    exact Machine.expandHome_of_plain (by decide)
  have hnul : Path.hasNul ⟨.relative, List.replicate (k + 1) ".." ++ ["link"]⟩ = false := by
    rw [hasNul_eq_false_iff]
    intro name hname
    obtain hname | hname := List.mem_append.mp hname
    · obtain rfl := List.eq_of_mem_replicate hname
      decide
    · obtain rfl := List.mem_singleton.mp hname
      decide
  have hway : (climber (k + 1)).files.resolve (climber (k + 1)).workingDirectory
      ⟨.relative, List.replicate (k + 1) ".." ++ ["link"]⟩ = .ok ⟨.relative, k + 1, ["link"]⟩ :=
    resolve_climbing_linkedChain hn _
  have hstands : (climber (k + 1)).workingDirectory.isRemoved = false := rfl
  rw [Machine.toolRoot_eq, hnamed, if_neg hne, hexpand]
  show (climber (k + 1)).resolve ⟨.relative, List.replicate (k + 1) ".." ++ ["link"]⟩ = _
  rw [Machine.resolve, hnul, if_neg Bool.false_ne_true, hway]
  dsimp only
  rw [Machine.pathOf, hstands]
  dsimp only
  rw [if_neg Bool.false_ne_true, Way.location, if_pos rfl]
  have hdrop : (climber (k + 1)).workingDirectory.drop (k + 1) = [] := by
    rw [climber, List.drop_replicate, Nat.sub_self, List.replicate_zero]
  dsimp only
  rw [hdrop]
  rfl

/-- **A link out of sight.** There are no loops, and the tool root is bound to the bottom of a deep
chain of directories. It leads up to a link at the top, and by then is spelled too long. So the tool
root is the link itself, and resolving it again comes to what the link leads to. -/
theorem toolRoot_canonical_hidden :
    (climber 1400).files.LoopFree ∧ (climber 1400).Genuine ∧
      (climber 1400).files.node? (climber 1400).workingDirectory = some .directory ∧
      (climber 1400).toolRoot = .ok ⟨.root, ["link"]⟩ ∧
      (climber 1400).files.node? ["link"] = some (.link "d") ∧
      (climber 1400).resolve ⟨.root, ["link"]⟩ = .ok ⟨.root, ["d"]⟩ := by
  refine ⟨loopFree_linkedChain _, ⟨?_, fun _ ↦ isCanonical_replicate _ _⟩,
    node?_bottom_linkedChain _, toolRoot_climber (by decide), node?_link_linkedChain _, ?_⟩
  · intro place target hlink
    obtain ⟨-, rfl⟩ := eq_of_link_linkedChain hlink
    decide
  · have hway : (climber 1400).files.resolve (climber 1400).workingDirectory ⟨.root, ["link"]⟩
        = .ok ⟨.root, 0, ["d"]⟩ := resolve_link_linkedChain _ _
    have hnul : Path.hasNul ⟨.root, ["link"]⟩ = false := by decide
    rw [Machine.resolve, hnul, if_neg Bool.false_ne_true, hway]
    rfl

end Runbook
