import Runbook.FileSystem.Content
import Runbook.Proofs.FileSystem.Outline
import Runbook.Proofs.FileSystem.Reaching

/-!
# Growing file systems

A file system grows if something is put where nothing stood. What could be found before is found at
the same place afterwards, as long as no link is among the new: a link could send a path elsewhere
that has only ended there so far (`Extends.reaches`). So a path that has been followed once need not
be followed again when a directory has been created.

Creating the directory of a path makes a file system grow along that path: all that is new are
directories, each at the place to which the path, or one of the paths above it, leads. That is also
what is left behind by a failure half-way, and then the path itself is not among the new
(`grownAlong_addDirectories`).
-/

namespace Runbook

namespace Path

/-- `q` is `p`, or one of the paths above it. -/
def IsOn (q p : Path) : Prop := q.anchor = p.anchor ∧ q.names <+: p.names

theorem isOn_self (p : Path) : p.IsOn p := ⟨rfl, List.prefix_refl _⟩

theorem IsOn.of_parent {q p : Path} (h : q.IsOn p.parent) : q.IsOn p :=
  ⟨h.1, h.2.trans (List.dropLast_prefix _)⟩

end Path

namespace FileSystem

variable {fs fs' fs'' : FileSystem} {here there : Location} {p : Path}

/-- In `fs'` something may stand where nothing stands in `fs`, but no link. -/
def Extends (fs fs' : FileSystem) : Prop :=
  ∀ here, fs'.node? here = fs.node? here ∨
    fs.node? here = none ∧ ∀ target, fs'.node? here ≠ some (.link target)

/-- In `fs'` directories may stand where nothing stands in `fs`, each at the place to which `p` or
a path above it leads from the directory `here`. -/
def GrownAlong (fs fs' : FileSystem) (here : Location) (p : Path) : Prop :=
  ∀ there, fs'.node? there = fs.node? there ∨
    fs.node? there = none ∧ fs'.node? there = some .directory ∧
      ∃ q : Path, q.IsOn p ∧ fs'.locate (q.route here) = .ok there

/-! ## Finding what was found before -/

namespace Extends

theorem node?_of_some (h : fs.Extends fs') {node : Node} (hnode : fs.node? here = some node) :
    fs'.node? here = some node := by
  rcases h here with hsame | ⟨hnone, -⟩
  · rw [hsame, hnode]
  · rw [hnode] at hnone
    contradiction

/-- **Ways stay.** A path that leads somewhere still leads to the same place. -/
theorem reaches (h : fs.Extends fs') {create : Bool} {budget : Nat} {names : List String}
    (hway : fs.Reaches create budget here names there) :
    fs'.Reaches create budget here names there := by
  induction hway with
  | arrived => exact .arrived
  | stay hname _ ih => exact .stay hname ih
  | up _ ih => exact .up ih
  | vacant hstep hnone =>
    rename_i here name
    -- The place may have been taken since then, but the way still ends there.
    rcases hnode : fs'.node? (name :: here) with _ | ⟨bytes, x⟩ | _ | target
    · exact .vacant hstep hnode
    · exact .file hstep hnode
    · exact .down hstep hnode .arrived
    · rcases h (name :: here) with hsame | ⟨-, hnolink⟩
      · rw [hnode, hnone] at hsame
        contradiction
      · exact absurd hnode (hnolink target)
  | file hstep hnode => exact .file hstep (h.node?_of_some hnode)
  | down hstep hnode _ ih => exact .down hstep (h.node?_of_some hnode) ih
  | follow hstep hnode htarget _ ih => exact .follow hstep (h.node?_of_some hnode) htarget ih

theorem locate_of_ok (h : fs.Extends fs') {r : Route} (hlocate : fs.locate r = .ok there) :
    fs'.locate r = .ok there := by
  rw [locate] at hlocate ⊢
  split at hlocate
  · contradiction
  · next hlong =>
    rw [if_neg hlong]
    exact walk_eq_ok_iff.mpr (h.reaches (walk_eq_ok_iff.mp hlocate))

/-- A file that could be read can still be read, and holds the same. -/
theorem read_of_ok (h : fs.Extends fs') {r : Route} {bytes : List UInt8}
    (hread : fs.read r = .ok bytes) : fs'.read r = .ok bytes := by
  rw [read, nodeAt] at hread ⊢
  rcases hlocate : fs.locate r with code | there
  · rw [hlocate] at hread
    contradiction
  · rw [hlocate] at hread
    rw [h.locate_of_ok hlocate]
    dsimp only at hread ⊢
    rcases hnode : fs.node? there with _ | node
    · rw [hnode] at hread
      contradiction
    · rw [hnode] at hread
      rw [h.node?_of_some hnode]
      exact hread

end Extends

/-! ## Taking a vacant place -/

theorem node?_put_self (hhere : fs.node? here ≠ some .directory) (node : Node) :
    (fs.put here node).node? here = some node := by
  rw [node?_put, if_neg, if_pos rfl]
  intro hroot
  rw [node?, if_pos hroot] at hhere
  exact hhere rfl

theorem node?_put_of_ne (fs : FileSystem) (node : Node) (hne : there ≠ here) :
    (fs.put here node).node? there = fs.node? there := by
  rw [node?_put, if_neg hne]
  split
  · next hroot => rw [node?, if_pos hroot]
  · rfl

theorem extends_put {node : Node} (hnone : fs.node? here = none)
    (hnode : ∀ target, node ≠ .link target) : fs.Extends (fs.put here node) := by
  intro there
  by_cases hthere : there = here
  · subst hthere
    refine .inr ⟨hnone, fun target ↦ ?_⟩
    rw [node?_put_self (by simp [hnone]), Ne, Option.some.injEq]
    exact hnode target
  · exact .inl (node?_put_of_ne fs node hthere)

theorem place_eq_ok_iff {r : Route} : fs.place r = .ok there ↔
    ∃ name here, there = name :: here ∧ r.names = r.names.dropLast ++ [name] ∧ ¬r.isLong = true ∧
      fs.Reaches false linkBudget r.start r.names.dropLast here ∧
      fs.node? here = some .directory ∧ IsStep false here name [] := by
  constructor
  · intro h
    rw [place] at h
    split at h
    · contradiction
    next hlong =>
    rcases hlast : r.names.getLast? with _ | name
    · rw [hlast] at h
      contradiction
    rw [hlast] at h
    dsimp only at h
    rcases hwalk : fs.walk false linkBudget r.start r.names.dropLast with code | here
    · rw [hwalk] at h
      contradiction
    rw [hwalk] at h
    dsimp only at h
    split at h
    · contradiction
    · next hnode =>
      split at h
      · contradiction
      next hdots =>
      split at h
      · contradiction
      next hstands =>
      split at h
      · contradiction
      next hshort =>
      obtain rfl := Except.ok.inj h
      obtain ⟨hempty, hdot, hup⟩ : name ≠ "" ∧ name ≠ "." ∧ name ≠ ".." := by
        simpa only [not_or] using hdots
      refine ⟨name, here, rfl, ?_, hlong, walk_eq_ok_iff.mp hwalk, hnode, ?_⟩
      · obtain ⟨front, hfront⟩ := List.getLast?_eq_some_iff.mp hlast
        rw [hfront, List.dropLast_concat]
      · exact ⟨not_or.mpr ⟨hempty, hdot⟩, hup, by simp, hstands, hshort⟩
    · contradiction
  · rintro ⟨name, here, rfl, hnames, hlong, hway, hhere, hstep⟩
    have hlast : r.names.getLast? = some name := by rw [hnames, List.getLast?_concat]
    have hdots : ¬(name = "" ∨ name = "." ∨ name = "..") := by
      rw [← or_assoc]
      exact not_or.mpr ⟨hstep.moves, hstep.down⟩
    rw [place, if_neg hlong, hlast]
    dsimp only
    rw [walk_eq_ok_iff.mpr hway]
    dsimp only
    rw [hhere]
    dsimp only
    rw [if_neg hdots, if_neg hstep.stands, if_neg hstep.short]

theorem Extends.place_of_ok (h : fs.Extends fs') {r : Route} (hplace : fs.place r = .ok there) :
    fs'.place r = .ok there := by
  obtain ⟨name, here, rfl, hnames, hlong, hway, hhere, hstep⟩ := place_eq_ok_iff.mp hplace
  exact place_eq_ok_iff.mpr
    ⟨name, here, rfl, hnames, hlong, h.reaches hway, h.node?_of_some hhere, hstep⟩

theorem locate_put_of_place {r : Route} (hplace : fs.place r = .ok there)
    (hnone : fs.node? there = none) : (fs.put there .directory).locate r = .ok there := by
  have hgrown : fs.Extends (fs.put there .directory) := extends_put hnone (by simp)
  have hplain : fs.node? there ≠ some .directory := by simp [hnone]
  have hnew := node?_put_self hplain .directory
  obtain ⟨name, here, rfl, hnames, hlong, hway, hhere, hstep⟩ := place_eq_ok_iff.mp hplace
  obtain ⟨left, hleft⟩ := (hgrown.reaches hway).exists_append (hgrown.node?_of_some hhere)
  rw [locate, if_neg hlong, walk_eq_ok_iff, hnames]
  exact hleft (.down hstep hnew .arrived)

theorem tryDirectory_eq_ok {faults : List Fault}
    (h : fs.tryDirectory faults here p = .ok fs') :
    Fault.error? faults .mkdir p.toString = none ∧ ∃ there, fs.place (p.route here) = .ok there ∧
      fs.node? there = none ∧ fs' = fs.put there .directory := by
  rw [tryDirectory] at h
  split at h
  · contradiction
  next hfault =>
  rcases hadd : fs.addDirectory (p.route here) with code | made
  · rw [hadd] at h
    contradiction
  rw [hadd] at h
  obtain rfl := Except.ok.inj h
  rw [addDirectory] at hadd
  rcases hplace : fs.place (p.route here) with code | there
  · rw [hplace] at hadd
    contradiction
  rw [hplace] at hadd
  dsimp only at hadd
  rcases hnone : fs.node? there with _ | node
  · rw [hnone] at hadd
    exact ⟨hfault, there, rfl, hnone, (Except.ok.inj hadd).symm⟩
  · rw [hnone] at hadd
    contradiction

/-! ## Growing along a path -/

namespace GrownAlong

theorem refl (fs : FileSystem) (here : Location) (p : Path) : fs.GrownAlong fs here p :=
  fun _ ↦ .inl rfl

theorem toExtends (h : fs.GrownAlong fs' here p) : fs.Extends fs' := by
  intro there
  rcases h there with hsame | ⟨hnone, hnew, -⟩
  · exact .inl hsame
  · refine .inr ⟨hnone, fun target ↦ ?_⟩
    simp [hnew]

theorem of_parent (h : fs.GrownAlong fs' here p.parent) : fs.GrownAlong fs' here p := by
  intro there
  refine (h there).imp_right ?_
  rintro ⟨hnone, hnew, q, hq, hlocate⟩
  exact ⟨hnone, hnew, q, hq.of_parent, hlocate⟩

theorem trans (h : fs.GrownAlong fs' here p) (h' : fs'.GrownAlong fs'' here p) :
    fs.GrownAlong fs'' here p := by
  intro there
  rcases h' there with hsame' | ⟨hnone', hnew'⟩
  · rcases h there with hsame | ⟨hnone, hnew, q, hq, hlocate⟩
    · exact .inl (hsame'.trans hsame)
    · exact .inr ⟨hnone, hsame'.trans hnew, q, hq, h'.toExtends.locate_of_ok hlocate⟩
  · rcases h there with hsame | ⟨-, hnew, -⟩
    · exact .inr ⟨hsame.symm.trans hnone', hnew'⟩
    · rw [hnew] at hnone'
      contradiction

theorem node?_eq_file_iff (h : fs.GrownAlong fs' here p) {bytes : List UInt8}
    {executable : Bool} : fs'.node? there = some (.file bytes executable) ↔
      fs.node? there = some (.file bytes executable) := by
  rcases h there with hsame | ⟨hnone, hnew, -⟩
  · rw [hsame]
  · simp [hnone, hnew]

end GrownAlong

theorem grownAlong_of_tryDirectory {faults : List Fault}
    (h : fs.tryDirectory faults here p = .ok fs') : fs.GrownAlong fs' here p := by
  obtain ⟨-, there, hplace, hnone, rfl⟩ := tryDirectory_eq_ok h
  intro place
  by_cases hsame : place = there
  · subst hsame
    exact .inr ⟨hnone, node?_put_self (by simp [hnone]) .directory, p, p.isOn_self,
      locate_put_of_place hplace hnone⟩
  · exact .inl (node?_put_of_ne fs .directory hsame)

/-- **Creating directories.** Whatever becomes of it, all that is new are directories on the way,
and the path itself is among them only if it could be created. -/
theorem grownAlong_addDirectories (fs : FileSystem) (faults : List Fault) (here : Location)
    (p : Path) :
    fs.GrownAlong (fs.addDirectories faults here p).1 here p ∧
      ∀ e, (fs.addDirectories faults here p).2 = .error e →
        fs.GrownAlong (fs.addDirectories faults here p).1 here p.parent := by
  induction p using Path.parentRec with
  | step p ih =>
    rw [addDirectories]
    rcases htry : fs.tryDirectory faults here p with e | made
    · dsimp only
      split
      · exact ⟨.refl fs here p, fun _ _ ↦ .refl fs here p.parent⟩
      split
      · exact ⟨.refl fs here p, fun _ _ ↦ .refl fs here p.parent⟩
      next hne =>
      obtain ⟨habove, -⟩ := ih hne
      rcases hup : fs.addDirectories faults here p.parent with ⟨above, e | _⟩
      · rw [hup] at habove
        exact ⟨habove.of_parent, fun _ _ ↦ habove⟩
      · rw [hup] at habove
        dsimp only
        -- The directories above are there now, and the path is none of them.
        rcases hagain : above.tryDirectory faults here p with e | made
        · dsimp only
          split
          · exact ⟨habove.of_parent, fun _ _ ↦ habove⟩
          · exact ⟨habove.of_parent, fun _ _ ↦ habove⟩
        · refine ⟨habove.of_parent.trans (grownAlong_of_tryDirectory hagain), ?_⟩
          rintro _ ⟨⟩
    · refine ⟨grownAlong_of_tryDirectory htry, ?_⟩
      rintro _ ⟨⟩

theorem extends_addDirectories (fs : FileSystem) (faults : List Fault) (here : Location)
    (p : Path) : fs.Extends (fs.addDirectories faults here p).1 :=
  (fs.grownAlong_addDirectories faults here p).1.toExtends

end FileSystem

end Runbook
