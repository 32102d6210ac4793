import Runbook.Proofs.FileSystem.Ways
import Runbook.Root

/-!
# Paths that start at the root

What an absolute path leads to does not depend on the working directory, although the working
directory is handed along all the time. A way that starts at the root stays one: climbing and going
down do not change where it starts, a link with a relative target goes on from the way to it, and a
link with an absolute one starts at the root again (`Way.kept_isRooted`). So no question is asked on
the way that the working directory has a part in (`FileSystem.resolve_of_isAbsolute`).

A relative path is bound to the working directory. Where there are no links, it is followed by its
letter (`FileSystem.resolveFrom_of_noLinks`), and two working directories of which one lies in the
other tell it apart.
-/

namespace Runbook

/-! ## Ways -/

namespace Way

def IsRooted (w : Way) : Prop := w.anchor ≠ .relative

@[simp] theorem anchor_up (w : Way) : w.up.anchor = w.anchor := by
  rw [up]
  split
  · rfl
  · split <;> rfl

@[simp] theorem anchor_down (w : Way) (name : String) : (w.down name).anchor = w.anchor := rfl

@[simp] theorem anchor_follow (w : Way) (names : List String) :
    (w.follow names).anchor = w.anchor := by
  induction names generalizing w with
  | nil => rfl
  | cons name rest ih =>
    rw [follow]
    split
    · exact ih w
    · split
      · rw [ih, anchor_up]
      · rw [ih, anchor_down]

theorem isRooted_root : root.IsRooted := by rintro ⟨⟩

/-- A way that starts at the root stays one. -/
theorem kept_isRooted : Kept IsRooted where
  start hanchor := hanchor
  up h := by
    rw [IsRooted, anchor_up]
    exact h
  down _ _ h := h

theorem IsRooted.location_eq {w : Way} (h : w.IsRooted) (here there : Location) :
    w.location here = w.location there := by
  rw [location, location, if_neg h, if_neg h]

end Way

/-! ## Resolving -/

namespace FileSystem

theorem linkAt?_of_isRooted (fs : FileSystem) {w : Way} (h : w.IsRooted) (here there : Location) :
    fs.linkAt? there w = fs.linkAt? here w := by
  rw [linkAt?, linkAt?, h.location_eq here there]

/-- **Resolving from the root.** The working directory has no say in what an absolute path resolves
to, and what comes out starts at the root. -/
theorem resolve_of_isAbsolute (fs : FileSystem) (here there : Location) {p : Path}
    (hp : p.isAbsolute = true) :
    fs.resolve there p = fs.resolve here p ∧ ∀ w, fs.resolve here p = .ok w ∨
      fs.resolve here p = .error (.circle w) → w.IsRooted := by
  refine resolve_of_kept Way.kept_isRooted
    (fun _ hv ↦ fs.linkAt?_of_isRooted hv here there) ?_
  rw [hp, if_pos rfl]
  exact Way.isRooted_root

/-- Without links, a path is followed by its letter. -/
theorem resolveFrom_of_noLinks {fs : FileSystem} (here : Location) {depth : Nat}
    {known : Resolutions} {w : Way} {names : List String}
    (hlinks : ∀ place target, fs.node? place ≠ some (.link target)) :
    fs.resolveFrom here depth known w names = .ok (w.follow names, known) := by
  have hnone : ∀ v, fs.linkAt? here v = none := fun v ↦ linkAt?_of_plain (hlinks _)
  induction names generalizing w with
  | nil => rw [resolveFrom, Way.follow]
  | cons name rest ih =>
    by_cases hname : name = "" ∨ name = "."
    · rw [resolveFrom, if_pos hname, ih, Way.follow, if_pos hname]
    · by_cases hdots : name = ".."
      · rw [resolveFrom, if_neg hname, if_pos hdots, ih, Way.follow, if_neg hname, if_pos hdots]
      · rw [resolveFrom_down (hnone _) hname hdots, ih, Way.follow, if_neg hname, if_neg hdots]

end FileSystem

/-! ## Canonical paths -/

namespace Machine

theorem pathOf_of_isRooted (m : Machine) (there : Location) {w : Way} (hw : w.IsRooted) :
    ∃ path, path.isAbsolute = true ∧ m.pathOf w = .ok path ∧
      Machine.pathOf { m with workingDirectory := there } w = .ok path := by
  refine ⟨⟨w.anchor, w.names.reverse⟩, bne_iff_ne.mpr hw, ?_⟩
  rw [pathOf, pathOf]
  rcases hanchor : w.anchor with _ | _ | _
  · exact absurd hanchor hw
  · exact ⟨rfl, rfl⟩
  · exact ⟨rfl, rfl⟩

theorem route_of_isAbsolute (m : Machine) (there : Location) {p : Path}
    (hp : p.isAbsolute = true) :
    Machine.route { m with workingDirectory := there } p = m.route p := by
  rw [route, route, Path.route, Path.route, if_pos hp, if_pos hp]

/-- The canonical path of an absolute path does not depend on the working directory, and is
absolute. -/
theorem resolve_of_isAbsolute (m : Machine) (there : Location) {p : Path}
    (hp : p.hasNul = true ∨ p.isAbsolute = true) :
    Machine.resolve { m with workingDirectory := there } p = m.resolve p ∧
      ∀ path, m.resolve p = .ok path → path.isAbsolute = true := by
  rw [resolve, resolve]
  by_cases hnul : p.hasNul = true
  · rw [if_pos hnul, if_pos hnul]
    exact ⟨rfl, fun _ h ↦ by cases h⟩
  · obtain ⟨hsame, hrooted⟩ := m.files.resolve_of_isAbsolute m.workingDirectory there
      (hp.resolve_left hnul)
    rw [if_neg hnul, if_neg hnul]
    dsimp only
    rw [hsame]
    rcases hfound : m.files.resolve m.workingDirectory p with (stuck | _) | w
    · obtain ⟨path, habsolute, hpath, hpath'⟩ :=
        m.pathOf_of_isRooted there (hrooted stuck (.inr hfound))
      simp only [hpath, hpath', bind, Except.bind, m.route_of_isAbsolute there habsolute, true_and]
      intro q h
      split at h
      · cases h
      · obtain rfl := Except.ok.inj h
        exact habsolute
    · exact ⟨rfl, fun _ h ↦ by cases h⟩
    · obtain ⟨path, habsolute, hpath, hpath'⟩ :=
        m.pathOf_of_isRooted there (hrooted w (.inl hfound))
      dsimp only
      rw [hpath, hpath']
      refine ⟨rfl, ?_⟩
      rintro _ ⟨rfl⟩
      exact habsolute

end Machine

end Runbook
