import Runbook.FileSystem.Resolve
import Runbook.Keyed

/-!
# Ways that resolving takes

Resolving goes from one way to the next: up, down to a name, back to the root for an absolute link,
and by the letter once the links run in a circle. A property that all of these steps keep
(`Way.Kept`) is one of everything that resolving comes to, and of the files nothing more is asked
than which links stand at the ends of ways that have it (`FileSystem.resolveFrom_of_kept`). The
induction over the recursion of resolving is made once for all such properties; what is kept, and
from where the links are seen, is up to the instances.
-/

namespace Runbook

namespace Way

theorem down_inj {v w : Way} {name name' : String} (h : v.down name = w.down name') :
    v = w ∧ name = name' := by
  obtain ⟨anchor, ups, names⟩ := v
  obtain ⟨anchor', ups', names'⟩ := w
  simp only [down, Way.mk.injEq, List.cons.injEq] at h
  obtain ⟨rfl, rfl, rfl, rfl⟩ := h
  exact ⟨rfl, rfl⟩

theorem location_down (here : Location) (w : Way) (name : String) :
    (w.down name).location here = name :: w.location here := by
  rw [location, location, down]
  dsimp only
  split
  · rfl
  · rfl

/-- The way up leads to the place above, also where the way leads out of the working directory. -/
theorem location_up (here : Location) (w : Way) : w.up.location here = (w.location here).tail := by
  obtain ⟨anchor, ups, _ | ⟨name, above⟩⟩ := w
  · rw [up]
    dsimp only
    split
    · next hanchor => simp [location, hanchor]
    · next hanchor => simp [location, hanchor]
  · rw [up, location, location]
    dsimp only
    split
    · rfl
    · rfl

/-- The steps of resolving keep the property. -/
structure Kept (P : Way → Prop) : Prop where
  /-- The ways from the root to itself have it. -/
  start : ∀ {anchor}, anchor ≠ .relative → P ⟨anchor, 0, []⟩
  /-- It is kept on the way up. -/
  up : ∀ {w}, P w → P w.up
  /-- It is kept on the way down to a name. -/
  down : ∀ {w name}, ¬(name = "" ∨ name = ".") → name ≠ ".." → P w → P (w.down name)

namespace Kept

variable {P : Way → Prop} {w : Way}

theorem root_or (hP : Kept P) (hw : P w) (c : Prop) [Decidable c] :
    P (if c then w else root) := by
  split
  · exact hw
  · exact hP.start (by rintro ⟨⟩)

theorem follow (hP : Kept P) (hw : P w) (names : List String) : P (w.follow names) := by
  induction names generalizing w with
  | nil => exact hw
  | cons name rest ih =>
    rw [Way.follow]
    split
    · exact ih hw
    · next hname =>
      split
      · exact ih (hP.up hw)
      · next hdots => exact ih (hP.down hname hdots hw)

theorem append (hP : Kept P) (hw : P w) (rest : List String) : P (w.append rest) := by
  rw [Way.append]
  split
  · exact hP.follow hw rest
  · next hanchor => exact hP.follow (hP.start fun hrelative ↦ hanchor hrelative) rest

end Kept

end Way

/-- All ways that links are known to lead to have the property. -/
def Resolutions.All (P : Way → Prop) (known : Resolutions) : Prop :=
  ∀ w there, (w, some there) ∈ known → P there

theorem Resolutions.All.cons {P : Way → Prop} {known : Resolutions} (h : known.All P) (w : Way)
    {there? : Option Way} (hthere : ∀ there, there? = some there → P there) :
    Resolutions.All P ((w, there?) :: known) := by
  intro v there hmem
  rcases List.mem_cons.mp hmem with hsame | hmem
  · exact hthere there (Prod.mk.inj hsame).2.symm
  · exact h v there hmem

/-- What resolving has come to has the property. -/
inductive ComesTo (P : Way → Prop) : Except Obstacle (Way × Resolutions) → Prop
  /-- The end of the path. -/
  | ok {there : Way} {known : Resolutions} (hthere : P there) (hknown : known.All P) :
    ComesTo P (.ok (there, known))
  /-- A link in a circle. -/
  | circle {stuck : Way} (hstuck : P stuck) : ComesTo P (.error (.circle stuck))
  /-- Too many links. -/
  | tooDeep : ComesTo P (.error .tooDeep)

theorem ComesTo.append {P : Way → Prop} (hP : Way.Kept P) {obstacle : Obstacle}
    (h : ComesTo P (.error obstacle)) (rest : List String) :
    ComesTo P (.error (obstacle.append rest)) := by
  cases h with
  | circle hstuck => exact .circle (hP.append hstuck rest)
  | tooDeep => exact .tooDeep

namespace FileSystem

theorem linkAt?_eq_some_iff {fs : FileSystem} {here : Location} {w : Way} {target : String} :
    fs.linkAt? here w = some target ↔
      w.size ≤ maxPathSize ∧ fs.node? (w.location here) = some (.link target) := by
  rw [linkAt?]
  split
  · next hlong => simp [Nat.not_le.mpr hlong]
  · next hshort =>
    rw [and_iff_right (Nat.not_lt.mp hshort)]
    split
    · next hlink => simp [hlink]
    · next hplain => exact iff_of_false (by rintro ⟨⟩) (hplain target)

theorem linkAt?_of_plain {fs : FileSystem} {here : Location} {w : Way}
    (h : ∀ target, fs.node? (w.location here) ≠ some (.link target)) : fs.linkAt? here w = none :=
  Option.eq_none_iff_forall_ne_some.mpr fun target hlink ↦
    h target (linkAt?_eq_some_iff.mp hlink).2

theorem resolveFrom_cons (fs : FileSystem) (here : Location) (depth : Nat) (known : Resolutions)
    (w : Way) {name : String} (rest : List String) (hname : ¬(name = "" ∨ name = "."))
    (hdots : name ≠ "..") :
    fs.resolveFrom here depth known w (name :: rest) =
      match fs.linkAt? here (w.down name) with
      | none => fs.resolveFrom here depth known (w.down name) rest
      | some target =>
        match known.lookup (w.down name) with
        | some (some found) => fs.resolveFrom here depth known found rest
        | some none => .error (.circle ((w.down name).append rest))
        | none =>
          match depth with
          | 0 => .error .tooDeep
          | left + 1 =>
            match fs.resolveFrom here left ((w.down name, none) :: known)
                (if Path.anchorOf target.toList = .relative then w else .root)
                (Path.namesOf target) with
            | .error obstacle => .error (obstacle.append rest)
            | .ok (found, known) =>
              fs.resolveFrom here (left + 1) ((w.down name, some found) :: known) found rest := by
  rw [resolveFrom, if_neg hname]
  exact if_neg hdots

theorem resolveFrom_down {fs : FileSystem} {here : Location} {depth : Nat} {known : Resolutions}
    {w : Way} {name : String} {rest : List String}
    (hplain : fs.linkAt? here (w.down name) = none)
    (hname : ¬(name = "" ∨ name = ".") := by decide) (hdots : name ≠ ".." := by decide) :
    fs.resolveFrom here depth known w (name :: rest)
      = fs.resolveFrom here depth known (w.down name) rest := by
  rw [resolveFrom_cons fs here depth known w rest hname hdots, hplain]

/-- A link of which nothing is known is resolved first, and what it leads to is gone on from. -/
theorem resolveFrom_follow {fs : FileSystem} {here : Location} {left : Nat}
    {known known' : Resolutions} {w there : Way} {name target : String} {rest : List String}
    (hlink : fs.linkAt? here (w.down name) = some target)
    (hnew : known.lookup (w.down name) = none)
    (htarget : fs.resolveFrom here left ((w.down name, none) :: known)
      (if Path.anchorOf target.toList = .relative then w else .root) (Path.namesOf target)
        = .ok (there, known'))
    (hname : ¬(name = "" ∨ name = ".") := by decide) (hdots : name ≠ ".." := by decide) :
    fs.resolveFrom here (left + 1) known w (name :: rest)
      = fs.resolveFrom here (left + 1) ((w.down name, some there) :: known') there rest := by
  rw [resolveFrom_cons fs here _ known w rest hname hdots, hlink]
  dsimp only
  rw [hnew]
  dsimp only
  rw [htarget]

/-- **Resolving.** A property that the steps keep is one of what comes out. Where the same links
stand at the ends of all ways that have it, the same comes out. -/
theorem resolveFrom_of_kept {P : Way → Prop} (hP : Way.Kept P) {fs fs' : FileSystem}
    {here here' : Location} (hasked : ∀ v, P v → fs'.linkAt? here' v = fs.linkAt? here v)
    (depth : Nat) {known : Resolutions} {w : Way} (names : List String) (hw : P w)
    (hknown : known.All P) :
    ComesTo P (fs.resolveFrom here depth known w names) ∧
      fs'.resolveFrom here' depth known w names = fs.resolveFrom here depth known w names := by
  fun_induction fs.resolveFrom here depth known w names with
  | case1 depth known w => exact ⟨.ok hw hknown, by rw [resolveFrom]⟩
  | case2 depth known w name rest hname ih =>
    obtain ⟨hkept, hsame⟩ := ih hw hknown
    exact ⟨hkept, by rw [resolveFrom, if_pos hname, hsame]⟩
  | case3 depth known w rest hname ih =>
    obtain ⟨hkept, hsame⟩ := ih (hP.up hw) hknown
    exact ⟨hkept, by rw [resolveFrom, if_neg hname, if_pos rfl, hsame]⟩
  | case4 depth known w name rest hname hdots next hlink ih =>
    have hnext : P next := hP.down hname hdots hw
    obtain ⟨hkept, hsame⟩ := ih hnext hknown
    refine ⟨hkept, ?_⟩
    rw [resolveFrom_cons fs' here' depth known w rest hname hdots, hasked next hnext, hlink]
    exact hsame
  | case5 depth known w name rest hname hdots next target hlink found hlookup ih =>
    have hnext : P next := hP.down hname hdots hw
    obtain ⟨hkept, hsame⟩ := ih (hknown next found (Keyed.mem_of_lookup hlookup)) hknown
    refine ⟨hkept, ?_⟩
    rw [resolveFrom_cons fs' here' depth known w rest hname hdots, hasked next hnext, hlink,
      hlookup]
    exact hsame
  | case6 depth known w name rest hname hdots next target hlink hlookup =>
    have hnext : P next := hP.down hname hdots hw
    refine ⟨.circle (hP.append hnext rest), ?_⟩
    rw [resolveFrom_cons fs' here' depth known w rest hname hdots, hasked next hnext, hlink,
      hlookup]
  | case7 known w name rest hname hdots next target hlink hlookup =>
    have hnext : P next := hP.down hname hdots hw
    refine ⟨.tooDeep, ?_⟩
    rw [resolveFrom_cons fs' here' 0 known w rest hname hdots, hasked next hnext, hlink, hlookup]
  | case8 known w name rest hname hdots next target hlink hlookup left start obstacle hstuck ih =>
    have hnext : P next := hP.down hname hdots hw
    have hstart : P start := hP.root_or hw _
    obtain ⟨hkept, hsame⟩ := ih hstart (hknown.cons next (by rintro _ ⟨⟩))
    rw [hstuck] at hkept hsame
    refine ⟨hkept.append hP rest, ?_⟩
    rw [resolveFrom_cons fs' here' _ known w rest hname hdots, hasked next hnext, hlink, hlookup]
    dsimp only [start, next, dite_eq_ite] at hsame ⊢
    rw [hsame]
  | case9 known w name rest hname hdots next target hlink hlookup left start found known' hfound
      ih ih' =>
    have hnext : P next := hP.down hname hdots hw
    have hstart : P start := hP.root_or hw _
    obtain ⟨hkept, hsame⟩ := ih hstart (hknown.cons next (by rintro _ ⟨⟩))
    rw [hfound] at hkept hsame
    cases hkept with
    | ok hthere hknown' =>
      have hgrown : Resolutions.All P ((next, some found) :: known') := by
        refine hknown'.cons next ?_
        rintro _ ⟨rfl⟩
        exact hthere
      obtain ⟨hkept', hsame'⟩ := ih' hthere hgrown
      refine ⟨hkept', ?_⟩
      rw [resolveFrom_cons fs' here' _ known w rest hname hdots, hasked next hnext, hlink, hlookup]
      dsimp only [start, next, dite_eq_ite] at hsame hsame' ⊢
      rw [hsame]
      exact hsame'

theorem resolve_of_kept {P : Way → Prop} (hP : Way.Kept P) {fs fs' : FileSystem}
    {here here' : Location} (hasked : ∀ v, P v → fs'.linkAt? here' v = fs.linkAt? here v) {p : Path}
    (hstart : P (if p.isAbsolute then .root else .here)) :
    fs'.resolve here' p = fs.resolve here p ∧ ∀ w, fs.resolve here p = .ok w ∨
      fs.resolve here p = .error (.circle w) → P w := by
  have hnone : Resolutions.All P [] := fun _ _ h ↦ by cases h
  obtain ⟨hkept, hsame⟩ := resolveFrom_of_kept hP hasked depthLimit p.names hstart hnone
  rw [resolve, resolve, hsame]
  refine ⟨rfl, ?_⟩
  generalize fs.resolveFrom here depthLimit [] (if p.isAbsolute then .root else .here) p.names = x
    at hkept
  rintro w (h | h)
  · cases hkept with
    | ok hthere =>
      cases h
      exact hthere
    | circle => cases h
    | tooDeep => cases h
  · cases hkept with
    | ok => cases h
    | circle hstuck =>
      cases h
      exact hstuck
    | tooDeep => cases h

end FileSystem

end Runbook
