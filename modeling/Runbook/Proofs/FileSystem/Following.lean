import Mathlib.Algebra.GroupWithZero.Nat
import Mathlib.Logic.Relation
import Runbook.Proofs.FileSystem.Ways

/-!
# Following paths to their ends

What a path leads to can be said without the bookkeeping of resolving. A path is followed stage by
stage (`FileSystem.Onward`): the next name is dropped, or leads up, or leads down, or is that of a
link, and then the names of its target take its place. Nothing is remembered, nothing is looked for
in circles, and no link is too deep or spelled too long.

Links run in circles if some path can be followed for ever. Where none can (`FileSystem.LoopFree`),
no link is met again while its own target is followed (`LoopFree.not_transGen`), so resolving finds
no circle: if it does not give up because too many links wait for one another, it comes to the end
of the path. That needs one more condition: a link is only looked at if the way to it is not spelled
too long, so none that is on the path may be out of sight (`FileSystem.InSight`).

Both conditions hold if names can be given weights such that the target of a link weighs less than
the name of the link (`FileSystem.Weighed`).
-/

namespace Runbook

/-- How far a path has been followed. -/
structure Stage where
  /-- The way so far. -/
  way : Way
  /-- The names that are left. -/
  names : List String

def Path.stage (p : Path) : Stage := ⟨if p.isAbsolute then .root else .here, p.names⟩

def Stage.append (s : Stage) (more : List String) : Stage := ⟨s.way, s.names ++ more⟩

/-- The stage at which the target of a link begins that stands in the place at the end of a way. -/
def Stage.ofTarget (w : Way) (target : String) : Stage :=
  ⟨if Path.anchorOf target.toList = .relative then w else .root, Path.namesOf target⟩

theorem Stage.append_append (s : Stage) (more behind : List String) :
    (s.append more).append behind = s.append (more ++ behind) := by
  rw [append, append, append, List.append_assoc]

namespace FileSystem

open Relation

/-! ## Stages -/

/-- One step from stage to stage. -/
inductive Onward (fs : FileSystem) (here : Location) : Stage → Stage → Prop
  /-- Over an empty name or a dot. -/
  | stay {w : Way} {name : String} {rest : List String} (hname : name = "" ∨ name = ".") :
    Onward fs here ⟨w, name :: rest⟩ ⟨w, rest⟩
  /-- Up at a double dot. -/
  | up {w : Way} {rest : List String} : Onward fs here ⟨w, ".." :: rest⟩ ⟨w.up, rest⟩
  /-- Down to a name at which no link stands. -/
  | down {w : Way} {name : String} {rest : List String} (hname : ¬(name = "" ∨ name = "."))
    (hdots : name ≠ "..")
    (hplain : ∀ target, fs.node? ((w.down name).location here) ≠ some (.link target)) :
    Onward fs here ⟨w, name :: rest⟩ ⟨w.down name, rest⟩
  /-- On to the target of a link. -/
  | follow {w : Way} {name target : String} {rest : List String}
    (hname : ¬(name = "" ∨ name = ".")) (hdots : name ≠ "..")
    (hlink : fs.node? ((w.down name).location here) = some (.link target)) :
    Onward fs here ⟨w, name :: rest⟩ ((Stage.ofTarget w target).append rest)

variable {fs : FileSystem} {here : Location} {s t : Stage}

theorem Onward.append (h : fs.Onward here s t) (more : List String) :
    fs.Onward here (s.append more) (t.append more) := by
  cases h with
  | stay hname => exact .stay hname
  | up => exact .up
  | down hname hdots hplain => exact .down hname hdots hplain
  | follow hname hdots hlink =>
    rw [Stage.append_append]
    exact .follow hname hdots hlink

theorem reflTransGen_append (h : ReflTransGen (fs.Onward here) s t) (more : List String) :
    ReflTransGen (fs.Onward here) (s.append more) (t.append more) :=
  h.lift (·.append more) fun _ _ hstep ↦ hstep.append more

theorem transGen_append (h : TransGen (fs.Onward here) s t) (more : List String) :
    TransGen (fs.Onward here) (s.append more) (t.append more) :=
  h.lift (·.append more) fun _ _ hstep ↦ hstep.append more

/-! ## Links without loops -/

/-- No path can be followed for ever, from wherever it starts. -/
def LoopFree (fs : FileSystem) : Prop :=
  ∀ here, WellFounded fun t s ↦ fs.Onward here s t

/-- A link is not met again while its own target is followed. -/
theorem LoopFree.not_transGen (h : fs.LoopFree) {w : Way} {name : String} {more : List String} :
    ¬TransGen (fs.Onward here) ⟨w, [name]⟩ ⟨w, name :: more⟩ := by
  intro hloop
  -- From one time that it is met there is a way to the next, with more names left behind it.
  have hnever : ∀ (s : Stage) (behind : List String), s ≠ ⟨w, name :: behind⟩ := by
    intro s
    induction s using (h here).transGen.induction with
    | h s ih =>
      rintro behind rfl
      exact ih _ (transGen_swap.mpr (transGen_append hloop behind)) (more ++ behind) rfl
  exact hnever _ more rfl

/-- No link that is met from the stage onwards is spelled too long to be looked at. -/
def InSight (fs : FileSystem) (here : Location) (s : Stage) : Prop :=
  ∀ (w : Way) (name : String) (rest : List String) (target : String),
    ReflTransGen (fs.Onward here) s ⟨w, name :: rest⟩ → ¬(name = "" ∨ name = ".") → name ≠ ".." →
      fs.node? ((w.down name).location here) = some (.link target) →
        (w.down name).size ≤ maxPathSize

theorem InSight.of_reflTransGen (h : fs.InSight here s) (hst : ReflTransGen (fs.Onward here) s t) :
    fs.InSight here t :=
  fun w name rest target hreach ↦ h w name rest target (hst.trans hreach)

theorem InSight.of_append {more : List String} (h : fs.InSight here (s.append more)) :
    fs.InSight here s :=
  fun w name rest target hreach ↦
    h w name (rest ++ more) target (reflTransGen_append hreach more)

theorem InSight.plain_of_linkAt? {w : Way} {name : String} {rest : List String}
    (h : fs.InSight here ⟨w, name :: rest⟩) (hname : ¬(name = "" ∨ name = "."))
    (hdots : name ≠ "..") (hnone : fs.linkAt? here (w.down name) = none) (target : String) :
    fs.node? ((w.down name).location here) ≠ some (.link target) := by
  intro hlink
  have hsize := h w name rest target .refl hname hdots hlink
  rw [linkAt?_eq_some_iff.mpr ⟨hsize, hlink⟩] at hnone
  contradiction

theorem onward_of_linkAt? {w : Way} {name target : String} (hname : ¬(name = "" ∨ name = "."))
    (hdots : name ≠ "..") (hlink : fs.linkAt? here (w.down name) = some target)
    (behind : List String) :
    fs.Onward here ⟨w, name :: behind⟩ ((Stage.ofTarget w target).append behind) :=
  .follow hname hdots (linkAt?_eq_some_iff.mp hlink).2

/-! ## Resolving -/

/-- What resolving knows at a stage, and what the rest of the path is like. -/
structure Underway (fs : FileSystem) (here : Location) (known : Resolutions) (s : Stage) :
    Prop where
  /-- No link that is still to come is out of sight. -/
  sight : fs.InSight here s
  /-- What links are known to lead to is where following them ends. -/
  sound : ∀ w name there, (w.down name, some there) ∈ known →
    ReflTransGen (fs.Onward here) ⟨w, [name]⟩ ⟨there, []⟩
  /-- The links that wait for their targets are those whose targets are being followed. -/
  awaits : ∀ w name, known.lookup (w.down name) = some none →
    ∃ more, TransGen (fs.Onward here) ⟨w, [name]⟩ (s.append more)

/-- What resolving has come to from a stage, if it is no circle. -/
inductive Arrives (fs : FileSystem) (here : Location) (known : Resolutions) (s : Stage) :
    Except Obstacle (Way × Resolutions) → Prop
  /-- The end of the path. No more links wait than before. -/
  | ok {there : Way} {known' : Resolutions} (hends : ReflTransGen (fs.Onward here) s ⟨there, []⟩)
    (hunderway : fs.Underway here known' ⟨there, []⟩)
    (hwaits : ∀ v, known'.lookup v = some none → known.lookup v = some none) :
    Arrives fs here known s (.ok (there, known'))
  /-- Too many links. -/
  | tooDeep : Arrives fs here known s (.error .tooDeep)

variable {known known' : Resolutions} {w found : Way} {name target : String} {rest : List String}

namespace Underway

theorem of_reflTransGen (h : fs.Underway here known s) (hst : ReflTransGen (fs.Onward here) s t) :
    fs.Underway here known t where
  sight := h.sight.of_reflTransGen hst
  sound := h.sound
  awaits v name hwaits := by
    obtain ⟨more, hmore⟩ := h.awaits v name hwaits
    exact ⟨more, hmore.trans_left (reflTransGen_append hst more)⟩

/-- On to the target of a link, which waits from now on. -/
theorem enter (h : fs.Underway here known ⟨w, name :: rest⟩)
    (hfollow : ∀ behind, fs.Onward here ⟨w, name :: behind⟩
      ((Stage.ofTarget w target).append behind)) :
    fs.Underway here ((w.down name, none) :: known) (Stage.ofTarget w target) := by
  have hstep := h.of_reflTransGen (.single (hfollow rest))
  refine ⟨hstep.sight.of_append, ?_, ?_⟩
  · intro v name' there hmem
    obtain hsame | hmem := List.mem_cons.mp hmem
    · cases (Prod.mk.inj hsame).2
    · exact h.sound v name' there hmem
  · intro v name' hwaits
    rw [List.lookup_cons] at hwaits
    split at hwaits
    · next hsame =>
      obtain ⟨rfl, rfl⟩ := Way.down_inj (beq_iff_eq.mp hsame)
      exact ⟨[], .single (hfollow [])⟩
    · obtain ⟨more, hmore⟩ := hstep.awaits v name' hwaits
      rw [Stage.append_append] at hmore
      exact ⟨rest ++ more, hmore⟩

/-- Back from the target of a link, of which it is known from now on where it leads. -/
theorem leave (h : fs.Underway here known ⟨w, name :: rest⟩)
    (hlink : ReflTransGen (fs.Onward here) ⟨w, [name]⟩ ⟨found, []⟩)
    (hunderway : fs.Underway here known' ⟨found, []⟩)
    (hwaits : ∀ v, known'.lookup v = some none →
      List.lookup v ((w.down name, none) :: known) = some none) :
    fs.Underway here ((w.down name, some found) :: known') ⟨found, rest⟩ ∧
      ∀ v, List.lookup v ((w.down name, some found) :: known') = some none →
        known.lookup v = some none := by
  have hstep := h.of_reflTransGen (reflTransGen_append hlink rest)
  have hkept : ∀ v, List.lookup v ((w.down name, some found) :: known') = some none →
      known.lookup v = some none := by
    intro v hv
    rw [List.lookup_cons] at hv
    split at hv
    · cases hv
    · next hne =>
      have hwaits := hwaits v hv
      rw [List.lookup_cons, hne] at hwaits
      exact hwaits
  refine ⟨⟨hstep.sight, ?_, fun v name' hv ↦ hstep.awaits v name' (hkept _ hv)⟩, hkept⟩
  intro v name' there hmem
  obtain hsame | hmem := List.mem_cons.mp hmem
  · obtain ⟨hdown, hsome⟩ := Prod.mk.inj hsame
    obtain ⟨rfl, rfl⟩ := Way.down_inj hdown
    rw [Option.some.inj hsome]
    exact hlink
  · exact hunderway.sound v name' there hmem

end Underway

theorem Arrives.of_reflTransGen {x : Except Obstacle (Way × Resolutions)}
    (h : fs.Arrives here known t x) (hst : ReflTransGen (fs.Onward here) s t) :
    fs.Arrives here known s x := by
  cases h with
  | ok hends hunderway hwaits => exact .ok (hst.trans hends) hunderway hwaits
  | tooDeep => exact .tooDeep

theorem Arrives.of_waits {x : Except Obstacle (Way × Resolutions)}
    (h : fs.Arrives here known' s x)
    (hkept : ∀ v, known'.lookup v = some none → known.lookup v = some none) :
    fs.Arrives here known s x := by
  cases h with
  | ok hends hunderway hwaits => exact .ok hends hunderway fun v hv ↦ hkept v (hwaits v hv)
  | tooDeep => exact .tooDeep

/-- **Resolving without loops.** Where no path can be followed for ever and no link is out of sight,
resolving comes to the end of the path or gives up, and it never finds a circle. -/
theorem arrives_resolveFrom (hloops : fs.LoopFree) (depth : Nat) {names : List String}
    (h : fs.Underway here known ⟨w, names⟩) :
    fs.Arrives here known ⟨w, names⟩ (fs.resolveFrom here depth known w names) := by
  fun_induction fs.resolveFrom here depth known w names with
  | case1 depth known w => exact .ok .refl h fun _ hv ↦ hv
  | case2 depth known w name rest hname ih =>
    have hstep : ReflTransGen (fs.Onward here) ⟨w, name :: rest⟩ ⟨w, rest⟩ := .single (.stay hname)
    exact (ih (h.of_reflTransGen hstep)).of_reflTransGen hstep
  | case3 depth known w rest hname ih =>
    have hstep : ReflTransGen (fs.Onward here) ⟨w, ".." :: rest⟩ ⟨w.up, rest⟩ := .single .up
    exact (ih (h.of_reflTransGen hstep)).of_reflTransGen hstep
  | case4 depth known w name rest hname hdots next hnone ih =>
    have hstep : ReflTransGen (fs.Onward here) ⟨w, name :: rest⟩ ⟨next, rest⟩ :=
      .single (.down hname hdots (h.sight.plain_of_linkAt? hname hdots hnone))
    exact (ih (h.of_reflTransGen hstep)).of_reflTransGen hstep
  | case5 depth known w name rest hname hdots next target hlink found hlookup ih =>
    have hstep : ReflTransGen (fs.Onward here) ⟨w, name :: rest⟩ ⟨found, rest⟩ :=
      reflTransGen_append (h.sound w name found (Keyed.mem_of_lookup hlookup)) rest
    exact (ih (h.of_reflTransGen hstep)).of_reflTransGen hstep
  | case6 depth known w name rest hname hdots next target hlink hlookup =>
    obtain ⟨more, hmore⟩ := h.awaits w name hlookup
    exact absurd hmore hloops.not_transGen
  | case7 => exact .tooDeep
  | case8 known w name rest hname hdots next target hlink hlookup left start obstacle hstuck ih =>
    have hfollow := onward_of_linkAt? hname hdots hlink
    have harrives := ih (h.enter hfollow)
    rw [hstuck] at harrives
    cases harrives with
    | tooDeep => exact .tooDeep
  | case9 known w name rest hname hdots next target hlink hlookup left start found known' hfound
      ih ih' =>
    have hfollow := onward_of_linkAt? hname hdots hlink
    have harrives := ih (h.enter hfollow)
    rw [hfound] at harrives
    cases harrives with
    | ok hends hunderway hwaits =>
      have hnext : ReflTransGen (fs.Onward here) ⟨w, [name]⟩ ⟨found, []⟩ :=
        .head (hfollow []) (reflTransGen_append hends [])
      obtain ⟨hleft, hkept⟩ := h.leave hnext hunderway hwaits
      exact ((ih' hleft).of_waits hkept).of_reflTransGen (reflTransGen_append hnext rest)

theorem resolve_of_loopFree (hloops : fs.LoopFree) {p : Path} (hsight : fs.InSight here p.stage) :
    fs.resolve here p = .error .tooDeep ∨ ∃ there, fs.resolve here p = .ok there ∧
      ReflTransGen (fs.Onward here) p.stage ⟨there, []⟩ := by
  have hunderway : fs.Underway here [] p.stage := by
    refine ⟨hsight, ?_, ?_⟩
    · rintro _ _ _ ⟨⟩
    · rintro _ _ ⟨⟩
  have harrives : fs.Arrives here [] p.stage (fs.resolveFrom here depthLimit []
      (if p.isAbsolute then .root else .here) p.names) :=
    arrives_resolveFrom hloops depthLimit hunderway
  rw [resolve]
  generalize fs.resolveFrom here depthLimit [] _ p.names = x at harrives
  cases harrives with
  | ok hends => exact .inr ⟨_, rfl, hends⟩
  | tooDeep => exact .inl rfl

end FileSystem

/-! ## Weights

Following a link trades its name for the names of its target. If these weigh less, the weight of
what is left falls with every step, and so no path can be followed for ever. If names weigh more
than their bytes, the weight of what is left also bounds how long the way can still get. -/

/-- The number of bytes that the names of a way take, with a slash for each. -/
def Way.spread (w : Way) : Nat :=
  3 * w.ups + (w.names.map fun name ↦ name.utf8ByteSize + 1).sum

def Stage.weight (weight : String → Nat) (s : Stage) : Nat := (s.names.map weight).sum

namespace Way

theorem size_le_spread (w : Way) : w.size ≤ w.spread := by
  have hfold : ∀ (names : List String) (n : Nat),
      names.foldl (fun n name ↦ n + name.utf8ByteSize + 1) n
        = n + (names.map fun name ↦ name.utf8ByteSize + 1).sum := by
    intro names
    induction names with
    | nil => exact fun n ↦ rfl
    | cons name rest ih =>
      intro n
      rw [List.foldl_cons, ih, List.map_cons, List.sum_cons]
      omega
  rw [size, hfold]
  exact Nat.sub_le _ _

theorem spread_down (w : Way) (name : String) :
    (w.down name).spread = w.spread + (name.utf8ByteSize + 1) := by
  rw [spread, spread, down, List.map_cons, List.sum_cons]
  dsimp only
  omega

theorem spread_up_le (w : Way) : w.up.spread ≤ w.spread + 3 := by
  obtain ⟨anchor, ups, _ | ⟨name, above⟩⟩ := w
  · rw [up]
    dsimp only
    split
    · rw [spread, spread]
      dsimp only
      omega
    · exact Nat.le_add_right _ _
  · rw [up, spread, spread, List.map_cons, List.sum_cons]
    dsimp only
    omega

end Way

namespace FileSystem

open Relation

/-- Every name weighs more than its bytes, and the name of a link more than its target. -/
structure Weighed (fs : FileSystem) (weight : String → Nat) : Prop where
  /-- The weight of a name is above the number of its bytes. -/
  covers : ∀ name, name.utf8ByteSize < weight name
  /-- The weight falls from a link to its target. -/
  falls : ∀ name above target, fs.node? (name :: above) = some (.link target) →
    ((Path.namesOf target).map weight).sum < weight name

namespace Weighed

variable {fs : FileSystem} {here : Location} {weight : String → Nat} {s t : Stage}

theorem weight_target_lt (h : fs.Weighed weight) {w : Way} {name target : String}
    (hlink : fs.node? ((w.down name).location here) = some (.link target)) :
    (Stage.ofTarget w target).weight weight < weight name := by
  rw [Way.location_down] at hlink
  exact h.falls name _ target hlink

theorem weight_lt (h : fs.Weighed weight) (hstep : fs.Onward here s t) :
    t.weight weight < s.weight weight := by
  have hpositive : ∀ name, 0 < weight name := fun name ↦ Nat.zero_lt_of_lt (h.covers name)
  cases hstep with
  | stay | up | down => simp [Stage.weight, hpositive]
  | follow hname hdots hlink =>
    have htarget := h.weight_target_lt hlink
    simpa [Stage.weight, Stage.append] using htarget

theorem loopFree (h : fs.Weighed weight) : fs.LoopFree := fun _ ↦
  Subrelation.wf (fun hstep ↦ h.weight_lt hstep) (measure (Stage.weight weight)).wf

/-- The way gets longer only by what is taken from the names that are left. -/
theorem spread_add_weight_le (h : fs.Weighed weight) (hstep : fs.Onward here s t) :
    t.way.spread + t.weight weight ≤ s.way.spread + s.weight weight := by
  cases hstep with
  | stay => simp [Stage.weight]
  | @up w rest =>
    have hup := w.spread_up_le
    have hdots : 2 < weight ".." := h.covers ".."
    simp only [Stage.weight, List.map_cons, List.sum_cons]
    omega
  | @down w name rest =>
    have hname := h.covers name
    simp only [Stage.weight, List.map_cons, List.sum_cons, Way.spread_down]
    omega
  | @follow w name target rest hname hdots hlink =>
    have htarget := h.weight_target_lt hlink
    have hstart : (Stage.ofTarget w target).way.spread ≤ w.spread := by
      rw [Stage.ofTarget]
      dsimp only
      split
      · exact Nat.le_refl _
      · exact Nat.zero_le _
    simp only [Stage.weight, Stage.append, List.map_append, List.sum_append, List.map_cons,
      List.sum_cons] at htarget ⊢
    omega

theorem inSight (h : fs.Weighed weight)
    (hlight : s.way.spread + s.weight weight ≤ maxPathSize) : fs.InSight here s := by
  intro w name rest target hreach _ _ _
  have hbound : w.spread + Stage.weight weight ⟨w, name :: rest⟩ ≤ maxPathSize := by
    suffices hreached : ∀ t, ReflTransGen (fs.Onward here) s t →
        t.way.spread + t.weight weight ≤ maxPathSize from hreached _ hreach
    intro t ht
    induction ht with
    | refl => exact hlight
    | tail _ hstep ih => exact Nat.le_trans (h.spread_add_weight_le hstep) ih
  have hsize := (w.down name).size_le_spread
  have hname := h.covers name
  rw [Way.spread_down] at hsize
  rw [Stage.weight, List.map_cons, List.sum_cons] at hbound
  omega

end Weighed

end FileSystem

end Runbook
