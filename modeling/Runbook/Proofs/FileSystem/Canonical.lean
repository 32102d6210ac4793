import Runbook.Proofs.FileSystem.Following
import Runbook.Proofs.FileSystem.Reaching
import Runbook.Proofs.FileSystem.Rooted

/-!
# Canonical places

A place is canonical if it is spelled by names that lead down, and neither at it nor above it stands
a link (`FileSystem.IsCanonical`). What is above a canonical place is canonical too
(`IsCanonical.of_suffix`), and resolving the path of a canonical place comes back with it, from
wherever it is asked (`IsCanonical.resolve_path`).

Following a path leads from canonical places to canonical places (`Upright.of_reflTransGen`): up is
the tail of a place, down is a step to where no link stands, and an absolute link starts at the
root. A path that is bound to a removed directory is the exception, as that place has no name.
Walking a path leads to canonical places for the same reasons (`Reaches.isCanonical`).
-/

namespace Runbook

/-- No file can have a name with a NUL character. -/
def Nameable (names : List String) : Prop := ∀ name ∈ names, '\x00' ∉ name.toList

theorem nameable_namesOf {s : String} (h : '\x00' ∉ s.toList) : Nameable (Path.namesOf s) := by
  intro name hname hnul
  obtain ⟨field, hfield, rfl⟩ := List.mem_map.mp hname
  rw [String.toList_ofList] at hnul
  exact h (Text.mem_of_mem_fields hfield hnul)

theorem hasNul_eq_false_iff {p : Path} : p.hasNul = false ↔ Nameable p.names := by
  simp [Path.hasNul, Nameable]

namespace FileSystem

open Relation

/-- A place that is spelled by names that lead down, with no link at it or above it. -/
inductive IsCanonical (fs : FileSystem) : Location → Prop
  /-- The root. -/
  | root : IsCanonical fs []
  /-- What stands below a canonical place and is no link, or may stand there. -/
  | down {name : String} {above : Location} (hname : ¬(name = "" ∨ name = "."))
    (hdots : name ≠ "..") (hnul : '\x00' ∉ name.toList)
    (hplain : ∀ target, fs.node? (name :: above) ≠ some (.link target))
    (habove : IsCanonical fs above) : IsCanonical fs (name :: above)

variable {fs : FileSystem} {here there : Location}

namespace IsCanonical

theorem tail (h : fs.IsCanonical here) : fs.IsCanonical here.tail := by
  cases h with
  | root => exact .root
  | down _ _ _ _ habove => exact habove

theorem of_suffix (h : fs.IsCanonical here) (hthere : there <:+ here) : fs.IsCanonical there := by
  induction h with
  | root =>
    obtain rfl := List.suffix_nil.mp hthere
    exact .root
  | down hname hdots hnul hplain habove ih =>
    obtain rfl | hthere := List.suffix_cons_iff.mp hthere
    · exact .down hname hdots hnul hplain habove
    · exact ih hthere

theorem node?_ne_link (h : fs.IsCanonical here) (target : String) :
    fs.node? here ≠ some (.link target) := by
  cases h with
  | root => simp
  | down _ _ _ hplain _ => exact hplain target

theorem dots_notMem (h : fs.IsCanonical here) : ".." ∉ here := by
  induction h with
  | root => exact List.not_mem_nil
  | down _ hdots _ _ _ ih =>
    rw [List.mem_cons, not_or]
    exact ⟨hdots.symm, ih⟩

theorem nameable (h : fs.IsCanonical here) : Nameable here := by
  induction h with
  | root => exact List.forall_mem_nil _
  | down _ _ hnul _ _ ih => exact List.forall_mem_cons.mpr ⟨hnul, ih⟩

theorem resolveFrom_eq {start : Location} {depth : Nat} {known : Resolutions} {names : List String}
    {above : Location} (h : fs.IsCanonical (names.reverse ++ above)) :
    fs.resolveFrom start depth known ⟨.root, 0, above⟩ names
      = .ok (⟨.root, 0, names.reverse ++ above⟩, known) := by
  induction names generalizing above with
  | nil =>
    rw [resolveFrom]
    rfl
  | cons name rest ih =>
    rw [List.reverse_cons, List.append_assoc, List.singleton_append] at h ⊢
    have hthere : fs.IsCanonical (name :: above) := h.of_suffix (List.suffix_append _ _)
    cases hthere with
    | down hname hdots hnul hplain habove =>
      have hnone : fs.linkAt? start ((Way.mk .root 0 above).down name) = none :=
        linkAt?_of_plain hplain
      rw [resolveFrom_down hnone hname hdots]
      exact ih h

/-- **Resolving again.** From anywhere, a canonical place is resolved to itself. -/
theorem resolve_path (h : fs.IsCanonical here) (start : Location) :
    fs.resolve start here.path = .ok ⟨.root, 0, here⟩ := by
  have hcanonical : fs.IsCanonical (here.reverse.reverse ++ []) := by
    rw [List.append_nil, List.reverse_reverse]
    exact h
  have hresolved : fs.resolveFrom start depthLimit [] ⟨.root, 0, []⟩ here.reverse
      = .ok (⟨.root, 0, here.reverse.reverse ++ []⟩, []) := hcanonical.resolveFrom_eq
  rw [List.append_nil, List.reverse_reverse] at hresolved
  rw [resolve]
  exact congrArg (Except.map Prod.fst) hresolved

end IsCanonical

/-! ## Following -/

/-- The way of a stage leads to a canonical place, unless it is bound to a removed directory, and
what is left can be followed to one. -/
structure Upright (fs : FileSystem) (here : Location) (s : Stage) : Prop where
  /-- The way is not from the root as it is written with two slashes. -/
  anchor : s.way.anchor ≠ .doubleRoot
  /-- The place is canonical. -/
  canonical : (s.way.anchor = .relative → here.isRemoved = false) →
    fs.IsCanonical (s.way.location here)
  /-- The names that are left can be names of files. -/
  nameable : Nameable s.names

theorem link_of_put {node : Node} {target : String}
    (h : (fs.put here node).node? there = some (.link target)) :
    there = here ∧ node = .link target ∨ fs.node? there = some (.link target) := by
  rw [node?_put] at h
  split at h
  · cases h
  split at h
  · next hthere => exact .inl ⟨hthere, Option.some.inj h⟩
  · exact .inr h

/-- The targets of links can be spelled by names of files. -/
def NameableTargets (fs : FileSystem) : Prop :=
  ∀ place target, fs.node? place = some (.link target) → '\x00' ∉ target.toList

namespace Upright

variable {s t : Stage}

theorem onward (h : fs.Upright here s) (htargets : fs.NameableTargets)
    (hstep : fs.Onward here s t) : fs.Upright here t := by
  obtain ⟨hanchor, hcanonical, hnul⟩ := h
  cases hstep with
  | stay => exact ⟨hanchor, hcanonical, (List.forall_mem_cons.mp hnul).2⟩
  | up =>
    refine ⟨?_, ?_, (List.forall_mem_cons.mp hnul).2⟩
    · rw [Way.anchor_up]
      exact hanchor
    · rw [Way.anchor_up, Way.location_up]
      exact fun hthere ↦ (hcanonical hthere).tail
  | down hname hdots hplain =>
    obtain ⟨hfirst, hrest⟩ := List.forall_mem_cons.mp hnul
    refine ⟨hanchor, ?_, hrest⟩
    rw [Way.location_down] at hplain ⊢
    exact fun hthere ↦ .down hname hdots hfirst hplain (hcanonical hthere)
  | @follow w name target rest hname hdots hlink =>
    have hnames : Nameable (Path.namesOf target ++ rest) :=
      List.forall_mem_append.mpr
        ⟨nameable_namesOf (htargets _ target hlink), (List.forall_mem_cons.mp hnul).2⟩
    by_cases hrelative : Path.anchorOf target.toList = .relative
    · refine ⟨?_, ?_, hnames⟩
      · simpa [Stage.append, Stage.ofTarget, hrelative] using hanchor
      · simpa [Stage.append, Stage.ofTarget, hrelative] using hcanonical
    · refine ⟨?_, ?_, hnames⟩
      · simp [Stage.append, Stage.ofTarget, hrelative, Way.root]
      · intro _
        simpa [Stage.append, Stage.ofTarget, hrelative, Way.root, Way.location] using .root

theorem of_reflTransGen (h : fs.Upright here s) (htargets : fs.NameableTargets)
    (hreach : ReflTransGen (fs.Onward here) s t) : fs.Upright here t := by
  induction hreach with
  | refl => exact h
  | tail _ hstep ih => exact ih.onward htargets hstep

end Upright

/-! ## Walking -/

/-- Walking leads from canonical places to canonical places, since it follows every link. -/
theorem Reaches.isCanonical {create : Bool} {budget : Nat} {names : List String}
    (h : fs.Reaches create budget here names there) (htargets : fs.NameableTargets)
    (hhere : fs.IsCanonical here) (hnul : Nameable names) : fs.IsCanonical there := by
  induction h with
  | arrived => exact hhere
  | stay _ _ ih => exact ih hhere (List.forall_mem_cons.mp hnul).2
  | up _ ih => exact ih hhere.tail (List.forall_mem_cons.mp hnul).2
  | vacant hstep hnode | file hstep hnode =>
    exact .down hstep.moves hstep.down (List.forall_mem_cons.mp hnul).1 (by simp [hnode]) hhere
  | down hstep hnode _ ih =>
    obtain ⟨hfirst, hrest⟩ := List.forall_mem_cons.mp hnul
    exact ih (.down hstep.moves hstep.down hfirst (by simp [hnode]) hhere) hrest
  | @follow _ here _ _ target rest hstep hnode _ _ ih =>
    have hnames : Nameable ((Route.ofString here target).names ++ rest) :=
      List.forall_mem_append.mpr
        ⟨nameable_namesOf (htargets _ target hnode), (List.forall_mem_cons.mp hnul).2⟩
    refine ih ?_ hnames
    rw [Route.ofString]
    dsimp only
    split
    · exact hhere
    · exact .root

end FileSystem

end Runbook
