import Runbook.Proofs.FileSystem.Growth

/-!
# Storing files

A file that has been written is found where it was written, with the bytes that were written, and no
other place has changed (`stores_of_write`). The path is followed twice for that, once to write the
file and once to read it, in file systems that differ in the place of the file. It ends there both
times: the way to a file that is replaced is the same since the outline is, and the way to a new
file has grown by it.

A path that ends at a link is the odd case, since a file takes the place of the link then. No walk
that meets a link ends there, so such a path starts at the link or below it, and never goes through
it (`Reaches.put_of_link`).
-/

namespace Runbook.FileSystem

variable {fs fs' : FileSystem} {here there : Location} {r : Route} {content : List UInt8}

/-- The change from `fs` to `fs'` is that the file at the end of the route holds `content`. -/
structure Stores (fs fs' : FileSystem) (r : Route) (content : List UInt8) : Prop where
  /-- The file holds the content. -/
  read : fs'.read r = .ok content
  /-- Every other place is as before. -/
  others : ∃ here, fs'.locate r = .ok here ∧
    ∀ there, there ≠ here → fs'.node? there = fs.node? there

/-! ## The place of a file -/

theorem locate_of_locateNew (h : fs.locateNew r = .ok here) : fs.locate r = .ok here := by
  rw [locateNew] at h
  rw [locate]
  split at h
  · contradiction
  · next hlong =>
    rw [if_neg hlong, walk_eq_ok_iff]
    exact (walk_eq_ok_iff.mp h).of_create

theorem sameOutline_put {node node' : Node} (hnode : fs.node? here = some node)
    (hhere : fs.node? here ≠ some .directory) (houtline : node'.outline = node.outline) :
    fs.SameOutline (fs.put here node') := by
  intro there
  by_cases hthere : there = here
  · subst hthere
    rw [node?_put_self hhere, hnode, Option.map_some, Option.map_some, houtline]
  · rw [node?_put_of_ne fs node' hthere]

/-- A way that ends at a link never leaves what is below the link, so that it does not matter to it
what stands there. -/
theorem Reaches.put_of_link {create : Bool} {budget : Nat} {target : String} {names : List String}
    (hlink : fs.node? there = some (.link target)) (node : Node)
    (h : fs.Reaches create budget here names there) :
    there <:+ here ∧ (fs.put there node).Reaches create budget here names there := by
  -- From below the link, a step down leads to a place that is still below it.
  have hbelow : ∀ {here : Location} {name : String}, there <:+ here →
      (fs.put there node).node? (name :: here) = fs.node? (name :: here) := by
    intro here name hhere
    refine node?_put_of_ne fs node fun heq ↦ ?_
    have hlength := hhere.length_le
    rw [← heq, List.length_cons] at hlength
    exact Nat.not_succ_le_self _ hlength
  induction h with
  | arrived => exact ⟨List.suffix_refl _, .arrived⟩
  | stay hname _ ih =>
    obtain ⟨hhere, hway⟩ := ih hlink hbelow
    exact ⟨hhere, .stay hname hway⟩
  | up _ ih =>
    obtain ⟨hhere, hway⟩ := ih hlink hbelow
    exact ⟨hhere.trans (List.tail_suffix _), .up hway⟩
  | vacant _ hnode | file _ hnode =>
    rw [hnode] at hlink
    cases hlink
  | down hstep hnode _ ih =>
    obtain ⟨hdown, hway⟩ := ih hlink hbelow
    rcases List.suffix_cons_iff.mp hdown with rfl | hhere
    · rw [hnode] at hlink
      cases hlink
    · exact ⟨hhere, .down hstep ((hbelow hhere).trans hnode) hway⟩
  | @follow _ here there _ _ _ hstep hnode htarget _ ih =>
    obtain ⟨hstart, hway⟩ := ih hlink hbelow
    have hhere : there <:+ here := by
      rw [Route.ofString] at hstart
      split at hstart
      · exact hstart
      · -- At the root there is no link.
        rw [List.suffix_nil.mp hstart, node?_nil] at hlink
        cases hlink
    exact ⟨hhere, .follow hstep ((hbelow hhere).trans hnode) htarget hway⟩

/-! ## Reading what was written -/

theorem stores_of_put {executable : Bool} (hhere : fs.node? here ≠ some .directory)
    (hlocate : (fs.put here (.file content executable)).locate r = .ok here) :
    fs.Stores (fs.put here (.file content executable)) r content where
  read := by simp only [read, nodeAt, hlocate, node?_put_self hhere]
  others := ⟨here, hlocate, fun _ hthere ↦ node?_put_of_ne fs _ hthere⟩

/-- **Writing.** What is read after a file has been written is what was written, and no other file
has changed. -/
theorem stores_of_write (h : fs.write r content = .ok fs') : fs.Stores fs' r content := by
  rw [write] at h
  rcases hlocate : fs.locateNew r with code | here
  · rw [hlocate] at h
    contradiction
  rw [hlocate] at h
  dsimp only at h
  have hplace := locate_of_locateNew hlocate
  rcases hnode : fs.node? here with _ | ⟨bytes, x⟩ | _ | target
  · -- A new file: the file system has grown by it.
    rw [hnode] at h
    dsimp only at h
    split at h
    · obtain rfl := Except.ok.inj h
      have hgrown : fs.Extends (fs.put here (.file content false)) := extends_put hnode (by simp)
      exact stores_of_put (by simp [hnode]) (hgrown.locate_of_ok hplace)
    · contradiction
  · -- A file that was there: the outline stays.
    rw [hnode] at h
    obtain rfl := Except.ok.inj h
    have hhere : fs.node? here ≠ some .directory := by
      simp [hnode]
    have houtline : fs.SameOutline (fs.put here (.file content x)) :=
      sameOutline_put hnode hhere rfl
    exact stores_of_put hhere ((houtline.locate_eq r).trans hplace)
  · rw [hnode] at h
    contradiction
  · -- A link at which the path starts.
    rw [hnode] at h
    dsimp only at h
    split at h
    · obtain rfl := Except.ok.inj h
      refine stores_of_put (by simp [hnode]) ?_
      rw [locate] at hplace ⊢
      split at hplace
      · contradiction
      · next hlong =>
        rw [if_neg hlong, walk_eq_ok_iff]
        exact (Reaches.put_of_link hnode _ (walk_eq_ok_iff.mp hplace)).2
    · contradiction

end Runbook.FileSystem
