import Runbook.FileSystem.Effect
import Runbook.FileSystem.Foothold
import Runbook.Proofs.FileSystem.Ways

/-!
# File systems up to the bytes of their files

Two file systems have the same outline if the same directories and links stand at the same places,
and regular files where the other has regular files that can be executed if and only if its own can.
What the files hold is left open.

Nothing but reading a file looks at its bytes. So every other operation finds the same places in
both file systems, is refused for the same reason, and leaves the same outline behind: walking a
path, asking what stands there, resolving it, creating directories, writing a file, and whatever a
program does to the files. Each of them is gone through once, on top of the ones that it is made of;
at the bottom stands `walk_eq`, the only induction over paths.
-/

namespace Runbook

/-- The node without the bytes that it holds. -/
def Node.outline : Node → Node
  | .file _ executable => .file [] executable
  | node => node

/-- Induction from a path to the paths below it. -/
theorem Path.parentRec {motive : Path → Prop}
    (step : ∀ p : Path, (p.names ≠ [] → motive p.parent) → motive p) (p : Path) : motive p := by
  obtain ⟨anchor, names⟩ := p
  induction hlength : names.length generalizing names with
  | zero => exact step _ fun hne ↦ absurd (List.length_eq_zero_iff.mp hlength) hne
  | succ n ih => exact step _ fun _ ↦ ih names.dropLast (by rw [List.length_dropLast, hlength]; rfl)

namespace FileSystem

/-- The file systems differ at most in the bytes of their regular files. -/
def SameOutline (fs fs' : FileSystem) : Prop :=
  ∀ here, (fs'.node? here).map Node.outline = (fs.node? here).map Node.outline

/-- An operation has the same verdict in two file systems, and leaves the same outline behind. -/
inductive SameChange {ε : Type} : Except ε FileSystem → Except ε FileSystem → Prop
  /-- It is refused for the same reason. -/
  | error (e : ε) : SameChange (.error e) (.error e)
  /-- It succeeds. -/
  | ok {fs fs' : FileSystem} (h : fs.SameOutline fs') : SameChange (.ok fs) (.ok fs')

theorem SameChange.eq_error_or_eq_ok {ε : Type} {x x' : Except ε FileSystem}
    (h : SameChange x x') : (∃ e, x = .error e ∧ x' = .error e) ∨
      ∃ fs fs', x = .ok fs ∧ x' = .ok fs' ∧ fs.SameOutline fs' := by
  cases h with
  | error e => exact .inl ⟨e, rfl, rfl⟩
  | ok h => exact .inr ⟨_, _, rfl, rfl, h⟩

namespace SameOutline

variable {fs fs' : FileSystem}

theorem node?_cases (h : fs.SameOutline fs') (here : Location) :
    fs'.node? here = fs.node? here ∨ ∃ bytes bytes' executable,
      fs.node? here = some (.file bytes executable) ∧
        fs'.node? here = some (.file bytes' executable) := by
  have hhere := h here
  rcases hnode : fs.node? here with _ | node <;> rcases hnode' : fs'.node? here with _ | node' <;>
    rw [hnode, hnode'] at hhere
  · exact .inl rfl
  · contradiction
  · contradiction
  · rw [Option.map_some, Option.map_some, Option.some.injEq] at hhere
    rcases node with ⟨bytes, x⟩ | _ | _ <;> rcases node' with ⟨bytes', x'⟩ | _ | _ <;>
      simp only [Node.outline, Node.file.injEq, Node.link.injEq, reduceCtorEq, true_and] at hhere
    · subst hhere
      exact .inr ⟨bytes, bytes', x', rfl, rfl⟩
    · exact .inl rfl
    · subst hhere
      exact .inl rfl

theorem node?_eq_directory_iff (h : fs.SameOutline fs') (here : Location) :
    fs'.node? here = some .directory ↔ fs.node? here = some .directory := by
  rcases h.node?_cases here with hsame | ⟨bytes, bytes', x, hnode, hnode'⟩
  · rw [hsame]
  · rw [hnode, hnode']
    simp

/-! ## Walking -/

/-- **Walking.** A path leads to the same place, or fails to lead anywhere for the same reason. -/
theorem walk_eq (h : fs.SameOutline fs') (create : Bool) (budget : Nat) (here : Location)
    (names : List String) :
    fs'.walk create budget here names = fs.walk create budget here names := by
  -- A link trades one of the budget for the names of its target, and any other step uses up a name.
  induction budget using Nat.strongRecOn generalizing here names with
  | ind budget ihLink =>
    induction names generalizing here with
    | nil => rw [walk_nil, walk_nil]
    | cons name rest ihName =>
      rw [walk_cons, walk_cons]
      simp only [ihName]
      rcases h.node?_cases (name :: here) with hsame | ⟨bytes, bytes', x, hnode, hnode'⟩
      · rw [hsame]
        rcases fs.node? (name :: here) with _ | ⟨bytes, x⟩ | _ | target
        · rfl
        · rfl
        · rfl
        · rcases budget with _ | left
          · rfl
          · dsimp only
            rw [ihLink left (Nat.lt_succ_self left)]
      · rw [hnode, hnode']

theorem locate_eq (h : fs.SameOutline fs') (r : Route) : fs'.locate r = fs.locate r := by
  rw [locate, locate, h.walk_eq]

theorem locateNew_eq (h : fs.SameOutline fs') (r : Route) : fs'.locateNew r = fs.locateNew r := by
  rw [locateNew, locateNew, h.walk_eq]

theorem place_eq (h : fs.SameOutline fs') (r : Route) : fs'.place r = fs.place r := by
  rw [place, place]
  simp only [h.walk_eq]
  split
  · rfl
  · rcases r.names.getLast? with _ | name
    · rfl
    · rcases fs.walk false linkBudget r.start r.names.dropLast with e | here
      · rfl
      · dsimp only
        rcases h.node?_cases here with hsame | ⟨bytes, bytes', x, hnode, hnode'⟩
        · rw [hsame]
        · rw [hnode, hnode']

theorem nodeAt_cases (h : fs.SameOutline fs') (r : Route) :
    fs'.nodeAt r = fs.nodeAt r ∨ ∃ bytes bytes' executable,
      fs.nodeAt r = .ok (.file bytes executable) ∧
        fs'.nodeAt r = .ok (.file bytes' executable) := by
  rw [nodeAt, nodeAt, h.locate_eq]
  rcases fs.locate r with e | here
  · exact .inl rfl
  · dsimp only
    rcases h.node?_cases here with hsame | ⟨bytes, bytes', x, hnode, hnode'⟩
    · exact .inl (by rw [hsame])
    · exact .inr ⟨bytes, bytes', x, by rw [hnode], by rw [hnode']⟩

theorem isDirectory_eq (h : fs.SameOutline fs') (r : Route) :
    fs'.isDirectory r = fs.isDirectory r := by
  rw [isDirectory, isDirectory]
  rcases h.nodeAt_cases r with hsame | ⟨bytes, bytes', x, hnode, hnode'⟩
  · rw [hsame]
  · rw [hnode, hnode', ask, ask]
    rfl

theorem exists?_eq (h : fs.SameOutline fs') (r : Route) : fs'.exists? r = fs.exists? r := by
  rw [exists?, exists?]
  rcases h.nodeAt_cases r with hsame | ⟨bytes, bytes', x, hnode, hnode'⟩
  · rw [hsame]
  · rw [hnode, hnode', ask, ask]

theorem linkAt?_eq (h : fs.SameOutline fs') (here : Location) (w : Way) :
    fs'.linkAt? here w = fs.linkAt? here w := by
  rw [linkAt?, linkAt?]
  rcases h.node?_cases (w.location here) with hsame | ⟨bytes, bytes', x, hnode, hnode'⟩
  · rw [hsame]
  · rw [hnode, hnode']

/-- **Resolving.** Links are replaced by the same ways. -/
theorem resolve_eq (h : fs.SameOutline fs') (here : Location) (p : Path) :
    fs'.resolve here p = fs.resolve here p := by
  have hkept : Way.Kept fun _ ↦ True := ⟨fun _ ↦ trivial, fun _ ↦ trivial, fun _ _ _ ↦ trivial⟩
  exact (resolve_of_kept hkept (fun v _ ↦ h.linkAt?_eq here v) trivial).1

theorem foothold_eq (h : fs.SameOutline fs') (here : Location) :
    fs'.foothold here = fs.foothold here := by
  induction here with
  | nil => rfl
  | cons name above ih =>
    rw [foothold, foothold, ih]
    simp only [h.node?_eq_directory_iff]

/-! ## Changing -/

theorem put (h : fs.SameOutline fs') (here : Location) {node node' : Node}
    (hnode : node'.outline = node.outline) :
    (fs.put here node).SameOutline (fs'.put here node') := by
  intro there
  rw [node?_put, node?_put]
  split
  · rfl
  · split
    · rw [Option.map_some, Option.map_some, hnode]
    · exact h there

theorem removeTree (h : fs.SameOutline fs') (here : Location) :
    (fs.removeTree here).SameOutline (fs'.removeTree here) := by
  intro there
  rw [node?_removeTree, node?_removeTree]
  split
  · rfl
  · split
    · rfl
    · exact h there

theorem addDirectory (h : fs.SameOutline fs') (r : Route) :
    SameChange (fs.addDirectory r) (fs'.addDirectory r) := by
  rw [FileSystem.addDirectory, FileSystem.addDirectory, h.place_eq]
  rcases fs.place r with e | here
  · exact .error e
  · dsimp only
    rcases h.node?_cases here with hsame | ⟨bytes, bytes', x, hnode, hnode'⟩
    · rw [hsame]
      rcases fs.node? here with _ | node
      · exact .ok (h.put here rfl)
      · exact .error ErrorCode.exists
    · rw [hnode, hnode']
      exact .error ErrorCode.exists

theorem tryDirectory (h : fs.SameOutline fs') (faults : List Fault) (here : Location) (p : Path) :
    SameChange (fs.tryDirectory faults here p) (fs'.tryDirectory faults here p) := by
  rw [FileSystem.tryDirectory, FileSystem.tryDirectory]
  rcases Fault.error? faults .mkdir p.toString with _ | e
  · dsimp only
    rcases (h.addDirectory (p.route here)).eq_error_or_eq_ok with
      ⟨code, hadd, hadd'⟩ | ⟨made, made', hadd, hadd', hmade⟩
    · rw [hadd, hadd']
      exact .error _
    · rw [hadd, hadd']
      exact .ok hmade
  · exact .error e

theorem forgive_eq (h : fs.SameOutline fs') (here : Location) (p : Path) (e : SystemError) :
    fs'.forgive here p e = fs.forgive here p e := by
  rw [forgive, forgive, h.isDirectory_eq]

theorem missingDepth_eq (h : fs.SameOutline fs') (faults : List Fault) (here : Location)
    (p : Path) : fs'.missingDepth faults here p = fs.missingDepth faults here p := by
  induction p using Path.parentRec with
  | step p ih =>
    rw [missingDepth.eq_def fs, missingDepth.eq_def fs']
    rcases (h.tryDirectory faults here p).eq_error_or_eq_ok with
      ⟨e, htry, htry'⟩ | ⟨made, made', htry, htry', -⟩
    · rw [htry, htry']
      dsimp only
      split
      · rfl
      · split
        · rfl
        · next hne => rw [ih hne]
    · rw [htry, htry']

/-- **Creating directories.** The same directories are created, whether or not that succeeds in the
end. -/
theorem addDirectories (h : fs.SameOutline fs') (faults : List Fault) (here : Location) (p : Path) :
    (fs.addDirectories faults here p).1.SameOutline (fs'.addDirectories faults here p).1 ∧
      (fs'.addDirectories faults here p).2 = (fs.addDirectories faults here p).2 := by
  induction p using Path.parentRec with
  | step p ih =>
    rw [FileSystem.addDirectories.eq_def fs, FileSystem.addDirectories.eq_def fs']
    rcases (h.tryDirectory faults here p).eq_error_or_eq_ok with
      ⟨e, htry, htry'⟩ | ⟨made, made', htry, htry', hmade⟩
    · rw [htry, htry']
      dsimp only
      split
      · exact ⟨h, h.forgive_eq here p e⟩
      · split
        · exact ⟨h, rfl⟩
        · next hne =>
          obtain ⟨habove, hverdict⟩ := ih hne
          rcases hup : fs.addDirectories faults here p.parent with ⟨above, verdict⟩
          rcases hup' : fs'.addDirectories faults here p.parent with ⟨above', verdict'⟩
          rw [hup, hup'] at habove hverdict
          obtain rfl : verdict' = verdict := hverdict
          rcases verdict' with e | _
          · exact ⟨habove, rfl⟩
          · -- The path is tried again, below what stands above it now.
            dsimp only
            rcases (SameOutline.tryDirectory habove faults here p).eq_error_or_eq_ok with
              ⟨e, htry, htry'⟩ | ⟨made, made', htry, htry', hmade⟩
            · rw [htry, htry']
              dsimp only
              split
              · exact ⟨habove, rfl⟩
              · exact ⟨habove, SameOutline.forgive_eq habove here p e⟩
            · rw [htry, htry']
              exact ⟨hmade, rfl⟩
    · rw [htry, htry']
      exact ⟨hmade, rfl⟩

theorem write (h : fs.SameOutline fs') (r : Route) (content : List UInt8) :
    SameChange (fs.write r content) (fs'.write r content) := by
  rw [FileSystem.write, FileSystem.write, h.locateNew_eq]
  rcases fs.locateNew r with e | here
  · exact .error e
  · dsimp only
    simp only [h.node?_eq_directory_iff]
    rcases h.node?_cases here with hsame | ⟨bytes, bytes', x, hnode, hnode'⟩
    · rw [hsame]
      rcases fs.node? here with _ | ⟨bytes, x⟩ | _ | target
      · dsimp only
        split
        · exact .ok (h.put here rfl)
        · exact .error ErrorCode.notFound
      · exact .ok (h.put here rfl)
      · exact .error ErrorCode.isDirectory
      · dsimp only
        split
        · exact .ok (h.put here rfl)
        · exact .error ErrorCode.notFound
    · rw [hnode, hnode']
      exact .ok (h.put here rfl)

/-! ## Changes from outside -/

theorem withDirectories (h : fs.SameOutline fs') (p : Path) :
    (fs.withDirectories p).SameOutline (fs'.withDirectories p) :=
  (h.addDirectories [] [] p).1

/-- **Effects.** What a program does to the files of both. -/
theorem apply (h : fs.SameOutline fs') (e : Effect) : (fs.apply e).SameOutline (fs'.apply e) := by
  cases e with
  | file path content executable =>
    have habove := h.withDirectories path.parent
    simp only [FileSystem.apply, habove.locateNew_eq, habove.node?_eq_directory_iff]
    rcases (fs.withDirectories path.parent).locateNew (path.route []) with _ | here
    · exact habove
    · dsimp only
      split
      · exact habove
      · exact habove.put here rfl
  | directory path => exact h.withDirectories path
  | link path target =>
    have habove := h.withDirectories path.parent
    simp only [FileSystem.apply, habove.place_eq]
    rcases (fs.withDirectories path.parent).place (path.route []) with _ | here
    · exact habove
    · exact (habove.removeTree here).put here rfl
  | remove path =>
    simp only [FileSystem.apply, h.place_eq]
    rcases fs.place (path.route []) with _ | here
    · exact h
    · exact h.removeTree here

end SameOutline

end FileSystem

end Runbook
