import Runbook.Proofs.Endings
import Runbook.Proofs.FileSystem.Reaching

/-!
# Which runs start a program

A run that gets to its end has started one program or none, and which of the two is decided before
it begins: by the word that selects the command, by the tools on the machine and by whether the
directory for a schema can be created. The env file is not among them. It can make a run leave, but
a run that gets past it gets to its program.

The endings of a command are gone through once, for the attempt alone (`isSome_attempt?_iff_clear`).
What the attempt means for the trace and for the queue of children holds of every run, however it
ends (`Invocation.trace_final_run`).
-/

namespace Runbook

open Command

/-! ## The clear way -/

/-- The word selects a command that starts a program, and nothing on the machine stands in its
way. -/
def Command.Clear (word : String) (m : Machine) : Prop :=
  ∃ e ∈ table, e.name = canonicalName word ∧ e.action ≠ .help ∧ e.Cleared m

theorem clear_iff_of_find? {word : String} {e : Entry} (hfind : find? word = some e)
    {m : Machine} : Clear word m ↔ e.action ≠ .help ∧ e.Cleared m := by
  constructor
  · rintro ⟨e', he', hname, haction, hclear⟩
    have hsame : e' = e := Option.some.inj ((find?_eq_some_iff.mpr ⟨he', hname⟩).symm.trans hfind)
    rw [← hsame]
    exact ⟨haction, hclear⟩
  · rintro ⟨haction, hclear⟩
    obtain ⟨he, hname⟩ := find?_eq_some_iff.mp hfind
    exact ⟨e, he, hname, haction, hclear⟩

theorem not_clear_of_find?_eq_none {word : String} (hfind : find? word = none) {m : Machine} :
    ¬Clear word m := by
  rintro ⟨e, he, hname, -, -⟩
  have hfound := find?_eq_some_iff.mpr ⟨he, hname⟩
  exact absurd (hfound.symm.trans hfind) (Option.some_ne_none e)

/-! ## The attempt of a run -/

theorem Invocation.attempt?_of_find? {i : Invocation} {e : Entry}
    (hfind : find? i.command = some e) (he : e.action ≠ .help) (m : Machine) :
    i.attempt? m = e.attempt? i.trailing m := by
  rw [attempt?, hfind]
  dsimp only
  rw [if_pos (Entry.spawns_iff.mpr he)]

theorem Invocation.attempt?_of_help {i : Invocation} {e : Entry}
    (hfind : find? i.command = some e) (he : e.action = .help) (m : Machine) :
    i.attempt? m = none := by
  rw [attempt?, hfind]
  dsimp only
  rw [if_neg fun h ↦ Entry.spawns_iff.mp h he]

theorem Command.Ends.isSome_attempt?_iff {i : Invocation} {m n : Machine}
    {result : Except Failure Int} (h : Command.Ends i.command i.trailing m result n) :
    (i.attempt? m).isSome = true ↔ Clear i.command m := by
  cases h with
  | unknown hfind =>
    rw [Invocation.attempt?, hfind, Option.isSome_none]
    exact iff_of_false Bool.false_ne_true (not_clear_of_find?_eq_none hfind)
  | helped hfind he | unhelped hfind he =>
    rw [Invocation.attempt?_of_help hfind he, clear_iff_of_find? hfind, Option.isSome_none]
    refine iff_of_false Bool.false_ne_true ?_
    rintro ⟨haction, -⟩
    exact haction he
  | blocked hfind he happroach =>
    rw [Invocation.attempt?_of_find? hfind he, clear_iff_of_find? hfind,
      Entry.attempt?_of_failure happroach, Option.isSome_none]
    refine iff_of_false Bool.false_ne_true ?_
    rintro ⟨-, hclear⟩
    exact Entry.not_cleared_of_approach happroach hclear
  | refused hfind he happroach | ended hfind he happroach =>
    have hready := Entry.approached_of_approach happroach
    rw [Invocation.attempt?_of_find? hfind he, clear_iff_of_find? hfind,
      Entry.attempt?_of_approach happroach, Option.isSome_some]
    exact iff_of_true rfl ⟨he, hready.cleared⟩

theorem Invocation.isSome_attempt?_iff_clear {i : Invocation} {m n : Machine} {status : Int}
    (h : i.run m = .ok status n) : (i.attempt? m).isSome = true ↔ Clear i.command m := by
  rcases Invocation.run_eq_ok_iff.mp h with hends | ⟨f, k, hends, -, -⟩
  · exact hends.isSome_attempt?_iff
  · exact hends.isSome_attempt?_iff

/-- **Gating.** A run that gets to its end has tried to start one program if its command starts one,
the tool that the command requires is found, and the directory for a schema can be created. It has
then taken one child from the queue. Otherwise it has tried nothing and taken none. -/
theorem spawn_gating {words : List String} {m n : Machine} {status : Int}
    (h : (Invocation.ofWords words).run m = .ok status n) :
    ((∃ s, n.spawns = m.spawns ++ [s]) ↔ Clear (Invocation.ofWords words).command m) ∧
      (Clear (Invocation.ofWords words).command m → n.children = m.children.tail) ∧
      (¬Clear (Invocation.ofWords words).command m →
        n.spawns = m.spawns ∧ n.children = m.children) := by
  obtain ⟨hspawns, hchildren⟩ := (Invocation.ofWords words).trace_final_run m
  rw [Steps.final_of_ok h] at hspawns hchildren
  rw [← Invocation.isSome_attempt?_iff_clear h]
  rcases hattempt : (Invocation.ofWords words).attempt? m with _ | s
  · rw [hattempt, Option.toList_none, List.append_nil] at hspawns
    rw [hattempt] at hchildren
    refine ⟨⟨?_, ?_⟩, ?_, fun _ ↦ ⟨hspawns, hchildren⟩⟩
    · rintro ⟨s, hs⟩
      have hself : m.spawns = m.spawns ++ [s] := hspawns.symm.trans hs
      exact absurd (List.self_eq_append_right.mp hself) (List.cons_ne_nil s [])
    · rintro ⟨⟩
    · rintro ⟨⟩
  · rw [hattempt] at hspawns hchildren
    refine ⟨⟨fun _ ↦ rfl, fun _ ↦ ⟨s, hspawns⟩⟩, ?_, fun hnone ↦ absurd rfl hnone⟩
    intro _
    exact hchildren.trans List.drop_one

/-! ## Runs that get to their end -/

/-- A command that hands the status of its program on exits with it if nothing stands in the way of
the program and the env file can be asked for. -/
theorem Invocation.exists_run_eq_ok {i : Invocation} {e : Entry} {m : Machine} {program : String}
    {raw : Int} {output : List UInt8} {interrupts : List Interrupt} {effects : List Effect}
    (hfind : find? i.command = some e) (hexec : e.action = .exec) (hclear : e.Cleared m)
    (hprogram : e.program = some program)
    (hload : ∀ name, e.envFile = some name → ∃ loaded, m.envOverlay name = .ok loaded)
    (hchild : m.children.headD .quiet = .exits raw output interrupts effects) :
    ∃ n, i.run m = .ok (reportedStatus raw) n := by
  have hschema : e.action ≠ .schema := by
    rw [hexec]
    decide
  obtain ⟨r, k, happroach⟩ := Entry.exists_approach_of_cleared hclear hprogram hload i.trailing
  have hready := Entry.approached_of_approach happroach
  have hstart : r.start k = .ok (.ok ⟨reportedStatus raw, []⟩) (k.afterSpawn r) :=
    start_of_exits (hready.children_eq ▸ hchild)
      (hready.capture_of_not_schema hschema ▸ Child.received_of_not_capture output interrupts)
  have hsettle : e.settle ⟨reportedStatus raw, []⟩ (k.afterSpawn r)
      = .ok (.ok (reportedStatus raw)) (k.afterSpawn r) := by
    rw [Entry.settle_of_not_schema hschema]
    rfl
  have hhelp : e.action ≠ .help := by
    rw [hexec]
    decide
  exact ⟨_, Invocation.run_eq_ok_iff.mpr (.inl (.ended hfind hhelp happroach hstart hsettle))⟩

/-- A tool is found if an executable of its name stands in a directory that is searched. -/
theorem Machine.isSome_findTool? {m : Machine} {name directory : String} {bytes : List UInt8}
    (hname : name.toList.contains '/' = false) (hdirectory : directory ∈ m.searchPath)
    (hcandidate : (searchCandidate directory name != "" &&
      !(searchCandidate directory name).toList.contains '\x00') = true)
    (hnode : m.files.nodeAt (Route.ofString m.workingDirectory (searchCandidate directory name))
      = .ok (.file bytes true)) :
    (m.findTool? name).isSome = true := by
  have hexecutable : m.isExecutable (searchCandidate directory name) = true := by
    rw [isExecutable, hnode, hcandidate]
    rfl
  rw [Machine.findTool?, hname, if_neg Bool.false_ne_true, List.find?_isSome]
  exact ⟨_, List.mem_map_of_mem hdirectory, hexecutable⟩

/-- With `docker` in the root directory, `docker:up` takes the first of two children and exits as
that does if the root directory is searched, and takes none if no directory is. -/
theorem spawn_gating_docker :
    let m : Machine := {
      files := ⟨.branch "docker" (some (.file [] true)) .empty .empty⟩
      environment := [("PATH", "")]
      children := [.exits 3 [] [] [], .quiet] }
    let i := Invocation.ofWords ["docker:up"]
    (∃ n, i.run { m with environment := [("PATH", "/")] } = .ok 3 n ∧
        (∃ s, n.spawns = [s]) ∧ n.children = [.quiet]) ∧
      ∃ n, i.run m = .ok 1 n ∧ n.spawns = [] ∧ n.children = m.children := by
  intro m i
  obtain ⟨e, hfind, hexec, hprogram, htool, henv⟩ :
      ∃ e, find? i.command = some e ∧ e.action = .exec ∧ e.program = some "docker" ∧
        e.requiresTool = some "docker" ∧ e.envFile = none := ⟨_, rfl, rfl, rfl, rfl, rfl⟩
  constructor
  · have hpath : Machine.searchPath { m with environment := [("PATH", "/")] } = ["/"] := rfl
    have hfound :
        (Machine.findTool? { m with environment := [("PATH", "/")] } "docker").isSome = true := by
      have hnode : m.files.nodeAt (Route.ofString [] (searchCandidate "/" "docker"))
          = .ok (.file [] true) :=
        FileSystem.nodeAt_of_reaches (.stay (.inl rfl) (.file (by decide) rfl)) rfl
      exact Machine.isSome_findTool? (by decide) (hpath ▸ List.mem_singleton.mpr rfl) (by decide)
        hnode
    have hclear : e.Cleared { m with environment := [("PATH", "/")] } := by
      refine ⟨?_, ?_⟩
      · rw [htool]
        rintro _ ⟨rfl⟩
        exact hfound
      · rw [hexec]
        rintro ⟨⟩
    obtain ⟨n, hrun⟩ := Invocation.exists_run_eq_ok hfind hexec hclear hprogram
      (by simp [henv]) rfl
    obtain ⟨hone, htaken, -⟩ := spawn_gating hrun
    have hselected := (clear_iff_of_find? hfind).mpr ⟨by rw [hexec]; decide, hclear⟩
    exact ⟨n, hrun, hone.mpr hselected, htaken hselected⟩
  · have hrun : ∃ n, i.run m = .ok 1 n := ⟨_, rfl⟩
    have hclear : ¬Clear i.command m := by
      rw [clear_iff_of_find? hfind]
      rintro ⟨-, hclear⟩
      have hfound : (m.findTool? "docker").isSome = true := hclear.tool "docker" htool
      contradiction
    obtain ⟨n, hrun⟩ := hrun
    exact ⟨n, hrun, (spawn_gating hrun).2.2 hclear⟩

end Runbook
