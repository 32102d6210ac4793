import Runbook.Proofs.Dispatch
import Runbook.Proofs.Table

/-!
# Forwarding

The words behind a command pass three places that know a separator: the option scanner drops one in
front of the command, the invocation drops one right behind it, and some commands put one in front
of what they pass on. For a command of the table the first does nothing, because no name in the
table looks like an option (`scan_cons_of_mem_table`). What is left is that exactly one separator
behind the command is dropped and all other words arrive, in order and unread, or none of them does.

A run depends on the trailing words through `Entry.arguments` alone (`run_congr`), so a command that
does not forward them cannot tell two lists of them apart in any part of its answer.
-/

namespace Runbook

open Command

/-! ## The command behind the scanner -/

theorem name_of_mem_table : ∀ e ∈ table,
    e.name ≠ separatorWord ∧ CommandLine.looksLikeOption e.name = false := by decide

theorem scan_cons_of_mem_table {e : Entry} (he : e ∈ table) (words : List String) :
    CommandLine.scan (e.name :: words) = e.name :: words := by
  obtain ⟨hseparator, hoption⟩ := name_of_mem_table e he
  rw [CommandLine.scan, if_neg hseparator, if_neg (by simp [hoption])]

theorem dropSeparator_separator (words : List String) :
    Invocation.dropSeparator (separatorWord :: words) = words := by
  rw [Invocation.dropSeparator, if_pos rfl]

theorem dropSeparator_of_head? {words : List String} (h : words.head? ≠ some separatorWord) :
    Invocation.dropSeparator words = words := by
  rcases words with _ | ⟨word, rest⟩
  · rfl
  · rw [Invocation.dropSeparator, if_neg]
    rintro rfl
    exact h rfl

/-! ## What the trailing words are for -/

namespace Command.Entry

theorem request_congr {e : Entry} {trailing trailing' : List String}
    (h : e.arguments trailing = e.arguments trailing') (overlay : Overlay) :
    e.request overlay trailing = e.request overlay trailing' := by
  rw [request, request, h]

theorem run_congr {e : Entry} {trailing trailing' : List String}
    (h : e.arguments trailing = e.arguments trailing') : e.run trailing = e.run trailing' := by
  have hstart : ∀ overlay, e.start overlay trailing = e.start overlay trailing' := by
    intro overlay
    rw [start, start, request_congr h]
  rw [run, run]
  simp only [hstart]

theorem attempt?_argv {e : Entry} {trailing : List String} {m : Machine} {s : Spawn}
    {program : String} (hprogram : e.program = some program)
    (h : e.attempt? trailing m = some s) : s.argv = program :: e.arguments trailing := by
  obtain ⟨r, n, happroach, rfl⟩ := exists_approach_of_attempt? h
  have hready := approached_of_approach happroach
  have hr : r.program = program := Option.some.inj (hready.program.symm.trans hprogram)
  show r.program :: r.arguments = _
  rw [hr, hready.arguments]

theorem isSome_attempt?_iff {e : Entry} {program : String} (hprogram : e.program = some program)
    (trailing : List String) (m : Machine) :
    (e.attempt? trailing m).isSome = true ↔
      e.Cleared m ∧ ∀ name, e.envFile = some name → ∃ loaded, m.envOverlay name = .ok loaded := by
  rw [Option.isSome_iff_exists]
  constructor
  · rintro ⟨s, hs⟩
    obtain ⟨r, n, happroach, -⟩ := exists_approach_of_attempt? hs
    have hready := approached_of_approach happroach
    refine ⟨hready.cleared, fun name hname ↦ ?_⟩
    obtain ⟨overlay, stream, hoverlay, -⟩ := hready.values
    obtain ⟨lines, hlines⟩ := (overlay_of_ok hoverlay).2.1 name hname
    exact ⟨_, hlines⟩
  · rintro ⟨hclear, hload⟩
    obtain ⟨r, n, happroach⟩ := exists_approach_of_cleared hclear hprogram hload trailing
    exact ⟨_, attempt?_of_approach happroach⟩

end Command.Entry

/-! ## From the command line to the program -/

theorem commandLine_run_congr {e : Entry} (he : e ∈ table) {words words' : List String}
    (h : e.arguments (Invocation.dropSeparator words)
      = e.arguments (Invocation.dropSeparator words')) :
    CommandLine.run (e.name :: words) = CommandLine.run (e.name :: words') := by
  have hrun : (Invocation.ofWords (e.name :: words)).run
      = (Invocation.ofWords (e.name :: words')).run := by
    rw [Invocation.ofWords, Invocation.ofWords, Invocation.run, Invocation.run, Command.run,
      Command.run, find?_name_of_mem_table e he]
    dsimp only
    rw [Entry.run_congr h]
  funext m
  rw [CommandLine.run, CommandLine.run, scan_cons_of_mem_table he, scan_cons_of_mem_table he, hrun]

theorem spawns_final_commandLine {e : Entry} (he : e ∈ table) (hspawns : e.spawns = true)
    (words : List String) (m : Machine) :
    (Steps.final (CommandLine.run (e.name :: words)) m).spawns
      = m.spawns ++ (e.attempt? (Invocation.dropSeparator words) m).toList := by
  rw [CommandLine.final_run Machine.spawns fun _ _ ↦ rfl, scan_cons_of_mem_table he,
    (Invocation.trace_final_run _ m).1, Invocation.attempt?, Invocation.ofWords,
    find?_name_of_mem_table e he]
  dsimp only
  rw [if_pos hspawns]

/-- **Forwarding.** A command of the table that starts a program starts it with its fixed
arguments, with a separator if it has one, and then with the words behind the separator of the
command line if it forwards them, whatever those words are. The separator of the command line may
be left out in front of a word that is not one itself. A command that does not forward gives the
same answer, to the last part of the machine, whatever stands behind it.

A run gets as far as the attempt exactly if the command is cleared and its env file does not make
the run leave. -/
theorem commandLine_forwards {e : Entry} (he : e ∈ table) (hspawns : e.spawns = true) :
    ∃ program, e.program = some program ∧
      (∀ (words : List String) (m : Machine),
        let n := Steps.final (CommandLine.run (e.name :: separatorWord :: words)) m
        (n.spawns ≠ m.spawns ↔ e.Cleared m ∧
          ∀ name, e.envFile = some name → ∃ loaded, m.envOverlay name = .ok loaded) ∧
        (n.spawns ≠ m.spawns → ∃ s, n.spawns = m.spawns ++ [s] ∧
          s.argv = program :: (e.fixedArgs ++ (if e.separator then [separatorWord] else [])
            ++ (if e.forwardsArgs then words else [])))) ∧
      (∀ words : List String, words.head? ≠ some separatorWord →
        CommandLine.run (e.name :: words)
          = CommandLine.run (e.name :: separatorWord :: words)) ∧
      (e.forwardsArgs = false → ∀ words words' : List String,
        CommandLine.run (e.name :: words) = CommandLine.run (e.name :: words')) := by
  obtain ⟨program, hprogram⟩ :=
    Option.isSome_iff_exists.mp (exists_program_of_mem_table e he hspawns)
  refine ⟨program, hprogram, ?_, ?_, ?_⟩
  · intro words m n
    have hn : n.spawns = m.spawns ++ (e.attempt? words m).toList := by
      rw [spawns_final_commandLine he hspawns, dropSeparator_separator]
    -- The trace has grown exactly if there is an attempt, and the attempt is on the right of it.
    rw [hn, ← Entry.isSome_attempt?_iff hprogram words m]
    rcases hs : e.attempt? words m with _ | s
    · rw [Option.toList_none, List.append_nil]
      constructor
      · exact iff_of_false (fun hne ↦ hne rfl) Bool.false_ne_true
      · intro hne
        exact absurd rfl hne
    · have hne : m.spawns ++ [s] ≠ m.spawns := fun h ↦
        List.cons_ne_nil s [] (List.append_right_eq_self.mp h)
      constructor
      · exact iff_of_true hne rfl
      · intro _
        exact ⟨s, rfl, Entry.attempt?_argv hprogram hs⟩
  · intro words hwords
    have hsame : Invocation.dropSeparator words
        = Invocation.dropSeparator (separatorWord :: words) := by
      rw [dropSeparator_of_head? hwords, dropSeparator_separator]
    exact commandLine_run_congr he (congrArg e.arguments hsame)
  · intro hforwards words words'
    refine commandLine_run_congr he ?_
    rw [Entry.arguments_of_not_forwardsArgs hforwards,
      Entry.arguments_of_not_forwardsArgs hforwards]

/-- On the empty machine the env file of `dev` is not there, and no matter. Of the two separators of
the command line one arrives, behind that of the command and the one among its fixed arguments. -/
theorem commandLine_forwards_dev :
    ∃ e ∈ table, e.name = "dev" ∧ e.spawns = true ∧
      ∃ s, (Steps.final (CommandLine.run ["dev", "--", "--", "-v", ""]) {}).spawns = [s] ∧
        s.argv = ["cargo", "run", "--", "--", "--", "-v", ""] := by
  -- The way of the env file: the tool root is the root, and there is no such file in it.
  have hresolve : Machine.resolve {} ⟨.root, []⟩ = .ok ⟨.root, []⟩ := by
    simp [Machine.resolve, FileSystem.resolve, FileSystem.resolveFrom, Path.hasNul,
      Path.isAbsolute, Way.root, Machine.pathOf, Except.map]
  have hroot : Machine.toolRoot {} = .ok ⟨.root, []⟩ := by
    show Machine.projectRoot {} = _
    rw [Machine.projectRoot, hresolve]
    rfl
  have hpath : Machine.envPath {} ".env.local" = .ok ⟨.root, [".env.local"]⟩ := by
    rw [Machine.envPath, hroot]
    rfl
  have hlost : FileSystem.locate {} (Path.route [] ⟨.root, [".env.local"]⟩)
      = .ok [".env.local"] := by
    rw [FileSystem.locate, if_neg (by decide)]
    exact FileSystem.walk_cons {} false _ [] ".env.local" []
  have htext : Machine.readEnvText {} ⟨.root, [".env.local"]⟩
      = .ok (.error (.noEnvFile ⟨.root, [".env.local"]⟩)) := by
    have hfile : Machine.isFile {} ⟨.root, [".env.local"]⟩ = .ok false := by
      rw [Machine.isFile, FileSystem.isFile, FileSystem.nodeAt, Machine.route, hlost]
      rfl
    rw [Machine.readEnvText, hfile]
  have hload : ∃ loaded, Machine.envOverlay {} ".env.local" = .ok loaded := by
    rw [Machine.envOverlay, hpath]
    simp only [bind, Except.bind, htext]
    exact ⟨_, rfl⟩
  have he : table[2] ∈ table := List.getElem_mem _
  refine ⟨table[2], he, rfl, rfl, ?_⟩
  obtain ⟨program, hprogram, hargv, -, -⟩ := commandLine_forwards he rfl
  obtain rfl := Option.some.inj hprogram
  obtain ⟨hreaches, hspawn⟩ := hargv ["--", "-v", ""] {}
  refine hspawn (hreaches.mpr ⟨⟨?_, ?_⟩, ?_⟩)
  · rintro _ ⟨⟩
  · rintro ⟨⟩
  · rintro _ ⟨rfl⟩
    exact hload
end Runbook
