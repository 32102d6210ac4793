import Runbook.Proofs.Endings

/-!
# Words that select no command, and the help

The set of words that select a command is closed, and the list of them is the one that is shown with
an unknown word. A run without a command does not get to any machine but the two streams and the
journal: for an unknown word it tells three texts on standard error, and the help is one text on
standard output, whichever way it is asked for and whatever follows.
-/

namespace Runbook

open Command

theorem announce_unknownCommand {m : Machine} (h : m.stderr.state = .sound) (word : String) :
    Steps.final (Failure.unknownCommand word).announce m = { m with
      stderr := { m.stderr with
        written := m.stderr.written ++ ("Unknown command: " ++ word ++ "\n" ++ "\n"
          ++ help programName) }
      journal := m.journal
        ++ ["dispatch failed: " ++ (Failure.unknownCommand word).report.line] } := by
  have hfinal : Steps.final (Failure.unknownCommand word).announce m = { m with
      stderr := (((m.stderr.write ("Unknown command: " ++ word ++ "\n")).2.write "\n").2.write
        (help programName)).2
      journal := m.journal
        ++ ["dispatch failed: " ++ (Failure.unknownCommand word).report.line] } := rfl
  rw [hfinal]
  -- A stream that works goes on working, so all three writes arrive.
  simp only [Stream.write_of_sound, h, String.append_assoc]

theorem help_of_head? (words : List String)
    (h : words.head? ∈ [none, some "help", some "-h", some "--help"]) :
    ∃ e, find? (Invocation.ofWords words).command = some e ∧ e.action = .help := by
  have hselected : ∀ word ∈ ["help", "-h", "--help"],
      (find? word).map Entry.action = some .help := by decide
  have hword : (Invocation.ofWords words).command ∈ ["help", "-h", "--help"] := by
    rcases words with _ | ⟨word, trailing⟩
    · exact List.mem_cons_self
    · simpa [Invocation.ofWords] using h
  exact Option.map_eq_some_iff.mp (hselected _ hword)

/-- **The closed set of commands.** A word selects a command if and only if it is listed, and the
list is strictly ascending. A word that is not listed makes a run exit with 1 and tell the word, an
empty line and the help, and nothing else happens but an entry in the journal. A run that asks for
the help is the same in whichever way it does, and nothing happens in it but that the help is
written; it exits with 0. -/
theorem closed_command_set :
    (∀ word, (find? word).isSome = true ↔ word ∈ selectors) ∧ selectors.Pairwise (· < ·) ∧
      (∀ word ∉ selectors, ∀ (trailing : List String) (m : Machine), m.stderr.state = .sound →
        (Invocation.ofWords (word :: trailing)).run m = .ok 1 { m with
          stderr := { m.stderr with
            written := m.stderr.written ++ ("Unknown command: " ++ word ++ "\n" ++ "\n"
              ++ help programName) }
          journal := m.journal
            ++ ["dispatch failed: " ++ (Failure.unknownCommand word).report.line] }) ∧
      ∀ words : List String, words.head? ∈ [none, some "help", some "-h", some "--help"] →
        (Invocation.ofWords words).run = (Invocation.ofWords []).run ∧
          ∀ m : Machine, m.stdout.state = .sound → (Invocation.ofWords words).run m = .ok 0 { m with
            stdout := { m.stdout with written := m.stdout.written ++ help programName } } := by
  refine ⟨fun word ↦ mem_selectors_iff.symm, pairwise_selectors, ?_, ?_⟩
  · intro word hword trailing m hsound
    have hfind : find? word = none := by
      rw [← Option.not_isSome_iff_eq_none, ← mem_selectors_iff]
      exact hword
    rw [Invocation.run_of_failure (run_of_ends (.unknown hfind)), announce_unknownCommand hsound]
    rfl
  · intro words hwords
    obtain ⟨e, hfind, he⟩ := help_of_head? words hwords
    obtain ⟨e', hfind', he'⟩ := help_of_head? [] List.mem_cons_self
    constructor
    · rw [Invocation.run, Invocation.run, run_of_find? hfind, run_of_find? hfind',
        Entry.run_of_help he, Entry.run_of_help he']
    · intro m hsound
      exact Invocation.run_of_answer
        (run_of_ends (.helped hfind he (Stream.write_of_sound hsound _)))

/-- `Help` is not listed, as letter case counts, and `-h` asks for the help whatever follows. -/
theorem closed_command_set_case :
    "Help" ∉ selectors ∧
      (∃ n, (Invocation.ofWords ["Help", "--"]).run {} = .ok 1 n ∧
        n.stderr.written = "Unknown command: Help\n\n" ++ help programName) ∧
      ∃ n, (Invocation.ofWords ["-h", "--", "dev"]).run {} = .ok 0 n ∧
        n.stdout.written = help programName := by
  obtain ⟨hclosed, -, hunknown, hhelp⟩ := closed_command_set
  have hword : "Help" ∉ selectors := by
    rw [← hclosed]
    decide
  refine ⟨hword, ⟨_, hunknown "Help" hword ["--"] {} rfl, ?_⟩,
    ⟨_, (hhelp ["-h", "--", "dev"] (by decide)).2 {} rfl, ?_⟩⟩
  · rw [String.empty_append]
    rfl
  · exact String.empty_append

end Runbook
