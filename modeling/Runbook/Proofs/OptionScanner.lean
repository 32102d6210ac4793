import Runbook.Proofs.Endings
import Runbook.Proofs.Forwarding

/-!
# The option scanner in front of an invocation

The scanner may take a separator away that the invocation would have passed on, and then the two
read different words. What it takes away stands behind options only (`CommandLine.scan_eq`), so if
it is not the first word, the command itself looks like an option. The only commands that do are
aliases of the help, and the help does not look at its trailing words (`run_of_option`). So the
difference never arrives anywhere, and a run of the command line is the run of the invocation that
stands on it.
-/

namespace Runbook

open Command

/-! ## What the scanner takes away -/

namespace CommandLine

/-- The scanner takes one separator away, with nothing but options in front of it, or nothing. -/
theorem scan_eq (words : List String) :
    scan words = words ∨ ∃ options rest, (∀ word ∈ options, looksLikeOption word = true) ∧
      words = options ++ separatorWord :: rest ∧ scan words = options ++ rest := by
  induction words with
  | nil => exact .inl rfl
  | cons word rest ih =>
    rw [scan]
    split
    · next hseparator => exact .inr ⟨[], rest, by simp, congrArg (· :: rest) hseparator, rfl⟩
    split
    · next hoption =>
      rcases ih with hsame | ⟨options, behind, hoptions, hwords, hscan⟩
      · exact .inl (congrArg (word :: ·) hsame)
      · refine .inr ⟨word :: options, behind, ?_, congrArg (word :: ·) hwords,
          congrArg (word :: ·) hscan⟩
        rintro other (_ | ⟨_, hother⟩)
        · exact hoption
        · exact hoptions other hother
    · exact .inl rfl

theorem scan_separator (words : List String) : scan (separatorWord :: words) = words := by
  rw [scan, if_pos rfl]

end CommandLine

/-! ## Commands that look like options -/

theorem name_of_mem_aliases : ∀ a ∈ aliases, a.2 = "help" := by decide

theorem action_of_name_help : ∀ e ∈ table, e.name = "help" → e.action = .help := by decide

theorem action_of_looksLikeOption {word : String} {e : Entry} (hfind : find? word = some e)
    (hoption : CommandLine.looksLikeOption word = true) : e.action = .help := by
  obtain ⟨he, hname⟩ := find?_eq_some_iff.mp hfind
  rw [canonicalName] at hname
  rcases hlookup : aliases.lookup word with _ | target
  · -- Without an alias the word is a name of the table, and these do not look like options.
    rw [hlookup, Option.getD_none] at hname
    rw [← hname, (name_of_mem_table e he).2] at hoption
    contradiction
  · rw [hlookup, Option.getD_some] at hname
    exact action_of_name_help e he
      (hname.trans (name_of_mem_aliases _ (Keyed.mem_of_lookup hlookup)))

theorem Command.run_of_option {word : String} (h : CommandLine.looksLikeOption word = true)
    (trailing trailing' : List String) : run word trailing = run word trailing' := by
  rw [run, run]
  rcases hfind : find? word with _ | e
  · rfl
  · have he := action_of_looksLikeOption hfind h
    dsimp only
    rw [Entry.run_of_help he, Entry.run_of_help he]

/-! ## Command lines and invocations -/

theorem Invocation.run_scan {words : List String} (h : words.head? ≠ some separatorWord) :
    (Invocation.ofWords (CommandLine.scan words)).run = (Invocation.ofWords words).run := by
  rcases CommandLine.scan_eq words with hsame | ⟨options, rest, hoptions, rfl, hscan⟩
  · rw [hsame]
  · rcases options with _ | ⟨command, options⟩
    · exact absurd rfl h
    · rw [hscan, List.cons_append, List.cons_append, ofWords, ofWords, run, run]
      dsimp only
      rw [Command.run_of_option (hoptions command List.mem_cons_self)]

/-- **Command lines.** A command line that does not begin with a separator runs as the invocation of
its words, and one that does as the invocation of the words behind it: with the same exit status on
the same machine, if the run gets to its end. If the run is left, so is the command line, unless the
user has aborted the run, which is told. -/
theorem commandLine_transparent {line words : List String}
    (hline : line = words ∧ words.head? ≠ some separatorWord ∨ line = separatorWord :: words)
    (m : Machine) :
    (∀ status n, (Invocation.ofWords words).run m = .ok status n →
      CommandLine.run line m = .ok status n) ∧
    ∀ escape n, (Invocation.ofWords words).run m = .error escape n →
      CommandLine.run line m
        = if escape.isAbort then CommandLine.tellAbort n else .error escape n := by
  have hrun : (Invocation.ofWords (CommandLine.scan line)).run
      = (Invocation.ofWords words).run := by
    rcases hline with ⟨rfl, hwords⟩ | rfl
    · exact Invocation.run_scan hwords
    · rw [CommandLine.scan_separator]
  rw [CommandLine.run, hrun]
  constructor
  · intro status n h
    rw [h]
  · intro escape n h
    rw [h]

/-- The scanner takes the separator behind the option away, and the invocation does not. Both write
the help. -/
theorem commandLine_transparent_help :
    CommandLine.scan ["-h", "-v", "--", "x"] = ["-h", "-v", "x"] ∧
      (Invocation.ofWords ["-h", "-v", "--", "x"]).trailing = ["-v", "--", "x"] ∧
      ∃ n, (Invocation.ofWords ["-h", "-v", "--", "x"]).run {} = .ok 0 n ∧
        CommandLine.run ["-h", "-v", "--", "x"] {} = .ok 0 n := by
  have hrun : ∃ n, (Invocation.ofWords ["-h", "-v", "--", "x"]).run {} = .ok 0 n := ⟨_, rfl⟩
  obtain ⟨n, hrun⟩ := hrun
  exact ⟨by decide, by decide, n, hrun,
    (commandLine_transparent (.inl ⟨rfl, by decide⟩) {}).1 0 n hrun⟩

end Runbook
