import Runbook.Command.Table
import Runbook.Keyed

/-!
# Looking up commands

The command table is searched from its beginning, for the name that a word stands for. No two
commands have one name and no name is an alias of another, so the search can be forgotten: a word
selects the command of the table that has the name for which the word stands
(`find?_eq_some_iff`). The words that select a command at all are the listed ones
(`mem_selectors_iff`), and the list is in strictly ascending order.
-/

namespace Runbook.Command

theorem canonicalName_of_mem_table : ∀ e ∈ table, canonicalName e.name = e.name := by decide

theorem find?_name_of_mem_table : ∀ e ∈ table, find? e.name = some e := by decide

theorem exists_program_of_mem_table : ∀ e ∈ table, e.spawns = true →
    e.program.isSome = true := by decide

/-- **Selection.** A word selects the one command of the table that has the name for which the word
stands. -/
theorem find?_eq_some_iff {word : String} {e : Entry} :
    find? word = some e ↔ e ∈ table ∧ e.name = canonicalName word := by
  constructor
  · intro h
    rw [find?] at h
    have hname := List.find?_some h
    exact ⟨List.mem_of_find?_eq_some h, eq_of_beq hname⟩
  · rintro ⟨he, hname⟩
    have hself := find?_name_of_mem_table e he
    rw [find?, canonicalName_of_mem_table e he, hname] at hself
    rw [find?, hself]

theorem Entry.spawns_iff {e : Entry} : e.spawns = true ↔ e.action ≠ .help := by
  rw [spawns, bne_iff_ne]

/-! ## The words that select a command -/

theorem isSome_find?_of_mem_aliases : ∀ a ∈ aliases, (find? a.1).isSome = true := by decide

theorem nodup_names : (table.map Entry.name ++ aliases.map Prod.fst).Nodup := by decide

/-- **The list is complete.** A word selects a command if and only if it is listed. -/
theorem mem_selectors_iff {word : String} : word ∈ selectors ↔ (find? word).isSome = true := by
  rw [selectors, List.mem_mergeSort, List.mem_append, List.mem_map, List.mem_map]
  constructor
  · rintro (⟨e, he, rfl⟩ | ⟨a, ha, rfl⟩)
    · rw [find?_name_of_mem_table e he]
      rfl
    · exact isSome_find?_of_mem_aliases a ha
  · intro h
    obtain ⟨e, hfind⟩ := Option.isSome_iff_exists.mp h
    obtain ⟨he, hname⟩ := find?_eq_some_iff.mp hfind
    rw [canonicalName] at hname
    rcases hlookup : aliases.lookup word with _ | target
    · rw [hlookup, Option.getD_none] at hname
      exact .inl ⟨e, he, hname⟩
    · exact .inr ⟨(word, target), Keyed.mem_of_lookup hlookup, rfl⟩

/-- **The list is in order.** It ascends, and no word stands in it twice. -/
theorem pairwise_selectors : selectors.Pairwise (· < ·) := by
  have hsorted : selectors.Pairwise fun a b ↦ decide (a ≤ b) = true := by
    refine List.pairwise_mergeSort (fun a b c hab hbc ↦ ?_) (fun a b ↦ ?_) _
    · rw [decide_eq_true_iff] at hab hbc ⊢
      exact String.le_trans hab hbc
    · rw [Bool.or_eq_true, decide_eq_true_iff, decide_eq_true_iff]
      exact String.le_total a b
  have hnodup : selectors.Nodup := (List.mergeSort_perm _ _).nodup_iff.mpr nodup_names
  refine hsorted.imp₂ (fun a b hle hne ↦ ?_) hnodup
  rw [decide_eq_true_iff] at hle
  exact String.not_le.mp fun hge ↦ hne (String.le_antisymm hle hge)

end Runbook.Command
