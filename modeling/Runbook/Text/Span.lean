import Mathlib.Data.List.TakeWhile

/-!
# Runs of characters

A run is the beginning of a text as far as a test holds, and what is left starts with a character
for which it does not hold. The library splits a text into both; here is what becomes of them when
something is put behind the text.
-/

namespace Runbook.Text

/-- What stops a run of characters does not belong to it. -/
theorem stop_of_dropWhile {p : Char → Bool} {cs rest : List Char} {b : Char}
    (h : cs.dropWhile p = b :: rest) : p b = false := by
  have hhead := List.head?_dropWhile_not p cs
  rw [h] at hhead
  exact hhead

theorem notMem_takeWhile {p : Char → Bool} {d : Char} (hd : p d = false) (cs : List Char) :
    d ∉ cs.takeWhile p := by
  intro hmem
  have hp := List.all_eq_true.mp List.all_takeWhile d hmem
  rw [hd] at hp
  contradiction

/-- A run ends where a character comes that does not belong to it. -/
theorem span_append {p : Char → Bool} {run rest : List Char} (hrun : ∀ c ∈ run, p c = true)
    (hstop : ∀ d, rest.head? = some d → p d = false) :
    (run ++ rest).takeWhile p = run ∧ (run ++ rest).dropWhile p = rest := by
  rw [List.takeWhile_append_of_pos hrun, List.dropWhile_append_of_pos hrun]
  cases rest with
  | nil => exact ⟨List.append_nil _, rfl⟩
  | cons d rest =>
    have hd : ¬p d = true := by simp [hstop d rfl]
    rw [List.takeWhile_cons_of_neg hd, List.dropWhile_cons_of_neg hd, List.append_nil]
    exact ⟨rfl, rfl⟩

theorem span_append_of_stop {p : Char → Bool} {cs : List Char} (h : cs.dropWhile p ≠ [])
    (tail : List Char) :
    (cs ++ tail).takeWhile p = cs.takeWhile p ∧
      (cs ++ tail).dropWhile p = cs.dropWhile p ++ tail := by
  induction cs with
  | nil => exact absurd rfl h
  | cons c cs ih =>
    rw [List.cons_append, List.takeWhile_cons, List.dropWhile_cons, List.takeWhile_cons,
      List.dropWhile_cons]
    rw [List.dropWhile_cons] at h
    split
    · next hc =>
      rw [if_pos hc] at h
      obtain ⟨htake, hdrop⟩ := ih h
      rw [htake, hdrop]
      exact ⟨rfl, rfl⟩
    · exact ⟨rfl, rfl⟩

/-- A run that is not stopped goes on as long as nothing stops it later. -/
theorem dropWhile_append_of_all {p : Char → Bool} {cs tail : List Char} (h : cs.dropWhile p = [])
    (htail : ∀ d ∈ tail, p d = true) : (cs ++ tail).dropWhile p = [] :=
  List.dropWhile_eq_nil_iff.mpr
    (List.forall_mem_append.mpr ⟨List.dropWhile_eq_nil_iff.mp h, htail⟩)

end Runbook.Text
