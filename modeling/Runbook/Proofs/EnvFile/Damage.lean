import Runbook.EnvFile.Values
import Runbook.Proofs.EnvFile.Lines

/-!
# Damage stays on its line

A text without quotes says what its lines say, each read on its own, and there is a message for each
line that cannot be read. So blank lines, comments and damaged lines can be put in and taken out
without a change to any value (`damage_stays_on_line`).

Two things reach over lines all the same. A mark is dropped at the start of the text only, so a line
is read on its own as it stands, with a mark at its start or without. And two lines with a quote
each, both damaged on their own, can make one value of all that is between them; so no line with
quotes may be put in behind a damaged one with quotes.
-/

namespace Runbook.EnvFile

open Text

/-! ## Lines that stand alone -/

def isDamaged (line : List Char) : Bool := (lineStatement line).malformed?.isSome

/-- The line binds nothing. -/
inductive Idle (line : List Char) : Prop
  /-- It is blank. -/
  | blank (h : ∀ c ∈ line, isBlank c = true)
  /-- It is a comment. -/
  | comment (h : IsComment line)
  /-- It cannot be read. -/
  | damaged (h : isDamaged line = true)

theorem Idle.binding?_eq_none {line : List Char} (h : Idle line) :
    (lineStatement line).binding? = none := by
  cases h with
  | blank h =>
    have hskip : ((⟨1, line⟩ : Cursor).skip isBlank).rest = [] := List.dropWhile_eq_nil_iff.mpr h
    rw [lineStatement, readStatement, if_pos hskip]
    rfl
  | comment h =>
    obtain ⟨cs, hcs⟩ := List.head?_eq_some_iff.mp h
    have hskip : (⟨1, line⟩ : Cursor).skip isBlank
        = ⟨((⟨1, line⟩ : Cursor).skip isBlank).line, '#' :: cs⟩ := by
      rw [← hcs]
      rfl
    obtain ⟨k, hread⟩ := readBinding_comment ((⟨1, line⟩ : Cursor).skip isBlank).line cs
    rw [lineStatement, readStatement, hskip]
    dsimp only
    rw [if_neg (List.cons_ne_nil _ _), hread]
    rfl
  | damaged h =>
    rw [isDamaged] at h
    cases hstatement : lineStatement line with
    | malformed => rfl
    | nothing | binding =>
      rw [hstatement] at h
      contradiction

theorem statementsFrom_line {line : List Char} (hline : ∀ c ∈ line, isLineEnd c = false)
    (hne : line ≠ []) : statementsFrom ⟨1, line⟩ = [lineStatement line] := by
  have hend : (readStatement ⟨1, line⟩).2.rest = [] := by
    cases atLine_readStatement (c := ⟨1, line⟩) (.first rfl) with
    | first htext =>
      have hless : (readStatement ⟨1, line⟩).2.rest.length < line.length :=
        length_readStatement_lt hne
      rw [← htext] at hless
      exact absurd hless (Nat.lt_irrefl _)
    | last hend => exact hend
    | next htext hb =>
      have hunbroken := hline _ (htext ▸ List.mem_append_right _ List.mem_cons_self)
      rw [hb] at hunbroken
      contradiction
  rw [statementsFrom, dif_neg hne, statementsFrom, dif_pos hend]
  rfl

theorem filterMap_statementsFrom_line {α : Type} {f : Statement → Option α}
    (hnothing : f .nothing = none) {line : List Char} (hline : ∀ c ∈ line, isLineEnd c = false) :
    (statementsFrom ⟨1, line⟩).filterMap f = (f (lineStatement line)).toList := by
  by_cases hnil : line = []
  · subst hnil
    rw [statementsFrom, dif_pos rfl, lineStatement_nil, hnothing]
    rfl
  · rw [statementsFrom_line hline hnil, filterMap_cons_eq_append, List.filterMap_nil,
      List.append_nil]

theorem lineBindings_eq_flatMap {ls : List (List Char)}
    (hls : ∀ line ∈ ls, ∀ c ∈ line, isLineEnd c = false) :
    lineBindings ls
      = ls.flatMap fun line ↦ (statementsFrom ⟨1, line⟩).filterMap Statement.binding? := by
  induction ls with
  | nil => rfl
  | cons line ls ih =>
    obtain ⟨hline, hrest⟩ := List.forall_mem_cons.mp hls
    rw [lineBindings_cons, List.flatMap_cons, ih hrest, filterMap_statementsFrom_line rfl hline]

/-! ## Lines that come and go -/

/-- From `ls`, idle lines have been taken out, and the lines `new`, idle too, have been put in. -/
inductive Edited : List (List Char) → List (List Char) → List (List Char) → Prop
  /-- There are no lines. -/
  | nil : Edited [] [] []
  /-- A line is kept. -/
  | kept {ls new ls' : List (List Char)} (line : List Char) (h : Edited ls new ls') :
    Edited (line :: ls) new (line :: ls')
  /-- A line is put in. -/
  | inserted {ls new ls' : List (List Char)} {line : List Char} (hidle : Idle line)
    (h : Edited ls new ls') : Edited ls (line :: new) (line :: ls')
  /-- A line is taken out. -/
  | deleted {ls new ls' : List (List Char)} {line : List Char} (hidle : Idle line)
    (h : Edited ls new ls') : Edited (line :: ls) new ls'

section Edited

variable {ls new ls' : List (List Char)}

theorem Edited.lineBindings_eq (h : Edited ls new ls') : lineBindings ls' = lineBindings ls := by
  induction h with
  | nil => rfl
  | kept line _ ih => rw [lineBindings_cons, lineBindings_cons, ih]
  | inserted hidle _ ih =>
    rw [lineBindings_cons, hidle.binding?_eq_none, ih]
    rfl
  | deleted hidle _ ih =>
    rw [lineBindings_cons, hidle.binding?_eq_none, ih]
    rfl

theorem Edited.mem (h : Edited ls new ls') {line : List Char} (hline : line ∈ ls') :
    line ∈ ls ∨ line ∈ new := by
  induction h with
  | nil => contradiction
  | kept _ _ ih =>
    rcases List.mem_cons.mp hline with rfl | hline
    · exact .inl List.mem_cons_self
    · exact (ih hline).imp_left (List.mem_cons_of_mem _)
  | inserted _ _ ih =>
    rcases List.mem_cons.mp hline with rfl | hline
    · exact .inr List.mem_cons_self
    · exact (ih hline).imp_right (List.mem_cons_of_mem _)
  | deleted _ _ ih => exact (ih hline).imp_left (List.mem_cons_of_mem _)

/-- Among lines without quotes, only those that are put in can meddle with each other. -/
theorem Edited.quotesApart (h : Edited ls new ls') (hls : ∀ line ∈ ls, QuoteFree line)
    (hnew : QuotesApart new) : QuotesApart ls' := by
  induction h with
  | nil => exact .nil
  | kept line _ ih =>
    obtain ⟨hline, hrest⟩ := List.forall_mem_cons.mp hls
    exact List.pairwise_cons.mpr ⟨fun _ _ ↦ .inl (.inl hline), ih hrest hnew⟩
  | inserted _ h ih =>
    obtain ⟨hfirst, hlater⟩ := List.pairwise_cons.mp hnew
    refine List.pairwise_cons.mpr ⟨fun later hmem ↦ ?_, ih hls hlater⟩
    rcases h.mem hmem with hmem | hmem
    · exact .inr (hls later hmem)
    · exact hfirst later hmem
  | deleted _ _ ih => exact ih (List.forall_mem_cons.mp hls).2 hnew

end Edited

/-- **Damage stays on its line.** A text without quotes is read line by line, with one message for
each line that cannot be read. Idle lines that come and go change no value and no warning, if the
new ones among them keep their quotes to themselves. -/
theorem damage_stays_on_line {text : String} (hquotes : QuoteFree text.toList)
    (environment : Keyed String) :
    bindings text = (lines (dropMark text.toList)).flatMap (fun line ↦
      (statementsFrom ⟨1, line⟩).filterMap Statement.binding?) ∧
    (Contents.ofText environment text).complaints.length
      = (lines (dropMark text.toList)).countP isDamaged ∧
    ∀ text' new, Edited (lines (dropMark text.toList)) new (lines (dropMark text'.toList)) →
      QuotesApart new →
      (Contents.ofText environment text').values = (Contents.ofText environment text).values ∧
        ∀ source, (Contents.ofText environment text').warnings source
          = (Contents.ofText environment text).warnings source := by
  have hfree := hquotes.subset (dropMark_suffix text.toList).subset
  have hbindings := bindings_eq_lineBindings hfree
  refine ⟨?_, ?_, fun text' new hedited hnew ↦ ?_⟩
  · rw [hbindings, lineBindings_eq_flatMap fun line hline ↦ unbroken_of_mem_lines hline]
  · rw [Contents.complaints, List.length_map]
    refine (length_malformedLines hfree).trans ?_
    rw [List.length_filterMap_eq_countP]
    rfl
  · have hapart := hedited.quotesApart (quoteFree_iff_lines.mp hfree) hnew
    have hbindings' : bindings text' = lineBindings (lines (dropMark text'.toList)) :=
      filterMap_statementsFrom rfl (fun _ _ ↦ rfl) hapart
    have hresolved : resolvedBindings environment text' = resolvedBindings environment text := by
      rw [resolvedBindings, hbindings', hedited.lineBindings_eq, ← hbindings, ← resolvedBindings]
    refine ⟨?_, fun source ↦ ?_⟩
    · rw [Contents.ofText, hresolved]
      rfl
    · rw [Contents.warnings, Contents.ofText, hresolved]
      rfl

/-- A damaged line goes; a comment with a quote and a damaged line with one come. -/
theorem damage_stays_on_line_edited :
    QuoteFree "A=1\nB 2\nC=3".toList ∧
      Edited (lines (dropMark "A=1\nB 2\nC=3".toList)) ["# it's".toList, "'x".toList]
        (lines (dropMark "# it's\nA=1\nC=3\n'x".toList)) ∧
      QuotesApart ["# it's".toList, "'x".toList] ∧
      (Contents.ofText [] "# it's\nA=1\nC=3\n'x").values
        = (Contents.ofText [] "A=1\nB 2\nC=3").values := by
  have hquotes : QuoteFree "A=1\nB 2\nC=3".toList := ⟨by decide, by decide⟩
  have hlines : lines (dropMark "A=1\nB 2\nC=3".toList)
      = ["A=1".toList, "B 2".toList, "C=3".toList] := by decide
  have hlines' : lines (dropMark "# it's\nA=1\nC=3\n'x".toList)
      = ["# it's".toList, "A=1".toList, "C=3".toList, "'x".toList] := by decide
  have hcomment : IsComment "# it's".toList := by
    rw [IsComment]
    decide
  have hedited : Edited (lines (dropMark "A=1\nB 2\nC=3".toList)) ["# it's".toList, "'x".toList]
      (lines (dropMark "# it's\nA=1\nC=3\n'x".toList)) := by
    rw [hlines, hlines']
    exact .inserted (.comment hcomment) (.kept _ (.deleted (.damaged (by decide))
      (.kept _ (.inserted (.damaged (by decide)) .nil))))
  have hapart : QuotesApart ["# it's".toList, "'x".toList] :=
    List.pairwise_pair.mpr (.inl (.inr hcomment))
  have hstays := (damage_stays_on_line hquotes []).2.2 _ _ hedited hapart
  exact ⟨hquotes, hedited, hapart, hstays.1⟩

/-- A mark is dropped or kept according to whether a blank line stands before it, and two damaged
lines with quotes swallow the line between them. -/
theorem damage_stays_on_line_reaching :
    QuoteFree "\n\ufeffA=1".toList ∧
      lines "\n\ufeffA=1".toList = [] :: lines "\ufeffA=1".toList ∧
      Contents.ofText [] "\n\ufeffA=1" = ⟨[("\ufeffA", "1")], [], []⟩ ∧
      Contents.ofText [] "\ufeffA=1" = ⟨[("A", "1")], [], []⟩ ∧
      isDamaged "A='".toList = true ∧ isDamaged "B='".toList = true ∧
      Contents.ofText [] "C=3" = ⟨[("C", "3")], [], []⟩ ∧
      Contents.ofText [] "A='\nC=3\nB='" = ⟨[("A", "\nC=3\nB=")], [], []⟩ :=
  ⟨⟨by decide, by decide⟩, by decide, by decide +kernel, by decide +kernel, by decide, by decide,
    by decide +kernel, by decide +kernel⟩

end Runbook.EnvFile
