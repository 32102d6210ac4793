import Runbook.Proofs.EnvFile.FollowedBy

/-!
# Reading an env file line by line

The reader of env files takes a text character by character: blanks are skipped across lines, and
after damage it goes on in the middle of a text. Only between quotes does a piece that it takes
reach over the end of a line, though. Where no quote on one line can find another one on a later
line, the reader might as well be given the lines one by one (`filterMap_statementsFrom`).
-/

namespace Runbook.Text

/-- Puts a character in front of the first line. -/
def consLine (c : Char) : List (List Char) → List (List Char)
  | [] => [[c]]
  | line :: rest => (c :: line) :: rest

/-- The lines of a text, without the breaks between them. A break at the end of the text does not
open another line. -/
def lines : List Char → List (List Char)
  | [] => []
  | '\r' :: '\n' :: cs => [] :: lines cs
  | c :: cs => if isLineEnd c then [] :: lines cs else consLine c (lines cs)

theorem lines_of_atBreak {b : Char} {cs : List Char} (h : AtBreak (b :: cs)) :
    lines (b :: cs) = [] :: lines (afterBreak (b :: cs)) := by
  have hb := h b cs rfl
  by_cases hpair : ∃ rest, b :: cs = '\r' :: '\n' :: rest
  · obtain ⟨rest, hrest⟩ := hpair
    rw [hrest]
    rfl
  · have hafter : afterBreak (b :: cs) = cs := by
      unfold afterBreak
      split
      · next rest hrest => exact absurd ⟨rest, hrest⟩ hpair
      · rfl
    rw [hafter, lines, if_pos hb]
    rintro rest rfl rfl
    exact hpair ⟨rest, rfl⟩

theorem lines_cons {c : Char} (h : isLineEnd c = false) (cs : List Char) :
    lines (c :: cs) = consLine c (lines cs) := by
  have hc : c ≠ '\r' := by
    rintro rfl
    contradiction
  rw [lines, if_neg (by simp [h])]
  rintro _ rfl
  contradiction

theorem lines_append {line tail : List Char} (hline : ∀ c ∈ line, isLineEnd c = false)
    (htail : AtBreak tail) (hne : line ++ tail ≠ []) :
    lines (line ++ tail) = line :: lines (afterBreak tail) := by
  induction line with
  | nil =>
    obtain ⟨b, cs, rfl⟩ := List.exists_cons_of_ne_nil hne
    exact lines_of_atBreak htail
  | cons c line ih =>
    rw [List.cons_append, lines_cons (hline c List.mem_cons_self)]
    by_cases hrest : line ++ tail = []
    · obtain ⟨rfl, rfl⟩ := List.append_eq_nil_iff.mp hrest
      rfl
    · rw [ih (fun d hd ↦ hline d (List.mem_cons_of_mem _ hd)) hrest]
      rfl

theorem exists_mem_lines_iff {d : Char} (hd : isLineEnd d = false) (cs : List Char) :
    (∃ line ∈ lines cs, d ∈ line) ↔ d ∈ cs := by
  have hbreak : ∀ b, isLineEnd b = true → d ≠ b := by
    rintro b hb rfl
    rw [hb] at hd
    contradiction
  fun_induction lines cs with
  | case1 => simp
  | case2 cs ih => simp [ih, hbreak '\r' (by decide), hbreak '\n' (by decide)]
  | case3 c cs hpair hc ih => simp [ih, hbreak c hc]
  | case4 c cs hpair hc ih =>
    refine Iff.trans ?_ ((or_congr_right ih).trans List.mem_cons.symm)
    cases lines cs <;> simp [consLine, or_assoc]

theorem unbroken_of_mem_lines {cs line : List Char} (h : line ∈ lines cs) :
    ∀ d ∈ line, isLineEnd d = false := by
  fun_induction lines cs generalizing line with
  | case1 => contradiction
  | case2 cs ih =>
    rcases List.mem_cons.mp h with rfl | h
    · exact List.forall_mem_nil _
    · exact ih h
  | case3 c cs hpair hc ih =>
    rcases List.mem_cons.mp h with rfl | h
    · exact List.forall_mem_nil _
    · exact ih h
  | case4 c cs hpair hc ih =>
    have hend : isLineEnd c = false := Bool.eq_false_iff.mpr hc
    cases hlines : lines cs with
    | nil =>
      rw [hlines, consLine, List.mem_singleton] at h
      subst h
      exact List.forall_mem_singleton.mpr hend
    | cons first rest =>
      rw [hlines] at ih h
      rcases List.mem_cons.mp h with rfl | h
      · exact List.forall_mem_cons.mpr ⟨hend, ih List.mem_cons_self⟩
      · exact ih (List.mem_cons_of_mem _ h)

end Runbook.Text

namespace Runbook.EnvFile

open Text

/-! ## One line after the other -/

/-- What a line says that stands alone. -/
def lineStatement (line : List Char) : Statement := (readStatement ⟨1, line⟩).1

theorem lineStatement_nil : lineStatement [] = .nothing := by
  simp [lineStatement, readStatement, Cursor.skip]

theorem lineStatement_cons {b : Char} (hb : isGap b = true) (line : List Char) :
    lineStatement (b :: line) = lineStatement line := by
  obtain ⟨hblank, hfeed, hreturn⟩ := isGap_iff.mp hb
  have hbreaks : ∀ cs, countBreaks (b :: cs) = countBreaks cs := by
    intro cs
    simp [countBreaks, hfeed, hreturn]
  have hskip : (⟨1, b :: line⟩ : Cursor).skip isBlank = (⟨1, line⟩ : Cursor).skip isBlank := by
    rw [Cursor.skip, Cursor.skip, List.takeWhile_cons_of_pos hblank,
      List.dropWhile_cons_of_pos hblank, hbreaks]
  rw [lineStatement, lineStatement, readStatement, readStatement, hskip]

theorem exists_line {b : Char} (hb : isLineEnd b = false) (cs : List Char) :
    ∃ line tail, cs = line ++ tail ∧ (∀ d ∈ b :: line, isLineEnd d = false) ∧ AtBreak tail := by
  refine ⟨cs.takeWhile fun d ↦ !isLineEnd d, cs.dropWhile fun d ↦ !isLineEnd d,
    List.takeWhile_append_dropWhile.symm, fun d hd ↦ ?_, fun d rest hrest ↦ ?_⟩
  · rcases List.mem_cons.mp hd with rfl | hd
    · exact hb
    · simpa using List.all_eq_true.mp List.all_takeWhile d hd
  · simpa using stop_of_dropWhile hrest

theorem lineStatement_of_head {b : Char} (hb : isBlank b = false) (line : List Char) :
    lineStatement (b :: line) = match readBinding ⟨1, b :: line⟩ with
      | .ok (statement, _) => statement
      | .error _ => .malformed 1 := by
  have hskip : (⟨1, b :: line⟩ : Cursor).skip isBlank = ⟨1, b :: line⟩ := by
    rw [Cursor.skip, List.takeWhile_cons_of_neg (by simp [hb]),
      List.dropWhile_cons_of_neg (by simp [hb])]
    rfl
  rw [lineStatement, readStatement, hskip]
  dsimp only
  rw [if_neg (List.cons_ne_nil b line)]
  rcases readBinding ⟨1, b :: line⟩ with stuck | ⟨statement, next⟩ <;> rfl

theorem filterMap_cons_eq_append {α β : Type} (f : α → Option β) (a : α) (l : List α) :
    (a :: l).filterMap f = (f a).toList ++ l.filterMap f := by
  rw [List.filterMap_cons]
  cases f a <;> rfl

/-! ## Quotes on lines -/

theorem quoteFree_iff_lines {cs : List Char} :
    QuoteFree cs ↔ ∀ line ∈ lines cs, QuoteFree line := by
  have hsingle := exists_mem_lines_iff (d := '\'') (by decide) cs
  have hdouble := exists_mem_lines_iff (d := '"') (by decide) cs
  constructor
  · exact fun h line hline ↦
      ⟨fun hq ↦ h.1 (hsingle.mp ⟨line, hline, hq⟩), fun hq ↦ h.2 (hdouble.mp ⟨line, hline, hq⟩)⟩
  · refine fun h ↦ ⟨fun hq ↦ ?_, fun hq ↦ ?_⟩
    · obtain ⟨line, hline, hmem⟩ := hsingle.mpr hq
      exact (h line hline).1 hmem
    · obtain ⟨line, hline, hmem⟩ := hdouble.mpr hq
      exact (h line hline).2 hmem

theorem quoteFree_of_afterBreak {tail : List Char} (htail : AtBreak tail)
    (h : QuoteFree (afterBreak tail)) : QuoteFree tail := by
  have hmem : ∀ q, isLineEnd q = false → q ∈ tail → q ∈ afterBreak tail := by
    intro q hq hmem
    cases tail with
    | nil => contradiction
    | cons b rest =>
      have hlines := lines_of_atBreak htail
      obtain ⟨line, hline, hqline⟩ := (exists_mem_lines_iff hq (b :: rest)).mpr hmem
      rw [hlines] at hline
      rcases List.mem_cons.mp hline with rfl | hline
      · contradiction
      · exact (exists_mem_lines_iff hq _).mp ⟨line, hline, hqline⟩
  exact ⟨fun hq ↦ h.1 (hmem _ (by decide) hq), fun hq ↦ h.2 (hmem _ (by decide) hq)⟩

/-- The first character of a line that is not blank starts a comment. -/
def IsComment (line : List Char) : Prop := (line.dropWhile isBlank).head? = some '#'

/-- No quote of the line is looked at. -/
def Tame (line : List Char) : Prop := QuoteFree line ∨ IsComment line

/-- No quotes come on a line behind one with quotes that are looked at. -/
def QuotesApart (ls : List (List Char)) : Prop :=
  ls.Pairwise fun line later ↦ Tame line ∨ QuoteFree later

theorem quotesApart_of_quoteFree {cs : List Char} (h : QuoteFree cs) : QuotesApart (lines cs) :=
  List.Pairwise.imp_of_mem (fun hline _ _ ↦ .inl (.inl (quoteFree_iff_lines.mp h _ hline)))
    (List.pairwise_of_forall (R := fun _ _ ↦ True) fun _ _ ↦ trivial)

theorem lines_drop_one (tail : List Char) : lines (tail.drop 1) = lines (afterBreak tail) ∨
    lines (tail.drop 1) = [] :: lines (afterBreak tail) := by
  unfold afterBreak
  split
  · next rest => exact .inr rfl
  · exact .inl rfl

theorem QuotesApart.drop_one {tail : List Char} (h : QuotesApart (lines (afterBreak tail))) :
    QuotesApart (lines (tail.drop 1)) := by
  rcases lines_drop_one tail with heq | heq <;> rw [heq]
  · exact h
  · exact List.pairwise_cons.mpr
      ⟨fun _ _ ↦ .inl (.inl ⟨List.not_mem_nil, List.not_mem_nil⟩), h⟩

theorem QuotesApart.of_cons {b : Char} {cs : List Char} (hb : isBlank b = true)
    (h : QuotesApart (lines (b :: cs))) : QuotesApart (lines cs) := by
  cases hend : isLineEnd b with
  | true =>
    rw [lines_of_atBreak (by rintro _ _ ⟨⟩; exact hend)] at h
    have hrest : QuotesApart (lines ((b :: cs).drop 1)) := .drop_one (List.pairwise_cons.mp h).2
    exact hrest
  | false =>
    rw [lines_cons hend] at h
    cases hlines : lines cs with
    | nil => exact .nil
    | cons line rest =>
      rw [hlines, consLine] at h
      obtain ⟨hfirst, hrest⟩ := List.pairwise_cons.mp h
      refine List.pairwise_cons.mpr ⟨fun later hmem ↦ (hfirst later hmem).imp_left ?_, hrest⟩
      rintro (hfree | hcomment)
      · exact .inl (hfree.subset (List.subset_cons_self b line))
      · rw [IsComment, List.dropWhile_cons_of_pos hb] at hcomment
        exact .inr hcomment

theorem QuotesApart.dropWhile {cs : List Char} (h : QuotesApart (lines cs)) :
    QuotesApart (lines (cs.dropWhile isBlank)) := by
  induction cs with
  | nil => exact h
  | cons b cs ih =>
    rw [List.dropWhile_cons]
    split
    · next hb => exact ih (h.of_cons hb)
    · exact h

/-- A statement of a line is the same in the text, if the line is tame or no quotes come behind
it. -/
theorem readBinding_line {b : Char} {line tail : List Char} (hb : isBlank b = false)
    (hline : ∀ d ∈ b :: line, isLineEnd d = false) (htail : AtBreak tail)
    (hquotes : Tame (b :: line) ∨ QuoteFree tail) (n : Nat) :
    ReadAlike n tail (readBinding ⟨1, b :: line⟩) (readBinding ⟨n, b :: (line ++ tail)⟩) := by
  by_cases hcomment : b = '#'
  · -- What a comment holds does not matter.
    subst hcomment
    have hskip : (line ++ tail).dropWhile (fun d ↦ !isLineEnd d) = tail := by
      rw [dropWhile_append_of_atBreak htail (by simp), List.dropWhile_eq_nil_iff.mpr]
      · rfl
      · exact fun d hd ↦ by simp [hline d (List.mem_cons_of_mem _ hd)]
    obtain ⟨k, hread⟩ := readBinding_comment n (line ++ tail)
    obtain ⟨k', hread'⟩ := readBinding_comment 1 line
    rw [hread, hread', hskip]
    exact .ok _ _ k
  · have hfree : QuoteFree (b :: line) ∨ QuoteFree tail := by
      refine hquotes.imp_left fun htame ↦ htame.resolve_right fun hmark ↦ hcomment ?_
      rw [IsComment, List.dropWhile_cons_of_neg (by simp [hb])] at hmark
      exact Option.some.inj hmark
    exact readBinding_followedBy (c := ⟨1, b :: line⟩) htail ⟨hfree, hline⟩

/-! ## The lines of a text -/

section Lines

variable {α : Type} {f : Statement → Option α} (hnothing : f .nothing = none)

include hnothing

theorem filterMap_nil_cons (rest : List (List Char)) :
    ([] :: rest).filterMap (fun line ↦ f (lineStatement line))
      = rest.filterMap fun line ↦ f (lineStatement line) :=
  List.filterMap_cons_none (by rw [lineStatement_nil, hnothing])

/-- If the reader stops within a break, it finds an empty line more. -/
theorem filterMap_lines_drop (tail : List Char) :
    (lines (tail.drop 1)).filterMap (fun line ↦ f (lineStatement line))
      = (lines (afterBreak tail)).filterMap fun line ↦ f (lineStatement line) := by
  rcases lines_drop_one tail with h | h <;> rw [h]
  exact filterMap_nil_cons hnothing _

theorem filterMap_lines_cons {b : Char} (hb : isBlank b = true) (cs : List Char) :
    (lines (b :: cs)).filterMap (fun line ↦ f (lineStatement line))
      = (lines cs).filterMap fun line ↦ f (lineStatement line) := by
  cases hend : isLineEnd b with
  | true =>
    rw [lines_of_atBreak (by rintro _ _ ⟨⟩; exact hend), filterMap_nil_cons hnothing,
      ← filterMap_lines_drop hnothing]
    rfl
  | false =>
    have hgap : isGap b = true := by
      rw [isGap, hb, hend]
      rfl
    rw [lines_cons hend]
    cases lines cs with
    | nil =>
      refine List.filterMap_cons_none ?_
      rw [lineStatement_cons hgap, lineStatement_nil, hnothing]
    | cons line rest =>
      rw [consLine, filterMap_cons_eq_append, filterMap_cons_eq_append, lineStatement_cons hgap]

theorem filterMap_lines_dropWhile (cs : List Char) :
    (lines (cs.dropWhile isBlank)).filterMap (fun line ↦ f (lineStatement line))
      = (lines cs).filterMap fun line ↦ f (lineStatement line) := by
  induction cs with
  | nil => rfl
  | cons b cs ih =>
    rw [List.dropWhile_cons]
    split
    · next hb => rw [ih, filterMap_lines_cons hnothing hb]
    · rfl

/-- One statement takes the lines up to its own. -/
theorem filterMap_lines_readStatement
    (hmalformed : ∀ k k', f (.malformed k) = f (.malformed k')) {c : Cursor}
    (hc : QuotesApart (lines c.rest)) :
    (f (readStatement c).1).toList
        ++ (lines (readStatement c).2.rest).filterMap (fun line ↦ f (lineStatement line))
      = (lines c.rest).filterMap (fun line ↦ f (lineStatement line)) ∧
    QuotesApart (lines (readStatement c).2.rest) := by
  have hapart := hc.dropWhile
  rw [← filterMap_lines_dropWhile hnothing c.rest, readStatement]
  have hdrop : c.rest.dropWhile isBlank = (c.skip isBlank).rest := rfl
  rw [hdrop] at hapart ⊢
  cases hrest : (c.skip isBlank).rest with
  | nil =>
    rw [if_pos rfl, hnothing, hrest]
    exact ⟨rfl, .nil⟩
  | cons b rest =>
    have hb : isBlank b = false := stop_of_dropWhile hrest
    have hend : isLineEnd b = false := Bool.eq_false_iff.mpr fun hend ↦ by
      rw [isBlank_of_isLineEnd hend] at hb
      contradiction
    obtain ⟨line, tail, rfl, hline, htail⟩ := exists_line hend rest
    have hlines := lines_append hline htail (List.cons_ne_nil b _)
    have hstart : c.skip isBlank = ⟨(c.skip isBlank).line, b :: (line ++ tail)⟩ := by rw [← hrest]
    rw [List.cons_append] at hlines
    rw [hrest, hlines] at hapart
    obtain ⟨hfirst, hlater⟩ := List.pairwise_cons.mp hapart
    have hquotes : Tame (b :: line) ∨ QuoteFree tail := by
      refine Classical.or_iff_not_imp_left.mpr fun htame ↦ ?_
      refine quoteFree_of_afterBreak htail (quoteFree_iff_lines.mpr fun later hmem ↦ ?_)
      exact (hfirst later hmem).resolve_left htame
    have halike := readBinding_line hb hline htail hquotes (c.skip isBlank).line
    rw [if_neg (List.cons_ne_nil b _), hlines, filterMap_cons_eq_append, lineStatement_of_head hb]
    rw [← hstart] at halike
    generalize hread : readBinding ⟨1, b :: line⟩ = r at halike ⊢
    generalize readBinding (c.skip isBlank) = r' at halike ⊢
    cases halike with
    | error stuck =>
      have hstuck : ∀ d ∈ stuck.rest, isLineEnd d = false :=
        fun d hd ↦ hline d ((readBinding_error hread).subset hd)
      rw [hmalformed c.line 1]
      dsimp only
      rw [Cursor.rest_skipLine_followedBy htail hstuck, filterMap_lines_drop hnothing]
      exact ⟨rfl, QuotesApart.drop_one hlater⟩
    | ok statement next k => exact ⟨rfl, hlater⟩

/-- **Line by line.** What is asked of the statements of a text can be asked of its lines, if no
quotes reach from one line into another one, and if damage is not asked for the line on which it
stands. -/
theorem filterMap_statementsFrom
    (hmalformed : ∀ k k', f (.malformed k) = f (.malformed k')) {c : Cursor}
    (hc : QuotesApart (lines c.rest)) : (statementsFrom c).filterMap f
      = (lines c.rest).filterMap fun line ↦ f (lineStatement line) := by
  fun_induction statementsFrom c with
  | case1 c hnil =>
    rw [hnil]
    rfl
  | case2 c hne ih =>
    obtain ⟨hfirst, hapart⟩ := filterMap_lines_readStatement hnothing hmalformed hc
    rw [filterMap_cons_eq_append, ih hapart, hfirst]

end Lines

/-! ## The bindings, line by line -/

theorem dropMark_suffix (cs : List Char) : dropMark cs <:+ cs := by
  unfold dropMark
  split
  · exact List.suffix_cons _ _
  · exact List.suffix_refl _

/-- The bindings of lines that are read one by one. -/
def lineBindings (ls : List (List Char)) : List (String × Option String) :=
  ls.filterMap fun line ↦ (lineStatement line).binding?

theorem lineBindings_cons (line : List Char) (ls : List (List Char)) :
    lineBindings (line :: ls) = (lineStatement line).binding?.toList ++ lineBindings ls :=
  filterMap_cons_eq_append _ line ls

theorem bindings_eq_lineBindings {text : String} (h : QuoteFree (dropMark text.toList)) :
    bindings text = lineBindings (lines (dropMark text.toList)) :=
  filterMap_statementsFrom rfl (fun _ _ ↦ rfl) (quotesApart_of_quoteFree h)

theorem length_malformedLines {text : String} (h : QuoteFree (dropMark text.toList)) :
    (malformedLines text).length
      = ((lines (dropMark text.toList)).filterMap fun line ↦
          (lineStatement line).malformed?).length := by
  have hlines := filterMap_statementsFrom (f := fun s ↦ s.malformed?.map fun _ ↦ ()) rfl
    (fun _ _ ↦ rfl) (c := ⟨1, dropMark text.toList⟩) (quotesApart_of_quoteFree h)
  rw [← List.map_filterMap, ← List.map_filterMap] at hlines
  have hlength := congrArg List.length hlines
  rw [List.length_map, List.length_map] at hlength
  exact hlength

end Runbook.EnvFile
