import Runbook.Proofs.EnvFile.Quoting

/-!
# Env files that are written out

A text that is written to be read by the loader: assignments with their values in single quotes,
and blank lines and comments between them. Each item is read where the one before it ends, with the
blanks in between taken for the start of what follows, so the bindings of the text are those of its
items (`reads_written`).

The one thing that is not read back is a mark at the very start of the text: a first key that starts
with the character loses it.
-/

namespace Runbook.EnvFile

open Text

/-! ## Items -/

/-- Blanks on a line. -/
structure Gap where
  /-- The blanks. -/
  chars : List Char
  /-- None of them ends the line. -/
  blank : ∀ c ∈ chars, isGap c = true

/-- A comment, with the blanks before it. -/
structure Remark where
  /-- The blanks. -/
  gap : Gap
  /-- What stands behind the hash sign. -/
  text : List Char
  /-- It does not end the line. -/
  unbroken : ∀ c ∈ text, isLineEnd c = false

/-- The word before an exported key. -/
structure Export where
  /-- The blanks behind the word. -/
  gap : Gap
  /-- There are some. -/
  apart : gap.chars ≠ []

/-- A key with a value in single quotes. -/
structure Assignment where
  /-- The blanks before it. -/
  indent : Gap
  /-- The word before the key, if it is there. -/
  word : Option Export
  /-- The key. -/
  key : List Char
  /-- It needs no quotes. -/
  plain : PlainKey key
  /-- The value. -/
  value : List Char
  /-- The comment behind it, if there is one. -/
  remark : Option Remark

/-- A line, or the lines over which a value goes. -/
inductive Item where
  /-- Nothing but blanks. -/
  | blank (gap : Gap)
  /-- Nothing but a comment. -/
  | remark (remark : Remark)
  /-- An assignment. -/
  | assignment (assignment : Assignment)

def Remark.chars (remark : Remark) : List Char := remark.gap.chars ++ '#' :: remark.text

def Export.chars (word : Export) : List Char := "export".toList ++ word.gap.chars

/-- An assignment as it is written behind its indentation. -/
def Assignment.chars (a : Assignment) : List Char :=
  ((a.word.map Export.chars).getD [] ++ a.key ++ '=' :: '\'' :: escaped a.value)
    ++ '\'' :: (a.remark.map Remark.chars).getD []

/-- An item as it is written. -/
def Item.chars : Item → List Char
  | blank gap => gap.chars
  | remark r => r.chars
  | assignment a => a.indent.chars ++ a.chars

def Item.pair? : Item → Option (String × String)
  | assignment a => some (String.ofList a.key, String.ofList a.value)
  | _ => none

def written (items : List Item) : List Char := items.flatMap fun item ↦ item.chars ++ ['\n']

def pairs (items : List Item) : List (String × String) := items.filterMap Item.pair?

/-! ## Reading an item -/

theorem Gap.isBlank (gap : Gap) : ∀ c ∈ gap.chars, Text.isBlank c = true :=
  fun c hc ↦ (isGap_iff.mp (gap.blank c hc)).1

theorem Export.chars_append (word : Export) (cs : List Char) :
    word.chars ++ cs = "export".toList ++ (word.gap.chars ++ cs) := List.append_assoc _ _ _

theorem skipExport_word (word : Export) {cs : List Char}
    (hstop : ∀ d, cs.head? = some d → isGap d = false) (n : Nat) :
    ∃ k, skipExport ⟨n, word.chars ++ cs⟩ = ⟨k, cs⟩ := by
  have hword : "export".toList.isPrefixOf ("export".toList ++ (word.gap.chars ++ cs)) = true :=
    List.isPrefixOf_iff_prefix.mpr (List.prefix_append _ _)
  have hpast : (⟨n, "export".toList ++ (word.gap.chars ++ cs)⟩ : Cursor).advance 6
      = ⟨n + countBreaks "export".toList, word.gap.chars ++ cs⟩ :=
    Cursor.advance_append "export".toList _ n
  have hshorter : cs.length < (word.gap.chars ++ cs).length := by
    have hpos := List.length_pos_iff.mpr word.apart
    rw [List.length_append]
    omega
  refine ⟨n + countBreaks "export".toList + countBreaks word.gap.chars, ?_⟩
  rw [word.chars_append, skipExport, if_pos hword]
  dsimp only
  rw [hpast, Cursor.skip_append word.gap.blank hstop, if_pos hshorter]

theorem Assignment.readBinding_chars (a : Assignment) (rest : List Char) (n : Nat) :
    ∃ k, readBinding ⟨n, a.chars ++ '\n' :: rest⟩
      = .ok (.binding (String.ofList a.key) (some (String.ofList a.value)), ⟨k, rest⟩) := by
  have hbreak : AtBreak ('\n' :: rest) := by
    rintro _ _ ⟨⟩
    decide
  have hend : EndsLine ((a.remark.map Remark.chars).getD [] ++ '\n' :: rest) rest := by
    cases a.remark with
    | none => exact endsLine_of_atBreak hbreak
    | some remark =>
      have hremark := endsLine_comment remark.gap.blank remark.unbroken hbreak
      rwa [← List.cons_append, ← List.append_assoc] at hremark
  have hread := readBinding_quoted a.plain a.value hend
  generalize hline : a.key ++ '=' :: '\'' :: (escaped a.value ++ '\''
    :: ((a.remark.map Remark.chars).getD [] ++ '\n' :: rest)) = line at hread
  have hchars : a.chars ++ '\n' :: rest = (a.word.map Export.chars).getD [] ++ line := by
    rw [← hline]
    simp [Assignment.chars]
  rw [hchars]
  cases a.word with
  | none => exact hread n
  | some word =>
    -- Behind the word, the reader stands where it would have started without it.
    have hstop : ∀ d, line.head? = some d → isGap d = false := by
      intro d hd
      obtain ⟨b, hhead, hb, -⟩ := a.plain.head?_append
        ('=' :: '\'' :: (escaped a.value ++ '\''
          :: ((a.remark.map Remark.chars).getD [] ++ '\n' :: rest)))
      rw [hline] at hhead
      obtain rfl := Option.some.inj (hhead.symm.trans hd)
      rw [isGap, a.plain.blank _ hb]
      rfl
    obtain ⟨m, hword⟩ := skipExport_word word hstop n
    obtain ⟨k, hread⟩ := hread m
    have hskip : skipExport ⟨m, line⟩ = ⟨m, line⟩ := by
      rw [← hline]
      exact a.plain.skipExport_eq m _
    refine ⟨k, ?_⟩
    rw [← hread, readBinding, readBinding, Option.map_some, Option.getD_some, hword, hskip]

theorem Remark.readBinding_chars (remark : Remark) (rest : List Char) (n : Nat) :
    ∃ k, readBinding ⟨n, '#' :: (remark.text ++ '\n' :: rest)⟩ = .ok (.nothing, ⟨k, rest⟩) := by
  have htext : ∀ c ∈ remark.text, (!isLineEnd c) = true := fun c hc ↦ by
    simp [remark.unbroken c hc]
  have hstop : ∀ d, ('\n' :: rest).head? = some d → (!isLineEnd d) = false := by
    rintro _ ⟨⟩
    decide
  obtain ⟨k, hread⟩ := readBinding_comment n (remark.text ++ '\n' :: rest)
  refine ⟨k, ?_⟩
  rw [hread, (span_append htext hstop).2]
  rfl

theorem Assignment.head?_chars (a : Assignment) (tail : List Char) :
    ∃ b, (a.chars ++ tail).head? = some b ∧ Text.isBlank b = false := by
  rw [Assignment.chars]
  cases a.word with
  | none =>
    obtain ⟨b, cs, hkey⟩ := List.exists_cons_of_ne_nil a.plain.named
    exact ⟨b, by simp [hkey], a.plain.blank b (hkey ▸ List.mem_cons_self)⟩
  | some word => exact ⟨'e', by simp [Export.chars_append], by decide⟩

/-! ## Reading the text -/

theorem Reads.of_blanks {blanks : List Char} (hblanks : ∀ c ∈ blanks, Text.isBlank c = true)
    (n : Nat) : Reads ⟨n, blanks⟩ [] := by
  by_cases hnil : blanks = []
  · exact .of_nil hnil
  · have hskip : ((⟨n, blanks⟩ : Cursor).skip Text.isBlank).rest = [] :=
      List.dropWhile_eq_nil_iff.mpr hblanks
    exact .of_nothing hnil (by rw [readStatement, if_pos hskip]) (.of_nil hskip)

theorem written_cons (item : Item) (items : List Item) :
    written (item :: items) = item.chars ++ '\n' :: written items := by
  rw [written, List.flatMap_cons, List.append_assoc]
  rfl

/-- **One item after the other.** The text says what its items say, with blanks before it or
without. -/
theorem reads_written (items : List Item) {blanks : List Char}
    (hblanks : ∀ c ∈ blanks, Text.isBlank c = true) (n : Nat) :
    Reads ⟨n, blanks ++ written items⟩ ((pairs items).map fun p ↦ (p.1, some p.2)) := by
  induction items generalizing blanks n with
  | nil =>
    rw [written, List.flatMap_nil, List.append_nil]
    exact .of_blanks hblanks n
  | cons item items ih =>
    have hmore : ∀ gap : Gap, ∀ c ∈ blanks ++ gap.chars, Text.isBlank c = true :=
      fun gap ↦ List.forall_mem_append.mpr ⟨hblanks, gap.isBlank⟩
    rw [written_cons]
    cases item with
    | blank gap =>
      -- The blanks of the line go with those that are there already.
      have hline : ∀ c ∈ (blanks ++ gap.chars) ++ ['\n'], Text.isBlank c = true := by
        refine List.forall_mem_append.mpr ⟨hmore gap, fun c hc ↦ ?_⟩
        obtain rfl := List.mem_singleton.mp hc
        decide
      rw [Item.chars, ← List.append_assoc, List.append_cons]
      exact ih hline n
    | remark r =>
      obtain ⟨k, hread⟩ := readStatement_of_readBinding (hmore r.gap) ⟨'#', rfl, by decide⟩
        (r.readBinding_chars (written items)) n
      rw [Item.chars, Remark.chars, List.append_assoc, List.cons_append, ← List.append_assoc]
      exact .of_nothing (by simp) hread (ih (List.forall_mem_nil _) k)
    | assignment a =>
      obtain ⟨k, hread⟩ := readStatement_of_readBinding (hmore a.indent) (a.head?_chars _)
        (a.readBinding_chars (written items)) n
      rw [Item.chars, List.append_assoc, ← List.append_assoc]
      exact .of_binding (by simp) hread (ih (List.forall_mem_nil _) k)

theorem contents_of_bindings {text : String} {ps : List (String × String)}
    (hbindings : bindings text = ps.map fun p ↦ (p.1, some p.2))
    (hmalformed : malformedLines text = []) (hkeys : (ps.map Prod.fst).Nodup)
    (hvalues : ∀ p ∈ ps, Referenceless p.2.toList) (environment : Keyed String) :
    Contents.ofText environment text = ⟨ps, [], []⟩ := by
  have hexpand : expandAll environment [] (bindings text) = bindings text := by
    refine expandAll_of_referenceless (fun key value hmem ↦ ?_) []
    rw [hbindings] at hmem
    obtain ⟨p, hp, hpair⟩ := List.mem_map.mp hmem
    obtain ⟨rfl, hvalue⟩ := Prod.mk.inj hpair
    rw [← Option.some.inj hvalue]
    exact hvalues p hp
  have hresolved : resolvedBindings environment text = ps.map fun p ↦ (p.1, some p.2) := by
    rw [resolvedBindings, hexpand, hbindings]
    refine Keyed.ofPairs_of_nodup ?_
    rwa [List.map_map]
  have hvalued : (ps.map fun p ↦ (p.1, some p.2)).filterMap (fun e ↦ e.2.map (e.1, ·)) = ps := by
    rw [List.filterMap_map]
    exact List.filterMap_some
  have hbare : (ps.map fun p ↦ (p.1, some p.2)).filterMap
      (fun e ↦ if e.2.isNone then some e.1 else none) = [] := by
    refine List.filterMap_eq_nil_iff.mpr fun e he ↦ ?_
    obtain ⟨p, -, rfl⟩ := List.mem_map.mp he
    rfl
  rw [Contents.ofText, hresolved, hmalformed, hvalued, hbare]

/-- **Writing and reading.** A text that is written out is read as the pairs that were written, in
their order and without damage, if their keys are different and their values refer to nothing. The
text may stand behind a mark, and if it does not, it must not start with one. -/
theorem contents_written {items : List Item} (hkeys : ((pairs items).map Prod.fst).Nodup)
    (hvalues : ∀ p ∈ pairs items, ¬['$', '\x7b'] <:+: p.2.toList) (environment : Keyed String) :
    ((written items).head? ≠ some '\ufeff' →
      Contents.ofText environment (String.ofList (written items)) = ⟨pairs items, [], []⟩) ∧
    Contents.ofText environment (String.ofList ('\ufeff' :: written items))
      = ⟨pairs items, [], []⟩ := by
  have hread : ∀ cs, dropMark cs = written items →
      Contents.ofText environment (String.ofList cs) = ⟨pairs items, [], []⟩ := by
    intro cs hcs
    have hreads := reads_written items (List.forall_mem_nil _) 1
    rw [List.nil_append, ← hcs] at hreads
    obtain ⟨hbindings, hmalformed⟩ := hreads.of_text
    exact contents_of_bindings hbindings hmalformed hkeys
      (fun p hp ↦ referenceless_of_unopened (hvalues p hp)) environment
  exact ⟨fun hmark ↦ hread _ (dropMark_of_head? hmark), hread _ rfl⟩

/-- A comment, an empty line, an exported key with a value over two lines, and an indented one. -/
theorem contents_written_settings : ∃ items : List Item,
    String.ofList (written items)
        = "# settings\n\nexport K='it\\'s\n# \\\\1' # two lines\n\tL=''\n" ∧
      ((pairs items).map Prod.fst).Nodup ∧
      (∀ p ∈ pairs items, ¬['$', '\x7b'] <:+: p.2.toList) ∧
      (written items).head? ≠ some '\ufeff' ∧
      pairs items = [("K", "it's\n# \\1"), ("L", "")] ∧
      ∀ environment, Contents.ofText environment (String.ofList (written items))
        = ⟨pairs items, [], []⟩ := by
  let noGap : Gap := ⟨[], List.forall_mem_nil _⟩
  let space : Gap := ⟨[' '], List.forall_mem_singleton.mpr rfl⟩
  let items : List Item :=
    [.remark ⟨noGap, " settings".toList, by simp [isLineEnd]⟩,
      .blank noGap,
      .assignment ⟨noGap, some ⟨space, List.cons_ne_nil _ _⟩, ['K'],
        ⟨by decide, by decide, by decide, List.forall_mem_singleton.mpr rfl, by decide⟩,
        "it's\n# \\1".toList, some ⟨space, " two lines".toList, by simp [isLineEnd]⟩⟩,
      .assignment ⟨⟨['\t'], List.forall_mem_singleton.mpr rfl⟩, none, ['L'],
        ⟨by decide, by decide, by decide, List.forall_mem_singleton.mpr rfl, by decide⟩, [], none⟩]
  have hmark : (written items).head? ≠ some '\ufeff' := by decide +kernel
  have hkeys : ((pairs items).map Prod.fst).Nodup := by decide +kernel
  have hdollar : ∀ p ∈ pairs items, '$' ∉ p.2.toList := by decide +kernel
  have hvalues : ∀ p ∈ pairs items, ¬['$', '\x7b'] <:+: p.2.toList :=
    fun p hp h ↦ hdollar p hp (h.subset List.mem_cons_self)
  exact ⟨items, by decide +kernel, hkeys, hvalues, hmark, by decide +kernel,
    fun environment ↦ (contents_written hkeys hvalues environment).1 hmark⟩

/-- A first key that starts with a mark loses it. -/
theorem contents_written_mark : ∃ items : List Item,
    String.ofList (written items) = "\ufeffA='x'\n" ∧ ((pairs items).map Prod.fst).Nodup ∧
      (∀ p ∈ pairs items, ¬['$', '\x7b'] <:+: p.2.toList) ∧ pairs items = [("\ufeffA", "x")] ∧
      Contents.ofText [] (String.ofList (written items)) = ⟨[("A", "x")], [], []⟩ := by
  let items : List Item :=
    [.assignment ⟨⟨[], List.forall_mem_nil _⟩, none, ['\ufeff', 'A'],
      ⟨by decide, by decide, by decide,
        List.forall_mem_cons.mpr ⟨rfl, List.forall_mem_singleton.mpr rfl⟩, by decide⟩, ['x'], none⟩]
  have hdollar : ∀ p ∈ pairs items, '$' ∉ p.2.toList := by decide +kernel
  exact ⟨items, by decide +kernel, by decide +kernel,
    fun p hp h ↦ hdollar p hp (h.subset List.mem_cons_self), by decide +kernel, by decide +kernel⟩

end Runbook.EnvFile
