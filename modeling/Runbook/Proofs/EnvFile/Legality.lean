import Runbook.Proofs.EnvFile.Bindings
import Runbook.Proofs.EnvFile.Loading
import Runbook.Proofs.EnvFile.Provenance
import Runbook.Proofs.FileSystem.Reaching
import Runbook.Proofs.Frames

/-!
# When an overlay is a legal environment

The operating system takes an environment as a list of texts `KEY=value`, each ended by NUL. A key
that is empty or holds an equals sign cannot be told from another one, and a NUL character ends its
text too early; a program is not started with such an environment.

Nothing between the reader of an env file and the start of the program looks at the keys and values
again, so an overlay is as legal as its text lets it be. Values are put together from written
values, the environment and one another, and none of this brings in a NUL character
(`EnvFile.nulFree_expandAll`). What is left are NUL characters of the text itself and equals signs
in keys with quotes.
-/

namespace Runbook

open Text

/-! ## Legal environments -/

/-- The operating system can tell the entry from every other one. -/
structure LegalEntry (e : String × String) : Prop where
  /-- The key is not empty. -/
  named : e.1 ≠ ""
  /-- The key ends at the equals sign. -/
  equals : '=' ∉ e.1.toList
  /-- There is no NUL character in the key. -/
  key : '\x00' ∉ e.1.toList
  /-- There is no NUL character in the value. -/
  value : '\x00' ∉ e.2.toList

/-- A program can be started with the environment. -/
def Legal (environment : Keyed String) : Prop := ∀ e ∈ environment, LegalEntry e

theorem Legal.overlay {base top : Keyed String} (hbase : Legal base) (htop : Legal top) :
    Legal (Keyed.overlay base top) :=
  fun e he ↦ (Keyed.mem_overlay he).elim (hbase e) (htop e)

namespace EnvFile

/-! ## References -/

/-- The segment is taken from the characters. -/
def Segment.PartOf (cs : List Char) : Segment → Prop
  | .plain c => c ∈ cs
  | .reference r => ∀ fallback, r.fallback = some fallback → fallback.toList ⊆ cs

theorem Segment.PartOf.mono {cs ds : List Char} {s : Segment} (h : s.PartOf cs) (hsub : cs ⊆ ds) :
    s.PartOf ds := by
  cases s with
  | plain c => exact hsub h
  | reference r => exact fun fallback hfallback ↦ List.Subset.trans (h fallback hfallback) hsub

theorem readReference?_eq_some {cs rest : List Char} {r : Reference}
    (h : readReference? cs = some (r, rest)) :
    (Segment.reference r).PartOf cs ∧ rest ⊆ cs := by
  have hname := List.dropWhile_suffix isNameChar (l := cs)
  rw [readReference?] at h
  split at h
  · next rest' hend =>
    obtain ⟨rfl, rfl⟩ := Prod.mk.inj (Option.some.inj h)
    rw [hend] at hname
    constructor
    · rintro _ ⟨⟩
    · exact List.subset_of_cons_subset hname.subset
  · next tail hend =>
    rw [hend] at hname
    have htail : tail ⊆ cs :=
      List.subset_of_cons_subset (List.subset_of_cons_subset hname.subset)
    split at h
    · next c rest' hclose =>
      obtain ⟨rfl, rfl⟩ := Prod.mk.inj (Option.some.inj h)
      have hfallback := List.dropWhile_suffix isFallbackChar (l := tail)
      rw [hclose] at hfallback
      constructor
      · rintro _ ⟨rfl⟩
        rw [String.toList_ofList]
        exact List.Subset.trans (List.takeWhile_subset _) htail
      · exact List.Subset.trans (List.subset_of_cons_subset hfallback.subset) htail
    · contradiction
  · contradiction

theorem partOf_of_mem_template {cs : List Char} {s : Segment} (h : s ∈ template cs) :
    s.PartOf cs := by
  fun_induction template cs with
  | case1 => contradiction
  | case2 cs r rest hread ih =>
    have hcs : cs ⊆ '$' :: '\x7b' :: cs :=
      List.subset_cons_of_subset _ (List.subset_cons_self _ _)
    obtain ⟨hpart, hrest⟩ := readReference?_eq_some hread
    rcases List.mem_cons.mp h with rfl | h
    · exact hpart.mono hcs
    · exact (ih h).mono (List.Subset.trans hrest hcs)
  | case3 cs hread ih =>
    rcases List.mem_cons.mp h with rfl | h
    · exact List.mem_cons_self
    · exact (ih h).mono (List.subset_cons_self _ _)
  | case4 c cs _ ih =>
    rcases List.mem_cons.mp h with rfl | h
    · exact List.mem_cons_self
    · exact (ih h).mono (List.subset_cons_self _ _)

/-! ## NUL characters in values -/

def NulFree (bs : List (String × Option String)) : Prop :=
  ∀ key value, (key, some value) ∈ bs → '\x00' ∉ value.toList

variable {environment : Keyed String}

theorem nul_notMem_expand (henvironment : Legal environment)
    {earlier : List (String × Option String)} (hearlier : NulFree earlier) {written : String}
    (hwritten : '\x00' ∉ written.toList) :
    '\x00' ∉ (expand environment earlier written).toList := by
  rw [expand, String.toList_ofList, List.mem_flatMap]
  rintro ⟨s, hs, hnul⟩
  have hpart := partOf_of_mem_template hs
  cases s with
  | plain c =>
    obtain rfl := List.mem_singleton.mp hnul
    exact hwritten hpart
  | reference r =>
    rw [Segment.text, Reference.value] at hnul
    rcases hearlier' : earlier.lookup r.name with _ | _ | value
    · rw [hearlier'] at hnul
      dsimp only at hnul
      rcases hinherited : environment.lookup r.name with _ | value
      · -- The fallback stands in the written value.
        rw [hinherited, Option.getD_none] at hnul
        rcases hfallback : r.fallback with _ | fallback
        · rw [hfallback] at hnul
          contradiction
        · rw [hfallback] at hnul
          exact hwritten (hpart fallback hfallback hnul)
      · rw [hinherited] at hnul
        exact (henvironment _ (Keyed.mem_of_lookup hinherited)).value hnul
    · rw [hearlier'] at hnul
      contradiction
    · rw [hearlier'] at hnul
      exact hearlier _ _ (Keyed.mem_of_lookup hearlier') hnul

/-- **Values.** Where neither the environment nor the written values hold a NUL character, no value
holds one. -/
theorem nulFree_expandAll (henvironment : Legal environment)
    {bs earlier : List (String × Option String)} (hearlier : NulFree earlier) (hbs : NulFree bs) :
    NulFree (expandAll environment earlier bs) := by
  induction bs generalizing earlier with
  | nil => exact fun _ _ h ↦ by cases h
  | cons b rest ih =>
    obtain ⟨key, written?⟩ := b
    have hrest : NulFree rest := fun k value h ↦ hbs k value (List.mem_cons_of_mem _ h)
    -- What the binding has come to is the latest of the earlier ones from here on.
    have hnext : ∀ value, written?.map (expand environment earlier) = some value →
        '\x00' ∉ value.toList := by
      intro value hvalue
      obtain ⟨written, rfl, rfl⟩ := Option.map_eq_some_iff.mp hvalue
      exact nul_notMem_expand henvironment hearlier (hbs key written List.mem_cons_self)
    have hgrown : NulFree ((key, written?.map (expand environment earlier)) :: earlier) := by
      intro k value h
      rcases List.mem_cons.mp h with hsame | h
      · exact hnext value (Prod.mk.inj hsame).2.symm
      · exact hearlier k value h
    intro k value h
    rw [expandAll] at h
    rcases List.mem_cons.mp h with hsame | h
    · exact hnext value (Prod.mk.inj hsame).2.symm
    · exact ih hgrown hrest k value h

/-! ## The values of a text -/

theorem mem_expandAll_of_mem_values {text : String} {e : String × String}
    (h : e ∈ (Contents.ofText environment text).values) :
    (e.1, some e.2) ∈ expandAll environment [] (bindings text) := by
  obtain ⟨⟨key, value?⟩, hmem, hvalue⟩ := List.mem_filterMap.mp h
  obtain ⟨value, rfl, rfl⟩ := Option.map_eq_some_iff.mp hvalue
  exact Keyed.mem_ofPairs hmem

theorem exists_mem_bindings_of_mem_values {text : String} {e : String × String}
    (h : e ∈ (Contents.ofText environment text).values) :
    ∃ written?, (e.1, written?) ∈ bindings text := by
  have hkey : e.1 ∈ (expandAll environment [] (bindings text)).map Prod.fst :=
    List.mem_map_of_mem (mem_expandAll_of_mem_values h)
  rw [map_fst_expandAll] at hkey
  obtain ⟨⟨key, written?⟩, hmem, hsame⟩ := List.mem_map.mp hkey
  exact ⟨written?, hsame ▸ hmem⟩

theorem nul_mem_of_mem_values (henvironment : Legal environment) {text : String}
    {e : String × String} (h : e ∈ (Contents.ofText environment text).values)
    (hnul : '\x00' ∈ e.2.toList) : '\x00' ∈ dropMark text.toList := by
  refine Decidable.byContradiction fun htext ↦ ?_
  have hbs : NulFree (bindings text) := fun key written hmem hwritten ↦
    htext ((bindingIn_of_mem_bindings hmem).nul written rfl hwritten)
  have hnone : NulFree [] := fun _ _ h ↦ by cases h
  exact nulFree_expandAll henvironment hnone hbs _ _ (mem_expandAll_of_mem_values h) hnul

end EnvFile

/-- **Legal overlays.** Take a loaded overlay and an inherited environment that is legal. Then every
key is not empty, a key with an equals sign stands in quotes at the start of a line of the env file,
and a NUL character in a key or a value is one of the file.

So if the file has no NUL character, and no equals sign in quotes at the start of a line, then the
overlay and the environment of the program are legal. -/
theorem overlay_legality {name : String} {m n : Machine} {overlay : Overlay}
    (hinherited : Legal m.environment) (hload : Overlay.load name m = .ok overlay n)
    (hloaded : overlay.loaded = true) :
    ∃ p text, m.envPath name = .ok p ∧ m.HoldsText p text ∧
      let cs := EnvFile.dropMark text.toList
      (∀ e ∈ overlay.values, e.1 ≠ "" ∧ ('=' ∈ e.1.toList → EnvFile.QuotedKey cs e.1.toList) ∧
        ('\x00' ∈ e.1.toList → '\x00' ∈ cs) ∧ ('\x00' ∈ e.2.toList → '\x00' ∈ cs)) ∧
      ('\x00' ∉ cs → (∀ key, EnvFile.QuotedKey cs key → '=' ∉ key) →
        Legal overlay.values ∧ Legal (Keyed.overlay m.environment overlay.values)) := by
  rcases henv : m.envOverlay name with escape | ⟨overlay', lines⟩
  · cases (load_of_error henv).symm.trans hload
  · obtain ⟨rfl, -⟩ := EStateM.Result.ok.inj ((load_of_ok henv).symm.trans hload)
    obtain ⟨p, hpath, ⟨text, hholds, rfl⟩ | ⟨-, rfl⟩⟩ := Machine.overlay_of_envOverlay henv
    · have hentries : ∀ e ∈ (EnvFile.Contents.ofText m.environment text).values, e.1 ≠ "" ∧
          ('=' ∈ e.1.toList → EnvFile.QuotedKey (EnvFile.dropMark text.toList) e.1.toList) ∧
          ('\x00' ∈ e.1.toList → '\x00' ∈ EnvFile.dropMark text.toList) ∧
          ('\x00' ∈ e.2.toList → '\x00' ∈ EnvFile.dropMark text.toList) := by
        intro e he
        obtain ⟨written?, hmem⟩ := EnvFile.exists_mem_bindings_of_mem_values he
        have hbound := EnvFile.bindingIn_of_mem_bindings hmem
        exact ⟨hbound.named, hbound.quoted, fun hnul ↦ hbound.key_subset hnul,
          EnvFile.nul_mem_of_mem_values hinherited he⟩
      refine ⟨p, text, hpath, hholds, hentries, fun hnul hquoted ↦ ?_⟩
      have hlegal : Legal (EnvFile.Contents.ofText m.environment text).values := by
        intro e he
        obtain ⟨hnamed, hequals, hkey, hvalue⟩ := hentries e he
        exact ⟨hnamed, fun h ↦ hquoted _ (hequals h) h, fun h ↦ hnul (hkey h),
          fun h ↦ hnul (hvalue h)⟩
      exact ⟨hlegal, hinherited.overlay hlegal⟩
    · contradiction

theorem exists_load_of_statement {m : Machine} (name : String) {p : Path}
    {text key written : String} {line : Nat} (hpath : m.envPath name = .ok p)
    (hholds : m.HoldsText p text) (hne : EnvFile.dropMark text.toList ≠ [])
    (hread : EnvFile.readStatement ⟨1, EnvFile.dropMark text.toList⟩
      = (.binding key (some written), ⟨line, []⟩)) :
    ∃ n, Overlay.load name m
      = .ok ⟨p.toString, [(key, EnvFile.expand m.environment [] written)], true⟩ n := by
  have hbindings : EnvFile.bindings text = [(key, some written)] := by
    rw [EnvFile.bindings, EnvFile.statements, EnvFile.statementsFrom, dif_neg hne, hread,
      EnvFile.statementsFrom, dif_pos rfl]
    rfl
  have hvalues : (EnvFile.Contents.ofText m.environment text).values
      = [(key, EnvFile.expand m.environment [] written)] := by
    rw [EnvFile.Contents.ofText, EnvFile.resolvedBindings, hbindings]
    rfl
  have hload := Machine.envOverlay_of_envPath hpath
  rw [Machine.readEnvText_eq_ok_iff.mpr hholds] at hload
  rw [← hvalues]
  exact ⟨_, load_of_ok hload⟩

/-- The overlay of the text `A=1` is legal: there are no quotes and no NUL characters in it. -/
theorem overlay_legality_plain :
    let m : Machine := { files := ⟨.branch ".env" (some (.file [65, 61, 49] false)) .empty .empty⟩ }
    ∃ n, Overlay.load "/.env" m = .ok ⟨"/.env", [("A", "1")], true⟩ n ∧ Legal [("A", "1")] := by
  intro m
  have hpath : m.envPath "/.env" = .ok ⟨.root, [".env"]⟩ := rfl
  have hdecoded : Text.Utf8.decode [65, 61, 49] = .ok ['A', '=', '1'] := by
    simp +decide [Text.Utf8.decode, Text.Utf8.decodeFrom, Text.Utf8.lead?, Text.Utf8.following]
  have hholds : m.HoldsText ⟨.root, [".env"]⟩ "A=1" :=
    ⟨by decide, rfl, _, false, _,
      FileSystem.nodeAt_of_reaches (.file (by decide) rfl) rfl, hdecoded, rfl⟩
  have hwritten : EnvFile.expand m.environment [] "1" = "1" := by
    simp [EnvFile.expand, EnvFile.template, EnvFile.Segment.text]
  have hread : EnvFile.readStatement ⟨1, EnvFile.dropMark "A=1".toList⟩
      = (.binding "A" (some "1"), ⟨1, []⟩) := rfl
  obtain ⟨n, hload⟩ := exists_load_of_statement "/.env" hpath hholds (by decide) hread
  rw [hwritten] at hload
  obtain ⟨p, text, hpath', hholds', -, hlegal⟩ := overlay_legality (fun _ h ↦ by cases h) hload rfl
  obtain rfl : ⟨.root, [".env"]⟩ = p := Except.ok.inj (hpath.symm.trans hpath')
  obtain rfl := hholds.eq hholds'
  refine ⟨n, hload, (hlegal (by decide) ?_).1⟩
  rintro key ⟨htext, -, -, -⟩
  have hquote : '\'' ∈ EnvFile.dropMark "A=1".toList := by
    rw [htext]
    simp
  exact absurd hquote (by decide)

/-- The text `'a=b'=c` binds a key with an equals sign, and the overlay is not legal. -/
theorem overlay_legality_quoted_equals :
    let m : Machine :=
      { files := ⟨.branch ".env" (some (.file [39, 97, 61, 98, 39, 61, 99] false)) .empty .empty⟩ }
    Legal m.environment ∧
      ∃ n, Overlay.load "/.env" m = .ok ⟨"/.env", [("a=b", "c")], true⟩ n ∧
        ¬Legal [("a=b", "c")] := by
  intro m
  have hpath : m.envPath "/.env" = .ok ⟨.root, [".env"]⟩ := rfl
  have hdecoded : Text.Utf8.decode [39, 97, 61, 98, 39, 61, 99]
      = .ok ['\'', 'a', '=', 'b', '\'', '=', 'c'] := by
    simp +decide [Text.Utf8.decode, Text.Utf8.decodeFrom, Text.Utf8.lead?, Text.Utf8.following]
  have hholds : m.HoldsText ⟨.root, [".env"]⟩ "'a=b'=c" :=
    ⟨by decide, rfl, _, false, _,
      FileSystem.nodeAt_of_reaches (.file (by decide) rfl) rfl, hdecoded, rfl⟩
  have hwritten : EnvFile.expand m.environment [] "c" = "c" := by
    simp [EnvFile.expand, EnvFile.template, EnvFile.Segment.text]
  have hread : EnvFile.readStatement ⟨1, EnvFile.dropMark "'a=b'=c".toList⟩
      = (.binding "a=b" (some "c"), ⟨1, []⟩) := rfl
  obtain ⟨n, hload⟩ := exists_load_of_statement "/.env" hpath hholds (by decide) hread
  rw [hwritten] at hload
  have hlegal : Legal m.environment := fun _ h ↦ by cases h
  refine ⟨hlegal, n, hload, fun h ↦ ?_⟩
  exact (h _ List.mem_cons_self).equals (by decide)

end Runbook
