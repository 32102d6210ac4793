import Mathlib.Data.List.Basic
import Runbook.Proofs.EnvFile.Accounting
import Runbook.Proofs.EnvFile.Lines

/-!
# What a line with nothing but a key does

A line of an env file that holds a key and no equals sign is meant to be skipped, with a complaint.
It is not: it binds the key to no value, and that binding takes the place of an earlier value of the
key, and hides the earlier value, the environment and the fallback from the references behind it.

`BareLineDeleted` compares a text with the text without the line. The line is skipped if and only if
it does not stand between an earlier value of its key and the end of the file, and no reference that
it reaches would have found anything but the empty text (`BlankReferences`).
-/

namespace Runbook.EnvFile

open Text

variable (environment : Keyed String)

/-! ## References that a bare binding reaches -/

variable {environment} in
theorem expand_congr {earlier earlier' : List (String × Option String)}
    (h : ∀ k, earlier.lookup k = earlier'.lookup k) (written : String) :
    expand environment earlier written = expand environment earlier' written := by
  have htext : Segment.text environment earlier = Segment.text environment earlier' := by
    funext s
    cases s with
    | plain c => rfl
    | reference r => rw [Segment.text, Segment.text, Reference.value, Reference.value, h]
  rw [expand, expand, htext]

theorem expandAll_congr {earlier earlier' : List (String × Option String)}
    (h : ∀ k, earlier.lookup k = earlier'.lookup k) (bs : List (String × Option String)) :
    expandAll environment earlier bs = expandAll environment earlier' bs := by
  induction bs generalizing earlier earlier' with
  | nil => rfl
  | cons b rest ih =>
    obtain ⟨key, written?⟩ := b
    have hvalue : written?.map (expand environment earlier)
        = written?.map (expand environment earlier') := by
      cases written? with
      | none => rfl
      | some written => exact congrArg some (expand_congr h written)
    have hnext : ∀ k, List.lookup k ((key, written?.map (expand environment earlier)) :: earlier)
        = List.lookup k ((key, written?.map (expand environment earlier')) :: earlier') := by
      intro k
      rw [List.lookup_cons, List.lookup_cons, h, hvalue]
    rw [expandAll, expandAll, ih hnext, hvalue]

section Parts

variable {α β : Type} {f g : α → List β} {l : List α}

theorem length_flatMap_le (h : ∀ a ∈ l, f a = g a ∨ f a = []) :
    (l.flatMap f).length ≤ (l.flatMap g).length := by
  induction l with
  | nil => exact Nat.le_refl _
  | cons a l ih =>
    have hrest := ih fun b hb ↦ h b (List.mem_cons_of_mem _ hb)
    rw [List.flatMap_cons, List.flatMap_cons, List.length_append, List.length_append]
    rcases h a List.mem_cons_self with ha | ha <;> rw [ha]
    · omega
    · rw [List.length_nil]
      omega

/-- Parts that are the same or left out make up the same whole only if none is left out. -/
theorem flatMap_eq_flatMap_iff (h : ∀ a ∈ l, f a = g a ∨ f a = []) :
    l.flatMap f = l.flatMap g ↔ ∀ a ∈ l, f a = g a := by
  refine ⟨fun heq ↦ ?_, fun hall ↦ List.flatMap_congr hall⟩
  induction l with
  | nil => exact fun a ha ↦ absurd ha List.not_mem_nil
  | cons a l ih =>
    have hl : ∀ b ∈ l, f b = g b ∨ f b = [] := fun b hb ↦ h b (List.mem_cons_of_mem _ hb)
    rw [List.flatMap_cons, List.flatMap_cons] at heq
    have ha : f a = g a := by
      rcases h a List.mem_cons_self with ha | ha
      · exact ha
      · -- What is left out has to be empty, or the whole would be shorter.
        have hrest := length_flatMap_le hl
        rw [ha, List.nil_append] at heq
        rw [heq, List.length_append] at hrest
        rw [ha]
        exact (List.eq_nil_of_length_eq_zero (by omega)).symm
    rw [ha, List.append_cancel_left_eq] at heq
    exact List.forall_mem_cons.mpr ⟨ha, ih hl heq⟩

end Parts

/-- The references to a key in a value stand for the empty text. -/
def BlankIn (earlier : List (String × Option String)) (key written : String) : Prop :=
  ∀ r, .reference r ∈ template written.toList → r.name = key →
    r.value environment earlier = ""

/-- The references to a key stand for the empty text in all bindings up to the next one of the
key. -/
def BlankReferences (earlier : List (String × Option String)) (key : String) :
    List (String × Option String) → Prop
  | [] => True
  | (k, written?) :: rest => (∀ written, written? = some written →
      BlankIn environment earlier key written) ∧ (k ≠ key → BlankReferences earlier key rest)

section Reached

variable {key : String} {between earlier : List (String × Option String)}

/-- A reference to a key that a bare binding hides stands for the empty text, and any other one for
what it stands for without that binding. -/
theorem value_hidden (hbetween : key ∉ between.map Prod.fst) (r : Reference) :
    r.value environment (between ++ (key, none) :: earlier)
      = if r.name = key then "" else r.value environment (between ++ earlier) := by
  split
  · next hname =>
    rw [Reference.value, hname, List.lookup_append, Keyed.lookup_eq_none_iff_notMem.2 hbetween,
      List.lookup_cons_self]
    rfl
  · next hname =>
    rw [Reference.value, Reference.value, List.lookup_append, List.lookup_append, List.lookup_cons,
      beq_false_of_ne hname]

theorem value_append (hbetween : key ∉ between.map Prod.fst) {r : Reference} (hr : r.name = key) :
    r.value environment (between ++ earlier) = r.value environment earlier := by
  rw [Reference.value, Reference.value, hr, List.lookup_append,
    Keyed.lookup_eq_none_iff_notMem.2 hbetween]
  rfl

theorem expand_hidden_eq_iff (hbetween : key ∉ between.map Prod.fst) (written : String) :
    expand environment (between ++ (key, none) :: earlier) written
        = expand environment (between ++ earlier) written ↔
      BlankIn environment earlier key written := by
  have hparts : ∀ s ∈ template written.toList,
      s.text environment (between ++ (key, none) :: earlier)
          = s.text environment (between ++ earlier) ∨
        s.text environment (between ++ (key, none) :: earlier) = [] := by
    rintro (c | r) -
    · exact .inl rfl
    · rw [Segment.text, Segment.text, value_hidden environment hbetween]
      split
      · exact .inr rfl
      · exact .inl rfl
  rw [expand, expand, String.ofList_inj, flatMap_eq_flatMap_iff hparts]
  constructor
  · intro h r hr hname
    have htext := h _ hr
    rw [Segment.text, Segment.text, value_hidden environment hbetween, if_pos hname,
      value_append environment hbetween hname] at htext
    exact (String.toList_inj.mp htext).symm
  · rintro h (c | r) hs
    · rfl
    · rw [Segment.text, Segment.text, value_hidden environment hbetween]
      split
      · next hname => rw [value_append environment hbetween hname, h r hs hname]
      · rfl

/-- **How far a bare binding reaches.** The bindings behind it come to the same without it if and
only if the references that it reaches stand for the empty text. -/
theorem expandAll_hidden_eq_iff (hbetween : key ∉ between.map Prod.fst)
    (bs : List (String × Option String)) :
    expandAll environment (between ++ (key, none) :: earlier) bs
        = expandAll environment (between ++ earlier) bs ↔
      BlankReferences environment earlier key bs := by
  induction bs generalizing between with
  | nil => exact iff_of_true rfl trivial
  | cons b rest ih =>
    obtain ⟨k, written?⟩ := b
    have hvalue : written?.map (expand environment (between ++ (key, none) :: earlier))
          = written?.map (expand environment (between ++ earlier)) ↔
        ∀ written, written? = some written → BlankIn environment earlier key written := by
      cases written? with
      | none => simp
      | some written => simp [expand_hidden_eq_iff environment hbetween]
    have hfront : ∀ v?, k ≠ key → key ∉ ((k, v?) :: between).map Prod.fst := by
      intro v? hk hmem
      rcases List.mem_cons.mp hmem with heq | hmem
      · exact hk heq.symm
      · exact hbetween hmem
    rw [expandAll, expandAll, BlankReferences]
    constructor
    · intro heq
      obtain ⟨hhead, htail⟩ := List.cons.inj heq
      have hv := (Prod.mk.inj hhead).2
      rw [← hv] at htail
      exact ⟨hvalue.mp hv, fun hk ↦ (ih (hfront _ hk)).mp htail⟩
    · rintro ⟨hblank, hrest⟩
      rw [← hvalue.mpr hblank]
      refine congrArg _ ?_
      by_cases hk : k = key
      · -- The key is bound again, so the bare binding is out of sight from here on.
        subst hk
        refine expandAll_congr environment (fun k' ↦ ?_) rest
        rw [List.lookup_cons, List.lookup_cons, List.lookup_append, List.lookup_append,
          List.lookup_cons]
        cases k' == k <;> rfl
      · exact (ih (hfront _ hk)).mpr (hrest hk)

end Reached

/-! ## Which keys are bare -/

theorem mapValues_isNone_expandAll (earlier bs : List (String × Option String)) :
    Keyed.mapValues Option.isNone (expandAll environment earlier bs)
      = Keyed.mapValues Option.isNone bs := by
  induction bs generalizing earlier with
  | nil => rfl
  | cons b rest ih =>
    obtain ⟨key, written?⟩ := b
    rw [expandAll, Keyed.mapValues, Keyed.mapValues, List.map_cons, List.map_cons,
      Option.isNone_map]
    exact congrArg _ (ih _)

theorem isNone_lookup_reverse_expandAll (bs : List (String × Option String)) (key : String) :
    ((expandAll environment [] bs).reverse.lookup key).map Option.isNone
      = (bs.reverse.lookup key).map Option.isNone := by
  have hreverse : ∀ l : List (String × Option String),
      Keyed.mapValues Option.isNone l.reverse = (Keyed.mapValues Option.isNone l).reverse :=
    fun l ↦ List.map_reverse
  rw [← Keyed.lookup_mapValues, ← Keyed.lookup_mapValues, hreverse, hreverse,
    mapValues_isNone_expandAll]

theorem bareKeys_eq_filter_mapValues (text : String) :
    (Contents.ofText environment text).bareKeys
      = ((Keyed.ofPairs (Keyed.mapValues Option.isNone (bindings text))).filter (·.2)).map
          Prod.fst := by
  have hview : Keyed.mapValues Option.isNone (resolvedBindings environment text)
      = Keyed.ofPairs (Keyed.mapValues Option.isNone (bindings text)) := by
    rw [← mapValues_isNone_expandAll environment [] (bindings text)]
    exact Keyed.mapValues_overlay Option.isNone ([] : Keyed (Option String)) _
  rw [bareKeys_eq, ← hview, Keyed.mapValues, List.filter_map, List.map_map]
  rfl

theorem mem_bareKeys_iff_lookup {text key : String} :
    key ∈ (Contents.ofText environment text).bareKeys ↔
      (bindings text).reverse.lookup key = some none := by
  have hbare : ∀ v? : Option (Option String),
      v? = some none ↔ v?.map Option.isNone = some true := by
    rintro (_ | _ | _) <;> simp
  rw [mem_bareKeys, mem_resolvedBindings, hbare, isNone_lookup_reverse_expandAll, ← hbare]

theorem join_lookup_reverse_expandAll_eq_none_iff {bs : List (String × Option String)}
    {key : String} : ((expandAll environment [] bs).reverse.lookup key).join = none ↔
      ∀ written, bs.reverse.lookup key ≠ some (some written) := by
  have hnone : ∀ v? : Option (Option String),
      v?.join = none ↔ v?.map Option.isNone ≠ some false := by
    rintro (_ | _ | _) <;> simp
  have hvalued : ∀ v? : Option (Option String),
      (∀ written, v? ≠ some (some written)) ↔ v?.map Option.isNone ≠ some false := by
    rintro (_ | _ | _) <;> simp
  rw [hnone, isNone_lookup_reverse_expandAll, hvalued]

theorem mem_keys_values_iff_lookup {text key : String} :
    key ∈ (Contents.ofText environment text).values.map Prod.fst ↔
      ∃ written, (bindings text).reverse.lookup key = some (some written) := by
  rw [← not_iff_not, ← Keyed.lookup_eq_none_iff_notMem, lookup_values,
    join_lookup_reverse_expandAll_eq_none_iff, not_exists]

/-! ## Without the line -/

/-- What becomes of a text if a line is deleted from it that binds a key to no value, behind lines
with the bindings `before`, and before lines with the bindings `after`. -/
structure BareLineDeleted (text text' key : String) (before after : List (String × Option String)) :
    Prop where
  /-- The text binds the key between the other bindings. -/
  bindings_eq : bindings text = before ++ (key, none) :: after
  /-- Without the line, the other bindings are there. -/
  bindings_eq' : bindings text' = before ++ after
  /-- There are as many complaints about damage. -/
  complaints : (Contents.ofText environment text').malformed.length
    = (Contents.ofText environment text).malformed.length
  /-- There are the same warnings about the other keys. -/
  other_warnings : (Contents.ofText environment text').bareKeys.filter (fun k ↦ k ≠ key)
    = (Contents.ofText environment text).bareKeys.filter (fun k ↦ k ≠ key)
  /-- There is no new warning about the key. -/
  own_warning : key ∈ (Contents.ofText environment text').bareKeys →
    key ∈ (Contents.ofText environment text).bareKeys
  /-- The line drops a value of its key if and only if it stands behind the binding that gives the
  key its value, and no line behind it binds the key. -/
  drops_iff : (key ∉ (Contents.ofText environment text).values.map Prod.fst ∧
      key ∈ (Contents.ofText environment text').values.map Prod.fst) ↔
    key ∉ after.map Prod.fst ∧ ∃ written, before.reverse.lookup key = some (some written)
  /-- The line leaves what later lines come to as it is if and only if the references that it
  reaches stand for the empty text without it. -/
  keeps_iff : (expandAll environment [] (bindings text)).drop (before.length + 1)
      = (expandAll environment [] (bindings text')).drop before.length ↔
    BlankReferences environment (expandAll environment [] before).reverse key after
  /-- If it does neither, the values are the same without it. -/
  same_values : BlankReferences environment (expandAll environment [] before).reverse key after →
    (key ∈ after.map Prod.fst ∨ ∀ written, before.reverse.lookup key ≠ some (some written)) →
      ∀ k, (Contents.ofText environment text').values.lookup k
        = (Contents.ofText environment text).values.lookup k
  /-- And those of the other keys are in the same order. -/
  same_order : BlankReferences environment (expandAll environment [] before).reverse key after →
    (Contents.ofText environment text').values.filter (fun e ↦ e.1 ≠ key)
      = (Contents.ofText environment text).values.filter (fun e ↦ e.1 ≠ key)

section Deleted

variable {text text' key : String} {before after : List (String × Option String)}

theorem filter_ne_append_cons {α : Type} (before after : List (String × α)) (key : String) (v : α) :
    (before ++ (key, v) :: after).filter (fun e ↦ e.1 ≠ key)
      = (before ++ after).filter fun e ↦ e.1 ≠ key := by
  simp [List.filter_append]

theorem filter_bareKeys (text key : String) :
    (Contents.ofText environment text).bareKeys.filter (fun k ↦ k ≠ key)
      = ((Keyed.ofPairs ((Keyed.mapValues Option.isNone (bindings text)).filter
          fun e ↦ e.1 ≠ key)).filter (·.2)).map Prod.fst := by
  rw [bareKeys_eq_filter_mapValues, List.filter_map, List.filter_filter,
    ← Keyed.filter_ofPairs (fun k ↦ k ≠ key), List.filter_filter]
  congr 2
  funext e
  exact Bool.and_comm _ _

theorem filter_values (text key : String) :
    (Contents.ofText environment text).values.filter (fun e ↦ e.1 ≠ key)
      = (Keyed.ofPairs ((expandAll environment [] (bindings text)).filter
          fun e ↦ e.1 ≠ key)).filterMap fun e ↦ e.2.map (e.1, ·) := by
  rw [← Keyed.filter_ofPairs (fun k ↦ k ≠ key), List.filterMap_filter]
  refine List.filter_filterMap.trans ?_
  refine List.filterMap_congr fun e _ ↦ ?_
  cases e.2 <;> simp [Option.filter]

theorem expandAll_nil_append (before after : List (String × Option String)) :
    expandAll environment [] (before ++ after) = expandAll environment [] before
      ++ expandAll environment (expandAll environment [] before).reverse after := by
  rw [expandAll_append, List.append_nil]

/-- A bare binding that reaches no reference and drops no value does not show in any value. -/
theorem lookup_values_without (h : bindings text = before ++ (key, none) :: after)
    (h' : bindings text' = before ++ after)
    (hreach : expandAll environment ((key, none) :: (expandAll environment [] before).reverse) after
      = expandAll environment (expandAll environment [] before).reverse after)
    (hkept : key ∈ after.map Prod.fst ∨ ∀ written, before.reverse.lookup key ≠ some (some written))
    (k : String) : (Contents.ofText environment text').values.lookup k
      = (Contents.ofText environment text).values.lookup k := by
  rw [lookup_values, lookup_values, h, h', expandAll_nil_append, expandAll_nil_append, expandAll,
    Option.map_none, hreach, List.reverse_append, List.reverse_append, List.reverse_cons,
    List.append_assoc, List.lookup_append, List.lookup_append, List.singleton_append,
    List.lookup_cons]
  cases hk : k == key with
  | false => rfl
  | true =>
    obtain rfl := eq_of_beq hk
    cases hlater : (expandAll environment (expandAll environment [] before).reverse
        after).reverse.lookup k with
    | some v? => rfl
    | none =>
      -- Nothing behind the line binds the key, so what is before it must not have a value.
      rw [Keyed.lookup_eq_none_iff_notMem, List.map_reverse, List.mem_reverse,
        map_fst_expandAll] at hlater
      exact (join_lookup_reverse_expandAll_eq_none_iff environment).mpr
        (hkept.resolve_left hlater)

theorem bareLineDeleted_of_bindings
    (hcomplaints : (malformedLines text').length = (malformedLines text).length)
    (h : bindings text = before ++ (key, none) :: after) (h' : bindings text' = before ++ after) :
    BareLineDeleted environment text text' key before after := by
  have hafter : after.reverse.lookup key = none ↔ key ∉ after.map Prod.fst := by
    rw [Keyed.lookup_eq_none_iff_notMem, List.map_reverse, List.mem_reverse]
  have hreach :
      expandAll environment ((key, none) :: (expandAll environment [] before).reverse) after
          = expandAll environment (expandAll environment [] before).reverse after ↔
      BlankReferences environment (expandAll environment [] before).reverse key after :=
    @expandAll_hidden_eq_iff environment key [] _ List.not_mem_nil after
  constructor
  case bindings_eq => exact h
  case bindings_eq' => exact h'
  case complaints => exact hcomplaints
  case other_warnings =>
    have hview : ∀ bs bs' : List (String × Option String),
        Keyed.mapValues Option.isNone (bs ++ bs')
          = Keyed.mapValues Option.isNone bs ++ Keyed.mapValues Option.isNone bs' :=
      fun bs bs' ↦ List.map_append
    rw [filter_bareKeys, filter_bareKeys, h, h', hview, hview, ← filter_ne_append_cons]
    rfl
  case own_warning =>
    rw [mem_bareKeys_iff_lookup, mem_bareKeys_iff_lookup, h, h',
      Keyed.lookup_reverse_append_cons, List.reverse_append, List.lookup_append]
    cases after.reverse.lookup key <;> simp
  case drops_iff =>
    rw [mem_keys_values_iff_lookup, mem_keys_values_iff_lookup, h, h',
      Keyed.lookup_reverse_append_cons, List.reverse_append, List.lookup_append, ← hafter]
    cases after.reverse.lookup key <;> simp
  case keeps_iff =>
    rw [← hreach, h, h', expandAll_nil_append, expandAll_nil_append, expandAll,
      ← length_expandAll environment [] before, ← List.drop_drop, List.drop_left, List.drop_left]
    rfl
  case same_values =>
    exact fun hblank hkept ↦ lookup_values_without environment h h' (hreach.mpr hblank) hkept
  case same_order =>
    intro hblank
    rw [filter_values, filter_values, h, h', expandAll_nil_append, expandAll_nil_append, expandAll,
      Option.map_none, filter_ne_append_cons, hreach.mpr hblank]

end Deleted

theorem lineBindings_append (xs ys : List (List Char)) :
    lineBindings (xs ++ ys) = lineBindings xs ++ lineBindings ys := List.filterMap_append

/-- **A line with nothing but a key.** What becomes of a text without quotes if one such line is
deleted from it. -/
theorem bare_line_deleted {text text' key : String} {before after : List (List Char)}
    {line : List Char} (hquotes : QuoteFree text.toList)
    (hlines : lines (dropMark text.toList) = before ++ line :: after)
    (hlines' : lines (dropMark text'.toList) = before ++ after)
    (hbare : lineStatement line = .binding key none) :
    BareLineDeleted environment text text' key (lineBindings before) (lineBindings after) := by
  have hfree := hquotes.subset (dropMark_suffix text.toList).subset
  have hfree' : QuoteFree (dropMark text'.toList) := by
    rw [quoteFree_iff_lines] at hfree ⊢
    rw [hlines] at hfree
    rw [hlines']
    exact fun l hl ↦ hfree l ((List.sublist_cons_self line after).append_left before |>.subset hl)
  have hcons : lineBindings (line :: after) = (key, none) :: lineBindings after := by
    rw [lineBindings, List.filterMap_cons, hbare]
    rfl
  refine bareLineDeleted_of_bindings environment ?_ ?_ ?_
  · rw [length_malformedLines hfree, length_malformedLines hfree', hlines, hlines',
      List.filterMap_append, List.filterMap_append, List.filterMap_cons, hbare]
    rfl
  · rw [bindings_eq_lineBindings hfree, hlines, lineBindings_append, hcons]
  · rw [bindings_eq_lineBindings hfree', hlines', lineBindings_append]

/-- A bare line between an assignment to another key and a reference to its own. -/
theorem bare_line_deleted_unbound :
    QuoteFree "A=1\nK\nB=$\x7bK\x7d".toList ∧
      lines (dropMark "A=1\nK\nB=$\x7bK\x7d".toList)
        = ["A=1".toList] ++ "K".toList :: ["B=$\x7bK\x7d".toList] ∧
      lines (dropMark "A=1\nB=$\x7bK\x7d".toList) = ["A=1".toList] ++ ["B=$\x7bK\x7d".toList] ∧
      lineStatement "K".toList = .binding "K" none ∧
      BareLineDeleted [] "A=1\nK\nB=$\x7bK\x7d" "A=1\nB=$\x7bK\x7d" "K"
        (lineBindings ["A=1".toList]) (lineBindings ["B=$\x7bK\x7d".toList]) := by
  have hquotes : QuoteFree "A=1\nK\nB=$\x7bK\x7d".toList := ⟨by decide, by decide⟩
  have hlines : lines (dropMark "A=1\nK\nB=$\x7bK\x7d".toList)
      = ["A=1".toList] ++ "K".toList :: ["B=$\x7bK\x7d".toList] := by decide
  have hlines' : lines (dropMark "A=1\nB=$\x7bK\x7d".toList)
      = ["A=1".toList] ++ ["B=$\x7bK\x7d".toList] := by decide
  have hbare : lineStatement "K".toList = .binding "K" none := by decide
  exact ⟨hquotes, hlines, hlines', hbare, bare_line_deleted [] hquotes hlines hlines' hbare⟩

/-- The second line drops the value that the first one assigns, and hides it from the third one. -/
theorem bare_line_deleted_bound :
    QuoteFree "A=1\nA\nB=$\x7bA\x7d".toList ∧
      lines (dropMark "A=1\nA\nB=$\x7bA\x7d".toList)
        = ["A=1".toList] ++ "A".toList :: ["B=$\x7bA\x7d".toList] ∧
      lines (dropMark "A=1\nB=$\x7bA\x7d".toList) = ["A=1".toList] ++ ["B=$\x7bA\x7d".toList] ∧
      lineStatement "A".toList = .binding "A" none ∧
      (Contents.ofText [] "A=1\nA\nB=$\x7bA\x7d").values = [("B", "")] ∧
      (Contents.ofText [] "A=1\nB=$\x7bA\x7d").values = [("A", "1"), ("B", "1")] :=
  ⟨⟨by decide, by decide⟩, by decide, by decide, by decide, by decide +kernel, by decide +kernel⟩

end Runbook.EnvFile
