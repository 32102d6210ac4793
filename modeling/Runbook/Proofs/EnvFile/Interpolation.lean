import Runbook.Proofs.EnvFile.Bindings
import Runbook.Proofs.EnvFile.Provenance

/-!
# What references are replaced by

The reader of env files cuts a written value into plain characters and references and fills the
references in afterwards. `Interpolates` says what comes of this in one pass over the text: where a
complete reference starts, it is taken as a whole and what it stands for is put in its place, and
any other character is copied. What has been put in is behind the reader and not looked at again.

`Interpolated` says what this makes of a list of bindings, each of which sees the ones before it as
they have come out. There is exactly one way to fill in all references of a text
(`interpolated_iff`), and it is what the text is read as.
-/

namespace Runbook.EnvFile

open Text

/-! ## Complete references -/

/-- How a complete reference is written. -/
inductive Spelled : Reference → List Char → Prop
  /-- The name in braces. It may be empty. -/
  | named {name : List Char} (hbrace : '\x7d' ∉ name) (hcolon : ':' ∉ name) :
    Spelled ⟨String.ofList name, none⟩ ('$' :: '\x7b' :: (name ++ ['\x7d']))
  /-- The name and what stands there without it. -/
  | withFallback {name fallback : List Char} (hbrace : '\x7d' ∉ name) (hcolon : ':' ∉ name)
    (hfallback : '\x7d' ∉ fallback) :
    Spelled ⟨String.ofList name, some (String.ofList fallback)⟩
      ('$' :: '\x7b' :: (name ++ ':' :: '-' :: (fallback ++ ['\x7d'])))

/-- No complete reference starts the text. -/
def NoneAhead (cs : List Char) : Prop := ∀ r written, Spelled r written → ¬written <+: cs

theorem isNameChar_of_notMem {name : List Char} (hbrace : '\x7d' ∉ name) (hcolon : ':' ∉ name) :
    ∀ c ∈ name, isNameChar c = true := by
  intro c hc
  have hb : c ≠ '\x7d' := by
    rintro rfl
    exact hbrace hc
  have hd : c ≠ ':' := by
    rintro rfl
    exact hcolon hc
  simp [isNameChar, hb, hd]

theorem isFallbackChar_of_notMem {fallback : List Char} (h : '\x7d' ∉ fallback) :
    ∀ c ∈ fallback, isFallbackChar c = true := by
  intro c hc
  have hb : c ≠ '\x7d' := by
    rintro rfl
    exact h hc
  simp [isFallbackChar, hb]

theorem readReference?_eq_some_iff {cs rest : List Char} {r : Reference} :
    readReference? cs = some (r, rest) ↔
      ∃ written, Spelled r written ∧ '$' :: '\x7b' :: cs = written ++ rest := by
  have hbrace : isNameChar '\x7d' = false := by decide
  have hcolon : isNameChar ':' = false := by decide
  have hclose : isFallbackChar '\x7d' = false := by decide
  have hstop : ∀ {p : Char → Bool} {d : Char} (rest : List Char), p d = false →
      ∀ e, (d :: rest).head? = some e → p e = false := by
    rintro p d rest hd _ ⟨⟩
    exact hd
  constructor
  · intro h
    have hcs : cs = cs.takeWhile isNameChar ++ cs.dropWhile isNameChar :=
      List.takeWhile_append_dropWhile.symm
    rw [readReference?] at h
    split at h
    · next hend =>
      obtain ⟨rfl, rfl⟩ := Prod.mk.inj (Option.some.inj h)
      refine ⟨_, .named (notMem_takeWhile hbrace cs) (notMem_takeWhile hcolon cs), ?_⟩
      rw [hend] at hcs
      simpa using hcs
    · next tail hend =>
      split at h
      · next c rest' hrest =>
        obtain ⟨rfl, rfl⟩ := Prod.mk.inj (Option.some.inj h)
        refine ⟨_, .withFallback (notMem_takeWhile hbrace cs) (notMem_takeWhile hcolon cs)
          (notMem_takeWhile hclose tail), ?_⟩
        have htail : tail = tail.takeWhile isFallbackChar ++ tail.dropWhile isFallbackChar :=
          List.takeWhile_append_dropWhile.symm
        -- A run of fallback characters is ended by nothing but the closing brace.
        obtain rfl : c = '\x7d' := by
          simpa [isFallbackChar] using stop_of_dropWhile hrest
        rw [hrest] at htail
        rw [hend, htail] at hcs
        simpa using hcs
      · contradiction
    · contradiction
  · rintro ⟨written, hwritten, hcs⟩
    cases hwritten with
    | @named name hb hc =>
      obtain rfl : cs = name ++ '\x7d' :: rest := by simpa using hcs
      obtain ⟨htake, hdrop⟩ := span_append (isNameChar_of_notMem hb hc) (hstop rest hbrace)
      rw [readReference?, htake, hdrop]
      rfl
    | @withFallback name fallback hb hc hf =>
      obtain rfl : cs = name ++ ':' :: '-' :: (fallback ++ '\x7d' :: rest) := by simpa using hcs
      obtain ⟨htake, hdrop⟩ := span_append (isNameChar_of_notMem hb hc)
        (hstop ('-' :: (fallback ++ '\x7d' :: rest)) hcolon)
      obtain ⟨htake', hdrop'⟩ := span_append (isFallbackChar_of_notMem hf) (hstop rest hclose)
      rw [readReference?, htake, hdrop]
      simp only [htake', hdrop']

theorem Spelled.starts {r : Reference} {written : List Char} (h : Spelled r written) :
    ∃ body, written = '$' :: '\x7b' :: body := by
  cases h with
  | named => exact ⟨_, rfl⟩
  | withFallback => exact ⟨_, rfl⟩

theorem template_of_spelled {r : Reference} {written : List Char} (h : Spelled r written)
    (rest : List Char) : template (written ++ rest) = .reference r :: template rest := by
  obtain ⟨body, rfl⟩ := h.starts
  have hread : readReference? (body ++ rest) = some (r, rest) :=
    readReference?_eq_some_iff.mpr ⟨_, h, rfl⟩
  rw [List.cons_append, List.cons_append, template_dollar, hread]

theorem template_of_noneAhead {c : Char} {cs : List Char} (h : NoneAhead (c :: cs)) :
    template (c :: cs) = .plain c :: template cs := by
  by_cases hopen : ∃ body, c :: cs = '$' :: '\x7b' :: body
  · obtain ⟨body, hbody⟩ := hopen
    obtain ⟨rfl, rfl⟩ := List.cons.inj hbody
    rw [template_dollar]
    split
    · next r rest hread =>
      obtain ⟨written, hwritten, hcs⟩ := readReference?_eq_some_iff.mp hread
      exact absurd ⟨rest, hcs.symm⟩ (h r written hwritten)
    · rfl
  · rw [template]
    rintro rest rfl rfl
    exact hopen ⟨rest, rfl⟩

/-! ## Values -/

/-- What a reference stands for behind the given bindings, the latest of which comes last. -/
inductive StandsFor (environment : Keyed String) (earlier : List (String × Option String))
    (r : Reference) : String → Prop
  /-- The latest of the bindings of the name counts, and one without a value is the empty text. -/
  | bound {before after : List (String × Option String)} {value? : Option String}
    (h : earlier = before ++ (r.name, value?) :: after) (hlatest : r.name ∉ after.map Prod.fst) :
    StandsFor environment earlier r (value?.getD "")
  /-- Without a binding, the environment counts. -/
  | inherited {value : String} (h : r.name ∉ earlier.map Prod.fst)
    (hinherited : environment.lookup r.name = some value) : StandsFor environment earlier r value
  /-- What neither knows is the fallback, or else the empty text. -/
  | unknown (h : r.name ∉ earlier.map Prod.fst) (hunknown : environment.lookup r.name = none) :
    StandsFor environment earlier r (r.fallback.getD "")

variable {environment : Keyed String}

theorem standsFor_iff {earlier : List (String × Option String)} {r : Reference} {value : String} :
    StandsFor environment earlier r value ↔ value = r.value environment earlier.reverse := by
  have hunbound : earlier.reverse.lookup r.name = none ↔ r.name ∉ earlier.map Prod.fst := by
    rw [Keyed.lookup_eq_none_iff_notMem, List.map_reverse, List.mem_reverse]
  constructor
  · intro h
    rw [Reference.value]
    cases h with
    | bound h hlatest => rw [Keyed.lookup_reverse_eq_some_iff.mpr ⟨_, _, h, hlatest⟩]
    | inherited h hinherited => rw [hunbound.mpr h, hinherited, Option.getD_some]
    | unknown h hunknown => rw [hunbound.mpr h, hunknown, Option.getD_none]
  · rintro rfl
    rw [Reference.value]
    cases hlookup : earlier.reverse.lookup r.name with
    | some value? =>
      obtain ⟨before, after, hcut, hlatest⟩ := Keyed.lookup_reverse_eq_some_iff.mp hlookup
      exact .bound hcut hlatest
    | none =>
      dsimp only
      cases hinherited : environment.lookup r.name with
      | some value => exact .inherited (hunbound.mp hlookup) hinherited
      | none => exact .unknown (hunbound.mp hlookup) hinherited

/-- What a written value comes to behind the given bindings, in one pass from left to right. -/
inductive Interpolates (environment : Keyed String) (earlier : List (String × Option String)) :
    List Char → List Char → Prop
  /-- The end of the text. -/
  | nil : Interpolates environment earlier [] []
  /-- A complete reference is taken as a whole. -/
  | reference {r : Reference} {value : String} {written rest out : List Char}
    (hwritten : Spelled r written) (hvalue : StandsFor environment earlier r value)
    (hrest : Interpolates environment earlier rest out) :
    Interpolates environment earlier (written ++ rest) (value.toList ++ out)
  /-- Where no complete reference starts, a character stands for itself. -/
  | plain {c : Char} {rest out : List Char} (hnone : NoneAhead (c :: rest))
    (hrest : Interpolates environment earlier rest out) :
    Interpolates environment earlier (c :: rest) (c :: out)

theorem interpolates_template (earlier : List (String × Option String)) (cs : List Char) :
    Interpolates environment earlier cs
      ((template cs).flatMap (Segment.text environment earlier.reverse)) := by
  induction cs using template.induct with
  | case1 =>
    rw [template]
    exact .nil
  | case2 cs r rest hread ih =>
    obtain ⟨written, hwritten, hcs⟩ := readReference?_eq_some_iff.mp hread
    rw [hcs, template_of_spelled hwritten]
    exact .reference hwritten (standsFor_iff.mpr rfl) ih
  | case3 cs hread ih =>
    have hnone : NoneAhead ('$' :: '\x7b' :: cs) := by
      rintro r written hwritten ⟨rest, hrest⟩
      rw [readReference?_eq_some_iff.mpr ⟨written, hwritten, hrest.symm⟩] at hread
      contradiction
    rw [template_of_noneAhead hnone]
    exact .plain hnone ih
  | case4 c cs hopen ih =>
    have hnone : NoneAhead (c :: cs) := by
      rintro r written hwritten ⟨rest, hrest⟩
      obtain ⟨body, rfl⟩ := hwritten.starts
      obtain ⟨rfl, rfl⟩ := List.cons.inj hrest
      exact hopen _ rfl rfl
    rw [template_of_noneAhead hnone]
    exact .plain hnone ih

theorem interpolates_iff {earlier : List (String × Option String)} {cs out : List Char} :
    Interpolates environment earlier cs out ↔
      out = (template cs).flatMap (Segment.text environment earlier.reverse) := by
  refine ⟨fun h ↦ ?_, fun h ↦ h ▸ interpolates_template earlier cs⟩
  induction h with
  | nil =>
    rw [template]
    rfl
  | reference hwritten hvalue _ ih =>
    rw [template_of_spelled hwritten, List.flatMap_cons, ← ih, standsFor_iff.mp hvalue]
    rfl
  | plain hnone _ ih =>
    rw [template_of_noneAhead hnone, List.flatMap_cons, ← ih]
    rfl

theorem interpolates_iff_expand {earlier : List (String × Option String)}
    {written value : String} :
    Interpolates environment earlier written.toList value.toList ↔
      value = expand environment earlier.reverse written := by
  rw [interpolates_iff, expand, ← String.toList_inj, String.toList_ofList]

theorem interpolates_expand (earlier : List (String × Option String)) (cs : List Char) :
    Interpolates environment earlier cs
      (expand environment earlier.reverse (String.ofList cs)).toList := by
  have hpass : Interpolates environment earlier (String.ofList cs).toList
      (expand environment earlier.reverse (String.ofList cs)).toList :=
    interpolates_iff_expand.mpr rfl
  rwa [String.toList_ofList] at hpass

/-! ## Values without references -/

/-- No complete reference stands anywhere in the text. -/
def Referenceless (cs : List Char) : Prop := ∀ r written, Spelled r written → ¬written <:+: cs

/-- Without a dollar sign before a brace, nothing starts a reference. -/
theorem referenceless_of_unopened {cs : List Char} (h : ¬['$', '\x7b'] <:+: cs) :
    Referenceless cs := by
  rintro r written hwritten hpart
  obtain ⟨body, rfl⟩ := hwritten.starts
  exact h ((List.prefix_append ['$', '\x7b'] body).isInfix.trans hpart)

theorem Referenceless.of_cons {c : Char} {cs : List Char} (h : Referenceless (c :: cs)) :
    NoneAhead (c :: cs) ∧ Referenceless cs :=
  ⟨fun r written hwritten hahead ↦ h r written hwritten hahead.isInfix,
    fun r written hwritten hpart ↦
      h r written hwritten (hpart.trans (List.suffix_cons c cs).isInfix)⟩

theorem Referenceless.interpolates {earlier : List (String × Option String)} {cs : List Char}
    (h : Referenceless cs) : Interpolates environment earlier cs cs := by
  induction cs with
  | nil => exact .nil
  | cons c cs ih => exact .plain h.of_cons.1 (ih h.of_cons.2)

theorem Referenceless.expand_eq {written : String} (h : Referenceless written.toList)
    (earlier : List (String × Option String)) : expand environment earlier written = written := by
  have hsame : Interpolates environment earlier.reverse written.toList written.toList :=
    h.interpolates
  rw [interpolates_iff_expand, List.reverse_reverse] at hsame
  exact hsame.symm

theorem expandAll_of_referenceless {bs : List (String × Option String)}
    (h : ∀ key written, (key, some written) ∈ bs → Referenceless written.toList)
    (earlier : List (String × Option String)) : expandAll environment earlier bs = bs := by
  induction bs generalizing earlier with
  | nil => rfl
  | cons b rest ih =>
    obtain ⟨key, written?⟩ := b
    have hvalue : written?.map (expand environment earlier) = written? := by
      cases written? with
      | none => rfl
      | some written =>
        exact congrArg some ((h key written List.mem_cons_self).expand_eq earlier)
    rw [expandAll, hvalue, ih fun k w hmem ↦ h k w (List.mem_cons_of_mem _ hmem)]

/-- Where nothing is known, a reference comes to less than it takes to write it. -/
theorem Spelled.length_lt {r : Reference} {written : List Char} {value : String}
    (h : Spelled r written) (hvalue : StandsFor [] [] r value) :
    value.toList.length < written.length := by
  obtain rfl : value = r.fallback.getD "" := by
    rw [standsFor_iff.mp hvalue]
    rfl
  cases h with
  | named => simp
  | withFallback =>
    simp only [Option.getD_some, String.toList_ofList, List.length_cons, List.length_append]
    omega

theorem Interpolates.length_le {cs out : List Char} (h : Interpolates [] [] cs out) :
    out.length ≤ cs.length ∧ (¬Referenceless cs → out.length < cs.length) := by
  induction h with
  | nil =>
    refine ⟨Nat.le_refl _, fun hreference ↦ absurd (fun r written hwritten hpart ↦ ?_) hreference⟩
    obtain ⟨body, rfl⟩ := hwritten.starts
    cases List.infix_nil.mp hpart
  | reference hwritten hvalue _ ih =>
    have hlt := hwritten.length_lt hvalue
    rw [List.length_append, List.length_append]
    exact ⟨by omega, fun _ ↦ by omega⟩
  | plain hnone _ ih =>
    rw [List.length_cons, List.length_cons]
    refine ⟨by omega, fun hreference ↦ Nat.succ_lt_succ (ih.2 fun hrest ↦ ?_)⟩
    refine hreference fun r written hwritten hpart ↦ ?_
    rcases List.infix_cons_iff.mp hpart with hahead | hpart
    · exact hnone r written hwritten hahead
    · exact hrest r written hwritten hpart

/-! ## Bindings -/

/-- The bindings `vs` are the bindings `bs` with all references filled in. -/
structure Interpolated (environment : Keyed String) (bs vs : List (String × Option String)) :
    Prop where
  /-- There are as many. -/
  length : vs.length = bs.length
  /-- A bare binding stays bare. -/
  bare : ∀ {i : Nat} {key : String}, bs[i]? = some (key, none) → vs[i]? = some (key, none)
  /-- The references in a value are filled in by what the bindings before it have come to. -/
  valued : ∀ {i : Nat} {key written : String}, bs[i]? = some (key, some written) →
    ∃ value, vs[i]? = some (key, some value) ∧
      Interpolates environment (vs.take i) written.toList value.toList

theorem expandAll_at (environment : Keyed String) {bs : List (String × Option String)} {i : Nat}
    {key : String} {written? : Option String} (h : bs[i]? = some (key, written?)) :
    (expandAll environment [] bs).take i = expandAll environment [] (bs.take i) ∧
      (expandAll environment [] bs)[i]? = some (key,
        written?.map (expand environment (expandAll environment [] (bs.take i)).reverse)) := by
  obtain ⟨hi, hget⟩ := List.getElem?_eq_some_iff.mp h
  have hcut : bs = bs.take i ++ (key, written?) :: bs.drop (i + 1) := by
    rw [← hget, List.getElem_cons_drop, List.take_append_drop]
  have hlength : (expandAll environment [] (bs.take i)).length = i := by
    rw [length_expandAll, List.length_take]
    omega
  have hsplit : expandAll environment [] bs = expandAll environment [] (bs.take i)
      ++ expandAll environment (expandAll environment [] (bs.take i)).reverse
        ((key, written?) :: bs.drop (i + 1)) := by
    have happend := expandAll_append environment [] (bs.take i) ((key, written?) :: bs.drop (i + 1))
    rwa [← hcut, List.append_nil] at happend
  rw [hsplit]
  constructor
  · rw [List.take_append_of_le_length (Nat.le_of_eq hlength.symm),
      List.take_of_length_le (Nat.le_of_eq hlength)]
  · rw [List.getElem?_append_right (Nat.le_of_eq hlength), hlength, Nat.sub_self, expandAll]
    rfl

theorem interpolated_expandAll (bs : List (String × Option String)) :
    Interpolated environment bs (expandAll environment [] bs) := by
  constructor
  case length => exact length_expandAll environment [] bs
  case bare => exact fun h ↦ (expandAll_at environment h).2
  case valued =>
    intro i key written h
    obtain ⟨htake, hget⟩ := expandAll_at environment h
    refine ⟨_, hget, ?_⟩
    rw [htake]
    exact interpolates_iff_expand.mpr rfl

/-- **Nothing behind a place counts.** Bindings that agree up to a place come to the same up to
it. -/
theorem Interpolated.take_eq {bs bs' vs vs' : List (String × Option String)}
    (h : Interpolated environment bs vs) (h' : Interpolated environment bs' vs') {n : Nat}
    (hsame : bs'.take n = bs.take n) : vs'.take n = vs.take n := by
  induction n with
  | zero => rw [List.take_zero, List.take_zero]
  | succ n ih =>
    have hbefore : bs'.take n = bs.take n := by
      have htake := congrArg (List.take n) hsame
      rwa [List.take_take, List.take_take, Nat.min_eq_left (Nat.le_succ n)] at htake
    have hat : bs'[n]? = bs[n]? := by
      have hget := congrArg (·[n]?) hsame
      simpa only [List.getElem?_take_of_succ] using hget
    have hvalues := ih hbefore
    rw [List.take_add_one, List.take_add_one, hvalues]
    congr 2
    rcases hb : bs[n]? with _ | ⟨key, _ | written⟩
    · have hend := List.getElem?_eq_none_iff.mp hb
      have hend' := List.getElem?_eq_none_iff.mp (hat.trans hb)
      rw [← h.length] at hend
      rw [← h'.length] at hend'
      rw [List.getElem?_eq_none hend, List.getElem?_eq_none hend']
    · rw [h.bare hb, h'.bare (hat.trans hb)]
    · obtain ⟨value, hget, hvalue⟩ := h.valued hb
      obtain ⟨value', hget', hvalue'⟩ := h'.valued (hat.trans hb)
      rw [hvalues] at hvalue'
      rw [hget, hget', interpolates_iff_expand.mp hvalue, interpolates_iff_expand.mp hvalue']

theorem interpolated_iff {bs vs : List (String × Option String)} :
    Interpolated environment bs vs ↔ vs = expandAll environment [] bs := by
  refine ⟨fun h ↦ ?_, fun h ↦ h ▸ interpolated_expandAll bs⟩
  have hall : Interpolated environment bs _ := interpolated_expandAll bs
  have hsame := hall.take_eq h (n := bs.length) rfl
  rwa [List.take_of_length_le (Nat.le_of_eq h.length),
    List.take_of_length_le (Nat.le_of_eq hall.length)] at hsame

/-- **Interpolation.** The references of a text are filled in in one way, and the values of the
text are those of the last bindings of its keys. What a binding comes to depends on no binding
behind it. -/
theorem interpolation_law (environment : Keyed String) (text : String) :
    ∃ vs, (∀ vs', Interpolated environment (bindings text) vs' ↔ vs' = vs) ∧
      (∀ key, (Contents.ofText environment text).values.lookup key
        = (vs.reverse.lookup key).join) ∧
      ∀ text' vs' n, Interpolated environment (bindings text') vs' →
        (bindings text').take n = (bindings text).take n → vs'.take n = vs.take n := by
  refine ⟨expandAll environment [] (bindings text), fun vs' ↦ interpolated_iff,
    lookup_values environment text, fun text' vs' n h hsame ↦ ?_⟩
  exact (interpolated_expandAll (bindings text)).take_eq h hsame

end Runbook.EnvFile
