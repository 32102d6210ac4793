import Runbook.Proofs.EnvFile.Bindings

/-!
# Every key is accounted for

Reading an env file sorts the keys that it binds into two lists: those that end up with a value,
which are returned with it, and those that end up without one, which are complained about. Each key
is in exactly one of the two, its last binding decides in which, and either list is in the order in
which its keys first come up, bare or not.
-/

namespace Runbook.EnvFile

variable (environment : Keyed String)

/-! ## The last binding -/

/-- **What a key ends up with.** It is told by the last binding of the key, and by nothing else
than the bindings before that. -/
theorem lookup_reverse_expandAll_eq_some_iff {bs : List (String × Option String)} {key : String}
    {value? : Option String} :
    (expandAll environment [] bs).reverse.lookup key = some value? ↔
      ∃ before written? after, bs = before ++ (key, written?) :: after ∧
        key ∉ after.map Prod.fst ∧
        value? = written?.map (expand environment (expandAll environment [] before).reverse) := by
  constructor
  · intro h
    have hkey : key ∈ bs.reverse.map Prod.fst := by
      rw [List.map_reverse, List.mem_reverse, ← map_fst_expandAll environment [],
        ← List.mem_reverse, ← List.map_reverse]
      exact List.mem_map_of_mem (Keyed.mem_of_lookup h)
    obtain ⟨written?, hlast⟩ :=
      Option.ne_none_iff_exists'.mp fun hnone ↦ Keyed.lookup_eq_none_iff_notMem.mp hnone hkey
    obtain ⟨before, after, rfl, hafter⟩ := Keyed.lookup_reverse_eq_some_iff.mp hlast
    refine ⟨before, written?, after, rfl, hafter, ?_⟩
    rw [lookup_reverse_expandAll environment written? hafter] at h
    exact (Option.some.inj h).symm
  · rintro ⟨before, written?, after, rfl, hafter, rfl⟩
    exact lookup_reverse_expandAll environment written? hafter

theorem mem_resolvedBindings {text key : String} {value? : Option String} :
    (key, value?) ∈ resolvedBindings environment text ↔
      (expandAll environment [] (bindings text)).reverse.lookup key = some value? := by
  rw [← lookup_resolvedBindings]
  exact (Keyed.lookup_eq_some_iff_mem (Keyed.nodup_keys_ofPairs _)).symm

theorem mem_keys_resolvedBindings {text key : String} :
    key ∈ (resolvedBindings environment text).map Prod.fst ↔
      key ∈ (bindings text).map Prod.fst := by
  rw [resolvedBindings, Keyed.mem_keys_ofPairs, map_fst_expandAll]

theorem inOrder_keys_resolvedBindings (text : String) :
    Keyed.InOrder ((bindings text).map Prod.fst)
      ((resolvedBindings environment text).map Prod.fst) := by
  rw [← map_fst_expandAll environment []]
  exact Keyed.inOrder_keys_ofPairs _

/-! ## The two lists -/

theorem bareKeys_eq (text : String) :
    (Contents.ofText environment text).bareKeys
      = ((resolvedBindings environment text).filter (·.2.isNone)).map Prod.fst := by
  rw [← List.filterMap_eq_map', List.filterMap_filter]
  rfl

theorem keys_values_append_bareKeys_perm (text : String) :
    ((Contents.ofText environment text).values.map Prod.fst
        ++ (Contents.ofText environment text).bareKeys).Perm
      ((resolvedBindings environment text).map Prod.fst) := by
  rw [keys_values, bareKeys_eq, ← List.map_append]
  refine List.Perm.map _ ?_
  simpa only [Option.not_isSome] using
    List.filter_append_perm (·.2.isSome) (resolvedBindings environment text)

theorem mem_values {text key v : String} :
    (key, v) ∈ (Contents.ofText environment text).values ↔
      (key, some v) ∈ resolvedBindings environment text := by
  rw [← Keyed.lookup_eq_some_iff_mem (nodup_keys_values environment text), lookup_values,
    mem_resolvedBindings, Option.join_eq_some_iff]

theorem mem_bareKeys {text key : String} :
    key ∈ (Contents.ofText environment text).bareKeys ↔
      (key, none) ∈ resolvedBindings environment text := by
  rw [bareKeys_eq]
  simp

/-! ## The account -/

/-- The values and the bare keys account for the bindings, as they are read in the environment. -/
structure Accounted (bs : List (String × Option String)) (values : Keyed String)
    (bareKeys : List String) : Prop where
  /-- No key is listed twice, be it in one list or in both. -/
  nodup : (values.map Prod.fst ++ bareKeys).Nodup
  /-- The keys that are listed are those that are bound. -/
  mem_iff : ∀ key, key ∈ values.map Prod.fst ++ bareKeys ↔ key ∈ bs.map Prod.fst
  /-- A key has the value of its last binding, with the references in it replaced by what the
  bindings before say, if that binding has one. -/
  valued_iff : ∀ key v, (key, v) ∈ values ↔ ∃ before written after,
    bs = before ++ (key, some written) :: after ∧ key ∉ after.map Prod.fst ∧
      v = expand environment (expandAll environment [] before).reverse written
  /-- A key is bare if its last binding is. -/
  bare_iff : ∀ key, key ∈ bareKeys ↔ ∃ before after,
    bs = before ++ (key, none) :: after ∧ key ∉ after.map Prod.fst
  /-- The keys that have a value stand in the order in which they are first bound. -/
  values_inOrder : Keyed.InOrder (bs.map Prod.fst) (values.map Prod.fst)
  /-- And so do the bare ones. -/
  bareKeys_inOrder : Keyed.InOrder (bs.map Prod.fst) bareKeys

/-- **Every key is accounted for.** The keys that the complaints about a text name and the values
that the text has account for its bindings. -/
theorem every_key_accounted (text source : String) :
    ∃ named, (Contents.ofText environment text).warnings source
        = named.map (fun key ↦
          "Skipping malformed line in " ++ source ++ ": " ++ key ++ " has no value") ∧
      Accounted environment (bindings text) (Contents.ofText environment text).values named := by
  have hperm := keys_values_append_bareKeys_perm environment text
  have horder := inOrder_keys_resolvedBindings environment text
  refine ⟨(Contents.ofText environment text).bareKeys, rfl, ?_⟩
  constructor
  case nodup => exact hperm.nodup_iff.mpr (Keyed.nodup_keys_ofPairs _)
  case mem_iff =>
    intro key
    rw [hperm.mem_iff, mem_keys_resolvedBindings]
  case valued_iff =>
    intro key v
    rw [mem_values, mem_resolvedBindings, lookup_reverse_expandAll_eq_some_iff]
    constructor
    · rintro ⟨before, written?, after, hcut, hafter, hv⟩
      obtain ⟨written, rfl, hwritten⟩ := Option.map_eq_some_iff.mp hv.symm
      exact ⟨before, written, after, hcut, hafter, hwritten.symm⟩
    · rintro ⟨before, written, after, hcut, hafter, rfl⟩
      exact ⟨before, some written, after, hcut, hafter, rfl⟩
  case bare_iff =>
    intro key
    rw [mem_bareKeys, mem_resolvedBindings, lookup_reverse_expandAll_eq_some_iff]
    constructor
    · rintro ⟨before, written?, after, hcut, hafter, hv⟩
      obtain rfl := Option.map_eq_none_iff.mp hv.symm
      exact ⟨before, after, hcut, hafter⟩
    · rintro ⟨before, after, hcut, hafter⟩
      exact ⟨before, none, after, hcut, hafter, rfl⟩
  case values_inOrder =>
    rw [keys_values]
    exact horder.sublist (List.filter_sublist.map _)
  case bareKeys_inOrder =>
    rw [bareKeys_eq]
    exact horder.sublist (List.filter_sublist.map _)

end Runbook.EnvFile
