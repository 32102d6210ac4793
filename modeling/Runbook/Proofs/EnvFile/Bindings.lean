import Runbook.EnvFile.Values

/-!
# What the keys of an env file end up with

An env file is a list of bindings, and the last binding of a key decides about it. The file is read
from its beginning all the same, because a value may refer to what stands before it. The two
directions meet in `lookup_reverse_expandAll`: cut the bindings at the last one of a key, replace
the references in it by what the bindings before the cut have come to, and that is what the key
ends up with. What stands behind the cut has no say.

`Overlaid` states what this means for an environment that the values are laid over, without any of
the lists that the reader keeps on its way.
-/

namespace Runbook.EnvFile

variable (environment : Keyed String)

/-! ## Cutting the bindings -/

@[simp] theorem map_fst_expandAll (earlier bs : List (String × Option String)) :
    (expandAll environment earlier bs).map Prod.fst = bs.map Prod.fst := by
  induction bs generalizing earlier with
  | nil => rfl
  | cons b rest ih =>
    obtain ⟨key, written?⟩ := b
    rw [expandAll, List.map_cons, List.map_cons, ih]

@[simp] theorem length_expandAll (earlier bs : List (String × Option String)) :
    (expandAll environment earlier bs).length = bs.length := by
  rw [← List.length_map Prod.fst, map_fst_expandAll, List.length_map]

/-- Bindings that follow others see what those have come to, the latest first. -/
theorem expandAll_append (earlier xs ys : List (String × Option String)) :
    expandAll environment earlier (xs ++ ys)
      = expandAll environment earlier xs
        ++ expandAll environment ((expandAll environment earlier xs).reverse ++ earlier) ys := by
  -- What has been seen grows on the way, at its front, so it ends up reversed.
  induction xs generalizing earlier with
  | nil => rfl
  | cons b rest ih =>
    obtain ⟨key, written?⟩ := b
    rw [List.cons_append, expandAll, expandAll, ih, List.reverse_cons, List.append_assoc]
    rfl

/-- **The last binding decides.** A key ends up with its last binding, expanded by the bindings
before that. -/
theorem lookup_reverse_expandAll {before after : List (String × Option String)} {key : String}
    (written? : Option String) (h : key ∉ after.map Prod.fst) :
    (expandAll environment [] (before ++ (key, written?) :: after)).reverse.lookup key
      = some (written?.map (expand environment (expandAll environment [] before).reverse)) := by
  -- The lookup starts at the end: nothing behind the cut has the key, and the cut has.
  rw [expandAll_append, List.append_nil, expandAll, Keyed.lookup_reverse_append_cons,
    Keyed.lookup_eq_none_iff_notMem.2]
  · rfl
  · rw [List.map_reverse, List.mem_reverse, map_fst_expandAll]
    exact h

theorem lookup_reverse_expandAll_of_notMem {bs : List (String × Option String)} {key : String}
    (h : key ∉ bs.map Prod.fst) : (expandAll environment [] bs).reverse.lookup key = none := by
  rw [Keyed.lookup_eq_none_iff_notMem, List.map_reverse, List.mem_reverse, map_fst_expandAll]
  exact h

/-! ## The values -/

theorem lookup_resolvedBindings (text : String) (key : String) :
    (resolvedBindings environment text).lookup key
      = (expandAll environment [] (bindings text)).reverse.lookup key :=
  Keyed.lookup_ofPairs _ _

theorem lookup_values (text : String) (key : String) :
    (Contents.ofText environment text).values.lookup key
      = ((expandAll environment [] (bindings text)).reverse.lookup key).join := by
  rw [← lookup_resolvedBindings]
  exact Keyed.lookup_filterMap (Keyed.nodup_keys_ofPairs _) key

theorem keys_values (text : String) :
    (Contents.ofText environment text).values.map Prod.fst
      = ((resolvedBindings environment text).filter (·.2.isSome)).map Prod.fst := by
  refine Eq.trans List.map_filterMap ?_
  rw [← List.filterMap_eq_map', List.filterMap_filter]
  congr 1
  funext ⟨key, value?⟩
  cases value? <;> rfl

theorem nodup_keys_values (text : String) :
    ((Contents.ofText environment text).values.map Prod.fst).Nodup := by
  rw [keys_values]
  exact (Keyed.nodup_keys_ofPairs _).sublist (List.filter_sublist.map _)

/-! ## Laid over an environment -/

/-- The environment `child` is the environment `inherited` with the values of an env file of the
given text laid over it. -/
structure Overlaid (inherited : Keyed String) (text : String) (child : Keyed String) : Prop where
  /-- A key whose last binding has a value has that value, with its references replaced. -/
  valued : ∀ {key written : String} {before after : List (String × Option String)},
    bindings text = before ++ (key, some written) :: after → key ∉ after.map Prod.fst →
      child.lookup key
        = some (expand inherited (expandAll inherited [] before).reverse written)
  /-- A key whose last binding is bare is as it was, whatever the bindings before that say. -/
  bare : ∀ {key : String} {before after : List (String × Option String)},
    bindings text = before ++ (key, none) :: after → key ∉ after.map Prod.fst →
      child.lookup key = inherited.lookup key
  /-- A key that the file does not bind is as it was. -/
  unbound : ∀ {key : String}, key ∉ (bindings text).map Prod.fst →
    child.lookup key = inherited.lookup key

theorem overlaid_overlay_values (text : String) :
    Overlaid environment text
      (Keyed.overlay environment (Contents.ofText environment text).values) := by
  have hlookup : ∀ key,
      (Keyed.overlay environment (Contents.ofText environment text).values).lookup key
        = ((expandAll environment [] (bindings text)).reverse.lookup key).join.or
            (environment.lookup key) := by
    intro key
    rw [Keyed.lookup_overlay, Keyed.lookup_reverse (nodup_keys_values environment text),
      lookup_values]
  refine ⟨?_, ?_, ?_⟩
  · intro key written before after hcut hkey
    rw [hlookup, hcut, lookup_reverse_expandAll environment (some written) hkey]
    rfl
  · intro key before after hcut hkey
    rw [hlookup, hcut, lookup_reverse_expandAll environment none hkey]
    rfl
  · intro key hkey
    rw [hlookup, lookup_reverse_expandAll_of_notMem environment hkey]
    rfl

end Runbook.EnvFile
