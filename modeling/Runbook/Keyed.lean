/-!
# Keyed lists

An association list in which each key stands once, in the order of first assignment. Assigning to
a key that is there keeps its place and changes its value. Environments, the values of an env file
and the contexts of diagnostics are keyed lists; look-up is `List.lookup`.
-/

namespace Runbook

/-- Values by name, in the order in which the names first came up. -/
abbrev Keyed (α : Type) : Type := List (String × α)

namespace Keyed

variable {κ α : Type} [BEq κ]

def put (key : κ) (v : α) : List (κ × α) → List (κ × α)
  | [] => [(key, v)]
  | (k, w) :: rest => if k == key then (k, v) :: rest else (k, w) :: put key v rest

/-- Assigns all values of `top`, in order, on top of those of `base`. -/
def overlay (base top : List (κ × α)) : List (κ × α) := top.foldl (fun d e ↦ put e.1 e.2 d) base

/-- The keyed list that the assignments leave behind, one after another. -/
def ofPairs (pairs : List (κ × α)) : List (κ × α) := overlay [] pairs

def sorted (d : Keyed α) : Keyed α := d.mergeSort fun e f ↦ decide (e.1 ≤ f.1)

/-- The keys stand in the order in which they first come up in `all`. -/
def InOrder (all keys : List κ) : Prop := keys.Pairwise fun a b ↦ all.idxOf a < all.idxOf b

theorem InOrder.sublist {all keys keys' : List κ} (h : InOrder all keys)
    (hsub : keys'.Sublist keys) : InOrder all keys' := List.Pairwise.sublist hsub h

/-- The same keys with a view of their values. -/
def mapValues {β : Type} (f : α → β) (d : List (κ × α)) : List (κ × β) := d.map fun e ↦ (e.1, f e.2)

theorem mapValues_put {β : Type} (f : α → β) (key : κ) (v : α) (d : List (κ × α)) :
    mapValues f (put key v d) = put key (f v) (mapValues f d) := by
  induction d with
  | nil => rfl
  | cons e rest ih =>
    obtain ⟨k, w⟩ := e
    by_cases hk : k == key
    · simp [put, mapValues, hk]
    · simpa [put, mapValues, hk] using ih

theorem mapValues_overlay {β : Type} (f : α → β) (base top : List (κ × α)) :
    mapValues f (overlay base top) = overlay (mapValues f base) (mapValues f top) := by
  induction top generalizing base with
  | nil => rfl
  | cons e rest ih =>
    refine (ih _).trans ?_
    rw [mapValues_put]
    rfl

theorem lookup_mapValues {β : Type} (f : α → β) (d : List (κ × α)) (k : κ) :
    (mapValues f d).lookup k = (d.lookup k).map f := by
  induction d with
  | nil => rfl
  | cons e rest ih =>
    obtain ⟨key, v⟩ := e
    rw [mapValues, List.map_cons, List.lookup_cons, List.lookup_cons]
    cases k == key with
    | true => rfl
    | false => exact ih

variable [LawfulBEq κ]

theorem lookup_put (key : κ) (v : α) (d : List (κ × α)) (k : κ) :
    (put key v d).lookup k = if k == key then some v else d.lookup k := by
  induction d with
  | nil =>
    rw [put, List.lookup_cons, List.lookup_nil]
    split <;> simp_all
  | cons e rest ih =>
    obtain ⟨k', w⟩ := e
    by_cases h' : k' = key <;> by_cases h : k = key <;>
      simp_all [put, List.lookup_cons] <;> grind

theorem mem_keys_put {key k : κ} {v : α} {d : List (κ × α)} :
    k ∈ (put key v d).map Prod.fst ↔ k = key ∨ k ∈ d.map Prod.fst := by
  induction d with
  | nil => simp [put]
  | cons e rest ih =>
    obtain ⟨k', w⟩ := e
    by_cases h : k' = key
    · simp [put, h]
    · simp only [put, beq_iff_eq, h, if_false, List.map_cons, List.mem_cons, ih]
      grind

theorem keys_put_of_mem {key : κ} {v : α} {d : List (κ × α)} (h : key ∈ d.map Prod.fst) :
    (put key v d).map Prod.fst = d.map Prod.fst := by
  induction d with
  | nil => cases h
  | cons e rest ih =>
    obtain ⟨k, w⟩ := e
    rw [put]
    split
    · rfl
    · next hk =>
      rw [List.map_cons, List.map_cons, ih]
      refine (List.mem_cons.mp h).resolve_left fun hkey ↦ hk ?_
      exact beq_iff_eq.mpr hkey.symm

theorem put_of_notMem {key : κ} {v : α} {d : List (κ × α)} (h : key ∉ d.map Prod.fst) :
    put key v d = d ++ [(key, v)] := by
  induction d with
  | nil => rfl
  | cons e rest ih =>
    obtain ⟨k, w⟩ := e
    rw [List.map_cons, List.mem_cons, not_or] at h
    rw [put, if_neg fun hk ↦ h.1 (eq_of_beq hk).symm, ih h.2]
    rfl

theorem nodup_keys_put {key : κ} {v : α} {d : List (κ × α)} (h : (d.map Prod.fst).Nodup) :
    ((put key v d).map Prod.fst).Nodup := by
  induction d with
  | nil => simp [put]
  | cons e rest ih =>
    obtain ⟨k', w⟩ := e
    simp only [List.map_cons, List.nodup_cons] at h ih
    by_cases hk : k' = key
    · subst hk
      simpa only [put, beq_self_eq_true, if_true, List.map_cons, List.nodup_cons] using h
    · have hmem : k' ∈ (put key v rest).map Prod.fst ↔ k' = key ∨ k' ∈ rest.map Prod.fst :=
        mem_keys_put
      simp only [put, beq_iff_eq, hk, if_false, List.map_cons, List.nodup_cons, hmem]
      exact ⟨by grind, ih h.2⟩

theorem mem_put {key : κ} {v : α} {d : List (κ × α)} {e : κ × α} (h : e ∈ put key v d) :
    e = (key, v) ∨ e ∈ d := by
  induction d with
  | nil => exact .inl (List.mem_singleton.mp h)
  | cons f rest ih =>
    obtain ⟨k, w⟩ := f
    rw [put] at h
    split at h
    · next hk =>
      obtain rfl := eq_of_beq hk
      exact (List.mem_cons.mp h).imp_right (List.mem_cons_of_mem _)
    · rcases List.mem_cons.mp h with rfl | h
      · exact .inr List.mem_cons_self
      · exact (ih h).imp_right (List.mem_cons_of_mem _)

/-! ## Assigning many values

A later assignment of a key wins over an earlier one, so a value is looked up in the assignments
from their end, and below them only if none of them is to its key. -/

theorem lookup_overlay (base top : List (κ × α)) (k : κ) :
    (overlay base top).lookup k = (top.reverse.lookup k).or (base.lookup k) := by
  induction top generalizing base with
  | nil => rfl
  | cons e rest ih =>
    obtain ⟨key, v⟩ := e
    have hstep : overlay base ((key, v) :: rest) = overlay (put key v base) rest := rfl
    rw [hstep, ih, List.reverse_cons, List.lookup_append, lookup_put, Option.or_assoc]
    congr 1
    rw [List.lookup_cons]
    cases k == key <;> rfl

theorem nodup_keys_overlay {base : List (κ × α)} (top : List (κ × α))
    (h : (base.map Prod.fst).Nodup) : ((overlay base top).map Prod.fst).Nodup := by
  induction top generalizing base with
  | nil => exact h
  | cons e rest ih => exact ih (nodup_keys_put h)

/-- Assigning makes up no entries. -/
theorem mem_overlay {base top : List (κ × α)} {e : κ × α} (h : e ∈ overlay base top) :
    e ∈ base ∨ e ∈ top := by
  induction top generalizing base with
  | nil => exact .inl h
  | cons f rest ih =>
    rcases ih h with h | h
    · rcases mem_put h with rfl | h
      · exact .inr List.mem_cons_self
      · exact .inl h
    · exact .inr (List.mem_cons_of_mem _ h)

theorem mem_ofPairs {pairs : List (κ × α)} {e : κ × α} (h : e ∈ ofPairs pairs) : e ∈ pairs :=
  (mem_overlay h).resolve_left List.not_mem_nil

theorem lookup_ofPairs (pairs : List (κ × α)) (k : κ) :
    (ofPairs pairs).lookup k = pairs.reverse.lookup k := by
  rw [ofPairs, lookup_overlay, List.lookup_nil, Option.or_none]

theorem nodup_keys_ofPairs (pairs : List (κ × α)) : ((ofPairs pairs).map Prod.fst).Nodup :=
  nodup_keys_overlay pairs List.nodup_nil

theorem overlay_of_nodup {base top : List (κ × α)} (h : ((base ++ top).map Prod.fst).Nodup) :
    overlay base top = base ++ top := by
  induction top generalizing base with
  | nil => exact (List.append_nil base).symm
  | cons e rest ih =>
    obtain ⟨key, v⟩ := e
    have hkey : key ∉ base.map Prod.fst := by
      rw [List.map_append, List.map_cons, List.perm_middle.nodup_iff, List.nodup_cons] at h
      exact fun hmem ↦ h.1 (List.mem_append_left _ hmem)
    have hstep : overlay base ((key, v) :: rest) = overlay (put key v base) rest := rfl
    rw [List.append_cons] at h ⊢
    rw [hstep, put_of_notMem hkey, ih h]

/-- Where keys do not repeat, the assignments are what they leave behind. -/
theorem ofPairs_of_nodup {pairs : List (κ × α)} (h : (pairs.map Prod.fst).Nodup) :
    ofPairs pairs = pairs := overlay_of_nodup h

theorem lookup_eq_none_iff_notMem {d : List (κ × α)} {k : κ} :
    d.lookup k = none ↔ k ∉ d.map Prod.fst := by
  rw [List.lookup_eq_none_iff]
  simp only [bne_iff_ne, ne_eq, List.mem_map, not_exists, not_and]
  exact ⟨fun h e he hk ↦ h e he hk.symm, fun h e he hk ↦ h e he hk.symm⟩

theorem mem_of_lookup {d : List (κ × α)} {k : κ} {v : α} (h : d.lookup k = some v) :
    (k, v) ∈ d := by
  obtain ⟨before, after, rfl, -⟩ := List.lookup_eq_some_iff.mp h
  exact List.mem_append_right _ List.mem_cons_self

theorem lookup_eq_some_iff_mem {d : List (κ × α)} (h : (d.map Prod.fst).Nodup) {k : κ} {v : α} :
    d.lookup k = some v ↔ (k, v) ∈ d := by
  refine ⟨mem_of_lookup, fun hmem ↦ ?_⟩
  obtain ⟨before, after, rfl⟩ := List.append_of_mem hmem
  rw [List.map_append, List.map_cons, List.perm_middle.nodup_iff, List.nodup_cons] at h
  rw [List.lookup_append, lookup_eq_none_iff_notMem.2 fun hk ↦ h.1 (List.mem_append_left _ hk),
    List.lookup_cons_self]
  rfl

/-- Where keys do not repeat, it does not matter from which end a key is looked up. -/
theorem lookup_reverse {d : List (κ × α)} (h : (d.map Prod.fst).Nodup) (k : κ) :
    d.reverse.lookup k = d.lookup k := by
  induction d with
  | nil => rfl
  | cons e rest ih =>
    obtain ⟨key, v⟩ := e
    rw [List.map_cons, List.nodup_cons] at h
    rw [List.reverse_cons, List.lookup_append, ih h.2, List.lookup_cons, List.lookup_cons]
    by_cases hk : k = key
    · subst hk
      rw [lookup_eq_none_iff_notMem.2 h.1, beq_self_eq_true]
      rfl
    · rw [beq_false_of_ne hk]
      exact Option.or_none

theorem lookup_reverse_append_cons (before after : List (κ × α)) (k : κ) (v : α) :
    (before ++ (k, v) :: after).reverse.lookup k = (after.reverse.lookup k).or (some v) := by
  rw [List.reverse_append, List.reverse_cons, List.lookup_append, List.lookup_append,
    List.lookup_cons_self]
  cases after.reverse.lookup k <;> rfl

theorem lookup_reverse_eq_some_iff {d : List (κ × α)} {k : κ} {v : α} :
    d.reverse.lookup k = some v ↔
      ∃ before after, d = before ++ (k, v) :: after ∧ k ∉ after.map Prod.fst := by
  constructor
  · intro h
    obtain ⟨later, earlier, hcut, hlater⟩ := List.lookup_eq_some_iff.mp h
    refine ⟨earlier.reverse, later.reverse, ?_, ?_⟩
    · rw [← List.reverse_reverse d, hcut, List.reverse_append, List.reverse_cons,
        List.append_assoc]
      rfl
    · rw [List.map_reverse, List.mem_reverse, ← lookup_eq_none_iff_notMem,
        List.lookup_eq_none_iff]
      exact hlater
  · rintro ⟨before, after, rfl, hafter⟩
    rw [lookup_reverse_append_cons, lookup_eq_none_iff_notMem.2]
    · rfl
    · rw [List.map_reverse, List.mem_reverse]
      exact hafter

theorem lookup_filter (p : κ → Bool) (d : List (κ × α)) (k : κ) :
    (d.filter fun e ↦ p e.1).lookup k = if p k = true then d.lookup k else none := by
  induction d with
  | nil => simp
  | cons e rest ih =>
    obtain ⟨key, v⟩ := e
    rw [List.filter_cons, List.lookup_cons]
    by_cases hk : k = key
    · subst hk
      by_cases hp : p k = true <;> simp [hp, ih]
    · have hk : (k == key) = false := beq_false_of_ne hk
      by_cases hp : p key = true <;> simp [hp, hk, List.lookup_cons, ih]

/-- A key without a value is looked up as if it were not there. -/
theorem lookup_filterMap {d : List (κ × Option α)} (h : (d.map Prod.fst).Nodup) (k : κ) :
    (d.filterMap fun e ↦ e.2.map (e.1, ·)).lookup k = (d.lookup k).join := by
  induction d with
  | nil => rfl
  | cons e rest ih =>
    obtain ⟨key, v?⟩ := e
    rw [List.map_cons, List.nodup_cons] at h
    rw [List.filterMap_cons, List.lookup_cons]
    by_cases hk : k = key
    · subst hk
      rw [beq_self_eq_true]
      cases v? with
      | none =>
        refine (ih h.2).trans ?_
        rw [lookup_eq_none_iff_notMem.2 h.1]
        rfl
      | some v => exact List.lookup_cons_self
    · rw [beq_false_of_ne hk]
      cases v? with
      | none => exact ih h.2
      | some v =>
        refine Eq.trans ?_ (ih h.2)
        simp only [Option.map_some, List.lookup_cons, beq_false_of_ne hk]

/-! ## The order of the keys

Assigning to a key that is there does not move it, so the keys stand in the order in which they
were first assigned. -/

/-- A key that comes up later does not change the order of those that are there. -/
theorem InOrder.append {all keys : List κ} (h : InOrder all keys) (hall : ∀ k ∈ keys, k ∈ all)
    (later : List κ) : InOrder (all ++ later) keys := by
  refine List.Pairwise.imp_of_mem (fun {a b} ha hb hab ↦ ?_) h
  rw [List.idxOf_append, List.idxOf_append, if_pos (hall a ha), if_pos (hall b hb)]
  exact hab

theorem inOrder_keys_put {all : List κ} {d : List (κ × α)} (h : InOrder all (d.map Prod.fst))
    (hall : ∀ k, k ∈ d.map Prod.fst ↔ k ∈ all) (key : κ) (v : α) :
    InOrder (all ++ [key]) ((put key v d).map Prod.fst) := by
  have hkept := h.append (fun k hk ↦ (hall k).mp hk) [key]
  by_cases hkey : key ∈ d.map Prod.fst
  · rw [keys_put_of_mem hkey]
    exact hkept
  · rw [put_of_notMem hkey, List.map_append]
    refine List.pairwise_append.mpr ⟨hkept, List.pairwise_singleton _ _, fun a ha b hb ↦ ?_⟩
    -- The new key comes behind all others, as it has not come up before.
    obtain rfl := List.mem_singleton.mp hb
    rw [List.idxOf_append, List.idxOf_append, if_pos ((hall a).mp ha),
      if_neg fun hk ↦ hkey ((hall _).mpr hk)]
    exact Nat.lt_of_lt_of_le (List.idxOf_lt_length_of_mem ((hall a).mp ha)) (Nat.le_add_left _ _)

theorem inOrder_keys_overlay (all : List κ) (base top : List (κ × α))
    (h : InOrder all (base.map Prod.fst)) (hall : ∀ k, k ∈ base.map Prod.fst ↔ k ∈ all) :
    InOrder (all ++ top.map Prod.fst) ((overlay base top).map Prod.fst) := by
  induction top generalizing all base with
  | nil =>
    rw [List.map_nil, List.append_nil]
    exact h
  | cons e rest ih =>
    obtain ⟨key, v⟩ := e
    rw [List.map_cons, List.append_cons]
    refine ih _ _ (inOrder_keys_put h hall key v) fun k ↦ ?_
    rw [mem_keys_put, hall, List.mem_append, List.mem_singleton, or_comm]

theorem mem_keys_ofPairs {pairs : List (κ × α)} {k : κ} :
    k ∈ (ofPairs pairs).map Prod.fst ↔ k ∈ pairs.map Prod.fst := by
  rw [← Decidable.not_iff_not, ← lookup_eq_none_iff_notMem, lookup_ofPairs,
    lookup_eq_none_iff_notMem, List.map_reverse, List.mem_reverse]

theorem inOrder_keys_ofPairs (pairs : List (κ × α)) :
    InOrder (pairs.map Prod.fst) ((ofPairs pairs).map Prod.fst) :=
  inOrder_keys_overlay [] [] pairs List.Pairwise.nil fun _ ↦ Iff.rfl

/-! ## A part of the keys, a view of the values

Leaving out keys and changing values can be done before the assignments or after them. -/

theorem filter_put_of_pos {p : κ → Bool} {key : κ} (h : p key = true) (v : α) (d : List (κ × α)) :
    (put key v d).filter (fun e ↦ p e.1) = put key v (d.filter fun e ↦ p e.1) := by
  induction d with
  | nil => simp [put, h]
  | cons e rest ih =>
    obtain ⟨k, w⟩ := e
    by_cases hk : k = key
    · subst hk
      simp [put, h]
    · by_cases hp : p k = true <;> simp [put, hk, hp, ih]

theorem filter_put_of_neg {p : κ → Bool} {key : κ} (h : p key = false) (v : α)
    (d : List (κ × α)) :
    (put key v d).filter (fun e ↦ p e.1) = d.filter fun e ↦ p e.1 := by
  induction d with
  | nil => simp [put, h]
  | cons e rest ih =>
    obtain ⟨k, w⟩ := e
    by_cases hk : k = key
    · subst hk
      simp [put, h]
    · by_cases hp : p k = true <;> simp [put, hk, hp, ih]

theorem filter_overlay (p : κ → Bool) (base top : List (κ × α)) :
    (overlay base top).filter (fun e ↦ p e.1)
      = overlay (base.filter fun e ↦ p e.1) (top.filter fun e ↦ p e.1) := by
  induction top generalizing base with
  | nil => rfl
  | cons e rest ih =>
    obtain ⟨key, v⟩ := e
    refine (ih (put key v base)).trans ?_
    rw [List.filter_cons]
    split
    · next hp => rw [filter_put_of_pos hp]; rfl
    · next hp => rw [filter_put_of_neg (Bool.eq_false_iff.mpr hp)]

theorem filter_ofPairs (p : κ → Bool) (pairs : List (κ × α)) :
    (ofPairs pairs).filter (fun e ↦ p e.1) = ofPairs (pairs.filter fun e ↦ p e.1) :=
  filter_overlay p [] pairs

end Keyed

end Runbook
