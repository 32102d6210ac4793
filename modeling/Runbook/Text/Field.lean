/-!
# Separated fields

A text cut at every occurrence of a separator. There is always one field more than there are
separators, so neighbouring separators enclose an empty field and the empty text is one empty field.
-/

namespace Runbook.Text

/-- The fields between the separators, empty ones included. -/
def fields (separator : Char) : List Char → List (List Char)
  | [] => [[]]
  | c :: cs =>
    if c = separator then [] :: fields separator cs
    else match fields separator cs with
      | [] => [[c]]
      | field :: rest => (c :: field) :: rest

theorem fields_ne_nil (separator : Char) (cs : List Char) : fields separator cs ≠ [] := by
  cases cs with
  | nil => simp [fields]
  | cons c cs =>
    rw [fields]
    split
    · simp
    · split <;> simp

theorem fields_of_notMem {separator : Char} {cs : List Char} (h : separator ∉ cs) :
    fields separator cs = [cs] := by
  induction cs with
  | nil => rfl
  | cons c cs ih =>
    rw [List.mem_cons, not_or] at h
    rw [fields, if_neg (Ne.symm h.1), ih h.2]

theorem mem_of_mem_fields {separator c : Char} {cs field : List Char}
    (hfield : field ∈ fields separator cs) (hc : c ∈ field) : c ∈ cs := by
  induction cs generalizing field with
  | nil =>
    obtain rfl := List.mem_singleton.mp hfield
    exact hc
  | cons d rest ih =>
    rw [fields] at hfield
    split at hfield
    · obtain rfl | hfield := List.mem_cons.mp hfield
      · cases hc
      · exact List.mem_cons_of_mem d (ih hfield hc)
    · obtain ⟨first, others, hfields⟩ := List.exists_cons_of_ne_nil (fields_ne_nil separator rest)
      rw [hfields] at hfield ih
      obtain rfl | hfield := List.mem_cons.mp hfield
      · obtain rfl | hc := List.mem_cons.mp hc
        · exact List.mem_cons_self
        · exact List.mem_cons_of_mem d (ih List.mem_cons_self hc)
      · exact List.mem_cons_of_mem d (ih (List.mem_cons_of_mem first hfield) hc)

end Runbook.Text
