/-!
# Tries

Values by path, where a path is a list of names, the outermost first. A branch holds the value of a
name, if it has one, the trie of the paths that go on below the name, and the trie of the names
beside it. Finding a value takes one step for each name of its path and for each name beside those,
however many paths there are.

The empty path has no value.
-/

namespace Runbook

/-- Values by path. -/
inductive Trie (α : Type) where
  /-- No path has a value. -/
  | empty
  /-- A name with its value, with what is below it, and with the names beside it. -/
  | branch (name : String) (value : Option α) (below beside : Trie α)
deriving DecidableEq, Repr

namespace Trie

variable {α : Type}

def find? : Trie α → List String → Option α
  | .branch n w below beside, name :: rest =>
    if n = name then if rest = [] then w else below.find? rest
    else beside.find? (name :: rest)
  | _, _ => none

def value? : Trie α → String → Option α
  | .empty, _ => none
  | .branch n w _ beside, name => if n = name then w else beside.value? name

def subtrie : Trie α → String → Trie α
  | .empty, _ => .empty
  | .branch n _ t beside, name => if n = name then t else beside.subtrie name

/-- The trie of what is below a path. -/
def descend (t : Trie α) (path : List String) : Trie α := path.foldl subtrie t

def single (v : α) : List String → Trie α
  | [] => .empty
  | name :: rest => .branch name (if rest = [] then some v else none) (single v rest) .empty

/-- Gives a path a value, in place of an earlier one. -/
def insert (v : α) : Trie α → List String → Trie α
  | .empty, path => single v path
  | .branch n w below beside, [] => .branch n w below beside
  | .branch n w below beside, name :: rest =>
    if n = name then
      if rest = [] then .branch n (some v) below beside
      else .branch n w (below.insert v rest) beside
    else .branch n w below (beside.insert v (name :: rest))

/-- Takes away the values of a path and of all paths below it. -/
def prune : Trie α → List String → Trie α
  | .empty, _ => .empty
  | .branch .., [] => .empty
  | .branch n w below beside, name :: rest =>
    if n = name then
      if rest = [] then beside.prune (name :: rest)
      else .branch n w (below.prune rest) beside
    else .branch n w below (beside.prune (name :: rest))

/-- The paths with their values. Each path is reversed, and `above`, which is reversed as well, is
put behind it. -/
def entries (above : List String) : Trie α → List (List String × α)
  | .empty => []
  | .branch n w below beside =>
    w.toList.map (n :: above, ·) ++ below.entries (n :: above) ++ beside.entries above

@[simp] theorem find?_nil (t : Trie α) : t.find? [] = none := by cases t <;> rfl

theorem find?_cons (t : Trie α) (name : String) (rest : List String) :
    t.find? (name :: rest) = if rest = [] then t.value? name else (t.subtrie name).find? rest := by
  induction t with
  | empty => simp [find?, value?, subtrie]
  | branch n w t beside _ ih =>
    rw [find?, ih, value?, subtrie]
    split <;> rfl

theorem find?_concat (t : Trie α) (path : List String) (name : String) :
    t.find? (path ++ [name]) = (t.descend path).value? name := by
  induction path generalizing t with
  | nil => simp [find?_cons, descend]
  | cons first path ih => simp [find?_cons, ih, descend]

theorem find?_single (v : α) (path q : List String) :
    (single v path).find? q = if q = path ∧ q ≠ [] then some v else none := by
  induction path generalizing q with
  | nil => cases q <;> simp [single, find?]
  | cons name rest ih =>
    cases q with
    | nil => simp
    | cons m tail =>
      by_cases hm : name = m
      · subst hm
        by_cases ht : tail = []
        · subst ht
          by_cases hr : rest = [] <;> simp [single, find?, hr, eq_comm]
        · simp [single, find?, ht, ih]
      · simp [single, find?, hm, Ne.symm hm]

/-- A path that is given a value has that value, and every other path keeps its own. -/
theorem find?_insert (v : α) (t : Trie α) (path q : List String) :
    (t.insert v path).find? q = if q = path ∧ q ≠ [] then some v else t.find? q := by
  induction t generalizing path q with
  | empty => simp [insert, find?_single, find?]
  | branch n w below beside ihBelow ihBeside =>
    cases path with
    | nil => cases q <;> simp [insert]
    | cons name rest =>
      cases q with
      | nil => simp
      | cons m tail =>
        rw [insert]
        split
        · split <;> grind [find?]
        · grind [find?]

/-- Pruning takes away exactly the paths that begin with the pruned one. -/
theorem find?_prune (t : Trie α) (path q : List String) :
    (t.prune path).find? q = if path <+: q then none else t.find? q := by
  induction t generalizing path q with
  | empty => simp [prune, find?]
  | branch n w below beside ihBelow ihBeside =>
    cases path with
    | nil => simp [prune, find?]
    | cons name rest =>
      cases q with
      | nil => simp
      | cons m tail =>
        simp only [prune, List.cons_prefix_cons]
        split
        · split <;> grind [find?]
        · grind [find?]

end Trie

end Runbook
