import Runbook.FileSystem.Walk

/-!
# Where a path leads

`walk` follows a path and reports what is in its way. Most facts about paths are about those that
lead somewhere, and for these the way is laid down in `Reaches`, one constructor for each kind of
step. `walk_eq_ok_iff` says that the two agree. What holds of every path that leads somewhere is
then shown by induction over its way, and the reasons for which a walk fails do not come up.
-/

namespace Runbook.FileSystem

variable {fs : FileSystem} {create : Bool} {budget : Nat} {here there : Location} {name : String}
  {rest : List String}

/-! ## The way of a path -/

/-- Nothing but what stands at the place of the name decides about the next step of a walk. -/
structure IsStep (create : Bool) (here : Location) (name : String) (rest : List String) : Prop where
  /-- The name does not stay in the directory. -/
  moves : ¬(name = "" ∨ name = ".")
  /-- The name does not lead up. -/
  down : name ≠ ".."
  /-- A file that may have to be created is named without a slash behind it. -/
  noSlash : ¬(create && rest.contains "" && rest.all (· = "")) = true
  /-- The directory has not been removed. -/
  stands : ¬here.isRemoved = true
  /-- The name is not too long. -/
  short : ¬isLongName name = true

instance : Decidable (IsStep create here name rest) :=
  decidable_of_iff (¬(name = "" ∨ name = ".") ∧ name ≠ ".." ∧
      ¬(create && rest.contains "" && rest.all (· = "")) = true ∧ ¬here.isRemoved = true ∧
      ¬isLongName name = true)
    ⟨fun ⟨moves, down, noSlash, stands, short⟩ ↦ ⟨moves, down, noSlash, stands, short⟩,
      fun h ↦ ⟨h.moves, h.down, h.noSlash, h.stands, h.short⟩⟩

/-- The way of a walk from the directory `here` along `names`, over at most `budget` links, to the
place at its end. -/
inductive Reaches (fs : FileSystem) (create : Bool) :
    (budget : Nat) → (here : Location) → (names : List String) → Location → Prop where
  /-- No name is left. -/
  | arrived {budget : Nat} {here : Location} : Reaches fs create budget here [] here
  /-- An empty name or a dot. -/
  | stay {budget : Nat} {here there : Location} {name : String} {rest : List String}
      (hname : name = "" ∨ name = ".") (hrest : Reaches fs create budget here rest there) :
      Reaches fs create budget here (name :: rest) there
  /-- A double dot. -/
  | up {budget : Nat} {here there : Location} {rest : List String}
      (hrest : Reaches fs create budget here.tail rest there) :
      Reaches fs create budget here (".." :: rest) there
  /-- A last name that nothing has. -/
  | vacant {budget : Nat} {here : Location} {name : String} (hstep : IsStep create here name [])
      (hnode : fs.node? (name :: here) = none) :
      Reaches fs create budget here [name] (name :: here)
  /-- A last name that a file has. -/
  | file {budget : Nat} {here : Location} {name : String} {bytes : List UInt8} {executable : Bool}
      (hstep : IsStep create here name [])
      (hnode : fs.node? (name :: here) = some (.file bytes executable)) :
      Reaches fs create budget here [name] (name :: here)
  /-- The name of a directory. -/
  | down {budget : Nat} {here there : Location} {name : String} {rest : List String}
      (hstep : IsStep create here name rest) (hnode : fs.node? (name :: here) = some .directory)
      (hrest : Reaches fs create budget (name :: here) rest there) :
      Reaches fs create budget here (name :: rest) there
  /-- The name of a link. -/
  | follow {budget : Nat} {here there : Location} {name target : String} {rest : List String}
      (hstep : IsStep create here name rest)
      (hnode : fs.node? (name :: here) = some (.link target)) (htarget : target ≠ "")
      (hrest : Reaches fs create budget (Route.ofString here target).start
        ((Route.ofString here target).names ++ rest) there) :
      Reaches fs create (budget + 1) here (name :: rest) there

theorem walk_of_isStep (h : IsStep create here name rest) :
    fs.walk create budget here (name :: rest) = match fs.node? (name :: here) with
      | none => if rest = [] then .ok (name :: here) else .error .notFound
      | some .directory => fs.walk create budget (name :: here) rest
      | some (.file ..) => if rest = [] then .ok (name :: here) else .error .notDirectory
      | some (.link target) =>
        match budget with
        | 0 => .error .tooManyLinks
        | budget + 1 =>
          if target = "" then .error .notFound
          else fs.walk create budget (Route.ofString here target).start
            ((Route.ofString here target).names ++ rest) := by
  have hwalk := fs.walk_cons create budget here name rest
  rw [if_neg h.moves, if_neg h.down, if_neg h.noSlash, if_neg h.stands, if_neg h.short] at hwalk
  exact hwalk

theorem isStep_of_walk (hmoves : ¬(name = "" ∨ name = ".")) (hdown : name ≠ "..")
    (h : fs.walk create budget here (name :: rest) = .ok there) : IsStep create here name rest := by
  rw [walk_cons, if_neg hmoves, if_neg hdown] at h
  split at h
  · contradiction
  next hslash =>
  split at h
  · contradiction
  next hstands =>
  split at h
  · contradiction
  next hshort => exact ⟨hmoves, hdown, hslash, hstands, hshort⟩

theorem reaches_of_walk {names : List String}
    (h : fs.walk create budget here names = .ok there) :
    fs.Reaches create budget here names there := by
  -- A link trades one of the budget for the names of its target, and any other step uses up a name.
  induction budget using Nat.strongRecOn generalizing here names with
  | ind budget ihLink =>
    induction names generalizing here with
    | nil =>
      rw [walk_nil] at h
      obtain rfl := Except.ok.inj h
      exact .arrived
    | cons name rest ihName =>
      by_cases hmoves : name = "" ∨ name = "."
      · rw [walk_cons, if_pos hmoves] at h
        exact .stay hmoves (ihName h)
      by_cases hdown : name = ".."
      · subst hdown
        rw [walk_cons, if_neg hmoves, if_pos rfl] at h
        exact .up (ihName h)
      have hstep := isStep_of_walk hmoves hdown h
      rw [walk_of_isStep hstep] at h
      rcases hnode : fs.node? (name :: here) with _ | ⟨bytes, x⟩ | _ | target
      · simp only [hnode] at h
        split at h
        · next hrest =>
          subst hrest
          obtain rfl := Except.ok.inj h
          exact .vacant hstep hnode
        · contradiction
      · simp only [hnode] at h
        split at h
        · next hrest =>
          subst hrest
          obtain rfl := Except.ok.inj h
          exact .file hstep hnode
        · contradiction
      · simp only [hnode] at h
        exact .down hstep hnode (ihName h)
      · simp only [hnode] at h
        rcases budget with _ | left
        · contradiction
        · dsimp only at h
          split at h
          · contradiction
          · next htarget =>
            exact .follow hstep hnode htarget (ihLink left (Nat.lt_succ_self left) h)

/-- **Ways and walks.** A walk leads to a place exactly if there is a way to it. -/
theorem walk_eq_ok_iff {names : List String} :
    fs.walk create budget here names = .ok there ↔ fs.Reaches create budget here names there := by
  refine ⟨reaches_of_walk, fun h ↦ ?_⟩
  induction h with
  | arrived => exact walk_nil _ _ _ _
  | stay hname _ ih => rw [walk_cons, if_pos hname, ih]
  | up _ ih => rw [walk_cons, if_neg (by decide), if_pos rfl, ih]
  | vacant hstep hnode | file hstep hnode =>
    rw [walk_of_isStep hstep, hnode]
    rfl
  | down hstep hnode _ ih =>
    rw [walk_of_isStep hstep, hnode]
    exact ih
  | follow hstep hnode htarget _ ih =>
    rw [walk_of_isStep hstep, hnode]
    dsimp only
    rw [if_neg htarget, ih]

theorem locate_of_reaches {r : Route} (h : fs.Reaches false linkBudget r.start r.names there)
    (hshort : r.isLong = false := by decide) : fs.locate r = .ok there := by
  rw [locate, hshort, if_neg Bool.false_ne_true, walk_eq_ok_iff.mpr h]

theorem nodeAt_of_reaches {r : Route} {node : Node}
    (h : fs.Reaches false linkBudget r.start r.names there) (hnode : fs.node? there = some node)
    (hshort : r.isLong = false := by decide) : fs.nodeAt r = .ok node := by
  rw [nodeAt, locate_of_reaches h hshort]
  dsimp only
  rw [hnode]

theorem nodeAt_of_vacant {r : Route} (h : fs.Reaches false linkBudget r.start r.names there)
    (hnode : fs.node? there = none) (hshort : r.isLong = false := by decide) :
    fs.nodeAt r = .error .notFound := by
  rw [nodeAt, locate_of_reaches h hshort]
  dsimp only
  rw [hnode]

/-! ## Ways and their parts -/

namespace Reaches

theorem isStep_of_create (h : IsStep create here name rest) : IsStep false here name rest :=
  ⟨h.moves, h.down, by rw [Bool.false_and, Bool.false_and]; exact Bool.false_ne_true, h.stands,
    h.short⟩

theorem of_create {names : List String} (h : fs.Reaches create budget here names there) :
    fs.Reaches false budget here names there := by
  induction h with
  | arrived => exact .arrived
  | stay hname _ ih => exact .stay hname ih
  | up _ ih => exact .up ih
  | vacant hstep hnode => exact .vacant (isStep_of_create hstep) hnode
  | file hstep hnode => exact .file (isStep_of_create hstep) hnode
  | down hstep hnode _ ih => exact .down (isStep_of_create hstep) hnode ih
  | follow hstep hnode htarget _ ih => exact .follow (isStep_of_create hstep) hnode htarget ih

/-- A way to a directory can be gone on with from there, with what is left of its budget. -/
theorem exists_append {names : List String} (h : fs.Reaches false budget here names there)
    (hthere : fs.node? there = some .directory) :
    ∃ left, ∀ {more : List String} {place : Location}, fs.Reaches false left there more place →
      fs.Reaches false budget here (names ++ more) place := by
  have hlonger : ∀ {here : Location} {name : String} {rest : List String} (more : List String),
      IsStep false here name rest → IsStep false here name (rest ++ more) :=
    fun _ hstep ↦ ⟨hstep.moves, hstep.down, by simp, hstep.stands, hstep.short⟩
  induction h with
  | arrived => exact ⟨_, fun hmore ↦ hmore⟩
  | stay hname _ ih =>
    obtain ⟨left, hleft⟩ := ih hthere
    exact ⟨left, fun hmore ↦ .stay hname (hleft hmore)⟩
  | up _ ih =>
    obtain ⟨left, hleft⟩ := ih hthere
    exact ⟨left, fun hmore ↦ .up (hleft hmore)⟩
  | vacant _ hnode | file _ hnode =>
    rw [hnode] at hthere
    cases hthere
  | down hstep hnode _ ih =>
    obtain ⟨left, hleft⟩ := ih hthere
    exact ⟨left, fun {more _} hmore ↦ .down (hlonger more hstep) hnode (hleft hmore)⟩
  | follow hstep hnode htarget _ ih =>
    obtain ⟨left, hleft⟩ := ih hthere
    refine ⟨left, fun {more _} hmore ↦ .follow (hlonger more hstep) hnode htarget ?_⟩
    have hgo := hleft hmore
    rwa [List.append_assoc] at hgo

end Reaches

end Runbook.FileSystem
