import ClassLang.Proofs.Lookup
import ClassLang.Proofs.Safe

/-!
# Variables by level

A name may belong to variables of several scopes. To speak of one of them takes
its level as well: how many scopes there are above its own.

* `Environment.level?` — the level of the innermost variable of a name, which
  is the one that look-ups find and that setting changes. It depends on the
  names of the variables only.
* `Environment.slotAt?` — what the variable of a name and a level holds.
-/

namespace ClassLang

namespace Environment

/-- The level of the innermost variable of a name. -/
def level? (e : Environment) (name : String) : Option Nat :=
  e.scopes.findIdx? (·.contains name)

/-- What the variable of a name holds whose scope is at a level. -/
def slotAt? (e : Environment) (level : Nat) (name : String) : Option Value :=
  e.scopes[level]?.bind (·.vars.get? name)

end Environment

/-! ## Lists of scopes -/

section

variable (name : String) (value : Value)

/-- At which level a name stands depends on the names alone. -/
theorem findIdx?_contains_eq (scopes : List Scope) :
    scopes.findIdx? (·.contains name) = (namesOf scopes).findIdx? (decide <| name ∈ ·) := by
  rw [namesOf, List.findIdx?_map]
  congr 1
  funext s
  rw [Function.comp_apply, Scope.contains, Bool.eq_iff_iff, decide_eq_true_iff,
    Table.mem_names_iff]

/-- Looking up a name finds the innermost variable, at the level of the name. -/
theorem findSome?_vars_eq (scopes : List Scope) :
    scopes.findSome? (·.vars.get? name)
      = (scopes.findIdx? (·.contains name)).bind fun level =>
          scopes[level]?.bind (·.vars.get? name) := by
  induction scopes with
  | nil => rfl
  | cons s rest ih =>
    rw [List.findSome?_cons, List.findIdx?_cons, Scope.contains, Table.contains]
    rcases hs : s.vars.get? name with _ | v
    · rw [Option.isSome_none, if_neg Bool.false_ne_true, Option.bind_map]
      exact ih
    · rw [Option.isSome_some, if_pos rfl, Option.bind_some, List.getElem?_cons_zero,
        Option.bind_some, hs]

/-- Setting changes the scope at the level of the name, and no other. -/
theorem getElem?_setFirst (scopes : List Scope) (level : Nat) :
    (setFirst name value scopes)[level]?
      = if scopes.findIdx? (·.contains name) = some level
        then scopes[level]?.map (·.set name value) else scopes[level]? := by
  induction scopes generalizing level with
  | nil => rfl
  | cons s rest ih =>
    rw [setFirst, List.findIdx?_cons]
    split
    · cases level with
      | zero => rfl
      | succ level => simp
    · cases level with
      | zero => simp
      | succ level =>
        rw [List.getElem?_cons_succ, List.getElem?_cons_succ, ih]
        simp

/-- Assignment changes no names. -/
theorem namesOf_setFirst (scopes : List Scope) :
    namesOf (setFirst name value scopes) = namesOf scopes := by
  have hstable : ∀ ψ ∈ named (namesOf scopes), Scope.Stable (fun _ => True) ψ := stable_named
  exact fit_named_iff.mp (fit_setFirst hstable trivial value (fit_named_iff.mpr rfl))

end

/-! ## Environments -/

namespace Environment

variable {e e' : Environment} {name key : String} {level : Nat}

/-- The level of a name depends on the names of the variables only. -/
theorem level?_congr (h : namesOf e'.scopes = namesOf e.scopes) (name : String) :
    e'.level? name = e.level? name := by
  rw [level?, level?, findIdx?_contains_eq, findIdx?_contains_eq, h]

/-- Look-ups find the variable at the level of the name. -/
theorem lookup?_eq_bind_level? (e : Environment) (name : String) :
    e.lookup? name = (e.level? name).bind (e.slotAt? · name) := by
  rw [lookup?_eq, findSome?_vars_eq]
  rfl

/-- A name has a level exactly if there is a variable of it. -/
theorem isSome_level? (e : Environment) (name : String) :
    (e.level? name).isSome = e.contains name := by
  rw [level?, List.findIdx?_isSome, contains_eq, lookup?_eq, any_contains_eq]

/-- At the level of a name there is a variable, which looking it up finds. -/
theorem slotAt?_of_level? (h : e.level? name = some level) :
    ∃ v, e.slotAt? level name = some v ∧ e.lookup? name = some v := by
  have hlookup := e.lookup?_eq_bind_level? name
  rw [h, Option.bind_some] at hlookup
  have hcontains := e.isSome_level? name
  rw [h, contains_eq, hlookup] at hcontains
  obtain ⟨v, hv⟩ := Option.isSome_iff_exists.mp hcontains.symm
  exact ⟨v, hv, hlookup.trans hv⟩

/-- Setting a variable moves no name to another level. -/
theorem level?_set (e : Environment) (name : String) (value : Value) (key : String) :
    (e.set name value).level? key = e.level? key := by
  refine level?_congr ?_ key
  rw [scopes_set, namesOf_setFirst]

/-- Setting a variable changes what the one at the level of the name holds. -/
theorem slotAt?_set_self (value : Value) (h : e.level? name = some level) :
    (e.set name value).slotAt? level name = some value := by
  obtain ⟨v, hv, -⟩ := slotAt?_of_level? h
  obtain ⟨s, hs, hget⟩ := Option.bind_eq_some_iff.mp hv
  rw [level?] at h
  rw [slotAt?, scopes_set, getElem?_setFirst, if_pos h, hs, Option.map_some, Option.bind_some,
    Scope.set, Table.get?_set, if_pos rfl, hget, Option.map_some]

/-- Setting a variable changes nothing that another variable holds. -/
theorem slotAt?_set_of_ne (value : Value) (h : name = key → e.level? name ≠ some level) :
    (e.set name value).slotAt? level key = e.slotAt? level key := by
  rw [slotAt?, slotAt?, scopes_set, getElem?_setFirst]
  split
  · next hlevel =>
    have hne : name ≠ key := fun heq => h heq hlevel
    rcases e.scopes[level]? with _ | s
    · rfl
    · rw [Option.map_some, Option.bind_some, Option.bind_some, Scope.set, Table.get?_set,
        if_neg hne]
  · rfl

end Environment

end ClassLang
