import ClassLang.Environment

/-!
# What names mean after a change

Look-ups see an environment as one list of scopes, innermost first
(`lookup?_eq`), and so does setting a variable (`scopes_set`). What setting does
to a list of scopes is said once, for `setFirst`: the first scope that has the
name gets the value, no other scope changes, and no name moves from one scope
to another.
-/

namespace ClassLang

variable (name key : String) (value : Value) (scopes rest : List Scope)

/-! ## Lists of scopes -/

/-- A name is in some scope exactly if a look-up through them finds it. -/
theorem any_contains_eq :
    scopes.any (·.contains name) = (scopes.findSome? (·.vars.get? name)).isSome := by
  rw [List.isSome_findSome?]
  rfl

/-- Setting a variable that a scope does not have changes nothing. -/
theorem Scope.set_of_not_contains {s : Scope} (h : s.contains name = false) :
    s.set name value = s := by
  have hvars : s.vars.set name value = s.vars := Table.ext_get? fun key => by
    rw [Table.get?_set]
    split
    · next heq =>
      subst heq
      rw [Option.not_isSome_iff_eq_none.mp (Bool.eq_false_iff.mp h)]
      rfl
    · rfl
  rw [set, hvars]

/-- In front of other scopes, setting stays there if one of the scopes has the
name, and else it leaves them alone. -/
theorem setFirst_append :
    setFirst name value (scopes ++ rest)
      = if scopes.any (·.contains name) then setFirst name value scopes ++ rest
        else scopes ++ setFirst name value rest := by
  induction scopes with
  | nil => rfl
  | cons s scopes ih =>
    rw [List.cons_append, setFirst, setFirst, List.any_cons, ih]
    rcases s.contains name with _ | _
    · rw [Bool.false_or, if_neg Bool.false_ne_true, if_neg Bool.false_ne_true]
      split <;> rfl
    · rfl

/-- There are as many scopes as before. -/
theorem length_setFirst : (setFirst name value scopes).length = scopes.length := by
  induction scopes with
  | nil => rfl
  | cons s scopes ih =>
    rw [setFirst]
    split
    · rfl
    · rw [List.length_cons, List.length_cons, ih]

/-- Through the scopes, the name that was set is found with its new value, and only
if it was found before. -/
theorem findSome?_vars_setFirst :
    (setFirst name value scopes).findSome? (·.vars.get? key)
      = if name = key then (scopes.findSome? (·.vars.get? key)).map fun _ => value
        else scopes.findSome? (·.vars.get? key) := by
  induction scopes with
  | nil => simp [setFirst]
  | cons s scopes ih =>
    rw [setFirst]
    by_cases hkey : name = key
    · subst hkey
      rw [if_pos rfl] at ih ⊢
      rcases hs : s.vars.get? name with _ | old
      · rw [Scope.contains, Table.contains, hs, if_neg (by decide), List.findSome?_cons, hs,
          List.findSome?_cons, hs, ih]
      · rw [Scope.contains, Table.contains, hs, if_pos (by rfl), List.findSome?_cons, Scope.set,
          Table.get?_set, if_pos rfl, List.findSome?_cons, hs]
        rfl
    · rw [if_neg hkey] at ih ⊢
      split
      · rw [List.findSome?_cons, List.findSome?_cons, Scope.set, Table.get?_set, if_neg hkey]
      · rw [List.findSome?_cons, List.findSome?_cons, ih]

/-- Routines are found as before. -/
theorem findSome?_methods_setFirst :
    (setFirst name value scopes).findSome? (·.methods.get? key)
      = scopes.findSome? (·.methods.get? key) := by
  induction scopes with
  | nil => rfl
  | cons s scopes ih =>
    rw [setFirst]
    split
    · rfl
    · rw [List.findSome?_cons, List.findSome?_cons, ih]

/-! ## Environments -/

namespace Environment

variable (e : Environment)

/-- Look-ups go through all scopes. -/
theorem lookup?_eq : e.lookup? name = e.scopes.findSome? (·.vars.get? name) := by
  rw [lookup?, scopes, List.findSome?_append, List.findSome?_singleton]

/-- A routine is looked up from the innermost scope to the global one. -/
theorem method?_eq : e.method? name = e.scopes.findSome? (·.methods.get? name) := by
  rw [method?, scopes, List.findSome?_append, List.findSome?_singleton]

/-- A variable is there exactly if it can be looked up. -/
theorem contains_eq : e.contains name = (e.lookup? name).isSome := by
  rw [lookup?_eq, ← any_contains_eq, contains, scopes, List.any_append, List.any_cons,
    List.any_nil, Bool.or_false]

/-- Setting a variable goes through all scopes. -/
theorem scopes_set : (e.set name value).scopes = setFirst name value e.scopes := by
  rw [scopes, scopes, setFirst_append, set]
  split
  · rfl
  · rw [setFirst]
    split
    · rfl
    · next h => rw [Scope.set_of_not_contains name value (Bool.eq_false_iff.mpr h), setFirst]

/-- Setting a variable changes what its name means, if it means anything, and
what no other name means. -/
theorem lookup?_set :
    (e.set name value).lookup? key
      = if name = key then (e.lookup? key).map fun _ => value else e.lookup? key := by
  rw [lookup?_eq, scopes_set, findSome?_vars_setFirst, ← lookup?_eq]

theorem method?_set : (e.set name value).method? key = e.method? key := by
  rw [method?_eq, scopes_set, findSome?_methods_setFirst, ← method?_eq]

end Environment

end ClassLang
