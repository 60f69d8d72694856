import ClassLang.Proofs.Spec
import ClassLang.Interpreter

/-!
# The shape of a state

What a running program can neither leave behind nor lose: how many scopes there
are, which variables and routines each of them has, which natives there are,
and how deeply calls are nested. Values, objects and output are no part of it.

* `State.shape` — the view.
* `Shape.below` — the same without the scope that declarations go to.
* `Shape.Grows` — at most one name more in that scope.

Changing what slots hold leaves the shape alone; a declaration grows it; and a
scope that is opened and closed again leaves the shape below it.
-/

namespace ClassLang

/-- The part of a scope that is fixed by its declarations: the names of its
variables, and its routines. -/
def Scope.shape (s : Scope) : List String × Table Routine := (s.vars.names, s.methods)

/-- What assignments leave alone in a state. -/
@[ext] structure Shape where
  /-- the variable names and the routines of the scopes, innermost first -/
  scopes : List (List String × Table Routine)
  /-- the natives -/
  natives : Table Native
  /-- how deeply calls and constructions are nested -/
  depth : Nat

/-- The shape without its innermost scope. -/
def Shape.below (σ : Shape) : Shape := { σ with scopes := σ.scopes.tail }

/-- At most one name is added, and only to the innermost scope. -/
inductive Shape.Grows (σ : Shape) : Shape → Prop where
  /-- nothing is added -/
  | same : σ.Grows σ
  /-- one name is added -/
  | one {names names' : List String} {methods : Table Routine}
      {rest : List (List String × Table Routine)} (name : String) :
    σ.scopes = (names, methods) :: rest →
    (∀ other, other ∈ names' ↔ other = name ∨ other ∈ names) →
    σ.Grows { σ with scopes := (names', methods) :: rest }

/-- A name more in the innermost scope does not show below it. -/
theorem Shape.Grows.below_eq {σ τ : Shape} (h : σ.Grows τ) : τ.below = σ.below := by
  cases h with
  | same => rfl
  | one name hscopes => simp [Shape.below, hscopes]

namespace Environment

/-- The shapes of all scopes, innermost first. -/
def shapes (e : Environment) : List (List String × Table Routine) := e.scopes.map Scope.shape

/-- The shapes are those of the inner scopes, and of the global one below. -/
theorem shapes_eq (e : Environment) :
    e.shapes = e.inner.map Scope.shape ++ [e.global.shape] := by
  rw [shapes, scopes, List.map_append, List.map_cons, List.map_nil]

end Environment

/-- The shape of a state. -/
def State.shape (s : State) : Shape where
  scopes := s.environment.shapes
  natives := s.environment.natives
  depth := s.depth

/-- No `return` is on its way out. -/
def State.IsQuiet (s : State) : Prop := s.environment.pendingReturn = none

theorem State.isReturning_eq_false_iff {s : State} :
    s.environment.isReturning = false ↔ s.IsQuiet := by
  rw [Environment.isReturning, IsQuiet, Option.isSome_eq_false_iff, Option.isNone_iff_eq_none]

/-! ## Assignments -/

/-- Setting a variable leaves the names and the routines of its scope as they
were. -/
theorem Scope.shape_set (s : Scope) (name : String) (value : Value) :
    (s.set name value).shape = s.shape := by
  rw [shape, set, Table.names_set, shape]

/-- So it does in the scope it is found in, among others. -/
theorem map_shape_setFirst (name : String) (value : Value) (scopes : List Scope) :
    (setFirst name value scopes).map Scope.shape = scopes.map Scope.shape := by
  induction scopes with
  | nil => rfl
  | cons s rest ih =>
    rw [setFirst]
    split
    · rw [List.map_cons, List.map_cons, Scope.shape_set]
    · rw [List.map_cons, List.map_cons, ih]

namespace Environment

/-- Setting a variable leaves all scopes with their names and routines. -/
theorem shapes_set (e : Environment) (name : String) (value : Value) :
    (e.set name value).shapes = e.shapes := by
  rw [set, shapes_eq, shapes_eq]
  split
  · rw [map_shape_setFirst]
  · rw [Scope.shape_set]

/-- Setting a variable leaves the natives alone. -/
theorem natives_set (e : Environment) (name : String) (value : Value) :
    (e.set name value).natives = e.natives := by
  rw [set]
  split <;> rfl

/-- It leaves a `return` on its way out alone. -/
theorem pendingReturn_set (e : Environment) (name : String) (value : Value) :
    (e.set name value).pendingReturn = e.pendingReturn := by
  rw [set]
  split <;> rfl

end Environment

namespace State

/-- Filling a slot leaves the shape alone. -/
theorem shape_put (s : State) (slot : Slot) (value : Value) :
    (s.put slot value).shape = s.shape := by
  cases slot with
  | var name =>
    ext1
    · exact s.environment.shapes_set name value
    · exact s.environment.natives_set name value
    · rfl
  | field owner name => rfl

/-- Filling a slot makes no `return`. -/
theorem isQuiet_put {s : State} (h : s.IsQuiet) (slot : Slot) (value : Value) :
    (s.put slot value).IsQuiet := by
  cases slot with
  | var name => exact (s.environment.pendingReturn_set name value).trans h
  | field owner name => exact h

end State

/-! ## Declarations -/

namespace Environment

/-- What a declaration changes: it adds a name to the current scope. -/
theorem declare_eq_ok {e e' : Environment} {name : String} {value : Value}
    (h : e.declare name value = .ok e') :
    e'.natives = e.natives ∧ e'.pendingReturn = e.pendingReturn ∧
      e.shapes = e.current.shape :: e.shapes.tail ∧
      e'.shapes
        = ((e.current.vars.insert name value).names, e.current.methods) :: e.shapes.tail := by
  unfold declare Scope.declare at h
  rcases hinner : e.inner with _ | ⟨s, rest⟩ <;> rw [hinner] at h <;> simp only at h <;>
    split at h <;> cases h
  · refine ⟨rfl, rfl, ?_, ?_⟩ <;> simp [shapes_eq, current, hinner, Scope.shape]
  · refine ⟨rfl, rfl, ?_, ?_⟩ <;> simp [shapes_eq, current, hinner, Scope.shape]

end Environment

namespace State

/-- A declaration grows the shape. -/
theorem grows_of_declare {s : State} {e : Environment} {name : String} {value : Value}
    (h : s.environment.declare name value = .ok e) :
    s.shape.Grows { s with environment := e }.shape := by
  obtain ⟨hnatives, -, hbefore, hafter⟩ := Environment.declare_eq_ok h
  have hshape : ({ s with environment := e } : State).shape
      = { s.shape with
          scopes := ((s.environment.current.vars.insert name value).names,
            s.environment.current.methods) :: s.environment.shapes.tail } := by
    rw [State.shape, hafter, hnatives]
    rfl
  rw [hshape]
  exact .one name hbefore fun _ => Table.mem_names_insert

end State

/-! ## Scopes that are opened and closed -/

namespace Environment

/-- Closing a scope leaves the shapes below it, if there is a scope to
close. -/
theorem shapes_endBlock {e : Environment} (h : 1 < e.shapes.length) :
    e.endBlock.shapes = e.shapes.tail := by
  rcases hinner : e.inner with _ | ⟨s, rest⟩
  · rw [shapes_eq, hinner] at h
    simp at h
  · rw [shapes_eq, shapes_eq, endBlock, hinner]
    rfl

/-- There is always the global scope. -/
theorem shapes_ne_nil (e : Environment) : e.shapes ≠ [] := by
  simp [shapes_eq]

end Environment

end ClassLang
