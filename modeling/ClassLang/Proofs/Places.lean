import ClassLang.Call
import ClassLang.Native
import ClassLang.Operator
import ClassLang.Program.WellFormed
import ClassLang.Run

/-!
# Where objects stand does not matter

A reference holds the place of its object in the heap, but a program cannot see
places: it can only compare them. So values whose objects stand elsewhere
(`Value.relocate`) have the same types and texts, operators find the same
results for them, and checks the same errors. `f` says where an object is to be
found that used to be at some place; no two may come to one place.

The second half says the same of heaps. `Heap.Extends earlier h h'` is the heap
`h`, made again behind the objects `earlier`: every object has moved up by the
number of those.

Natives are given objects and may look into them, so of a native it has to be said
that it does not see places (`Native.IgnoresPlaces`).
-/

namespace ClassLang

variable {f : Nat → Nat}

/-- The reference to the object at its new place. -/
def Ref.relocate (f : Nat → Nat) (ref : Ref) : Ref := { ref with location := f ref.location }

/-- The value, its object at a new place if it is one. -/
def Value.relocate (f : Nat → Nat) : Value → Value
  | object ref => object (ref.relocate f)
  | v => v

/-- The object with what its fields hold at new places. -/
def Object.relocate (f : Nat → Nat) (o : Object) : Object :=
  { o with fields := o.fields.map (Value.relocate f) }

/-! ## Tables -/

namespace Table

variable {α β : Type}

/-- Looking up in a changed list is changing what is looked up. -/
theorem find?_map (g : α → β) (name : String) (entries : List (String × α)) :
    find? name (entries.map fun (key, value) => (key, g value)) = (find? name entries).map g := by
  induction entries with
  | nil => rfl
  | cons entry rest ih =>
    rw [List.map_cons, find?, find?, ih]
    split <;> rfl

@[simp] theorem get?_map (g : α → β) (t : Table α) (name : String) :
    (t.map g).get? name = (t.get? name).map g :=
  find?_map g name t.entries

@[simp] theorem contains_map (g : α → β) (t : Table α) (name : String) :
    (t.map g).contains name = t.contains name := by
  rw [contains, get?_map, Option.isSome_map, contains]

@[simp] theorem names_map (g : α → β) (t : Table α) : (t.map g).names = t.names := by
  simp [names, map]

/-- What is added to a changed table is changed too. -/
theorem map_insert (g : α → β) (t : Table α) (name : String) (value : α) :
    (t.insert name value).map g = (t.map g).insert name (g value) :=
  ext_get? fun key => by
    rw [get?_map, get?_insert, get?_insert, get?_map]
    split <;> rfl

/-- What is set in a changed table is changed too. -/
theorem map_set (g : α → β) (t : Table α) (name : String) (value : α) :
    (t.set name value).map g = (t.map g).set name (g value) :=
  ext_get? fun key => by
    rw [get?_map, get?_set, get?_set, get?_map, Option.map_map]
    split
    · rw [Option.map_map]
      rfl
    · rfl

theorem map_id (t : Table α) : t.map id = t :=
  ext_get? fun name => by rw [get?_map, Option.map_id]; rfl

end Table

/-! ## Values -/

namespace Value

@[simp] theorem type_relocate (v : Value) : (v.relocate f).type = v.type := by cases v <;> rfl

@[simp] theorem text_relocate (v : Value) : (v.relocate f).text = v.text := by cases v <;> rfl

@[simp] theorem isTruthy_relocate (v : Value) : (v.relocate f).isTruthy = v.isTruthy := by
  cases v <;> rfl

/-- Two objects at new places are one and the same exactly if they were. -/
theorem equals_relocate (hf : Function.Injective f) (l r : Value) :
    (l.relocate f).equals (r.relocate f) = l.equals r := by
  cases l with
  | object a =>
    cases r with
    | object b =>
      change (f a.location == f b.location) = (a.location == b.location)
      exact Bool.eq_iff_iff.mpr (by simpa using hf.eq_iff)
    | _ => rfl
  | _ => cases r <;> rfl

theorem relocate_id (v : Value) : v.relocate id = v := by cases v <;> rfl

end Value

/-! ## Operators -/

/-- The check of operands looks at their types, which stay. -/
theorem checkOperands_relocate (e : Expr) (l r : Value) :
    checkOperands e (l.relocate f) (r.relocate f) = checkOperands e l r := by
  rw [checkOperands, checkOperands, Value.type_relocate, Value.type_relocate]

/-- Arithmetic gives no objects. -/
theorem map_relocate_exactly (e : Expr) (n : Option Integer) :
    (exactly e n).map (Value.relocate f) = exactly e n := by
  cases n <;> rfl

/-- No arithmetical operator gives an object, and none looks into one. -/
theorem BinaryOp.apply_relocate (hf : Function.Injective f) (op : BinaryOp) (e : Expr)
    (l r : Value) :
    op.apply e (l.relocate f) (r.relocate f) = (op.apply e l r).map (Value.relocate f) := by
  cases op with
  | eq => exact congrArg (fun b => Except.ok (Value.boolean b)) (Value.equals_relocate hf l r)
  | ne => exact congrArg (fun b => Except.ok (Value.boolean !b)) (Value.equals_relocate hf l r)
  | add | sub | mul =>
    cases l <;> cases r <;>
      first | rfl | exact (map_relocate_exactly _ _).symm
  | div =>
    cases l <;> cases r <;> try rfl
    all_goals
      simp only [apply, Value.relocate]
      split <;> rfl

/-- Comparisons are of numbers, not of objects. -/
theorem RelationOp.apply_relocate (op : RelationOp) (l r : Value) :
    op.apply (l.relocate f) (r.relocate f) = (op.apply l r).map (Value.relocate f) := by
  cases l <;> cases r <;> rfl

/-! ## Checks of calls -/

namespace Routine

/-- Parameters are checked against the types of arguments, which stay. -/
theorem checkTypes_relocate (routine : Routine) :
    ∀ (parameters : List Parameter) (values : List Value),
      routine.checkTypes parameters (values.map (Value.relocate f))
        = routine.checkTypes parameters values
  | [], _ => rfl
  | _ :: _, [] => rfl
  | p :: parameters, v :: values => by
    rw [List.map_cons, checkTypes, checkTypes, Value.type_relocate,
      checkTypes_relocate routine parameters values]

theorem checkArguments_relocate (routine : Routine) (values : List Value) :
    routine.checkArguments (values.map (Value.relocate f)) = routine.checkArguments values := by
  rw [checkArguments, checkArguments, List.length_map, checkTypes_relocate]

/-- So is the result against the type it is declared with. -/
theorem checkResult_relocate (routine : Routine) (v : Value) :
    routine.checkResult (v.relocate f) = routine.checkResult v := by
  rw [checkResult, checkResult, Value.type_relocate]

end Routine

/-! ## Heaps -/

/-- Where an object stands behind others. -/
def behind (earlier : Array Object) (location : Nat) : Nat := location + earlier.size

/-- No two objects come to one place behind the earlier ones. -/
theorem injective_behind (earlier : Array Object) : Function.Injective (behind earlier) :=
  fun _ _ h => Nat.add_right_cancel h

/-- The second heap holds the objects of the first behind some that are there
already. -/
def Heap.Extends (earlier : Array Object) (h h' : Heap) : Prop :=
  h'.objects = earlier ++ h.objects.map (Object.relocate (behind earlier))

/-- Behind no objects nothing moves. -/
theorem behind_empty : behind #[] = id := rfl

theorem Object.relocate_id (o : Object) : o.relocate id = o := by
  have hmap : o.fields.map (Value.relocate id) = o.fields := by
    rw [funext Value.relocate_id]
    exact o.fields.map_id
  rw [relocate, hmap]

/-- Behind no objects the heap is the same. -/
theorem Heap.extends_empty_iff {h h' : Heap} : h.Extends #[] h' ↔ h' = h := by
  have hmap : h.objects.map (Object.relocate (behind #[])) = h.objects := by
    rw [behind_empty, funext Object.relocate_id, Array.map_id']
  rw [Extends, hmap, Array.empty_append]
  exact ⟨fun heq => congrArg Heap.mk heq, congrArg Heap.objects⟩

namespace Heap.Extends

variable {earlier : Array Object} {h h' : Heap}

/-- An object is found behind the earlier ones, with its fields at new places. -/
theorem object? (hh : Extends earlier h h') (location : Nat) :
    h'.object? (behind earlier location)
      = (h.object? location).map (Object.relocate (behind earlier)) := by
  rw [Heap.object?, hh, behind, Array.getElem?_append_right (Nat.le_add_left ..),
    Nat.add_sub_cancel, Array.getElem?_map, Heap.object?]

/-- So are its fields. -/
theorem fields (hh : Extends earlier h h') (ref : Ref) :
    h'.fields (ref.relocate (behind earlier))
      = (h.fields ref).map (Value.relocate (behind earlier)) := by
  rw [Heap.fields, Heap.fields, Ref.relocate, hh.object?]
  cases h.object? ref.location <;> rfl

theorem hasField (hh : Extends earlier h h') (ref : Ref) (name : String) :
    h'.hasField (ref.relocate (behind earlier)) name = h.hasField ref name := by
  rw [Heap.hasField, hh.fields, Table.contains_map, Heap.hasField]

/-- Setting a field goes on alike. -/
theorem setField (hh : Extends earlier h h') (ref : Ref) (name : String) (value : Value) :
    Extends earlier (h.setField ref name value)
      (h'.setField (ref.relocate (behind earlier)) name (value.relocate (behind earlier))) := by
  refine Array.ext_getElem? fun i => ?_
  change (h'.setField _ name _).object? i = _
  rw [object?_setField, Array.getElem?_append, Array.getElem?_map, Heap.object?, hh,
    Array.getElem?_append, Array.getElem?_map]
  change _ = if i < earlier.size then _
    else ((h.setField ref name value).object? (i - earlier.size)).map _
  rw [object?_setField, Heap.object?]
  change (if ref.location + earlier.size = i then _ else _) = _
  -- The object set is none of the earlier ones.
  by_cases hi : i < earlier.size
  · rw [if_pos hi, if_pos hi, if_neg (by omega)]
  · rw [if_neg hi, if_neg hi]
    by_cases hloc : ref.location = i - earlier.size
    · rw [if_pos (by omega), if_pos hloc, Option.map_map, Option.map_map]
      congr 1
      funext o
      exact congrArg (Object.mk o.className) (Table.map_set _ o.fields name value).symm
    · rw [if_neg (by omega), if_neg hloc]

/-- Making an object goes on alike. -/
theorem allocate (hh : Extends earlier h h') (object : Object) :
    (h'.allocate (object.relocate (behind earlier))).1
        = (h.allocate object).1.relocate (behind earlier) ∧
      Extends earlier (h.allocate object).2
        (h'.allocate (object.relocate (behind earlier))).2 := by
  refine ⟨?_, ?_⟩
  · rw [Heap.allocate, Heap.allocate, hh, Array.size_append, Array.size_map, Nat.add_comm]
    rfl
  · rw [Extends, Heap.allocate, Heap.allocate, hh, Array.push_append, Array.map_push]

end Heap.Extends

/-! ## Natives -/

/-- A native is given the same again, but all objects have moved. Others may have
come to where they do not stand. -/
structure Arguments.Moved (f : Nat → Nat) (a a' : Arguments) : Prop where
  /-- the values are the same, but for where objects stand -/
  values : a'.values = a.values.map (Value.relocate f)
  /-- the classes are the same -/
  classes : a'.classes = a.classes
  /-- every object is found at its new place -/
  object? : ∀ location,
    a'.heap.object? (f location) = (a.heap.object? location).map (Object.relocate f)

/-- A native does not notice that objects have moved in this way. -/
def Native.Overlooks (f : Nat → Nat) (n : Native) : Prop :=
  ∀ ⦃a a' : Arguments⦄, a.Moved f a' → n.write a' = n.write a

/-- A native does not see where objects stand, nor those that nothing leads to. It
may compare objects, and look into them. -/
def Native.IgnoresPlaces (n : Native) : Prop := ∀ f, Function.Injective f → n.Overlooks f

/-- The text of a value does not say where an object stands, so `print` does not see
it. -/
theorem ignoresPlaces_print : Native.print.IgnoresPlaces := by
  intro f _ a a' h
  simp [Native.print, Arguments.map, h.values, Function.comp_def]

/-- Objects that have not moved are the same. -/
theorem Native.overlooks_id (n : Native) : n.Overlooks id := by
  intro a a' h
  have hvalues : a'.values = a.values := by
    rw [h.values, funext Value.relocate_id, List.map_id']
  have hobjects : a'.heap.objects = a.heap.objects := by
    refine Array.ext_getElem? fun i => (h.object? i).trans ?_
    rw [funext Object.relocate_id, Option.map_id']
    rfl
  have hsame : a' = a := Arguments.ext hvalues h.classes (congrArg Heap.mk hobjects)
  rw [hsame]

end ClassLang
