import ClassLang.Table
import ClassLang.Value

/-!
# The heap

The objects of a run. The heap only grows, so a location is a stable index and
the size of the heap is a fresh one. An object never changes its class or the
names of its fields: `setField` replaces what a field holds and does nothing for
a name that is no field.
-/

namespace ClassLang

/-- An object: its class and what its fields hold. -/
structure Object where
  /-- the class it was made from -/
  className : String
  /-- its fields -/
  fields : Table Value

/-- The objects made so far. -/
structure Heap where
  /-- the objects, by location -/
  objects : Array Object := #[]

namespace Heap

/-- The object at a location. -/
def object? (h : Heap) (location : Nat) : Option Object := h.objects[location]?

/-- The fields of the object that a reference leads to; a reference that leads
nowhere has none. -/
def fields (h : Heap) (ref : Ref) : Table Value :=
  (h.object? ref.location).elim ∅ Object.fields

/-- What a field of an object holds. -/
def field? (h : Heap) (ref : Ref) (name : String) : Option Value :=
  (h.fields ref).get? name

/-- Makes an object. -/
def allocate (h : Heap) (object : Object) : Ref × Heap :=
  ({ className := object.className, location := h.objects.size },
    { objects := h.objects.push object })

/-- Has an object this field? -/
def hasField (h : Heap) (ref : Ref) (name : String) : Bool := (h.fields ref).contains name

/-- Replaces what a field of an object holds, if the object has that field. -/
def setField (h : Heap) (ref : Ref) (name : String) (value : Value) : Heap where
  objects := h.objects.modify ref.location fun o =>
    { o with fields := o.fields.set name value }

/-- The new object stands at its location, and every other object where it
stood. -/
theorem object?_allocate (h : Heap) (object : Object) (location : Nat) :
    (h.allocate object).2.object? location
      = if location = (h.allocate object).1.location then some object
        else h.object? location :=
  Array.getElem?_push

/-- The reference to a new object leads to no object that was there before. -/
theorem object?_allocate_fresh (h : Heap) (object : Object) :
    h.object? (h.allocate object).1.location = none := by
  simp [object?, allocate]

/-- Setting a field leaves every other object as it was, and the object itself
with its class and the names of its fields. -/
theorem object?_setField (h : Heap) (ref : Ref) (name : String) (value : Value)
    (location : Nat) :
    (h.setField ref name value).object? location
      = if ref.location = location then
          (h.object? location).map fun o => { o with fields := o.fields.set name value }
        else h.object? location := by
  simp only [setField, object?, Array.getElem?_modify]

end Heap

end ClassLang
