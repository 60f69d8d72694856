import ClassLang.Proofs.CopyBack
import ClassLang.Proofs.Objects

/-!
# States in which nothing dangles

Whatever a variable, a field or a pending `return` refers to is there
(`State.IsWhole`). This is the part of soundness that asks nothing of the
program. As there, the module goes through what a running program does to a
state.
-/

namespace ClassLang

/-- Any variable may hold a class. -/
def Marks.all : Marks := fun _ _ => True

/-- With all names marked, all names are allowed. -/
theorem Marks.allow_all (name : String) : ∀ ν : List (List String), Marks.all.Allow name ν
  | [] => trivial
  | _ :: rest => ⟨fun _ => trivial, fun _ => allow_all name rest⟩

/-- Everything that fields refer to is there. -/
def Heap.IsWhole (h : Heap) : Prop :=
  ∀ ref name v, h.field? ref name = some v → v.ExistsIn h

/-- Everything that is referred to is there. -/
structure State.IsWhole (s : State) : Prop where
  /-- by fields -/
  heap : s.heap.IsWhole
  /-- by variables -/
  scopes : SoundScopes s.heap .all s.environment.scopes
  /-- by a `return` on its way out -/
  pendingReturn : ∀ v, s.environment.pendingReturn = some v → v.ExistsIn s.heap

/-! ## Heaps -/

/-- The fields of a new object are those it was made with, those of the others
stay. -/
theorem Heap.field?_allocate (h : Heap) (object : Object) (ref : Ref) (name : String) :
    (h.allocate object).2.field? ref name
      = if ref.location = (h.allocate object).1.location then object.fields.get? name
        else h.field? ref name := by
  rw [field?, fields, object?_allocate]
  split <;> rfl

namespace Heap.IsWhole

variable {h : Heap} {v : Value}

/-- A field may be given a value that is there. -/
theorem setField (hh : h.IsWhole) (owner : Ref) (field : String) (hv : v.ExistsIn h) :
    (h.setField owner field v).IsWhole := by
  refine fun ref name w hw => Value.ExistsIn.mono (.setField h owner field v) ?_
  rw [field?_setField] at hw
  split at hw
  · obtain ⟨-, -, rfl⟩ := Option.map_eq_some_iff.mp hw
    exact hv
  · exact hh ref name w hw

/-- Several fields may be given values that are there. -/
theorem setFields (hh : h.IsWhole) (owner : Ref) {entries : List (String × Value)}
    (hentries : ∀ entry ∈ entries, entry.2.ExistsIn h) :
    (entries.foldl (fun h (name, value) => h.setField owner name value) h).IsWhole := by
  induction entries generalizing h with
  | nil => exact hh
  | cons entry rest ih =>
    obtain ⟨hhead, hrest⟩ := List.forall_mem_cons.mp hentries
    exact ih (hh.setField owner entry.1 hhead) fun other hother =>
      (hrest other hother).mono (.setField h owner entry.1 entry.2)

/-- An object may be made with fields that are there. -/
theorem allocate (hh : h.IsWhole) {object : Object}
    (hobject : ∀ name v, object.fields.get? name = some v → v.ExistsIn h) :
    (h.allocate object).2.IsWhole := by
  refine fun ref name v hv => Value.ExistsIn.mono (.allocate h object) ?_
  rw [field?_allocate] at hv
  split at hv
  · exact hobject name v hv
  · exact hh ref name v hv

/-- A path leads to something that is there. -/
theorem follow (hh : h.IsWhole) : ∀ {path : List String} {way : String} {start : Value},
    start.ExistsIn h → h.follow way start path = .ok v → v.ExistsIn h
  | [], _, _, hstart, hv => by
    cases hv
    exact hstart
  | segment :: path, way, start, hstart, hv => by
    cases start with
    | object ref =>
      rw [Heap.follow] at hv
      rcases hnext : h.field? ref segment with _ | next <;> simp only [hnext] at hv
      · cases hv
      · exact follow hh (hh ref segment next hnext) hv
    | _ => cases hv

end Heap.IsWhole

namespace State.IsWhole

variable {s : State} {name : String} {v : Value}

/-! ## What is found -/

/-- What looking up finds is there. -/
theorem lookup? (hs : s.IsWhole) (hv : s.environment.lookup? name = some v) :
    v.ExistsIn s.heap := by
  rw [Environment.lookup?_eq] at hv
  exact (hs.scopes.find hv).1

/-- What a path finds is there. -/
theorem member (hs : s.IsWhole) {head : String} {path : List String}
    (hv : s.member head path = .ok v) : v.ExistsIn s.heap := by
  rw [State.member] at hv
  rcases hget : s.environment.get head with e | start <;> rw [hget] at hv
  · cases hv
  · exact hs.heap.follow (hs.lookup? (Environment.get_eq_ok hget)) hv

/-- The object to which a path leads is there. -/
theorem objectAt (hs : s.IsWhole) {head : String} {path : List String} {ref : Ref}
    (href : s.objectAt head path = .ok ref) : ref.ExistsIn s.heap := by
  rw [State.objectAt] at href
  rcases hmember : s.member head path with e | w <;> rw [hmember] at href
  · cases href
  · cases w with
    | object ref' =>
      cases href
      exact hs.member hmember
    | _ => cases href

/-! ## Changes -/

/-- A heap that has grown without dangling fields can take the place of the heap. -/
theorem withHeap (hs : s.IsWhole) {h : Heap} (hg : s.heap.Grows h) (hh : h.IsWhole) :
    ({ s with heap := h } : State).IsWhole :=
  ⟨hh, hs.scopes.imp hg fun _ _ _ => id, fun v hv => (hs.pendingReturn v hv).mono hg⟩

/-- A value that is there may be written. -/
theorem put (hs : s.IsWhole) (slot : Slot) (hv : v.ExistsIn s.heap) : (s.put slot v).IsWhole := by
  cases slot with
  | var name =>
    refine ⟨hs.heap, ?_, fun w hw => hs.pendingReturn w ?_⟩
    · change SoundScopes s.heap .all (s.environment.set name v).scopes
      rw [Environment.scopes_set]
      exact hs.scopes.setFirst hv fun _ => Marks.allow_all name _
    · exact (s.environment.pendingReturn_set name v).symm.trans hw
  | field owner name =>
    exact hs.withHeap (.setField s.heap owner name v) (hs.heap.setField owner name hv)

/-- Fields may be given values that are there. -/
theorem putFields (hs : s.IsWhole) (ref : Ref) {entries : List (String × Value)}
    (hentries : ∀ entry ∈ entries, entry.2.ExistsIn s.heap) : (s.putFields ref entries).IsWhole :=
  hs.withHeap (.setFields ref entries s.heap) (hs.heap.setFields ref hentries)

/-- A new object leaves nothing dangling, if its fields are there. -/
theorem allocate (hs : s.IsWhole) {object : Object}
    (hobject : ∀ name v, object.fields.get? name = some v → v.ExistsIn s.heap) :
    ({ s with heap := (s.heap.allocate object).2 } : State).IsWhole :=
  hs.withHeap (.allocate s.heap object) (hs.heap.allocate hobject)

/-- A variable may be declared with a value that is there. -/
theorem declare (hs : s.IsWhole) {e : Environment}
    (hdeclare : s.environment.declare name v = .ok e) (hv : v.ExistsIn s.heap) :
    ({ s with environment := e } : State).IsWhole := by
  obtain ⟨top, top', rest, hscopes, htop, hscopes'⟩ := Environment.scopes_declare hdeclare
  obtain ⟨-, hpending, -, -⟩ := Environment.declare_eq_ok hdeclare
  have hsound := hs.scopes
  rw [hscopes] at hsound
  refine ⟨hs.heap, ?_, fun w hw => hs.pendingReturn w (hpending ▸ hw)⟩
  change SoundScopes s.heap .all e.scopes
  rw [hscopes']
  refine ⟨fun other w hw => ⟨?_, fun _ => trivial⟩, hsound.2⟩
  rw [Scope.declare] at htop
  split at htop <;> cases htop
  rw [Table.get?_insert] at hw
  split at hw
  · cases hw
    exact hv
  · exact (hsound.1 other w hw).1

/-- Declaring a method leaves nothing dangling. -/
theorem declareMethod (hs : s.IsWhole) (routine : Routine) :
    ({ s with environment := s.environment.declareMethod routine } : State).IsWhole := by
  obtain ⟨top, rest, hscopes, hscopes'⟩ := s.environment.scopes_declareMethod routine
  have hsound := hs.scopes
  rw [hscopes] at hsound
  refine ⟨hs.heap, ?_, fun w hw => hs.pendingReturn w ?_⟩
  · change SoundScopes s.heap .all (s.environment.declareMethod routine).scopes
    rw [hscopes']
    exact hsound
  · rw [← hw, Environment.declareMethod]
    split <;> rfl

/-- Opening a block leaves nothing dangling. -/
theorem startBlock (hs : s.IsWhole) :
    ({ s with environment := s.environment.startBlock } : State).IsWhole :=
  ⟨hs.heap, ⟨fun _ _ hv => (by cases hv), hs.scopes⟩, hs.pendingReturn⟩

/-- Closing a block leaves nothing dangling. -/
theorem endBlock (hs : s.IsWhole) :
    ({ s with environment := s.environment.endBlock } : State).IsWhole := by
  refine ⟨hs.heap, ?_, hs.pendingReturn⟩
  have hscopes := hs.scopes
  change SoundScopes s.heap .all s.environment.endBlock.scopes
  rw [Environment.scopes] at hscopes
  rw [Environment.scopes, Environment.endBlock]
  rcases hinner : s.environment.inner with _ | ⟨top, inner⟩ <;> rw [hinner] at hscopes
  · exact hscopes
  · exact hscopes.2

/-- What is returning may be anything that is there. -/
theorem withReturn (hs : s.IsWhole) {returned : Option Value}
    (hreturned : ∀ v, returned = some v → v.ExistsIn s.heap) :
    ({ s with environment := { s.environment with pendingReturn := returned } } : State).IsWhole :=
  ⟨hs.heap, hs.scopes, hreturned⟩

end State.IsWhole

end ClassLang
