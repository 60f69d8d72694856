import ClassLang.Proofs.Lasting
import ClassLang.Proofs.Shape

/-!
# Objects and what refers to them

What holds of the objects of a running program, and of everything that refers
to them (`State.IsSound`):

* An object is one of a class of the program. It has the fields that the class
  declares, no others, and the methods of the class (`Object.IsOf`).
* Whatever a variable, a field or a pending `return` refers to is there.
* A class is held by no field, and by no variable but those marked. Marks say
  which variables these are, by the name and the number of scopes below the
  variable's own (`Marks`).

The module goes through what a running program does to a state, and says for
each change under which condition it leaves the state sound.
-/

namespace ClassLang

/-! ## Values -/

/-- The reference leads to an object of its class. -/
def Ref.ExistsIn (h : Heap) (ref : Ref) : Prop :=
  ∃ o, h.object? ref.location = some o ∧ o.className = ref.className

/-- If the value is an object, it is there. -/
def Value.ExistsIn (h : Heap) : Value → Prop
  | object ref => ref.ExistsIn h
  | _ => True

/-- The value is a class. -/
def Value.IsClass : Value → Prop
  | cls _ => True
  | _ => False

/-- A reference goes on leading to an object of its class. -/
theorem Ref.ExistsIn.mono {h h' : Heap} {ref : Ref} (hg : h.Grows h') (href : ref.ExistsIn h) :
    ref.ExistsIn h' := by
  obtain ⟨o, ho, hclass⟩ := href
  obtain ⟨o', ho', hclass', -⟩ := hg _ o ho
  exact ⟨o', ho', hclass'.trans hclass⟩

/-- A value that is there stays there. -/
theorem Value.ExistsIn.mono {h h' : Heap} {v : Value} (hg : h.Grows h') (hv : v.ExistsIn h) :
    v.ExistsIn h' := by
  cases v with
  | object ref => exact Ref.ExistsIn.mono hg hv
  | _ => trivial

/-- What a variable starts out with refers to nothing, and is no class. -/
theorem Value.existsIn_zero (h : Heap) (type : Ty) :
    ((Value.zero? type).getD .void).ExistsIn h ∧ ¬ ((Value.zero? type).getD .void).IsClass := by
  cases type <;> exact ⟨trivial, id⟩

/-! ## Heaps -/

/-- The object is one of a class of the program. -/
structure Object.IsOf (cx : Context) (c : ClassDef) (o : Object) : Prop where
  /-- the class is what the program has under its name -/
  classes : cx.program.classes.get? o.className = some c
  /-- which is the name of the class -/
  name : c.name = o.className
  /-- the fields are those the class declares -/
  fields : ∀ name, name ∈ o.fields.names ↔ name ∈ c.fields.map Declaration.name
  /-- the methods are those of the class -/
  methods : ∀ location name, cx.methodOf? ⟨o.className, location⟩ name = c.method? name

/-- What holds of all objects. -/
structure Heap.IsSound (cx : Context) (h : Heap) : Prop where
  /-- each is one of a class -/
  objects : ∀ location o, h.object? location = some o → ∃ c, o.IsOf cx c
  /-- what its fields refer to is there, and none of them holds a class -/
  fields : ∀ location o, h.object? location = some o → ∀ name v, o.fields.get? name = some v →
    v.ExistsIn h ∧ ¬ v.IsClass

/-- An object with the name and the fields of a class of the program is one of that
class. -/
theorem Object.isOf_of_class {cx : Context} {c : ClassDef} {o : Object}
    (hc : cx.program.classes.get? c.name = some c) (hname : o.className = c.name)
    (hfields : ∀ name, name ∈ o.fields.names ↔ name ∈ c.fields.map Declaration.name) :
    o.IsOf cx c where
  classes := hname ▸ hc
  name := hname.symm
  fields := hfields
  methods location name := by
    rw [Context.methodOf?, Context.classOf?, hname, hc]
    rfl

namespace Heap.IsSound

variable {cx : Context} {h : Heap} {ref : Ref} {name : String} {v : Value}

/-- There is nothing wrong with no objects. -/
theorem empty (cx : Context) : ({} : Heap).IsSound cx where
  objects _ _ ho := by cases ho
  fields _ _ ho := by cases ho

/-- What a field holds is there, and is no class. -/
theorem field? (hh : h.IsSound cx) (hv : h.field? ref name = some v) :
    v.ExistsIn h ∧ ¬ v.IsClass := by
  rw [Heap.field?, Heap.fields] at hv
  rcases ho : h.object? ref.location with _ | o
  · rw [ho] at hv
    cases hv
  · rw [ho] at hv
    exact hh.fields _ o ho name v hv

/-- A path leads to something that is there, and no path that goes through a
field leads to a class. -/
theorem follow (hh : h.IsSound cx) : ∀ {path : List String} {way : String} {start : Value},
    start.ExistsIn h → h.follow way start path = .ok v →
      v.ExistsIn h ∧ (path ≠ [] → ¬ v.IsClass)
  | [], _, _, hstart, hv => by
    cases hv
    exact ⟨hstart, fun hne => absurd rfl hne⟩
  | segment :: path, way, start, hstart, hv => by
    cases start with
    | object ref =>
      rw [Heap.follow] at hv
      rcases hnext : h.field? ref segment with _ | next <;> simp only [hnext] at hv
      · cases hv
      · obtain ⟨hexists, hclass⟩ := hh.field? hnext
        obtain ⟨hv', hclass'⟩ := follow hh hexists hv
        refine ⟨hv', fun _ => ?_⟩
        rcases path with _ | ⟨segment', path⟩
        · cases hv
          exact hclass
        · exact hclass' (by simp)
    | _ => cases hv

/-- A new object leaves the heap sound if it is one of a class, and if what its
fields hold is there and no class. -/
theorem allocate (hh : h.IsSound cx) {object : Object} (hobject : ∃ c, object.IsOf cx c)
    (hfields : ∀ name v, object.fields.get? name = some v → v.ExistsIn h ∧ ¬ v.IsClass) :
    (h.allocate object).2.IsSound cx := by
  have hgrows := Heap.Grows.allocate h object
  refine ⟨fun location o ho => ?_, fun location o ho name v hv => ?_⟩
  · rw [object?_allocate] at ho
    split at ho
    · cases ho
      exact hobject
    · exact hh.objects location o ho
  · rw [object?_allocate] at ho
    split at ho
    · cases ho
      exact ⟨(hfields name v hv).1.mono hgrows, (hfields name v hv).2⟩
    · obtain ⟨hexists, hclass⟩ := hh.fields location o ho name v hv
      exact ⟨hexists.mono hgrows, hclass⟩

/-- A new object is there. -/
theorem existsIn_allocate (h : Heap) (object : Object) :
    (h.allocate object).1.ExistsIn (h.allocate object).2 :=
  ⟨object, (object?_allocate h object _).trans (if_pos rfl), rfl⟩

/-- Setting a field leaves the heap sound if the value is there and no
class. -/
theorem setField (hh : h.IsSound cx) (ref : Ref) (name : String) (hv : v.ExistsIn h)
    (hclass : ¬ v.IsClass) : (h.setField ref name v).IsSound cx := by
  have hgrows := Heap.Grows.setField h ref name v
  refine ⟨fun location o ho => ?_, fun location o ho other w hw => ?_⟩
  · rw [object?_setField] at ho
    split at ho
    · obtain ⟨o', ho', rfl⟩ := Option.map_eq_some_iff.mp ho
      obtain ⟨c, hc⟩ := hh.objects location o' ho'
      exact ⟨c, hc.classes, hc.name, fun name => by rw [Table.names_set]; exact hc.fields name,
        hc.methods⟩
    · exact hh.objects location o ho
  · rw [object?_setField] at ho
    split at ho
    · obtain ⟨o', ho', rfl⟩ := Option.map_eq_some_iff.mp ho
      rw [Table.get?_set] at hw
      split at hw
      · obtain ⟨-, -, rfl⟩ := Option.map_eq_some_iff.mp hw
        exact ⟨hv.mono hgrows, hclass⟩
      · obtain ⟨hexists, hclass⟩ := hh.fields location o' ho' other w hw
        exact ⟨hexists.mono hgrows, hclass⟩
    · obtain ⟨hexists, hclass⟩ := hh.fields location o ho other w hw
      exact ⟨hexists.mono hgrows, hclass⟩

/-- Fields can be given values that are there and are no classes. -/
theorem setFields (hh : h.IsSound cx) (ref : Ref) {entries : List (String × Value)}
    (hentries : ∀ entry ∈ entries, entry.2.ExistsIn h ∧ ¬ entry.2.IsClass) :
    (entries.foldl (fun h (name, value) => h.setField ref name value) h).IsSound cx := by
  induction entries generalizing h with
  | nil => exact hh
  | cons entry rest ih =>
    obtain ⟨hhead, htail⟩ := List.forall_mem_cons.mp hentries
    have hgrows := Heap.Grows.setField h ref entry.1 entry.2
    exact ih (hh.setField ref entry.1 hhead.1 hhead.2) fun other hother =>
      ⟨(htail other hother).1.mono hgrows, (htail other hother).2⟩

end Heap.IsSound

/-! ## Scopes -/

/-- Which variables may hold a class: by the number of scopes below the
variable's own, and by the name. -/
def Marks : Type := Nat → String → Prop

/-- No variable may hold a class. -/
def Marks.none : Marks := fun _ _ => False

/-- What scopes hold is there, and no class unless the variable is marked. -/
def SoundScopes (h : Heap) (κ : Marks) : List Scope → Prop
  | [] => True
  | s :: rest =>
    (∀ name v, s.vars.get? name = some v → v.ExistsIn h ∧ (v.IsClass → κ rest.length name)) ∧
      SoundScopes h κ rest

/-- Among scopes with these names, the innermost variable of a name is marked,
or there is none. -/
def Marks.Allow (κ : Marks) (name : String) : List (List String) → Prop
  | [] => True
  | names :: rest =>
    (name ∈ names → κ rest.length name) ∧ (name ∉ names → κ.Allow name rest)

/-- The names of the variables of each scope. -/
abbrev namesOf (scopes : List Scope) : List (List String) := scopes.map (·.vars.names)

/-- Whether a name is allowed is decided by the innermost scope that has it. -/
theorem Marks.allow_cons (κ : Marks) (name : String) (s : Scope) (rest : List Scope) :
    κ.Allow name (namesOf (s :: rest))
      ↔ if s.contains name then κ rest.length name else κ.Allow name (namesOf rest) := by
  rw [namesOf, List.map_cons, Allow, List.length_map, Table.mem_names_iff, Scope.contains]
  split
  · next hhas => exact ⟨fun h => h.1 hhas, fun h => ⟨fun _ => h, fun hnot => absurd hhas hnot⟩⟩
  · next hnot => exact ⟨fun h => h.2 hnot, fun h => ⟨fun hhas => absurd hhas hnot, fun _ => h⟩⟩

namespace SoundScopes

variable {h h' : Heap} {κ κ' : Marks} {scopes : List Scope} {name : String} {v : Value}

/-- Only the marks of variables that are there matter. -/
theorem imp (hg : h.Grows h')
    (hκ : ∀ level < scopes.length, ∀ name, κ level name → κ' level name)
    (hs : SoundScopes h κ scopes) : SoundScopes h' κ' scopes := by
  induction scopes with
  | nil => trivial
  | cons s rest ih =>
    refine ⟨fun name v hv => ?_, ih (fun level hlevel => hκ level ?_) hs.2⟩
    · obtain ⟨hexists, hclass⟩ := hs.1 name v hv
      exact ⟨hexists.mono hg, fun hv => hκ _ (Nat.lt_succ_self _) name (hclass hv)⟩
    · exact Nat.lt_succ_of_lt hlevel

/-- What a name means is there, and a class only if that is allowed. -/
theorem find (hs : SoundScopes h κ scopes)
    (hv : scopes.findSome? (·.vars.get? name) = some v) :
    v.ExistsIn h ∧ (v.IsClass → κ.Allow name (namesOf scopes)) := by
  induction scopes with
  | nil => cases hv
  | cons s rest ih =>
    rw [List.findSome?_cons] at hv
    rw [Marks.allow_cons, Scope.contains, Table.contains]
    rcases htop : s.vars.get? name with _ | w <;> rw [htop] at hv
    · exact ih hs.2 hv
    · cases hv
      exact hs.1 name v htop

/-- A name that no scope has is allowed. -/
theorem allow_of_not_contained (hnone : scopes.findSome? (·.vars.get? name) = .none) :
    κ.Allow name (namesOf scopes) := by
  induction scopes with
  | nil => trivial
  | cons s rest ih =>
    rw [List.findSome?_cons] at hnone
    rw [Marks.allow_cons, Scope.contains, Table.contains]
    rcases htop : s.vars.get? name with _ | w <;> rw [htop] at hnone
    · exact ih hnone
    · cases hnone

/-- Setting a variable leaves scopes sound if the value is there, and a class
only if that is allowed. -/
theorem setFirst (hs : SoundScopes h κ scopes) (hv : v.ExistsIn h)
    (hclass : v.IsClass → κ.Allow name (namesOf scopes)) :
    SoundScopes h κ (setFirst name v scopes) := by
  induction scopes with
  | nil => trivial
  | cons s rest ih =>
    rw [Marks.allow_cons] at hclass
    rw [ClassLang.setFirst]
    split
    · next hhas =>
      rw [if_pos hhas] at hclass
      refine ⟨fun other w hw => ?_, hs.2⟩
      rw [Scope.set, Table.get?_set] at hw
      split at hw
      · next heq =>
        obtain ⟨-, -, rfl⟩ := Option.map_eq_some_iff.mp hw
        exact ⟨hv, heq ▸ hclass⟩
      · exact hs.1 other w hw
    · next hhas =>
      rw [if_neg hhas] at hclass
      refine ⟨?_, ih hs.2 hclass⟩
      rw [length_setFirst]
      exact hs.1

end SoundScopes

/-! ## States -/

/-- What holds of the objects, and of all that refers to them. -/
structure State.IsSound (cx : Context) (κ : Marks) (s : State) : Prop where
  /-- of the objects -/
  heap : s.heap.IsSound cx
  /-- of the variables -/
  scopes : SoundScopes s.heap κ s.environment.scopes
  /-- of a `return` on its way out -/
  pendingReturn : ∀ v, s.environment.pendingReturn = some v → v.ExistsIn s.heap

namespace State.IsSound

variable {cx : Context} {κ κ' : Marks} {s : State} {name : String} {v : Value}

/-- With more marks the state is still sound. -/
theorem mono (hs : s.IsSound cx κ) (hκ : ∀ level name, κ level name → κ' level name) :
    s.IsSound cx κ' :=
  ⟨hs.heap, hs.scopes.imp (.refl _) fun level _ => hκ level, hs.pendingReturn⟩

/-- What looking up finds is there, and a class only if that is allowed. -/
theorem lookup? (hs : s.IsSound cx κ) (hv : s.environment.lookup? name = some v) :
    v.ExistsIn s.heap ∧ (v.IsClass → κ.Allow name (namesOf s.environment.scopes)) := by
  rw [Environment.lookup?_eq] at hv
  exact hs.scopes.find hv

/-- A name without a variable is allowed. -/
theorem allow_of_lookup?_eq_none (hnone : s.environment.lookup? name = none) :
    κ.Allow name (namesOf s.environment.scopes) := by
  rw [Environment.lookup?_eq] at hnone
  exact SoundScopes.allow_of_not_contained hnone

/-- What a member holds is there; it is a class only if the path goes through
no field, and the variable in front may hold one. -/
theorem member (hs : s.IsSound cx κ) {head : String} {path : List String}
    (hv : s.member head path = .ok v) :
    v.ExistsIn s.heap ∧
      (v.IsClass → path = [] ∧ κ.Allow head (namesOf s.environment.scopes)) := by
  rw [State.member] at hv
  rcases hget : s.environment.get head with e | start
  · rw [hget] at hv
    cases hv
  · rw [hget] at hv
    have hfollow : s.heap.follow head start path = .ok v := hv
    rw [Environment.get] at hget
    split at hget <;> cases hget
    next hlookup =>
    obtain ⟨hexists, hclass⟩ := hs.lookup? hlookup
    obtain ⟨hexists', hclass'⟩ := hs.heap.follow hexists hfollow
    refine ⟨hexists', fun hcls => ?_⟩
    rcases path with _ | ⟨segment, path⟩
    · cases hfollow
      exact ⟨rfl, hclass hcls⟩
    · exact absurd hcls (hclass' (by simp))

/-- A path leads to an object that is there. -/
theorem objectAt (hs : s.IsSound cx κ) {head : String} {path : List String} {ref : Ref}
    (href : s.objectAt head path = .ok ref) : ref.ExistsIn s.heap := by
  rw [State.objectAt] at href
  rcases hmember : s.member head path with e | w
  · rw [hmember] at href
    cases href
  · rw [hmember] at href
    cases w with
    | object ref' =>
      cases href
      exact (hs.member hmember).1
    | _ => cases href

/-! ### Changes -/

/-- Another sound heap can take the place of the heap, if it has grown out of it. -/
theorem withHeap (hs : s.IsSound cx κ) {h : Heap} (hg : s.heap.Grows h) (hh : h.IsSound cx) :
    ({ s with heap := h } : State).IsSound cx κ :=
  ⟨hh, hs.scopes.imp hg fun _ _ _ => id, fun v hv => (hs.pendingReturn v hv).mono hg⟩

/-- Filling a slot leaves the state sound if the value is there, and a class
only for a variable that may hold one. -/
theorem put (hs : s.IsSound cx κ) {slot : Slot} (hv : v.ExistsIn s.heap)
    (hclass : v.IsClass → ∃ name, slot = .var name ∧ κ.Allow name (namesOf s.environment.scopes)) :
    (s.put slot v).IsSound cx κ := by
  cases slot with
  | var name =>
    refine ⟨hs.heap, ?_, ?_⟩
    · change SoundScopes s.heap κ (s.environment.set name v).scopes
      rw [Environment.scopes_set]
      refine hs.scopes.setFirst hv fun hv => ?_
      obtain ⟨other, heq, hallow⟩ := hclass hv
      cases heq
      exact hallow
    · intro w hw
      exact hs.pendingReturn w ((s.environment.pendingReturn_set name v) ▸ hw)
  | field owner name =>
    refine hs.withHeap (.setField s.heap owner name v) (hs.heap.setField owner name hv ?_)
    intro hv
    obtain ⟨_, heq, -⟩ := hclass hv
    cases heq

/-- A declaration leaves the state sound if the value is there, and a class
only for a variable that may hold one. -/
theorem declare (hs : s.IsSound cx κ) {e : Environment}
    (hdeclare : s.environment.declare name v = .ok e) (hv : v.ExistsIn s.heap)
    (hclass : ∀ top rest, s.environment.scopes = top :: rest → top.contains name = false →
      v.IsClass → κ rest.length name) :
    ({ s with environment := e } : State).IsSound cx κ := by
  obtain ⟨top, top', rest, hscopes, htop, hscopes'⟩ := Environment.scopes_declare hdeclare
  obtain ⟨-, hpending, -, -⟩ := Environment.declare_eq_ok hdeclare
  have hscopesSound := hs.scopes
  rw [hscopes] at hscopesSound
  refine ⟨hs.heap, ?_, fun w hw => hs.pendingReturn w (hpending ▸ hw)⟩
  change SoundScopes s.heap κ e.scopes
  rw [hscopes']
  refine ⟨fun other w hw => ?_, hscopesSound.2⟩
  rw [Scope.declare] at htop
  split at htop <;> cases htop
  next hfree =>
  rw [Table.get?_insert] at hw
  split at hw
  · next heq =>
    cases hw
    exact ⟨hv, heq ▸ hclass top rest hscopes (Bool.eq_false_iff.mpr hfree)⟩
  · exact hscopesSound.1 other w hw

/-- Declaring a method changes no values. -/
theorem declareMethod (hs : s.IsSound cx κ) (routine : Routine) :
    ({ s with environment := s.environment.declareMethod routine } : State).IsSound cx κ := by
  obtain ⟨top, rest, hscopes, hscopes'⟩ := s.environment.scopes_declareMethod routine
  have hscopesSound := hs.scopes
  rw [hscopes] at hscopesSound
  refine ⟨hs.heap, ?_, fun v hv => hs.pendingReturn v ?_⟩
  · change SoundScopes s.heap κ (s.environment.declareMethod routine).scopes
    rw [hscopes']
    exact hscopesSound
  · rw [← hv, Environment.declareMethod]
    split <;> rfl

/-- A scope that is opened has no variables, so its marks do not matter. -/
theorem startBlock (hs : s.IsSound cx κ)
    (hκ : ∀ level < s.environment.scopes.length, ∀ name, κ level name → κ' level name) :
    ({ s with environment := s.environment.startBlock } : State).IsSound cx κ' :=
  ⟨hs.heap, ⟨fun _ _ hv => (by cases hv), hs.scopes.imp (.refl _) hκ⟩, hs.pendingReturn⟩

/-- When a scope has been closed, its marks do not matter. -/
theorem endBlock (hs : s.IsSound cx κ') {top next : Scope} {rest : List Scope}
    (hscopes : s.environment.scopes = top :: next :: rest)
    (hκ : ∀ level ≤ rest.length, ∀ name, κ' level name → κ level name) :
    ({ s with environment := s.environment.endBlock } : State).IsSound cx κ := by
  have hscopesSound := hs.scopes
  rw [hscopes] at hscopesSound
  refine ⟨hs.heap, ?_, hs.pendingReturn⟩
  change SoundScopes s.heap κ s.environment.endBlock.scopes
  rw [Environment.scopes_endBlock hscopes]
  exact hscopesSound.2.imp (.refl _) fun level hlevel => hκ level (Nat.le_of_lt_succ hlevel)

/-- What is returning may be anything that is there. -/
theorem withReturn (hs : s.IsSound cx κ) {returned : Option Value}
    (hreturned : ∀ v, returned = some v → v.ExistsIn s.heap) :
    ({ s with environment := { s.environment with pendingReturn := returned } } : State).IsSound
      cx κ :=
  ⟨hs.heap, hs.scopes, hreturned⟩

end State.IsSound

end ClassLang
