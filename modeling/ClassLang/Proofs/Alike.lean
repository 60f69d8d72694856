import ClassLang.Proofs.Lookup
import ClassLang.Proofs.Places
import ClassLang.Proofs.Shape

/-!
# States that a program cannot tell apart

Two states are alike (`Past.Alike`) if a program cannot tell them apart. Three
things may differ. The second heap may hold objects made earlier, behind which
those of the first come again. The outputs may go on from different texts. And
below the innermost scopes, which are the same, the scopes may be arranged in
any way that gives every name the same meaning (`Environment.Alike`).

The module goes through everything that a step of running does to a state or
looks up in it, and finds it to give like results on states alike.
-/

namespace ClassLang

/-! ## Environments -/

/-- The scope with what its variables hold at new places. -/
def Scope.relocate (f : Nat → Nat) (s : Scope) : Scope :=
  { s with vars := s.vars.map (Value.relocate f) }

namespace Environment

/-- The environment with more scopes on top. -/
def under (e : Environment) (own : List Scope) : Environment := { e with inner := own ++ e.inner }

/-- In both environments every name means the same, the objects of the second
being at their new places. How many scopes there are, and which of them has a
name, is left open. -/
structure Agrees (f : Nat → Nat) (e e' : Environment) : Prop where
  /-- the variables hold the same -/
  lookup? : ∀ name, e'.lookup? name = (e.lookup? name).map (Value.relocate f)
  /-- the routines are the same -/
  method? : ∀ name, e'.method? name = e.method? name
  /-- the natives are the same -/
  natives : e'.natives = e.natives
  /-- the natives do not notice the new places -/
  overlooks : ∀ name native, e.native? name = some native → native.Overlooks f
  /-- the same `return` is on its way out -/
  pendingReturn : e'.pendingReturn = e.pendingReturn.map (Value.relocate f)

/-- The innermost scopes, so many of them, are the same, and the scopes below
agree. -/
def Alike (f : Nat → Nat) (k : Nat) (e e' : Environment) : Prop :=
  ∃ (own : List Scope) (base base' : Environment), own.length = k ∧ base.Agrees f base' ∧
    e = base.under own ∧ e' = base'.under (own.map (Scope.relocate f))

/-- The scopes on top come first. -/
theorem scopes_under (e : Environment) (own : List Scope) :
    (e.under own).scopes = own ++ e.scopes := by
  rw [scopes, scopes, under, List.append_assoc]

/-- Setting a variable reaches below the innermost scopes exactly if none of
them has it. -/
theorem set_under (e : Environment) (own : List Scope) (name : String) (value : Value) :
    (e.under own).set name value
      = if own.any (·.contains name) then e.under (setFirst name value own)
        else (e.set name value).under own := by
  rw [set, set, under, List.any_append, setFirst_append]
  rcases own.any (·.contains name) with _ | _
  · rcases e.inner.any (·.contains name) with _ | _ <;> rfl
  · rfl

variable {f : Nat → Nat} {k : Nat} {e e' : Environment}

/-- Setting a variable goes on alike where names mean the same. -/
theorem Agrees.set (h : e.Agrees f e') (name : String) (value : Value) :
    (e.set name value).Agrees f (e'.set name (value.relocate f)) where
  lookup? key := by
    rw [lookup?_set, lookup?_set, h.lookup? key]
    split
    · rw [Option.map_map, Option.map_map]
      rfl
    · rfl
  method? key := by rw [method?_set, method?_set, h.method?]
  natives := by rw [natives_set, natives_set, h.natives]
  overlooks := by
    intro key native hnative
    rw [native?, natives_set] at hnative
    exact h.overlooks key native hnative
  pendingReturn := by rw [pendingReturn_set, pendingReturn_set, h.pendingReturn]

namespace Alike

/-- With no scopes in common on top, environments that agree are alike. -/
theorem of_agrees (h : e.Agrees f e') : e.Alike f 0 e' := ⟨[], e, e', rfl, h, rfl, rfl⟩

theorem findSome?_relocate (own : List Scope) (name : String) :
    (own.map (Scope.relocate f)).findSome? (·.vars.get? name)
      = (own.findSome? (·.vars.get? name)).map (Value.relocate f) := by
  induction own with
  | nil => rfl
  | cons s own ih =>
    rw [List.map_cons, List.findSome?_cons, List.findSome?_cons, ih, Scope.relocate,
      Table.get?_map]
    cases s.vars.get? name <;> rfl

theorem any_contains_relocate (own : List Scope) (name : String) :
    (own.map (Scope.relocate f)).any (·.contains name) = own.any (·.contains name) := by
  rw [any_contains_eq, any_contains_eq, findSome?_relocate, Option.isSome_map]

/-- Setting a variable in scopes and moving objects can be done in either order. -/
theorem map_relocate_setFirst (name : String) (value : Value) (own : List Scope) :
    (setFirst name value own).map (Scope.relocate f)
      = setFirst name (value.relocate f) (own.map (Scope.relocate f)) := by
  induction own with
  | nil => rfl
  | cons s own ih =>
    have hcontains : (s.relocate f).contains name = s.contains name := Table.contains_map _ _ _
    rw [List.map_cons, setFirst, setFirst, hcontains]
    split
    · rw [List.map_cons, Scope.relocate, Scope.set, Table.map_set]
      rfl
    · rw [List.map_cons, ih]

/-- In environments that are alike every name means the same. -/
theorem agrees (h : e.Alike f k e') : e.Agrees f e' := by
  obtain ⟨own, base, base', -, hbase, rfl, rfl⟩ := h
  refine ⟨fun name => ?_, fun name => ?_, hbase.natives, hbase.overlooks, hbase.pendingReturn⟩
  · rw [lookup?_eq, lookup?_eq, scopes_under, scopes_under, List.findSome?_append,
      List.findSome?_append, findSome?_relocate, ← lookup?_eq, ← lookup?_eq, hbase.lookup?,
      Option.map_or]
  · rw [method?_eq, method?_eq, scopes_under, scopes_under, List.findSome?_append,
      List.findSome?_append, ← method?_eq, ← method?_eq, hbase.method?, List.findSome?_map]
    rfl

/-- A name is known in both environments or in neither. -/
theorem contains (h : e.Alike f k e') (name : String) : e'.contains name = e.contains name := by
  rw [contains_eq, contains_eq, h.agrees.lookup?, Option.isSome_map]

/-- A name means the same native in both. -/
theorem native? (h : e.Alike f k e') (name : String) : e'.native? name = e.native? name := by
  rw [Environment.native?, Environment.native?, h.agrees.natives]

/-- What a variable holds in the second environment is what it holds in the first,
moved. -/
theorem get (h : e.Alike f k e') (name : String) :
    e'.get name = (e.get name).map (Value.relocate f) := by
  rw [Environment.get, Environment.get, h.agrees.lookup?]
  cases e.lookup? name <;> rfl

/-- A `return` is on its way out in both or in neither. -/
theorem isReturning (h : e.Alike f k e') : e'.isReturning = e.isReturning := by
  rw [Environment.isReturning, Environment.isReturning, h.agrees.pendingReturn, Option.isSome_map]

/-- Setting a variable goes on alike, whether it reaches below the common scopes or
not. -/
theorem set (h : e.Alike f k e') (name : String) (value : Value) :
    (e.set name value).Alike f k (e'.set name (value.relocate f)) := by
  obtain ⟨own, base, base', hlength, hbase, rfl, rfl⟩ := h
  rw [set_under, set_under, any_contains_relocate]
  split
  · refine ⟨setFirst name value own, base, base', ?_, hbase, rfl, ?_⟩
    · rw [length_setFirst, hlength]
    · rw [map_relocate_setFirst]
  · exact ⟨own, base.set name value, base'.set name (value.relocate f), hlength, hbase.set name value,
      rfl, rfl⟩

/-- A declaration into a scope that is the same on both sides. -/
theorem declare (h : e.Alike f (k + 1) e') (name : String) (value : Value) :
    (∃ error, e.declare name value = .error error ∧
      e'.declare name (value.relocate f) = .error error) ∨
    ∃ t t', e.declare name value = .ok t ∧ e'.declare name (value.relocate f) = .ok t' ∧
      t.Alike f (k + 1) t' := by
  obtain ⟨_ | ⟨s, own⟩, base, base', hlength, hbase, rfl, rfl⟩ := h
  · cases hlength
  simp only [Environment.declare, under, List.map_cons, List.cons_append, Scope.declare,
    Scope.relocate, Table.contains_map]
  split
  · exact .inl ⟨_, rfl, rfl⟩
  · refine .inr ⟨_, _, rfl, rfl, { s with vars := s.vars.insert name value } :: own, base, base',
      hlength, hbase, rfl, ?_⟩
    rw [under, List.map_cons, Scope.relocate, Table.map_insert]
    rfl

/-- A routine is declared in the scope that both have on top. -/
theorem declareMethod (h : e.Alike f (k + 1) e') (routine : Routine) :
    (e.declareMethod routine).Alike f (k + 1) (e'.declareMethod routine) := by
  obtain ⟨_ | ⟨s, own⟩, base, base', hlength, hbase, rfl, rfl⟩ := h
  · cases hlength
  exact ⟨s.declareMethod routine :: own, base, base', hlength, hbase, rfl, rfl⟩

/-- A scope opened in both is one more that they have in common. -/
theorem startBlock (h : e.Alike f k e') : e.startBlock.Alike f (k + 1) e'.startBlock := by
  obtain ⟨own, base, base', hlength, hbase, rfl, rfl⟩ := h
  exact ⟨{} :: own, base, base', congrArg (· + 1) hlength, hbase, rfl, rfl⟩

/-- A scope closed in both is one less. -/
theorem endBlock (h : e.Alike f (k + 1) e') : e.endBlock.Alike f k e'.endBlock := by
  obtain ⟨_ | ⟨s, own⟩, base, base', hlength, hbase, rfl, rfl⟩ := h
  · cases hlength
  exact ⟨own, base, base', Nat.succ.inj hlength, hbase, rfl, rfl⟩

/-- Whatever is done with a `return` on its way out is done alike. -/
theorem withReturn (h : e.Alike f k e') (value : Option Value) :
    ({ e with pendingReturn := value } : Environment).Alike f k
      { e' with pendingReturn := value.map (Value.relocate f) } := by
  obtain ⟨own, base, base', hlength, hbase, rfl, rfl⟩ := h
  exact ⟨own, { base with pendingReturn := value },
    { base' with pendingReturn := value.map (Value.relocate f) }, hlength,
    ⟨hbase.lookup?, hbase.method?, hbase.natives, hbase.overlooks, rfl⟩, rfl, rfl⟩

end Alike

end Environment

/-! ## States -/

/-- The slot, of the object at its new place if it is a field. -/
def Slot.relocate (f : Nat → Nat) : Slot → Slot
  | .var name => .var name
  | .field owner name => .field (owner.relocate f) name

/-- What is there before one run, and not before another: the objects of
earlier runs. The texts are what each of the two outputs goes on from. -/
structure Past where
  /-- the objects that only the second run finds -/
  objects : Array Object
  /-- what was written before the first run -/
  output : String
  /-- what was written before the second run -/
  output' : String

namespace Past

/-- Where the second run has the object that the first one has at a place. -/
def place (p : Past) : Nat → Nat := behind p.objects

/-- A program cannot tell the states apart. The innermost scopes, so many of
them, are the same. -/
structure Alike (p : Past) (k : Nat) (s s' : State) : Prop where
  /-- the same names, with the same meaning -/
  environment : s.environment.Alike p.place k s'.environment
  /-- the same objects, behind those of the past -/
  heap : s.heap.Extends p.objects s'.heap
  /-- the same depth -/
  depth : s'.depth = s.depth
  /-- the same has been written -/
  output : ∃ text, s.output = p.output ++ text ∧ s'.output = p.output' ++ text

end Past

namespace Past.Alike

variable {p : Past} {k : Nat} {s s' : State}

/-- The fields of an object hold the same, moved. -/
theorem fields (h : p.Alike k s s') (ref : Ref) :
    s'.heap.fields (ref.relocate p.place) = (s.heap.fields ref).map (Value.relocate p.place) :=
  h.heap.fields ref

theorem hasField (h : p.Alike k s s') (ref : Ref) (name : String) :
    s'.heap.hasField (ref.relocate p.place) name = s.heap.hasField ref name :=
  h.heap.hasField ref name

/-- A path leads to the same value, moved, or to the same error. -/
theorem follow (h : p.Alike k s s') :
    ∀ (path : List String) (name : String) (value : Value),
      s'.heap.follow name (value.relocate p.place) path
        = (s.heap.follow name value path).map (Value.relocate p.place)
  | [], _, _ => rfl
  | segment :: path, name, value => by
    cases value with
    | object ref =>
      simp only [Heap.follow, Value.relocate, Heap.field?, h.fields, Table.get?_map]
      rcases (s.heap.fields ref).get? segment with _ | value
      · rfl
      · exact follow h path _ value
    | _ => rfl

theorem member (h : p.Alike k s s') (head : String) (path : List String) :
    s'.member head path = (s.member head path).map (Value.relocate p.place) := by
  rw [State.member, State.member, h.environment.get]
  rcases s.environment.get head with e | value
  · rfl
  · exact h.follow path head value

/-- It leads to the same object, moved. -/
theorem objectAt (h : p.Alike k s s') (head : String) (path : List String) :
    s'.objectAt head path = (s.objectAt head path).map (Ref.relocate p.place) := by
  rw [State.objectAt, State.objectAt, h.member]
  rcases s.member head path with e | value
  · rfl
  · cases value <;> rfl

/-- A variable that is in sight in one is in sight in the other. -/
theorem variableSlot (h : p.Alike k s s') (name : String) :
    s'.variableSlot name = (s.variableSlot name).map (Slot.relocate p.place) := by
  rw [State.variableSlot, State.variableSlot, h.environment.contains]
  split <;> rfl

/-- Targets name the same slots. -/
theorem slot (h : p.Alike k s s') (target : Target) :
    s'.slot target = (s.slot target).map (Slot.relocate p.place) := by
  cases target with
  | var name => exact h.variableSlot name
  | member head path =>
    rw [State.slot, State.slot]
    rcases path.getLast? with _ | field
    · exact h.variableSlot head
    · simp only [h.objectAt]
      rcases s.objectAt head path.dropLast with e | owner
      · rfl
      · change (if s'.heap.hasField (owner.relocate p.place) field then _ else _)
          = Except.map _ (if s.heap.hasField owner field then _ else _)
        rw [h.hasField]
        split <;> rfl

/-! ### Changes -/

/-- States stay alike with environments that are. -/
theorem withEnvironment (h : p.Alike k s s') {l : Nat} {e e' : Environment}
    (he : e.Alike p.place l e') :
    p.Alike l { s with environment := e } { s' with environment := e' } :=
  ⟨he, h.heap, h.depth, h.output⟩

/-- They stay alike with heaps of which one extends the other. -/
theorem withHeap (h : p.Alike k s s') {g g' : Heap} (hg : g.Extends p.objects g') :
    p.Alike k { s with heap := g } { s' with heap := g' } :=
  ⟨h.environment, hg, h.depth, h.output⟩

/-- Filling a slot goes on alike. -/
theorem put (h : p.Alike k s s') (slot : Slot) (value : Value) :
    p.Alike k (s.put slot value) (s'.put (slot.relocate p.place) (value.relocate p.place)) := by
  cases slot with
  | var name => exact h.withEnvironment (h.environment.set name value)
  | field owner name => exact h.withHeap (h.heap.setField owner name value)

/-- Writing fields back goes on alike. -/
theorem putFields (h : p.Alike k s s') (ref : Ref) (entries : List (String × Value)) :
    p.Alike k (s.putFields ref entries)
      (s'.putFields (ref.relocate p.place) (entries.map (Prod.map id (Value.relocate p.place)))) := by
  suffices hg : ∀ {g g' : Heap}, g.Extends p.objects g' →
      (entries.foldl (fun h entry => h.setField ref entry.1 entry.2) g).Extends p.objects
        ((entries.map (Prod.map id (Value.relocate p.place))).foldl
          (fun h entry => h.setField (ref.relocate p.place) entry.1 entry.2) g') from
    h.withHeap (hg h.heap)
  induction entries with
  | nil => exact id
  | cons entry entries ih => exact fun hg => ih (hg.setField ref entry.1 entry.2)

/-- Printing the same adds the same to both outputs. -/
theorem print (h : p.Alike k s s') (text : String) :
    p.Alike k { s with output := s.output ++ text } { s' with output := s'.output ++ text } := by
  obtain ⟨written, hs, hs'⟩ := h.output
  refine ⟨h.environment, h.heap, h.depth, written ++ text, ?_, ?_⟩
  · rw [hs, String.append_assoc]
  · rw [hs', String.append_assoc]

end Past.Alike

end ClassLang
