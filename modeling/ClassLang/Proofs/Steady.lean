import ClassLang.Proofs.Guarded
import ClassLang.Proofs.Related
import ClassLang.Proofs.Routines
import ClassLang.Proofs.Whole

/-!
# Computations that leave some names alone

Which names may be written to is given (`allowed`). In a steady state
(`State.IsSteady`) the fields of all other names hold what they held in an
earlier heap, and the scopes have properties that writing to allowed names does
not destroy. Nothing dangles, and all routines in sight are those of the
program; both are needed on the way.

`Run.Steady` speaks of two computations, as `Run.Safe` does: from steady states
the second has the outcome of the first, and ends in a steady state. The second
one is going to be the first one under guard.
-/

namespace ClassLang

/-! ## Names that are written to -/

/-- The last name of a target: that of the variable or of the field that a
write to it changes. -/
def Target.lastName : Target → String
  | var name => name
  | member head path => path.getLast?.getD head

/-- The name of a variable or of a field. -/
def Slot.name : Slot → String
  | var name => name
  | field _ name => name

/-- A target names a slot with its last name. -/
theorem State.name_of_slot {s : State} {target : Target} {slot : Slot}
    (h : s.slot target = .ok slot) : slot.name = target.lastName := by
  have hvariable : ∀ name, s.variableSlot name = .ok slot → slot.name = name := by
    intro name hslot
    rw [variableSlot] at hslot
    split at hslot <;> cases hslot
    rfl
  cases target with
  | var name => exact hvariable name h
  | member head path =>
    rw [State.slot] at h
    rw [Target.lastName]
    rcases hlast : path.getLast? with _ | field <;> rw [hlast] at h
    · exact hvariable head h
    · rcases howner : s.objectAt head path.dropLast with e | owner <;> rw [howner] at h
      · cases h
      · change (if s.heap.hasField owner field then _ else _) = _ at h
        split at h <;> cases h
        rfl

/-! ## Fields -/

/-- Only the location of a reference matters. -/
theorem Heap.field?_congr (h : Heap) {ref ref' : Ref} (hlocation : ref.location = ref'.location)
    (name : String) : h.field? ref name = h.field? ref' name := by
  rw [field?, field?, fields, fields, hlocation]

/-- The objects are still there, and their fields hold what they held, but for
those of allowed names. -/
structure Heap.Spares (allowed : String → Prop) (h h' : Heap) : Prop where
  /-- the objects are there -/
  grows : h.Grows h'
  /-- the fields hold what they held -/
  fields : ∀ ref name v, ¬ allowed name → h.field? ref name = some v → h'.field? ref name = some v

namespace Heap.Spares

variable {allowed : String → Prop} {h h' h'' : Heap}

/-- A heap has spared itself. -/
theorem refl (h : Heap) : h.Spares allowed h := ⟨.refl h, fun _ _ _ _ => id⟩

/-- A heap that has been spared twice has been spared. -/
theorem trans (h₁ : h.Spares allowed h') (h₂ : h'.Spares allowed h'') : h.Spares allowed h'' :=
  ⟨h₁.grows.trans h₂.grows, fun ref name v hname hv =>
    h₂.fields ref name v hname (h₁.fields ref name v hname hv)⟩

/-- A field may be set if its name is allowed, or to what it holds. -/
theorem setField (h : Heap) (owner : Ref) {field : String} {new : Value}
    (hnew : ¬ allowed field → ∀ v, h.field? owner field = some v → new = v) :
    h.Spares allowed (h.setField owner field new) := by
  refine ⟨.setField h owner field new, fun ref name v hname hv => ?_⟩
  rw [field?_setField, hv]
  split
  · next hsame =>
    obtain ⟨hlocation, rfl⟩ := hsame
    rw [hnew hname v ((h.field?_congr hlocation field).trans hv)]
    rfl
  · rfl

/-- Fields may be given what they hold, if they are not allowed. -/
theorem setFields (owner : Ref) {entries : List (String × Value)} {h : Heap}
    (hentries : ∀ entry ∈ entries, ¬ allowed entry.1 → ∀ v,
      h.field? owner entry.1 = some v → entry.2 = v) :
    h.Spares allowed (entries.foldl (fun h (name, value) => h.setField owner name value) h) := by
  induction entries generalizing h with
  | nil => exact refl h
  | cons entry rest ih =>
    obtain ⟨hhead, hrest⟩ := List.forall_mem_cons.mp hentries
    have hset : h.Spares allowed (h.setField owner entry.1 entry.2) := setField h owner hhead
    refine hset.trans (ih fun other hother hname v hv => ?_)
    -- What the field holds now it held before: it had to hold something to be set.
    rw [field?_setField] at hv
    split at hv
    · next hsame =>
      obtain ⟨old, hold, rfl⟩ := Option.map_eq_some_iff.mp hv
      rw [hrest other hother hname old hold]
      exact (hhead (hsame.2 ▸ hname) old (hsame.2 ▸ hold)).symm
    · exact hrest other hother hname v hv

/-- A new object spares the fields of the others. -/
theorem allocate (h : Heap) (object : Object) : h.Spares allowed (h.allocate object).2 := by
  refine ⟨.allocate h object, fun ref name v _ hv => ?_⟩
  rw [field?_allocate, if_neg]
  · exact hv
  · intro hfresh
    have hv : h.field? (h.allocate object).1 name = some v :=
      (h.field?_congr hfresh name).symm.trans hv
    rw [Heap.field?, Heap.fields, object?_allocate_fresh] at hv
    cases hv

end Heap.Spares

/-! ## States -/

/-- Seen from an earlier heap only what is allowed has been written to, the
scopes have the properties, nothing dangles, and all routines are those of the
program. -/
structure State.IsSteady (p : Program) (allowed : String → Prop) (h : Heap)
    (Ψ : List (Scope → Prop)) (s : State) : Prop where
  /-- the fields that are not allowed hold what they held -/
  heap : h.Spares allowed s.heap
  /-- the scopes have the properties, innermost first -/
  scopes : Fit Ψ s.environment.scopes
  /-- nothing dangles -/
  whole : s.IsWhole
  /-- the routines are those of the program -/
  routines : s.environment.HasRoutinesOf p

section

variable {p : Program} {allowed : String → Prop} {h h' : Heap} {ψ : Scope → Prop}
  {Ψ Φ : List (Scope → Prop)} {s s' : State}

namespace State.IsSteady

/-- A steady state fits what is known of its scopes. -/
theorem fits (hs : s.IsSteady p allowed h Ψ) : s.Fits h Ψ := ⟨hs.heap.grows, hs.scopes⟩

/-- What the fields hold now they hold. -/
theorem now (hs : s.IsSteady p allowed h Ψ) : s.IsSteady p allowed s.heap Ψ :=
  ⟨.refl s.heap, hs.scopes, hs.whole, hs.routines⟩

/-- What is spared since a later heap is spared since an earlier one. -/
theorem since (hs : s.IsSteady p allowed h' Ψ) (hh : h.Spares allowed h') :
    s.IsSteady p allowed h Ψ :=
  ⟨hh.trans hs.heap, hs.scopes, hs.whole, hs.routines⟩

/-- A new block keeps the state steady, with its scope on top. -/
theorem startBlock (hs : s.IsSteady p allowed h Ψ) (hψ : ψ {}) :
    ({ s with environment := s.environment.startBlock } : State).IsSteady p allowed h (ψ :: Ψ) :=
  ⟨hs.heap, .cons hψ hs.scopes, hs.whole.startBlock, hs.routines.startBlock⟩

/-- The end of a block keeps the state steady. -/
theorem endBlock {ψ' : Scope → Prop} (hs : s.IsSteady p allowed h (ψ :: ψ' :: Ψ)) :
    ({ s with environment := s.environment.endBlock } : State).IsSteady p allowed h (ψ' :: Ψ) :=
  ⟨hs.heap, hs.fits.endBlock.scopes, hs.whole.endBlock, hs.routines.endBlock⟩

/-- What is returning may be anything that is there. -/
theorem withReturn (hs : s.IsSteady p allowed h Ψ) {returned : Option Value}
    (hreturned : ∀ v, returned = some v → v.ExistsIn s.heap) :
    ({ s with environment := { s.environment with pendingReturn := returned } } : State).IsSteady
      p allowed h Ψ :=
  ⟨hs.heap, hs.scopes, hs.whole.withReturn hreturned, hs.routines⟩

/-- Depth and output do not matter. -/
theorem of_same (hs : s.IsSteady p allowed h Ψ) (henvironment : s'.environment = s.environment)
    (hheap : s'.heap = s.heap) : s'.IsSteady p allowed h Ψ :=
  ⟨hheap ▸ hs.heap, henvironment ▸ hs.scopes,
    ⟨hheap ▸ hs.whole.heap, hheap ▸ henvironment ▸ hs.whole.scopes,
      hheap ▸ henvironment ▸ hs.whole.pendingReturn⟩, henvironment ▸ hs.routines⟩

/-- Filling a slot of an allowed name. -/
theorem put (hs : s.IsSteady p allowed h Ψ) (hΨ : ∀ ψ ∈ Ψ, Scope.Stable allowed ψ) {slot : Slot}
    {v : Value} (hslot : allowed slot.name) (hv : v.ExistsIn s.heap) :
    (s.put slot v).IsSteady p allowed h Ψ := by
  have hshapes : (s.put slot v).environment.shapes = s.environment.shapes :=
    congrArg Shape.scopes (s.shape_put slot v)
  refine ⟨?_, ?_, hs.whole.put slot hv, fun shape hshape => ?_⟩
  · cases slot with
    | var name => exact hs.heap
    | field owner name =>
      exact hs.heap.trans (.setField s.heap owner fun hname => absurd hslot hname)
  · cases slot with
    | var name =>
      change Fit Ψ (s.environment.set name v).scopes
      rw [Environment.scopes_set]
      exact fit_setFirst hΨ hslot v hs.scopes
    | field owner name => exact hs.scopes
  · exact hs.routines shape (hshapes ▸ hshape)

end State.IsSteady

end

/-! ## Horizons -/

/-- What is asked of the heap that a run ends with. It then holds of all earlier
heaps as well. -/
structure Horizon (allowed : String → Prop) where
  /-- what is asked -/
  holds : Heap → Prop
  /-- it holds of earlier heaps -/
  earlier : ∀ {h h' : Heap}, h.Spares allowed h' → holds h' → holds h

namespace Horizon

variable {α : Type} {allowed : String → Prop} {H : Horizon allowed} {h : Heap}
  {outcome : Option (Except RuntimeError α × State)}

/-- Nothing is asked. -/
def none : Horizon allowed := ⟨fun _ => True, fun _ _ => trivial⟩

/-- The fields of a name hold what they hold in this heap. -/
def fields (name : String) (last : Heap) (hname : ¬ allowed name) : Horizon allowed where
  holds h := ∀ ref v, h.field? ref name = some v → last.field? ref name = some v
  earlier hh hlast ref v hv := hlast ref v (hh.fields ref name v hname hv)

/-- The outcome is as asked. If there is none, nothing may have been asked. -/
def Admits (H : Horizon allowed) : Option (Except RuntimeError α × State) → Prop
  | .none => ∀ h, H.holds h
  | some (_, s) => H.holds s.heap

/-- Where nothing is asked, every outcome is as asked. -/
theorem admits_none : (none : Horizon allowed).Admits outcome := by
  rcases outcome with _ | ⟨_, s⟩
  · exact fun _ => trivial
  · trivial

/-- What is asked holds of all heaps that the outcome may come from. -/
theorem Admits.holds (hadmits : H.Admits outcome)
    (hspares : ∀ r s, outcome = some (r, s) → h.Spares allowed s.heap) : H.holds h := by
  rcases outcome with _ | ⟨r, s⟩
  · exact hadmits h
  · exact H.earlier (hspares r s rfl) hadmits

end Horizon

/-! ## Computations -/

/-- From steady states the second computation has the outcome of the first, if
that is as asked; it ends in a steady state, and with a value that is as wanted
if it ends with one. -/
def Run.Steady {α : Type} {allowed : String → Prop} (p : Program) (H : Horizon allowed)
    (Ψ : List (Scope → Prop)) (h : Heap) (post : α → Heap → Prop) (m m' : Run α) : Prop :=
  ∀ ⦃s⦄, s.IsSteady p allowed h Ψ → (H.Admits (m s) → m' s = m s) ∧ ∀ r s', m s = some (r, s') →
    s'.IsSteady p allowed s.heap Ψ ∧ ∀ a, r = .ok a → post a s'.heap

namespace Run.Steady

variable {α β : Type} {p : Program} {allowed : String → Prop} {H : Horizon allowed}
  {Ψ Φ : List (Scope → Prop)} {h : Heap} {post Q : α → Heap → Prop} {m m' : Run α}

/-! ### Rules -/

/-- What is steady seen from a heap is so seen from a later one. -/
theorem since {h' : Heap} (hm : Steady p H Ψ h post m m') (hh : h.Spares allowed h') :
    Steady p H Ψ h' post m m' :=
  fun _ hs => hm (hs.since hh)

/-- Sequencing, where more is known of the scopes behind the first part. -/
theorem bind_refine {post : β → Heap → Prop} {f f' : α → Run β}
    (hm : Steady p H Ψ h Q m m')
    (hrefine : ∀ s a s', s.IsSteady p allowed h Ψ → m s = some (.ok a, s') →
      Fit Φ s'.environment.scopes)
    (hweaken : ∀ scopes, Fit Φ scopes → Fit Ψ scopes)
    (hf : ∀ a h', h.Spares allowed h' → Q a h' → Steady p H Φ h' post (f a) (f' a)) :
    Steady p H Ψ h post (m >>= f) (m' >>= f') := by
  intro s hs
  obtain ⟨heq, hends⟩ := hm hs
  rcases hms : m s with _ | ⟨e | a, t⟩ <;> rw [hms] at heq
  · rw [bind_of_none hms]
    refine ⟨fun hadmits => ?_, fun _ _ hrun => by cases hrun⟩
    exact bind_of_none (heq hadmits)
  · obtain ⟨ht, -⟩ := hends _ t hms
    rw [bind_of_error hms]
    refine ⟨fun hadmits => bind_of_error (heq hadmits), fun r s' hrun => ?_⟩
    cases hrun
    exact ⟨ht, fun _ hok => by cases hok⟩
  · obtain ⟨ht, hresult⟩ := hends _ t hms
    have hrefined : t.IsSteady p allowed t.heap Φ :=
      ⟨.refl t.heap, hrefine s a t hs hms, ht.whole, ht.routines⟩
    obtain ⟨heq', hends'⟩ := hf a t.heap (hs.heap.trans ht.heap) (hresult a rfl) hrefined
    rw [bind_of_ok hms]
    refine ⟨fun hadmits => ?_, fun r s' hrun => ?_⟩
    · have hbefore : H.holds t.heap := hadmits.holds fun r s' hrun => (hends' r s' hrun).1.heap
      exact (bind_of_ok (heq hbefore)).trans (heq' hadmits)
    obtain ⟨hs', hresult'⟩ := hends' r s' hrun
    exact ⟨⟨ht.heap.trans hs'.heap, hweaken _ hs'.scopes, hs'.whole, hs'.routines⟩, hresult'⟩

/-- If a first computation is steady, and the next one is after it, both are. -/
theorem bind {post : β → Heap → Prop} {f f' : α → Run β} (hm : Steady p H Ψ h Q m m')
    (hf : ∀ a h', h.Spares allowed h' → Q a h' → Steady p H Ψ h' post (f a) (f' a)) :
    Steady p H Ψ h post (m >>= f) (m' >>= f') :=
  bind_refine hm (fun _ _ _ hs hrun => ((hm hs).2 _ _ hrun).1.scopes) (fun _ => id) hf

/-- Looking something up that may be missing is steady if what is found is as
wanted. -/
theorem tryReads {f : State → Except RuntimeError α}
    (hpost : ∀ s a, s.IsSteady p allowed h Ψ → f s = .ok a → post a s.heap) :
    Steady p H Ψ h post (Run.tryReads f) (Run.tryReads f) := by
  intro s hs
  refine ⟨fun _ => rfl, fun r s' hrun => ?_⟩
  obtain ⟨hr, rfl⟩ := Prod.mk.inj (Option.some.inj hrun)
  exact ⟨hs.now, fun a ha => hpost s a hs (hr.trans ha)⟩

/-- Looking something up is steady if what is found is as wanted. -/
theorem reads {f : State → α} (hpost : ∀ s, s.IsSteady p allowed h Ψ → post (f s) s.heap) :
    Steady p H Ψ h post (Run.reads f) (Run.reads f) :=
  tryReads fun s a hs ha => by
    cases ha
    exact hpost s hs

/-- A result that does not depend on the state is steady if it is as wanted. -/
theorem ofExcept {x : Except RuntimeError α}
    (hpost : ∀ a h', h.Spares allowed h' → x = .ok a → post a h') :
    Steady p H Ψ h post (Run.ofExcept x) (Run.ofExcept x) :=
  tryReads fun s a hs ha => hpost a s.heap hs.heap ha

theorem pure {a : α} (hpost : ∀ h', h.Spares allowed h' → post a h') :
    Steady p H Ψ h post (Pure.pure a : Run α) (Pure.pure a) :=
  ofExcept fun b h' hh hb => by
    cases hb
    exact hpost h' hh

theorem fail (e : RuntimeError) : Steady p H Ψ h post (Run.fail e) (Run.fail e) :=
  ofExcept fun _ _ _ ha => by cases ha

theorem outOfFuel : Steady p H Ψ h post (Run.outOfFuel : Run α) Run.outOfFuel :=
  fun _ _ => ⟨fun _ => rfl, fun _ _ hrun => by cases hrun⟩

/-- A change that leaves steady states steady. -/
theorem modify {f : State → State}
    (hf : ∀ s, s.IsSteady p allowed h Ψ → (f s).IsSteady p allowed s.heap Ψ) :
    Steady p H Ψ h (fun _ _ => True) (Run.modify f) (Run.modify f) := by
  intro s hs
  refine ⟨fun _ => rfl, fun r s' hrun => ?_⟩
  cases hrun
  exact ⟨hf s hs, fun _ _ => trivial⟩

/-! ### Declaring and writing -/

section

variable {ψ : Scope → Prop} {name : String} {v : Value}

/-- Declaring a variable is steady. -/
theorem declare (hopen : Scope.Open ψ) (hv : v.ExistsIn h) :
    Steady p H (ψ :: Ψ) h (fun _ _ => True) (Run.declare name v) (Run.declare name v) := by
  intro s hs
  refine ⟨fun _ => rfl, fun r s' hrun => ?_⟩
  have hfits := lasts_declare hopen name v hs.fits.now hrun
  rw [Run.declare, Run.tryModify] at hrun
  rcases hdeclare : s.environment.declare name v with e | e <;> rw [hdeclare] at hrun <;> cases hrun
  · exact ⟨hs.now, fun _ hok => by cases hok⟩
  · exact ⟨⟨.refl s.heap, hfits.scopes, hs.whole.declare hdeclare (hv.mono hs.heap.grows),
      hs.routines.declare hdeclare⟩, fun _ _ => trivial⟩

/-- Declaring several variables is steady. -/
theorem declareAll (hopen : Scope.Open ψ) : ∀ {entries : List (String × Value)} {h : Heap},
    (∀ entry ∈ entries, entry.2.ExistsIn h) →
      Steady p H (ψ :: Ψ) h (fun _ _ => True) (Run.declareAll entries)
        (Run.declareAll entries)
  | [], _, _ => .pure fun _ _ => trivial
  | (_, _) :: _, _, hentries => by
    obtain ⟨hhead, hrest⟩ := List.forall_mem_cons.mp hentries
    exact .bind (declare hopen hhead) fun _ _ hh _ =>
      declareAll hopen fun entry hentry => (hrest entry hentry).mono hh.grows

/-- Declaring methods of the program is steady. -/
theorem declareMethods (hopen : Scope.Open ψ) {routines : List Routine}
    (hroutines : ∀ r ∈ routines, p.Defines r) :
    Steady p H (ψ :: Ψ) h (fun _ _ => True) (Run.declareMethods routines)
      (Run.declareMethods routines) := by
  refine modify fun s hs => ?_
  have hfits := lasts_declareMethods hopen routines hs.fits.now rfl
  refine ⟨.refl s.heap, hfits.scopes, ?_, hs.routines.declareMethods hroutines⟩
  exact List.foldlRecOn (motive := fun e => ({ s with environment := e } : State).IsWhole) _ _
    hs.whole fun e he routine _ => he.declareMethod routine

/-- Writing to an allowed name is steady. -/
theorem write (hΨ : ∀ ψ ∈ Ψ, Scope.Stable allowed ψ) {target : Target}
    (htarget : allowed target.lastName) (hv : v.ExistsIn h) :
    Steady p H Ψ h (fun _ _ => True) (Run.write target v) (Run.write target v) := by
  refine .bind (Q := fun slot _ => allowed slot.name) (tryReads fun s slot _ hslot => ?_)
    fun slot h' hh hslot => modify fun s hs => ?_
  · rwa [State.name_of_slot hslot]
  · exact hs.now.put hΨ hslot ((hv.mono hh.grows).mono hs.heap.grows)

/-- The fields of an object may be filled with anything, those that are not
allowed with what they hold. -/
theorem putFields (ref : Ref) {entries : List (String × Value)}
    (hentries : ∀ entry ∈ entries, entry.2.ExistsIn h ∧
      (¬ allowed entry.1 → h.field? ref entry.1 = some entry.2)) :
    Steady p H Ψ h (fun _ _ => True) (Run.modify (·.putFields ref entries))
      (Run.modify (·.putFields ref entries)) := by
  refine modify fun s hs => ⟨.setFields ref fun entry hentry hname v hv => ?_, hs.scopes,
    hs.whole.putFields ref fun entry hentry => ?_, hs.routines⟩
  · have hkept := hs.heap.fields ref entry.1 _ hname ((hentries entry hentry).2 hname)
    exact Option.some.inj (hkept.symm.trans hv)
  · exact (hentries entry hentry).1.mono hs.heap.grows

/-- Output does not matter. -/
theorem print (text : String) :
    Steady p H Ψ h (fun _ _ => True) (Run.print text) (Run.print text) :=
  modify fun _ hs => hs.now.of_same rfl rfl

/-- A value that is there may return. -/
theorem setReturn (hv : v.ExistsIn h) :
    Steady p H Ψ h (fun _ _ => True)
      (Run.modify fun s => { s with environment := s.environment.setReturn v })
      (Run.modify fun s => { s with environment := s.environment.setReturn v }) := by
  refine modify fun s hs => hs.now.withReturn fun w hw => ?_
  cases hw
  exact hv.mono hs.heap.grows

/-- A new object is steady, with fields that are there. -/
theorem allocate {object : Object}
    (hobject : ∀ name v, object.fields.get? name = some v → v.ExistsIn h) :
    Steady p H Ψ h (fun ref h' => ref.ExistsIn h') (Run.allocate object)
      (Run.allocate object) := by
  intro s hs
  refine ⟨fun _ => rfl, fun r s' hrun => ?_⟩
  cases hrun
  refine ⟨⟨.allocate s.heap object, hs.scopes, hs.whole.allocate fun name v hv => ?_, hs.routines⟩,
    fun ref href => ?_⟩
  · exact (hobject name v hv).mono hs.heap.grows
  · cases href
    exact Heap.IsSound.existsIn_allocate s.heap object

end

/-! ### Opening and closing -/

/-- What is steady between an opening and a closing is steady if both keep states
so. -/
theorem around {opening closing : State → State} {wrap : α → State → β} {s : State}
    (hm : Steady p H Φ s.heap Q m m') (post : β → Heap → Prop)
    (hopening : (opening s).IsSteady p allowed s.heap Φ) (hheap : (opening s).heap = s.heap)
    (hclosing : ∀ t, t.IsSteady p allowed s.heap Φ →
      (closing t).IsSteady p allowed s.heap Ψ ∧ (closing t).heap = t.heap)
    (hwrap : ∀ t a, t.IsSteady p allowed s.heap Φ → Q a t.heap → post (wrap a t) t.heap) :
    (H.Admits (Run.around opening closing wrap m s) →
        Run.around opening closing wrap m' s = Run.around opening closing wrap m s) ∧
      ∀ r s', Run.around opening closing wrap m s = some (r, s') →
        s'.IsSteady p allowed s.heap Ψ ∧ ∀ b, r = .ok b → post b s'.heap := by
  obtain ⟨heq, hends⟩ := hm hopening
  rcases hbody : m (opening s) with _ | ⟨r, t⟩ <;> rw [hbody] at heq
  · rw [around_of_none hbody]
    exact ⟨fun hadmits => around_of_none (heq hadmits), fun _ _ hrun => by cases hrun⟩
  · obtain ⟨ht, hresult⟩ := hends r t hbody
    rw [hheap] at ht
    obtain ⟨hclosed, hheap'⟩ := hclosing t ht
    rw [around_of_some hbody]
    refine ⟨fun hadmits => ?_, fun r' s' hrun => ?_⟩
    · have hlast : H.holds t.heap := hheap' ▸ (hadmits : H.holds (closing t).heap)
      exact around_of_some (heq hlast)
    cases hrun
    refine ⟨hclosed, fun b hb => ?_⟩
    rcases r with e | a
    · cases hb
    · cases hb
      rw [hheap']
      exact hwrap t a ht (hresult a rfl)

/-- A block is steady if what happens in its scope is. -/
theorem inBlock {ψ : Scope → Prop} (hψ : ψ {}) (hm : Steady p H (ψ :: Ψ) h post m m') :
    Steady p H Ψ h post (Run.inBlock m) (Run.inBlock m') := by
  intro s hs
  obtain ⟨ψ', Ψ', rfl⟩ := hs.fits.exists_cons
  rw [inBlock_eq_around, inBlock_eq_around]
  exact around (hm.since hs.heap) post (hs.now.startBlock hψ) rfl
    (fun t ht => ⟨ht.endBlock, rfl⟩) fun _ _ _ => id

/-- What a call gives back is there, if its body ends. -/
theorem inCall {ψ : Scope → Prop} (hψ : ψ {}) (hm : Steady p H (ψ :: Ψ) h Q m m') :
    Steady p H Ψ h (fun x h' => Q x.1 h' ∧ x.2.ExistsIn h') (Run.inCall m)
      (Run.inCall m') := by
  intro s hs
  obtain ⟨ψ', Ψ', rfl⟩ := hs.fits.exists_cons
  rw [inCall_eq_around, inCall_eq_around]
  refine around (hm.since hs.heap) (fun (x : α × Value) h' => Q x.1 h' ∧ x.2.ExistsIn h')
    (hs.now.startBlock hψ) rfl (fun t ht => ⟨?_, rfl⟩) fun t a ht ha => ⟨ha, ?_⟩
  · exact ht.endBlock.withReturn fun _ hnone => by cases hnone
  · rw [Environment.leaveCall]
    rcases hreturned : t.environment.pendingReturn with _ | v
    · trivial
    · exact ht.whole.pendingReturn v hreturned

/-- A deeper level is steady if what happens there is. -/
theorem deeper {limit : Nat} (hm : Steady p H Ψ h post m m') :
    Steady p H Ψ h post (Run.deeper limit m) (Run.deeper limit m') := by
  intro s hs
  rcases Nat.lt_or_ge s.depth limit with hlt | hge
  · rw [deeper_of_lt m hlt, deeper_of_lt m' hlt]
    exact around (hm.since hs.heap) post (hs.now.of_same rfl rfl) rfl
      (fun t ht => ⟨ht.of_same rfl rfl, rfl⟩) fun _ _ _ => id
  · rw [deeper_of_le m hge, deeper_of_le m' hge]
    refine ⟨fun _ => rfl, fun r s' hrun => ?_⟩
    cases hrun
    exact ⟨hs.now, fun _ hok => by cases hok⟩

/-- A guard that accepts steady states raises no alarm. -/
theorem guarded {g : Guard} {condition : Prop} (hcondition : condition)
    (hstate : ∀ s, s.IsSteady p allowed h Ψ → H.holds s.heap → g.state s)
    (hm : Steady p H Ψ h post m m') : Steady p H Ψ h post m (m'.guarded g condition) := by
  intro s hs
  obtain ⟨heq, hends⟩ := hm hs
  refine ⟨fun hadmits => ?_, hends⟩
  have hbefore : H.holds s.heap := hadmits.holds fun r s' hrun => (hends r s' hrun).1.heap
  refine (guarded_eq hcondition (hstate s hs hbefore) fun r t hrun => ?_).trans (heq hadmits)
  rw [heq hadmits] at hrun
  rw [hrun] at hadmits
  exact hstate t ((hends r t hrun).1.since hs.heap) hadmits

end Run.Steady

end ClassLang
