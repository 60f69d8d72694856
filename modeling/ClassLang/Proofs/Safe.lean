import ClassLang.Proofs.Objects
import ClassLang.Proofs.Related

/-!
# Computations that leave sound states sound

`Run.Safe` speaks of two computations at once. Started in a sound state, the
second has the outcome of the first, and the state it ends in is sound again,
its scopes have what they had, its heap has grown, and the result is as wanted.
The second computation is going to be the first one under observation.

The heap that a computation starts with, or an earlier one, is a parameter of
`Run.Safe`. What is known of values that were found before is known of that
heap, and remains true of all that it grows into.
-/

namespace ClassLang

/-! ## What is known of scopes -/

/-- The scopes have variables of just these names. -/
def named (ν : List (List String)) : List (Scope → Prop) :=
  ν.map fun names s => s.vars.names = names

/-- The scope has variables of these names, and maybe more. -/
def Scope.Has (names : List String) (s : Scope) : Prop := ∀ name ∈ names, s.contains name = true

section

variable {h : Heap} {ν : List (List String)} {N : List String} {s : State}

/-- The scopes have just these names if they are the names of the scopes. -/
theorem fit_named_iff {scopes : List Scope} : Fit (named ν) scopes ↔ namesOf scopes = ν := by
  induction ν generalizing scopes with
  | nil => cases scopes <;> simp [named, Fit, namesOf]
  | cons names ν ih =>
    cases scopes with
    | nil => simp [named, Fit, namesOf]
    | cons s rest =>
      rw [named, List.map_cons, Fit, List.forall₂_cons, namesOf, List.map_cons, List.cons.injEq]
      exact and_congr_right fun _ => ih

/-- Assignments change no names. -/
theorem stable_named {allowed : String → Prop} : ∀ ψ ∈ named ν, Scope.Stable allowed ψ := by
  intro ψ hψ
  obtain ⟨names, -, rfl⟩ := List.mem_map.mp hψ
  exact fun s name value _ hs => (Table.names_set ..).trans hs

/-- Assignments leave the variables of a scope in place. -/
theorem Scope.stable_has {allowed : String → Prop} : Scope.Stable allowed (Scope.Has N) := by
  intro s name value _ hs other hother
  rw [Scope.contains, ← Table.mem_names_iff, Scope.set, Table.names_set, Table.mem_names_iff]
  exact hs other hother

/-- So do declarations. -/
theorem Scope.open_has : Scope.Open (Scope.Has N) where
  declare := by
    intro s s' name value hdeclare hs other hother
    rw [Scope.declare] at hdeclare
    split at hdeclare <;> cases hdeclare
    rw [Scope.contains, ← Table.mem_names_iff, Table.mem_names_insert, Table.mem_names_iff]
    exact .inr (hs other hother)
  declareMethod _ hs := hs

/-- Assignments leave the variables in place, in the current scope and in those
below. -/
theorem stable_has_named {allowed : String → Prop} :
    ∀ ψ ∈ Scope.Has N :: named ν, Scope.Stable allowed ψ :=
  List.forall_mem_cons.mpr ⟨Scope.stable_has, stable_named⟩

/-- A scope that has some variables has certain variables. -/
theorem fits_has_iff :
    s.Fits h (Scope.Has N :: named ν)
      ↔ ∃ top, (∀ name ∈ N, name ∈ top) ∧ s.Fits h (named (top :: ν)) := by
  constructor
  · rintro ⟨hheap, hscopes⟩
    obtain ⟨top, rest, htop, hrest, heq⟩ := List.forall₂_cons_left_iff.mp hscopes
    refine ⟨top.vars.names, fun name hname => ?_, hheap, ?_⟩
    · exact (Table.mem_names_iff _).mpr (htop name hname)
    rw [heq]
    exact .cons rfl hrest
  · rintro ⟨top, htop, hheap, hscopes⟩
    obtain ⟨s', rest, hs', hrest, heq⟩ := List.forall₂_cons_left_iff.mp hscopes
    refine ⟨hheap, ?_⟩
    rw [heq]
    exact .cons (fun name hname => (Table.mem_names_iff _).mp (hs' ▸ htop name hname)) hrest

end

/-- After the end of a block only the marks of the scopes below matter. -/
theorem State.IsSound.endBlock_of_fits {cx : Context} {κ κ' : Marks} {s : State} {h : Heap}
    {ψ ψ' : Scope → Prop} {Ψ : List (Scope → Prop)} (hs : s.IsSound cx κ')
    (hfits : s.Fits h (ψ :: ψ' :: Ψ))
    (hκ : ∀ level < (ψ' :: Ψ).length, ∀ name, κ' level name → κ level name) :
    ({ s with environment := s.environment.endBlock } : State).IsSound cx κ := by
  have hscopes := hfits.scopes
  obtain ⟨top, below, -, hbelow, heq⟩ := List.forall₂_cons_left_iff.mp hscopes
  obtain ⟨next, rest, -, hrest, rfl⟩ := List.forall₂_cons_left_iff.mp hbelow
  refine hs.endBlock heq fun level hlevel => hκ level ?_
  rw [List.length_cons, hrest.length_eq]
  exact Nat.lt_succ_of_le hlevel

/-! ## Safe computations -/

namespace Run

variable {α β : Type} {cx : Context} {κ : Marks} {Ψ Φ : List (Scope → Prop)} {h : Heap}
  {post Q : α → Heap → Prop} {m m' : Run α}

/-- From sound states whose scopes have the properties, the second computation
has the outcome of the first; it ends in a sound state whose scopes have the
properties, and with a value that is as wanted if it ends with one. -/
def Safe (cx : Context) (κ : Marks) (Ψ : List (Scope → Prop)) (h : Heap)
    (post : α → Heap → Prop) (m m' : Run α) : Prop :=
  ∀ ⦃s⦄, s.IsSound cx κ → s.Fits h Ψ → m' s = m s ∧ ∀ r s', m s = some (r, s') →
    s'.IsSound cx κ ∧ s'.Fits s.heap Ψ ∧ ∀ a, r = .ok a → post a s'.heap

namespace Safe

/-! ### Rules -/

/-- What follows from the wanted property may be wanted instead. -/
theorem imp (hm : Safe cx κ Ψ h Q m m') (himp : ∀ a h', h.Grows h' → Q a h' → post a h') :
    Safe cx κ Ψ h post m m' := by
  intro s hs hfits
  obtain ⟨heq, hends⟩ := hm hs hfits
  refine ⟨heq, fun r s' hrun => ?_⟩
  obtain ⟨hs', hfits', hresult⟩ := hends r s' hrun
  exact ⟨hs', hfits', fun a ha => himp a _ (hfits.heap.trans hfits'.heap) (hresult a ha)⟩

/-- What is known of all runs that end with a value may be added. -/
theorem with_run {P : α → Prop} (hm : Safe cx κ Ψ h Q m m')
    (hP : ∀ s a s', s.Fits h Ψ → m s = some (.ok a, s') → P a) :
    Safe cx κ Ψ h (fun a h' => P a ∧ Q a h') m m' := by
  intro s hs hfits
  obtain ⟨heq, hends⟩ := hm hs hfits
  refine ⟨heq, fun r s' hrun => ?_⟩
  obtain ⟨hs', hfits', hresult⟩ := hends r s' hrun
  refine ⟨hs', hfits', fun a ha => ⟨hP s a s' hfits ?_, hresult a ha⟩⟩
  rw [hrun, ha]

/-- Sequencing, where more is known of the scopes behind the first part. -/
theorem bind_refine {post : β → Heap → Prop} {f f' : α → Run β} (hm : Safe cx κ Ψ h Q m m')
    (hrefine : ∀ s a s', s.IsSound cx κ → s.Fits h Ψ → m s = some (.ok a, s') →
      s'.Fits s.heap Φ)
    (hweaken : ∀ scopes, Fit Φ scopes → Fit Ψ scopes)
    (hf : ∀ a h', h.Grows h' → Q a h' → Safe cx κ Φ h' post (f a) (f' a)) :
    Safe cx κ Ψ h post (m >>= f) (m' >>= f') := by
  intro s hs hfits
  obtain ⟨heq, hends⟩ := hm hs hfits
  rcases hms : m s with _ | ⟨e | a, t⟩
  · rw [bind_of_none hms, bind_of_none (heq.trans hms)]
    exact ⟨rfl, fun _ _ hrun => by cases hrun⟩
  · obtain ⟨ht, hfits', -⟩ := hends _ t hms
    rw [bind_of_error hms, bind_of_error (heq.trans hms)]
    refine ⟨rfl, fun r s' hrun => ?_⟩
    cases hrun
    exact ⟨ht, hfits', fun _ hok => by cases hok⟩
  · obtain ⟨ht, hfits', hresult⟩ := hends _ t hms
    have hrefined := hrefine s a t hs hfits hms
    obtain ⟨heq', hends'⟩ := hf a t.heap (hfits.heap.trans hfits'.heap) (hresult a rfl) ht
      ⟨.refl _, hrefined.scopes⟩
    rw [bind_of_ok hms, bind_of_ok (heq.trans hms)]
    refine ⟨heq', fun r s' hrun => ?_⟩
    obtain ⟨hs', hfits'', hresult'⟩ := hends' r s' hrun
    exact ⟨hs', ⟨hfits'.heap.trans hfits''.heap, hweaken _ hfits''.scopes⟩, hresult'⟩

/-- If a first computation is safe, and the next one is after it, both are. -/
theorem bind {post : β → Heap → Prop} {f f' : α → Run β} (hm : Safe cx κ Ψ h Q m m')
    (hf : ∀ a h', h.Grows h' → Q a h' → Safe cx κ Ψ h' post (f a) (f' a)) :
    Safe cx κ Ψ h post (m >>= f) (m' >>= f') :=
  bind_refine hm (fun _ _ _ hs hfits hrun => ((hm hs hfits).2 _ _ hrun).2.1) (fun _ => id) hf

/-- Looking something up that may be missing is safe if what is found is as
wanted. -/
theorem tryReads {f : State → Except RuntimeError α}
    (hpost : ∀ s a, s.IsSound cx κ → s.Fits h Ψ → f s = .ok a → post a s.heap) :
    Safe cx κ Ψ h post (Run.tryReads f) (Run.tryReads f) := by
  intro s hs hfits
  refine ⟨rfl, fun r s' hrun => ?_⟩
  obtain ⟨hr, rfl⟩ := Prod.mk.inj (Option.some.inj hrun)
  exact ⟨hs, hfits.now, fun a ha => hpost s a hs hfits (hr.trans ha)⟩

/-- Looking something up is safe if what is found is as wanted. -/
theorem reads {f : State → α} (hpost : ∀ s, s.IsSound cx κ → s.Fits h Ψ → post (f s) s.heap) :
    Safe cx κ Ψ h post (Run.reads f) (Run.reads f) :=
  tryReads fun s a hs hfits ha => by
    cases ha
    exact hpost s hs hfits

/-- A result that does not depend on the state is safe if it is as wanted. -/
theorem ofExcept {x : Except RuntimeError α} (hpost : ∀ a h', h.Grows h' → x = .ok a → post a h') :
    Safe cx κ Ψ h post (Run.ofExcept x) (Run.ofExcept x) :=
  tryReads fun s a _ hfits ha => hpost a s.heap hfits.heap ha

/-- A value is safe if it is as wanted. -/
theorem pure {a : α} (hpost : ∀ h', h.Grows h' → post a h') :
    Safe cx κ Ψ h post (Pure.pure a : Run α) (Pure.pure a) :=
  ofExcept fun b h' hg hb => by
    cases hb
    exact hpost h' hg

theorem fail (e : RuntimeError) : Safe cx κ Ψ h post (Run.fail e) (Run.fail e) :=
  ofExcept fun _ _ _ ha => by cases ha

theorem outOfFuel : Safe cx κ Ψ h post (Run.outOfFuel : Run α) Run.outOfFuel :=
  fun _ _ _ => ⟨rfl, fun _ _ hrun => by cases hrun⟩

/-- A change that keeps states sound and scopes as they are. -/
theorem modify {f : State → State} {post : Unit → Heap → Prop}
    (hf : ∀ s, s.IsSound cx κ → s.Fits h Ψ → (f s).IsSound cx κ ∧ (f s).Fits s.heap Ψ)
    (hpost : ∀ h', post () h') : Safe cx κ Ψ h post (Run.modify f) (Run.modify f) := by
  intro s hs hfits
  refine ⟨rfl, fun r s' hrun => ?_⟩
  cases hrun
  exact ⟨(hf s hs hfits).1, (hf s hs hfits).2, fun _ _ => hpost _⟩

/-- What is safe whatever names there are exactly is safe if some are known. -/
theorem inScope {N : List String} {ν : List (List String)}
    (hm : ∀ top, Safe cx κ (named (top :: ν)) h post m m') :
    Safe cx κ (Scope.Has N :: named ν) h post m m' := by
  intro s hs hfits
  obtain ⟨top, htop, hnamed⟩ := fits_has_iff.mp hfits
  obtain ⟨heq, hends⟩ := hm top hs hnamed
  refine ⟨heq, fun r s' hrun => ?_⟩
  obtain ⟨hs', hfits', hresult⟩ := hends r s' hrun
  exact ⟨hs', fits_has_iff.mpr ⟨top, htop, hfits'⟩, hresult⟩

/-! ### Declaring and writing -/

section

variable {ψ : Scope → Prop} {name : String} {v : Value}

/-- Declaring a variable is safe, and a class may be its value where that is
marked. -/
theorem declare (hopen : Scope.Open ψ) (hv : v.ExistsIn h)
    (hclass : v.IsClass → ∀ (s : State) (top : Scope) (rest : List Scope), s.Fits h (ψ :: Ψ) →
      s.environment.scopes = top :: rest → top.contains name = false → κ rest.length name) :
    Safe cx κ (ψ :: Ψ) h (fun _ _ => True) (Run.declare name v) (Run.declare name v) := by
  intro s hs hfits
  refine ⟨rfl, fun r s' hrun => ?_⟩
  have hfits' := lasts_declare hopen name v hfits.now hrun
  refine ⟨?_, hfits', fun _ _ => trivial⟩
  rw [Run.declare, Run.tryModify] at hrun
  rcases hdeclare : s.environment.declare name v with e | e <;> rw [hdeclare] at hrun <;> cases hrun
  · exact hs
  · exact hs.declare hdeclare (hv.mono hfits.heap) fun top rest hscopes hfree hcls =>
      hclass hcls s top rest hfits hscopes hfree

/-- What is no class may be declared anywhere. -/
theorem declare_of_not_class (hopen : Scope.Open ψ) (hv : v.ExistsIn h) (hclass : ¬ v.IsClass) :
    Safe cx κ (ψ :: Ψ) h (fun _ _ => True) (Run.declare name v) (Run.declare name v) :=
  declare hopen hv fun hcls => absurd hcls hclass

/-- Writing is safe, and a class may be written where that is allowed. -/
theorem write (hΨ : ∀ ψ ∈ Ψ, Scope.Stable (fun _ => True) ψ) {target : Target}
    (hv : v.ExistsIn h)
    (hclass : v.IsClass → ∃ name, target.bareName? = some name ∧
      ∀ scopes, Fit Ψ scopes → κ.Allow name (namesOf scopes)) :
    Safe cx κ Ψ h (fun _ _ => True) (Run.write target v) (Run.write target v) := by
  intro s hs hfits
  refine ⟨rfl, fun r s' hrun => ?_⟩
  have hfits' := lasts_write hΨ (fun _ _ => trivial) v hfits.now hrun
  refine ⟨?_, hfits', fun _ _ => trivial⟩
  rcases Run.write_eq_some hrun with ⟨slot, hslot, -, rfl⟩ | ⟨-, rfl⟩
  · refine hs.put (hv.mono hfits.heap) fun hcls => ?_
    obtain ⟨name, hname, hallow⟩ := hclass hcls
    rcases State.slot_eq_ok hslot with ⟨other, hother, -, rfl⟩ | ⟨hnone, -⟩
    · cases hname.symm.trans hother
      exact ⟨name, rfl, hallow _ hfits.scopes⟩
    · cases hname.symm.trans hnone
  · exact hs

/-- Output does not matter. -/
theorem print (text : String) :
    Safe cx κ Ψ h (fun _ _ => True) (Run.print text) (Run.print text) :=
  modify (fun _ hs hfits => ⟨⟨hs.heap, hs.scopes, hs.pendingReturn⟩, .refl _, hfits.scopes⟩)
    fun _ => trivial

/-- A value that is there may return. -/
theorem setReturn (hv : v.ExistsIn h) :
    Safe cx κ Ψ h (fun _ _ => True)
      (Run.modify fun s => { s with environment := s.environment.setReturn v })
      (Run.modify fun s => { s with environment := s.environment.setReturn v }) := by
  refine modify (fun s hs hfits => ⟨hs.withReturn fun w hw => ?_, .refl _, hfits.scopes⟩)
    fun _ => trivial
  cases hw
  exact hv.mono hfits.heap

/-- Fields may be given values that are there and are no classes. -/
theorem putFields (ref : Ref) {fields : List (String × Value)}
    (hfields : ∀ entry ∈ fields, entry.2.ExistsIn h ∧ ¬ entry.2.IsClass) :
    Safe cx κ Ψ h (fun _ _ => True) (Run.modify (·.putFields ref fields))
      (Run.modify (·.putFields ref fields)) := by
  refine modify (fun s hs hfits => ?_) fun _ => trivial
  have hgrows := Heap.Grows.setFields ref fields s.heap
  refine ⟨hs.withHeap hgrows (hs.heap.setFields ref fun entry hentry => ?_), hgrows, hfits.scopes⟩
  exact ⟨(hfields entry hentry).1.mono hfits.heap, (hfields entry hentry).2⟩

/-- Declaring methods is safe. -/
theorem declareMethods (hopen : Scope.Open ψ) (routines : List Routine) :
    Safe cx κ (ψ :: Ψ) h (fun _ _ => True) (Run.declareMethods routines)
      (Run.declareMethods routines) := by
  intro s hs hfits
  refine ⟨rfl, fun r s' hrun => ?_⟩
  have hfits' := lasts_declareMethods hopen routines hfits.now hrun
  cases hrun
  refine ⟨?_, hfits', fun _ _ => trivial⟩
  exact List.foldlRecOn (motive := fun e => ({ s with environment := e } : State).IsSound cx κ) _ _
    hs fun e he routine _ => he.declareMethod routine

/-- A new object of a class is safe, with fields that are there and are no
classes. -/
theorem allocate {object : Object} (hobject : ∃ c, object.IsOf cx c)
    (hfields : ∀ name v, object.fields.get? name = some v → v.ExistsIn h ∧ ¬ v.IsClass) :
    Safe cx κ Ψ h (fun ref h' => ref.ExistsIn h') (Run.allocate object) (Run.allocate object) := by
  intro s hs hfits
  refine ⟨rfl, fun r s' hrun => ?_⟩
  have hfits' := lasts_allocate object hfits.now hrun
  cases hrun
  have hgrows := Heap.Grows.allocate s.heap object
  refine ⟨hs.withHeap hgrows (hs.heap.allocate hobject fun name v hv => ?_), hfits',
    fun ref href => ?_⟩
  · exact ⟨(hfields name v hv).1.mono hfits.heap, (hfields name v hv).2⟩
  · cases href
    exact Heap.IsSound.existsIn_allocate s.heap object

end

/-! ### Opening and closing -/

/-- What is safe between an opening and a closing is safe if both keep states
sound. -/
theorem around {κ' : Marks} {opening closing : State → State} {wrap : α → State → β}
    (hm : Safe cx κ' Φ h Q m m') (post : β → Heap → Prop)
    (hopening : ∀ s, s.IsSound cx κ → s.Fits h Ψ →
      (opening s).IsSound cx κ' ∧ (opening s).Fits h Φ ∧ (opening s).heap = s.heap)
    (hclosing : ∀ t h', t.IsSound cx κ' → t.Fits h' Φ →
      (closing t).IsSound cx κ ∧ (closing t).Fits h' Ψ ∧ (closing t).heap = t.heap)
    (hwrap : ∀ t a, t.IsSound cx κ' → Q a t.heap → post (wrap a t) t.heap) :
    Safe cx κ Ψ h post (Run.around opening closing wrap m)
      (Run.around opening closing wrap m') := by
  intro s hs hfits
  obtain ⟨hopened, hfitsOpened, hheap⟩ := hopening s hs hfits
  obtain ⟨heq, hends⟩ := hm hopened hfitsOpened
  rcases hbody : m (opening s) with _ | ⟨r, t⟩
  · rw [around_of_none hbody, around_of_none (heq.trans hbody)]
    exact ⟨rfl, fun _ _ hrun => by cases hrun⟩
  · obtain ⟨ht, hfits', hresult⟩ := hends r t hbody
    obtain ⟨hclosed, hfitsClosed, hheap'⟩ := hclosing t _ ht hfits'
    rw [around_of_some hbody, around_of_some (heq.trans hbody)]
    refine ⟨rfl, fun r' s' hrun => ?_⟩
    cases hrun
    refine ⟨hclosed, hheap ▸ hfitsClosed, fun b hb => ?_⟩
    rcases r with e | a
    · cases hb
    · cases hb
      rw [hheap']
      exact hwrap t a ht (hresult a rfl)

/-- A block is safe if what happens in its scope is. -/
theorem inBlock {ψ : Scope → Prop} (hψ : ψ {}) (hm : Safe cx κ (ψ :: Ψ) h post m m') :
    Safe cx κ Ψ h post (Run.inBlock m) (Run.inBlock m') := by
  intro s hs hfits
  obtain ⟨ψ', Ψ', rfl⟩ := hfits.exists_cons
  rw [inBlock_eq_around, inBlock_eq_around]
  refine around hm post (fun s hs hfits => ?_) (fun t h' ht hfits => ?_) (fun _ _ _ => id) hs hfits
  · exact ⟨hs.startBlock fun _ _ _ => id, hfits.startBlock hψ, rfl⟩
  · exact ⟨ht.endBlock_of_fits hfits fun _ _ _ => id, hfits.endBlock, rfl⟩

/-- In the scope of a call other variables may be marked than below. -/
theorem inCall {ψ : Scope → Prop} {κ' : Marks} (hψ : ψ {})
    (hκ : ∀ level < Ψ.length, ∀ name, κ' level name ↔ κ level name)
    (hm : Safe cx κ' (ψ :: Ψ) h Q m m') :
    Safe cx κ Ψ h (fun x h' => Q x.1 h' ∧ x.2.ExistsIn h') (Run.inCall m) (Run.inCall m') := by
  intro s hs hfits
  obtain ⟨ψ', Ψ', rfl⟩ := hfits.exists_cons
  rw [inCall_eq_around, inCall_eq_around]
  have hwrap : ∀ (t : State) (a : α), t.IsSound cx κ' → Q a t.heap →
      Q a t.heap ∧ t.environment.leaveCall.1.ExistsIn t.heap := by
    intro t a ht ha
    refine ⟨ha, ?_⟩
    rw [Environment.leaveCall]
    rcases hreturned : t.environment.pendingReturn with _ | v
    · trivial
    · exact ht.pendingReturn v hreturned
  refine around hm (fun (x : α × Value) h' => Q x.1 h' ∧ x.2.ExistsIn h') (fun s hs hfits => ?_)
    (fun t h' ht hfits => ?_) hwrap hs hfits
  · refine ⟨hs.startBlock fun level hlevel name => (hκ level ?_ name).mpr, hfits.startBlock hψ, rfl⟩
    rwa [hfits.scopes.length_eq]
  · have hend := hfits.endBlock
    have hclosed := ht.endBlock_of_fits hfits fun level hlevel name => (hκ level hlevel name).mp
    exact ⟨hclosed.withReturn fun _ hnone => (by cases hnone), ⟨hend.heap, hend.scopes⟩, rfl⟩

/-- A deeper level is safe if what happens there is. -/
theorem deeper {limit : Nat} (hm : Safe cx κ Ψ h post m m') :
    Safe cx κ Ψ h post (Run.deeper limit m) (Run.deeper limit m') := by
  intro s hs hfits
  rcases Nat.lt_or_ge s.depth limit with hlt | hge
  · rw [deeper_of_lt m hlt, deeper_of_lt m' hlt]
    refine around hm post (fun s hs hfits => ?_) (fun t h' ht hfits => ?_) (fun _ _ _ => id) hs hfits
    · exact ⟨⟨hs.heap, hs.scopes, hs.pendingReturn⟩, ⟨hfits.heap, hfits.scopes⟩, rfl⟩
    · exact ⟨⟨ht.heap, ht.scopes, ht.pendingReturn⟩, ⟨hfits.heap, hfits.scopes⟩, rfl⟩
  · rw [deeper_of_le m hge, deeper_of_le m' hge]
    refine ⟨rfl, fun r s' hrun => ?_⟩
    cases hrun
    exact ⟨hs, hfits.now, fun _ hok => by cases hok⟩

end Safe

end Run

end ClassLang
