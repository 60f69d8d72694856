import ClassLang.Proofs.Representation
import ClassLang.Proofs.SteadySteps

/-!
# Calls that leave some names alone

A call is the one place where the name that is written to does not stand in the
program: all fields of the object that it is on are copied back. Those that are
not allowed get what they hold, for the scope of the call mirrors the fields of
the object (`Scope.Mirrors`), and goes on mirroring those that are not allowed.

The result is `steady_guardedAt`: a guard that all parts of a program pass, and
all steady states, raises no alarm.
-/

namespace ClassLang

open Run (Steady)

section

variable {cx : Context} {g : Guard} {allowed : String → Prop} {H : Horizon allowed} {h : Heap}
  {ψ : Scope → Prop} {Ψ : List (Scope → Prop)} {calls calls' : Calls}

/-! ## The scope of a call -/

/-- The scope has variables for the fields of the object that a call is on, and
those that are not allowed hold what the fields did. -/
def Scope.Mirrors (allowed : String → Prop) (h : Heap) (receiver : Option Ref) (s : Scope) :
    Prop :=
  ∀ ref, receiver = some ref → ∀ name v, ¬ allowed name → h.field? ref name = some v →
    s.Holds name v

namespace Scope

variable {receiver : Option Ref}

/-- Allowed assignments leave the copies of the other fields as they are. -/
theorem stable_mirrors : Stable allowed (Mirrors allowed h receiver) :=
  fun s other new hother hs ref href name v hname hv =>
    stable_holds s other new (fun heq => hname (heq ▸ hother)) (hs ref href name v hname hv)

/-- Declarations leave them as they are. -/
theorem open_mirrors : Open (Mirrors allowed h receiver) where
  declare hdeclare hs ref href name v hname hv :=
    open_holds.declare hdeclare (hs ref href name v hname hv)
  declareMethod _ hs := hs

end Scope

section

variable {p : Program} {receiver : Option Ref} {routine : Routine} {values : List Value}

/-- Filling the scope of a call is steady. -/
theorem steady_bindCall (hopen : Scope.Open ψ)
    (hreceiver : ∀ ref, receiver = some ref → ref.ExistsIn h)
    (hvalues : ∀ v ∈ values, v.ExistsIn h) :
    Steady cx.program H (ψ :: Ψ) h (fun _ _ => True) (bindCall cx routine values receiver)
      (bindCall cx routine values receiver) := by
  have hparameters : ∀ h', h.Spares allowed h' → Steady cx.program H (ψ :: Ψ) h'
      (fun _ _ => True) (Run.declareAll (routine.passed values))
      (Run.declareAll (routine.passed values)) :=
    fun h' hh => .declareAll hopen fun entry hentry =>
      (hvalues entry.2 (List.of_mem_zip hentry).2).mono hh.grows
  cases receiver with
  | none => exact hparameters h (.refl h)
  | some ref =>
    rw [bindCall]
    refine .bind (Q := fun fields h' => ∀ entry ∈ fields.entries, entry.2.ExistsIn h')
      (.reads fun s hs entry hentry => ?_) fun fields h₁ hh₁ hfields => ?_
    · exact hs.whole.heap ref entry.1 entry.2 ((Table.mem_entries_iff _).mp hentry)
    refine .bind (.declareAll hopen hfields) fun _ h₂ hh₂ _ => ?_
    refine .bind (.declareMethods hopen fun r hr =>
      Context.defines_of_mem_methodsOf hr) fun _ h₃ hh₃ _ => ?_
    exact hparameters h₃ ((hh₁.trans hh₂).trans hh₃)

/-- When the scope of a call has been filled, it mirrors the fields. -/
theorem mirrors_bindCall {s s' : State}
    (hs : s.IsSteady p allowed h ((fun _ => True) :: Ψ))
    (hrun : bindCall cx routine values receiver s = some (.ok (), s')) :
    Fit (Scope.Mirrors allowed h receiver :: Ψ) s'.environment.scopes := by
  have hfits := lasts_bindCall Scope.open_true routine values receiver hs.fits.now hrun
  obtain ⟨top, rest, -, hrest, hscopes⟩ := List.forall₂_cons_left_iff.mp hfits.scopes
  rw [hscopes]
  refine .cons (fun ref href name v hname hv => ?_) hrest
  subst href
  have hholds := holds_bindCall (hs.heap.fields ref name v hname hv) hs.fits.now hrun
  have hscopes' := hholds.scopes
  rw [hscopes] at hscopes'
  exact (List.forall₂_cons.mp hscopes').1

/-! ## The end of a call -/

/-- What is copied out of the scope of a call is there, and fields that are not
allowed get what they hold. -/
structure GivesBack (allowed : String → Prop) (receiver : Option Ref)
    (x : List Value × List (String × Value)) (h : Heap) : Prop where
  /-- the parameters -/
  written : ∀ v ∈ x.1, v.ExistsIn h
  /-- the fields -/
  fields : ∀ ref, receiver = some ref → ∀ entry ∈ x.2, entry.2.ExistsIn h ∧
    (¬ allowed entry.1 → h.field? ref entry.1 = some entry.2)

/-- Fields that are not allowed are given back as they were. -/
theorem steady_finalValues (hreceiver : ∀ ref, receiver = some ref → ref.ExistsIn h)
    (bindings : List Binding) :
    Steady p H (Scope.Mirrors allowed h receiver :: Ψ) h (GivesBack allowed receiver)
      (finalValues bindings receiver) (finalValues bindings receiver) := by
  intro s hs
  refine ⟨fun _ => rfl, fun r s' hrun => ?_⟩
  have hsame : s' = s := keeps_finalValues (P := (· = s)) bindings receiver rfl hrun
  subst hsame
  refine ⟨hs.now, ?_⟩
  rintro ⟨written, fields⟩ rfl
  obtain ⟨-, hwritten, values, rfl, hvalues⟩ := finalValues_eq_ok hrun
  rw [hs.heap.grows.receiverFields_eq hreceiver] at hvalues ⊢
  refine ⟨fun v hv => ?_, fun ref href entry hentry => ?_⟩
  · obtain ⟨i, hi, rfl⟩ := List.mem_iff_getElem.mp hv
    exact hs.whole.lookup? (hwritten.get (hwritten.length_eq ▸ hi) hi)
  have hlookup := (List.forall₂_iff_zip.mp hvalues).2 hentry
  refine ⟨hs.whole.lookup? hlookup, fun hname => ?_⟩
  -- The object had the field when the call began, and the scope mirrors it.
  subst href
  have hfield : entry.1 ∈ (h.fields ref).names := (List.of_mem_zip hentry).1
  obtain ⟨old, hold⟩ := Option.isSome_iff_exists.mp ((Table.mem_names_iff _).mp hfield)
  obtain ⟨top, rest, htop, -, hscopes⟩ := List.forall₂_cons_left_iff.mp hs.scopes
  have htop : top.Holds entry.1 old := htop ref rfl entry.1 old hname hold
  rw [Environment.lookup?_eq, hscopes, List.findSome?_cons, htop] at hlookup
  cases hlookup
  exact hs.heap.fields ref entry.1 _ hname hold

/-- The body of a call is steady, and gives back the other fields as they were. -/
theorem steady_callBody (hc : calls.Steady cx H g calls')
    (hg : g.Accepts cx.program H h Ψ) (hroutine : cx.program.Defines routine)
    (hreceiver : ∀ ref, receiver = some ref → ref.ExistsIn h)
    (hvalues : ∀ v ∈ values, v.ExistsIn h) (bindings : List Binding) :
    Steady cx.program H ((fun _ => True) :: Ψ) h (GivesBack allowed receiver)
      (callBody cx calls routine values receiver bindings)
      (callBody cx calls' routine values receiver bindings) := by
  refine .bind_refine (Φ := Scope.Mirrors allowed h receiver :: Ψ)
    (steady_bindCall Scope.open_true hreceiver hvalues)
    (fun s _ s' hs hrun => mirrors_bindCall hs hrun) ?_ fun _ h₁ hh₁ _ => ?_
  · intro scopes hfit
    obtain ⟨top, rest, -, hrest, rfl⟩ := List.forall₂_cons_left_iff.mp hfit
    exact .cons trivial hrest
  · have hbody : ∀ st ∈ routine.body, Steady cx.program H
        (Scope.Mirrors allowed h receiver :: Ψ) h₁ (fun _ _ => True) (calls.execute st)
        (calls'.execute st) :=
      fun st hst => hc.execute ((hg.since hh₁).cons Scope.stable_mirrors) Scope.open_mirrors st
        (.body hroutine hst)
    exact .bind (steady_executeAll hbody) fun _ h₂ hh₂ _ =>
      (steady_finalValues hreceiver bindings).since (hh₁.trans hh₂)

/-- Writing back to allowed names is steady. -/
theorem steady_writeBack (hΨ : ∀ ψ ∈ Ψ, Scope.Stable allowed ψ) :
    ∀ {written : List (Binding × Value)} {h : Heap},
      (∀ w ∈ written, allowed w.1.target.lastName ∧ w.2.ExistsIn h) →
      Steady p H Ψ h (fun _ _ => True) (writeBack written) (writeBack written)
  | [], _, _ => .pure fun _ _ => trivial
  | _ :: _, _, hwritten => by
    obtain ⟨⟨htarget, hexists⟩, hrest⟩ := List.forall_mem_cons.mp hwritten
    exact .bind (.write hΨ htarget hexists) fun _ _ hh _ =>
      steady_writeBack hΨ fun w hw => ⟨(hrest w hw).1, (hrest w hw).2.mono hh.grows⟩

/-- One step of a call. -/
theorem steady_invokeStep (hw : cx.program.WritesOnly allowed)
    (hc : calls.Steady cx H g calls') (hg : g.Accepts cx.program H h Ψ)
    {arguments : List Expr} (hroutine : cx.program.Defines routine)
    (harguments : ∀ e ∈ arguments, cx.program.HasArgument e)
    (hreceiver : ∀ ref, receiver = some ref → ref.ExistsIn h) :
    Steady cx.program H Ψ h (fun v h' => v.ExistsIn h')
      (invokeStep cx calls routine arguments receiver)
      (invokeStep cx calls' routine arguments receiver) := by
  refine .bind (steady_evaluateAll fun e he => hc.evaluate hg e (harguments e he).hasExpr)
    fun values h₁ hh₁ hvalues => ?_
  refine .bind (Q := fun _ _ => True) (.ofExcept fun _ _ _ _ => trivial) fun _ h₂ hh₂ _ => ?_
  refine .bind (Q := fun bindings _ => ∀ b ∈ bindings, allowed b.target.lastName)
    (.reads fun s _ b hb => ?_) fun bindings h₃ hh₃ hbindings => ?_
  · obtain ⟨_, e, hmem, -, htarget⟩ := routine.mem_bindings (List.mem_of_mem_filter hb)
    exact hw.argument e b.target (harguments e (List.of_mem_zip hmem).2) htarget
  have hh := (hh₁.trans hh₂).trans hh₃
  refine .bind (hc.deeper (.inCall trivial (steady_callBody hc (hg.since hh) hroutine
    (fun ref href => (hreceiver ref href).mono hh.grows)
    (fun v hv => (hvalues v hv).mono (hh₂.trans hh₃).grows) bindings))) ?_
  rintro ⟨⟨written, fields⟩, returned⟩ h₄ hh₄ ⟨hback, hreturned⟩
  have hrest : ∀ h₅, h₄.Spares allowed h₅ → Steady cx.program H Ψ h₅
      (fun v h' => v.ExistsIn h')
      (do
        Run.ofExcept (routine.checkResult returned)
        writeBack (bindings.zip written)
        return returned)
      (do
        Run.ofExcept (routine.checkResult returned)
        writeBack (bindings.zip written)
        return returned) := by
    intro h₅ hh₅
    refine .bind (Q := fun _ _ => True) (.ofExcept fun _ _ _ _ => trivial) fun _ h₆ hh₆ _ => ?_
    refine .bind (steady_writeBack hg.stable fun w hw => ⟨hbindings w.1 (List.of_mem_zip hw).1,
      (hback.written w.2 (List.of_mem_zip hw).2).mono (hh₅.trans hh₆).grows⟩) fun _ h₇ hh₇ _ => ?_
    exact .pure fun h₈ hh₈ => hreturned.mono (((hh₅.trans hh₆).trans hh₇).trans hh₈).grows
  cases receiver with
  | none => exact hrest h₄ (.refl h₄)
  | some ref => exact .bind (.putFields ref (hback.fields ref rfl)) fun _ h₅ hh₅ _ => hrest h₅ hh₅

end

end

/-! ## Runs -/

/-- **Nothing to raise an alarm for.** A program writes to allowed names only,
and all its parts pass a guard. Then whatever can be called leaves steady states
steady, and if the guard accepts those, it raises no alarm in runs that end as
asked. -/
theorem steady_guardedAt (cx : Context) {allowed : String → Prop} {H : Horizon allowed} {g : Guard}
    (hw : cx.program.WritesOnly allowed) (hpasses : g.Passes cx.program) :
    ∀ fuel : Nat, (callsAt cx fuel).Steady cx H g (guardedAt g cx fuel)
  | 0 =>
    { evaluate := fun _ _ _ => .outOfFuel
      execute := fun _ _ _ _ => .outOfFuel
      construct := fun _ _ _ => .outOfFuel
      invoke := fun _ _ _ _ _ _ _ => .outOfFuel
      deeper := .deeper }
  | fuel + 1 =>
    have ih := steady_guardedAt cx hw hpasses fuel
    { evaluate := fun hg e he =>
        .guarded (hpasses.evaluate e he) (hg.state []) (steady_evaluateStep ih hg he)
      execute := fun hg hopen st hst =>
        .guarded (hpasses.execute st hst) (hg.state []) (steady_executeStep hw ih hg hopen hst)
      construct := fun hg _ hc =>
        .guarded trivial (hg.state []) (steady_constructStep ih hg hc)
      invoke := fun hg routine arguments _ hroutine harguments hreceiver =>
        .guarded (hpasses.invoke routine arguments hroutine harguments) (hg.state [])
          (steady_invokeStep hw ih hg hroutine harguments hreceiver)
      deeper := .deeper }

/-- A state in which a program can be run: nothing dangles, and all routines in
sight are those of the program. -/
structure State.Serves (p : Program) (s : State) : Prop where
  /-- nothing dangles -/
  whole : s.IsWhole
  /-- the routines are those of the program -/
  routines : s.environment.HasRoutinesOf p

namespace State

variable {p : Program} {allowed : String → Prop} {h : Heap} {Ψ : List (Scope → Prop)} {s : State}

/-- In a steady state the program can be run. -/
theorem IsSteady.serves (hs : s.IsSteady p allowed h Ψ) : s.Serves p := ⟨hs.whole, hs.routines⟩

/-- A state in which the program can be run is steady, seen from itself. -/
theorem Serves.isSteady (hs : s.Serves p) (hscopes : Fit Ψ s.environment.scopes) :
    s.IsSteady p allowed s.heap Ψ :=
  ⟨.refl s.heap, hscopes, hs.whole, hs.routines⟩

/-- A program that is ready to run can be run. -/
theorem serves_ready (p : Program) (natives : List Native) : (State.ready p natives).Serves p := by
  have hsound := isSound_ready p natives 0
  refine ⟨⟨fun ref name v hv => (hsound.heap.field? hv).1, ?_, hsound.pendingReturn⟩,
    hasRoutinesOf_ready p natives⟩
  exact hsound.scopes.imp (.refl _) fun _ _ _ _ => trivial

end State

/-- A run of `main` is steady if what can be called is. -/
theorem Calls.Steady.runMain {cx : Context} {g : Guard} {allowed : String → Prop}
    {H : Horizon allowed} {fuel : Nat} {h : Heap} {Ψ : List (Scope → Prop)}
    (hc : (callsAt cx fuel).Steady cx H g (guardedAt g cx fuel))
    (hg : g.Accepts cx.program H h Ψ) :
    Run.Steady cx.program H Ψ h (fun v h' => v.ExistsIn h') (runMain cx fuel)
      (runMainGuarded g cx fuel) := by
  unfold ClassLang.runMain runMainGuarded
  rcases hmain : cx.program.functions.get? "main" with _ | main
  · exact .fail _
  · exact hc.invoke hg main [] none (.inl (Table.mem_values_of_get? hmain))
      (fun _ he => by cases he) fun _ hnone => by cases hnone

end ClassLang
