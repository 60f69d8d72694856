import ClassLang.Proofs.Guarded
import ClassLang.Proofs.Representation

/-!
# Reached states

A program is run, and run again in the state that the run before left. A state
is reached if in some of these runs one of the four functions starts or ends in
it (`State.IsReached`). Runs under guard tell which states these are: it is them
that can be refused so that an alarm is noticed, even if the run does not end.

Whatever is known of all sound states is known of the states that are reached,
because a guard that accepts sound states has nothing to raise an alarm for
(`safe_guardedAt`).
-/

namespace ClassLang

/-- The guard that refuses a state. -/
def Guard.refusing (s : State) (alarm : RuntimeError) : Guard where
  state := (· ≠ s)
  alarm := alarm

/-- In the state a run of the program starts: it is ready to run, or another
run has ended in it, and the output is empty again. -/
inductive State.StartsRun (p : Program) (limit : Nat) (natives : List Native) : State → Prop where
  /-- the first run -/
  | first : StartsRun p limit natives (.ready p natives)
  /-- a run after another one -/
  | again {fuel : Nat} {s s' : State} {r : Except RuntimeError Value} :
    StartsRun p limit natives s → runMain ⟨p, limit⟩ fuel s = some (r, s') →
    StartsRun p limit natives { s' with output := "" }

/-- In the course of a run of the program one of the four functions starts or
ends in the state: to refuse the state makes a difference for the run. -/
def State.IsReached (p : Program) (limit : Nat) (natives : List Native) (s : State) : Prop :=
  ∃ start, State.StartsRun p limit natives start ∧ ∃ fuel alarm,
    runMainGuarded (.refusing s alarm) ⟨p, limit⟩ fuel start ≠ runMain ⟨p, limit⟩ fuel start

variable {p : Program} {limit : Nat} {natives : List Native} {s : State}

/-- A run reaches the state in which it starts. -/
theorem State.StartsRun.isReached {main : Routine} (hmain : p.functions.get? "main" = some main)
    (h : s.StartsRun p limit natives) : s.IsReached p limit natives := by
  have hrefused (alarm : RuntimeError) :
      runMainGuarded (.refusing s alarm) ⟨p, limit⟩ 1 s = some (.error alarm, s) := by
    have hnot : ¬ (True ∧ (Guard.refusing s alarm).state s) := fun h => h.2 rfl
    simp only [runMainGuarded, hmain]
    exact if_neg hnot
  -- Two alarms differ, so one of them is not what the run ends with anyway.
  by_cases hsame : runMain ⟨p, limit⟩ 1 s = some (.error .mainNotDeclared, s)
  · refine ⟨s, h, 1, .undeclaredMethod "main", fun heq => ?_⟩
    rw [hrefused, hsame] at heq
    cases heq
  · exact ⟨s, h, 1, .mainNotDeclared, fun heq => hsame (heq.symm.trans (hrefused _))⟩

/-! ## Reached states are sound -/

section

variable {cx : Context} {κ : Marks} {g : Guard}
  (hstate : ∀ κ s, s.IsSound cx κ → g.state s)
include hstate

/-- Where states are sound, a guard that accepts them finds nothing. -/
theorem Run.Safe.guarded {α : Type} {Ψ : List (Scope → Prop)} {h : Heap}
    {post : α → Heap → Prop} {m m' : Run α} {condition : Prop} (hcondition : condition)
    (hm : Run.Safe cx κ Ψ h post m m') : Run.Safe cx κ Ψ h post m (m'.guarded g condition) := by
  intro s hs hfits
  obtain ⟨heq, hends⟩ := hm hs hfits
  refine ⟨?_, hends⟩
  rw [Run.guarded_eq hcondition (hstate κ s hs) fun r t hrun => ?_, heq]
  exact hstate κ t (hends r t (heq ▸ hrun)).1

end

/-- A guard that refuses only a state that is not sound finds nothing. -/
theorem safe_guardedAt {cx : Context} (hnames : cx.program.NamesClasses) {s : State}
    (alarm : RuntimeError) (hs : ∀ κ, ¬ s.IsSound cx κ) :
    ∀ (fuel : Nat) (κ : Marks),
      (callsAt cx fuel).Safe cx κ (guardedAt (.refusing s alarm) cx fuel)
  | 0, _ =>
    { evaluate := fun _ _ _ => .outOfFuel
      execute := fun _ _ _ _ => .outOfFuel
      construct := fun _ _ _ _ => .outOfFuel
      invoke := fun _ _ _ _ _ _ => .outOfFuel
      deeper := .deeper }
  | fuel + 1, κ =>
    have ih := safe_guardedAt hnames alarm hs fuel
    have haccepts : ∀ κ t, t.IsSound cx κ → (Guard.refusing s alarm).state t :=
      fun κ _ ht heq => hs κ (heq ▸ ht)
    { evaluate := fun _ _ e => (safe_evaluateStep (ih κ) e).guarded haccepts trivial
      execute := fun _ _ _ st => (safe_executeStep hnames (ih κ) st).guarded haccepts trivial
      construct := fun _ _ _ hc => (safe_constructStep hnames (ih κ) hc).guarded haccepts trivial
      invoke := fun _ _ _ arguments _ hreceiver =>
        (safe_invokeStep (ih κ) hreceiver arguments fun _ N h' st =>
          (ih _).execute N _ h' st).guarded haccepts trivial
      deeper := .deeper }

/-- The states from which a run starts are sound. -/
theorem State.StartsRun.isSound (hnames : p.NamesClasses) (h : s.StartsRun p limit natives) :
    s.IsSound ⟨p, limit⟩ .none := by
  induction h with
  | first => exact isSound_ready p natives limit
  | @again fuel s s' r _ hrun ih =>
    suffices hs' : s'.IsSound ⟨p, limit⟩ .none from ⟨hs'.heap, hs'.scopes, hs'.pendingReturn⟩
    rcases hmain : p.functions.get? "main" with _ | main <;> simp only [runMain, hmain] at hrun
    · cases hrun
      exact ih
    · have hruns : RunsSoundly ⟨p, limit⟩ .none fuel s := runsSoundly hnames fuel ih
      exact ((hruns.invoke main [] none fun _ hnone => by cases hnone).ends r s' hrun).state

/-- In a run of a program that names its classes, every state is sound. -/
theorem State.IsReached.isSound (hnames : p.NamesClasses) (h : s.IsReached p limit natives) :
    ∃ κ, s.IsSound ⟨p, limit⟩ κ := by
  obtain ⟨start, hstart, fuel, alarm, hne⟩ := h
  by_contra hsound
  refine hne ?_
  have hsafe : (callsAt ⟨p, limit⟩ fuel).Safe ⟨p, limit⟩ .none
      (guardedAt (.refusing s alarm) ⟨p, limit⟩ fuel) :=
    safe_guardedAt hnames alarm (not_exists.mp hsound) fuel .none
  rcases hmain : p.functions.get? "main" with _ | main <;>
    simp only [runMain, runMainGuarded, hmain]
  have hfits : start.Fits start.heap (named (namesOf start.environment.scopes)) :=
    ⟨.refl _, fit_named_iff.mpr rfl⟩
  exact (hsafe.invoke _ _ main [] none (fun _ hnone => by cases hnone)
    (hstart.isSound hnames) hfits).1

end ClassLang
