import ClassLang.Proofs.Related

/-!
# More fuel changes nothing

An outcome that a computation has with some fuel it has with any more of it:
fuel is handed on, but nothing ever looks at it. So outcomes found with
different amounts of fuel can be compared at the larger one, and to say that a
run ends (`RunsTo`), or an evaluation (`EvaluatesTo`), need not say with how much.
-/

namespace ClassLang

/-- One computation has all outcomes of another. -/
def Run.Refines {α : Type} (m m' : Run α) : Prop := ∀ s x, m s = some x → m' s = some x

/-- More fuel in a body is more fuel in what stands around it. -/
theorem Run.Refines.around {α β : Type} {opening closing : State → State}
    {wrap : α → State → β} {m m' : Run α} (hm : m.Refines m') :
    (Run.around opening closing wrap m).Refines (Run.around opening closing wrap m') := by
  intro s x h
  rcases hbody : m (opening s) with _ | ⟨r, t⟩
  · rw [Run.around_of_none hbody] at h
    cases h
  · rw [Run.around_of_some hbody] at h
    rw [Run.around_of_some (hm _ _ hbody)]
    exact h

/-- Having all outcomes of another computation respects how computations are
built. -/
theorem Run.congruence_refines : Run.Congruence Run.Refines where
  basic _ _ _ h := h
  bind hm hf := by
    rintro s ⟨r, s'⟩ h
    rcases Run.bind_eq_some h with ⟨a, t, ha, hft⟩ | ⟨e, he, rfl⟩
    · rw [Run.bind_of_ok (hm s _ ha)]
      exact hf a t _ hft
    · exact Run.bind_of_error (hm s _ he)
  around _ _ hm := hm.around

/-- One level deeper, too, an outcome stays what it is. -/
theorem Run.Refines.deeper {α : Type} {limit : Nat} {m m' : Run α} (hm : m.Refines m') :
    (Run.deeper limit m).Refines (Run.deeper limit m') := by
  intro s x h
  rcases Nat.lt_or_ge s.depth limit with hlt | hle
  · rw [Run.deeper_of_lt m hlt] at h
    rw [Run.deeper_of_lt m' hlt]
    exact hm.around s x h
  · rw [Run.deeper_of_le m hle] at h
    rw [Run.deeper_of_le m' hle]
    exact h

/-- **More fuel changes nothing.** Whatever can be called with some fuel has
the same outcomes with more. -/
theorem related_callsAt_of_le (cx : Context) :
    ∀ {fuel fuel' : Nat}, fuel ≤ fuel' →
      (callsAt cx fuel).Related Run.Refines (callsAt cx fuel') := by
  intro fuel
  induction fuel with
  | zero =>
    exact fun _ =>
      { evaluate := fun _ _ _ h => by cases h
        execute := fun _ _ _ h => by cases h
        construct := fun _ _ _ h => by cases h
        invoke := fun _ _ _ _ _ h => by cases h
        deeper := Run.Refines.deeper }
  | succ n ih =>
    intro fuel' hle
    obtain ⟨n', rfl⟩ : ∃ n', fuel' = n' + 1 := ⟨fuel' - 1, by omega⟩
    exact Run.congruence_refines.related_callsAt_succ .deeper (ih (Nat.le_of_succ_le_succ hle))

/-- A run that ends with some fuel ends in the same way with more. -/
theorem refines_runMain (cx : Context) {fuel fuel' : Nat} (hle : fuel ≤ fuel') :
    (runMain cx fuel).Refines (runMain cx fuel') :=
  Run.congruence_refines.runMain (related_callsAt_of_le cx hle)

/-- From a state, `main` runs to an end: to a result, and in a state. -/
def RunsTo (cx : Context) (s : State) (r : Except RuntimeError Value) (s' : State) : Prop :=
  ∃ fuel, runMain cx fuel s = some (r, s')

/-- However much fuel it is given, a run comes to one end. -/
theorem RunsTo.unique {cx : Context} {s t t' : State} {r r' : Except RuntimeError Value}
    (h : RunsTo cx s r t) (h' : RunsTo cx s r' t') : r' = r ∧ t' = t := by
  obtain ⟨fuel, hrun⟩ := h
  obtain ⟨fuel', hrun'⟩ := h'
  have hmax := refines_runMain cx (Nat.le_max_left fuel fuel') s _ hrun
  have hmax' := refines_runMain cx (Nat.le_max_right fuel fuel') s _ hrun'
  cases hmax.symm.trans hmax'
  exact ⟨rfl, rfl⟩

/-- From a state, the evaluation of an expression comes to an end: to a result,
and in a state. -/
def EvaluatesTo (cx : Context) (e : Expr) (s : State) (r : Except RuntimeError Value)
    (s' : State) : Prop :=
  ∃ fuel, evaluate cx fuel e s = some (r, s')

namespace EvaluatesTo

variable {cx : Context} {e e' : Expr} {s s' t t' : State} {r r' : Except RuntimeError Value}

/-- Two evaluations that come to an end do so with the same fuel. -/
theorem with_one_fuel (h : EvaluatesTo cx e s r t) (h' : EvaluatesTo cx e' s' r' t') :
    ∃ fuel, evaluate cx fuel e s = some (r, t) ∧ evaluate cx fuel e' s' = some (r', t') := by
  obtain ⟨fuel, hrun⟩ := h
  obtain ⟨fuel', hrun'⟩ := h'
  have hmax := (related_callsAt_of_le cx (Nat.le_max_left fuel fuel')).evaluate e s _ hrun
  have hmax' := (related_callsAt_of_le cx (Nat.le_max_right fuel fuel')).evaluate e' s' _ hrun'
  exact ⟨max fuel fuel', hmax, hmax'⟩

/-- However much fuel it is given, an expression evaluates to one end. -/
theorem unique (h : EvaluatesTo cx e s r t) (h' : EvaluatesTo cx e s r' t') : r' = r ∧ t' = t := by
  obtain ⟨fuel, hrun, hrun'⟩ := h.with_one_fuel h'
  cases hrun.symm.trans hrun'
  exact ⟨rfl, rfl⟩

end EvaluatesTo

end ClassLang
