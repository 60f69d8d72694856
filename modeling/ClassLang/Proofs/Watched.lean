import ClassLang.Proofs.Related

/-!
# The depth of nesting, watched

How deeply calls are nested is counted up when one starts and down when it
ends. The watched interpreter is the interpreter under observation: it has no
outcome if the count is above the limit where one of the four functions starts
or ends, or where the count changes, or if it would be counted down from nought
(`Run.watched`, `Run.watchedDeeper`).

The observation finds nothing: started within the limit, the watched
interpreter has the outcomes of the interpreter (`related_watchedAt`).
-/

namespace ClassLang

namespace Run

variable {α : Type}

/-- A computation that has no outcome unless the depth is within the limit
where it starts and where it ends. -/
def watched (limit : Nat) (m : Run α) : Run α := fun s =>
  if s.depth ≤ limit then
    match m s with
    | none => none
    | some (result, s) => if s.depth ≤ limit then some (result, s) else none
  else none

/-- Runs a computation one level deeper, as `deeper` does, but has no outcome
if the depth is outside of one to the limit when it is about to be counted
down. -/
def watchedDeeper (limit : Nat) (body : Run α) : Run α := fun s =>
  if limit ≤ s.depth then some (.error (.callDepthExceeded limit), s)
  else
    match body { s with depth := s.depth + 1 } with
    | none => none
    | some (result, s) =>
      if 1 ≤ s.depth ∧ s.depth ≤ limit then some (result, { s with depth := s.depth - 1 })
      else none

end Run

mutual

/-- The value of an expression, watched. -/
def evaluateWatched (cx : Context) : Nat → Expr → Run Value
  | 0, _ => Run.outOfFuel
  | fuel + 1, e => Run.watched cx.maxDepth <| evaluateStep cx
    ⟨evaluateWatched cx fuel, executeWatched cx fuel, constructWatched cx fuel,
      invokeWatched cx fuel, .watchedDeeper cx.maxDepth⟩ e

/-- The effect of a statement, watched. -/
def executeWatched (cx : Context) : Nat → Stmt → Run Unit
  | 0, _ => Run.outOfFuel
  | fuel + 1, s => Run.watched cx.maxDepth <| executeStep cx
    ⟨evaluateWatched cx fuel, executeWatched cx fuel, constructWatched cx fuel,
      invokeWatched cx fuel, .watchedDeeper cx.maxDepth⟩ s

/-- Makes an object, watched. -/
def constructWatched (cx : Context) : Nat → ClassDef → Run Ref
  | 0, _ => Run.outOfFuel
  | fuel + 1, c => Run.watched cx.maxDepth <| constructStep cx
    ⟨evaluateWatched cx fuel, executeWatched cx fuel, constructWatched cx fuel,
      invokeWatched cx fuel, .watchedDeeper cx.maxDepth⟩ c

/-- Calls a routine, watched. -/
def invokeWatched (cx : Context) : Nat → Routine → List Expr → Option Ref → Run Value
  | 0, _, _, _ => Run.outOfFuel
  | fuel + 1, routine, arguments, receiver => Run.watched cx.maxDepth <| invokeStep cx
    ⟨evaluateWatched cx fuel, executeWatched cx fuel, constructWatched cx fuel,
      invokeWatched cx fuel, .watchedDeeper cx.maxDepth⟩ routine arguments receiver

end

/-- What a watched step can call that is left with so much fuel. -/
def watchedAt (cx : Context) (fuel : Nat) : Calls where
  evaluate := evaluateWatched cx fuel
  execute := executeWatched cx fuel
  construct := constructWatched cx fuel
  invoke := invokeWatched cx fuel
  deeper := Run.watchedDeeper cx.maxDepth

/-- Started within the limit, both computations have the same outcome, at the
depth they were started at. -/
def Run.Level (limit : Nat) {α : Type} (m m' : Run α) : Prop :=
  ∀ s, s.depth ≤ limit → m' s = m s ∧ ∀ r s', m s = some (r, s') → s'.depth = s.depth

namespace Run

variable {α : Type} {limit : Nat} {m m' : Run α}

/-- Having the same outcome at the same depth respects how computations are
built. -/
theorem congruence_level (limit : Nat) : Congruence (Level limit) where
  basic hm s _ := by
    obtain ⟨r, s', hms, hdepth, -, -⟩ := hm s
    refine ⟨rfl, fun r' t h => ?_⟩
    rw [hms] at h
    cases h
    exact hdepth
  bind {_ _ m m' f f'} hm hf s hs := by
    obtain ⟨heq, hdepth⟩ := hm s hs
    rcases hms : m s with _ | ⟨e | a, t⟩
    · rw [bind_of_none hms, bind_of_none (heq.trans hms)]
      exact ⟨rfl, fun _ _ h => by cases h⟩
    · rw [bind_of_error hms, bind_of_error (heq.trans hms)]
      exact ⟨rfl, fun r s' h => by cases h; exact hdepth _ _ hms⟩
    · have ht : t.depth = s.depth := hdepth _ _ hms
      obtain ⟨heq', hdepth'⟩ := hf a t (by rw [ht]; exact hs)
      rw [bind_of_ok hms, bind_of_ok (heq.trans hms)]
      exact ⟨heq', fun r s' h => (hdepth' r s' h).trans ht⟩
  around {_ _ opening closing wrap m m'} hopening hclosing hm s hs := by
    obtain ⟨heq, hdepth⟩ := hm (opening s) (by rw [(hopening s).1]; exact hs)
    rcases hbody : m (opening s) with _ | ⟨r, t⟩
    · rw [around_of_none hbody, around_of_none (heq.trans hbody)]
      exact ⟨rfl, fun _ _ h => by cases h⟩
    · rw [around_of_some hbody, around_of_some (heq.trans hbody)]
      refine ⟨rfl, fun r s' h => ?_⟩
      cases h
      rw [(hclosing t).1, hdepth _ _ hbody, (hopening s).1]

/-- Observation where a computation starts and ends finds nothing. -/
theorem Level.watched (hm : Level limit m m') : Level limit m (m'.watched limit) := by
  intro s hs
  obtain ⟨heq, hdepth⟩ := hm s hs
  refine ⟨?_, hdepth⟩
  rw [Run.watched, if_pos hs, heq]
  rcases hms : m s with _ | ⟨r, t⟩
  · rfl
  · exact if_pos (by rw [hdepth _ _ hms]; exact hs)

/-- Observation where the depth changes finds nothing. -/
theorem Level.deeper (hm : Level limit m m') :
    Level limit (m.deeper limit) (m'.watchedDeeper limit) := by
  intro s hs
  unfold Run.deeper watchedDeeper
  split
  · exact ⟨rfl, fun r s' h => by cases h; rfl⟩
  · next hlimit =>
    obtain ⟨heq, hdepth⟩ := hm { s with depth := s.depth + 1 } (Nat.lt_of_not_le hlimit)
    rw [heq]
    rcases hbody : m { s with depth := s.depth + 1 } with _ | ⟨r, t⟩
    · exact ⟨rfl, fun _ _ h => by cases h⟩
    · have ht : t.depth = s.depth + 1 := hdepth _ _ hbody
      -- It was counted up just before, so it is not counted down from nought.
      refine ⟨if_pos (by omega), fun r' s' h => ?_⟩
      cases h
      exact Nat.sub_eq_of_eq_add ht

end Run

/-- **Observation finds nothing.** Started within the limit, whatever can be
called has the same outcome watched as not watched. -/
theorem related_watchedAt (cx : Context) :
    ∀ fuel : Nat, (callsAt cx fuel).Related (Run.Level cx.maxDepth) (watchedAt cx fuel)
  | 0 =>
    have hnone : ∀ {α : Type}, Run.Level cx.maxDepth (Run.outOfFuel : Run α) Run.outOfFuel :=
      fun _ _ => ⟨rfl, fun _ _ h => by cases h⟩
    { evaluate := fun _ => hnone
      execute := fun _ => hnone
      construct := fun _ => hnone
      invoke := fun _ _ _ => hnone
      deeper := Run.Level.deeper }
  | fuel + 1 =>
    have ih := related_watchedAt cx fuel
    have hR := Run.congruence_level cx.maxDepth
    { evaluate := fun e => (hR.evaluateStep ih e).watched
      execute := fun st => (hR.executeStep ih st).watched
      construct := fun c => (hR.constructStep ih c).watched
      invoke := fun routine arguments receiver =>
        (hR.invokeStep ih routine arguments receiver).watched
      deeper := Run.Level.deeper }

end ClassLang
