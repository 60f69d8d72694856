import ClassLang.Proofs.Frame
import ClassLang.Proofs.Mimics

/-!
# Running a program again

A run leaves nothing behind that the next one could notice. The environment is
what it was before, since there was nothing in it that a run can change: no
scope but the global one, and no variable in that (`Environment.IsBare`). What
does stay are the objects. The next run makes its own behind them, and is the
first run otherwise (`Repeats`).
-/

namespace ClassLang

/-! ## The environment that runs start in -/

/-- There is no scope above the global one, no variable in that, and no
`return` on its way out. -/
structure Environment.IsBare (e : Environment) : Prop where
  /-- the global scope is the only one -/
  inner : e.inner = []
  /-- it has no variables -/
  vars : e.global.vars = ∅
  /-- nothing is returning -/
  pendingReturn : e.pendingReturn = none

/-- A table without names is empty. -/
theorem Table.eq_empty_of_names {α : Type} {t : Table α} (h : t.names = []) : t = ∅ := by
  rcases t with ⟨entries, _⟩
  cases List.map_eq_nil_iff.mp h
  rfl

namespace Environment

variable {e e' : Environment}

/-- In a bare environment no name means anything. -/
theorem IsBare.lookup? (h : e.IsBare) (name : String) : e.lookup? name = none := by
  rw [Environment.lookup?, h.inner, h.vars]
  rfl

/-- A bare environment in which nothing but values can have changed has not
changed at all: it has no values. -/
theorem IsBare.eq_of_shapes (h : e.IsBare) (hshapes : e'.shapes = e.shapes)
    (hnatives : e'.natives = e.natives) (hquiet : e'.pendingReturn = none) : e' = e := by
  rw [shapes_eq, shapes_eq] at hshapes
  obtain ⟨hinner, hglobal⟩ := List.append_inj' hshapes rfl
  obtain ⟨hnames, hmethods⟩ := Prod.mk.inj (List.singleton_inj.mp hglobal)
  rw [h.inner] at hinner
  have hinner : e'.inner = [] := List.map_eq_nil_iff.mp hinner
  rw [h.vars] at hnames
  have hvars : e'.global.vars = ∅ := Table.eq_empty_of_names hnames
  obtain ⟨inner, ⟨vars, methods⟩, natives, pendingReturn⟩ := e
  obtain ⟨inner', ⟨vars', methods'⟩, natives', pendingReturn'⟩ := e'
  obtain ⟨rfl, rfl, rfl⟩ := h
  cases hinner
  cases hvars
  cases hmethods
  cases hnatives
  cases hquiet
  rfl

end Environment

/-- A program that is ready to run has its functions and its natives in an
otherwise bare environment. -/
theorem isBare_ready (p : Program) (natives : List Native) :
    (State.ready p natives).environment.IsBare := by
  refine List.foldlRecOn (motive := Environment.IsBare) _ _ ?_ fun e he _ _ => ⟨he.1, he.2, he.3⟩
  exact List.foldlRecOn (motive := Environment.IsBare) _ _ ⟨rfl, rfl, rfl⟩
    fun e he _ _ => ⟨he.1, he.2, he.3⟩

/-! ## One run -/

section

variable {cx : Context} {fuel : Nat} {r r' : Except RuntimeError Value} {s s' : State}

/-- A run keeps what the calls of routines keep. -/
theorem keeps_runMain {P : State → Prop}
    (h : ∀ routine arguments receiver, Run.Keeps P (invoke cx fuel routine arguments receiver)) :
    Run.Keeps P (runMain cx fuel) := by
  rw [runMain]
  split
  · exact h _ [] none
  · exact .fail _

/-- A run gives back a bare environment as it was, and the depth. -/
theorem environment_of_runMain (hbare : s.environment.IsBare)
    (hrun : runMain cx fuel s = some (r, s')) :
    s'.environment = s.environment ∧ s'.depth = s.depth := by
  have hframed := framed_callsAt cx fuel
  obtain ⟨hshape, hquiet⟩ := keeps_runMain (hframed.invoke s.shape) ⟨rfl, hbare.pendingReturn⟩ hrun
  exact ⟨hbare.eq_of_shapes (congrArg Shape.scopes hshape) (congrArg Shape.natives hshape) hquiet,
    congrArg Shape.depth hshape⟩

/-- A run ended like another one: with the same result, the same objects and
the same output, but its objects stand behind others. -/
structure Repeats (earlier : Array Object) (r : Except RuntimeError Value) (s : State)
    (r' : Except RuntimeError Value) (s' : State) : Prop where
  /-- the same result -/
  result : r' = r.map (Value.relocate (behind earlier))
  /-- the same objects, behind others -/
  heap : s.heap.Extends earlier s'.heap
  /-- the same output -/
  output : s'.output = s.output

namespace Repeats

variable {earlier : Array Object}

/-- The results have the same type. -/
theorem type (h : Repeats earlier r s r' s') : r'.map Value.type = r.map Value.type := by
  rw [h.result]
  cases r with
  | error e => rfl
  | ok value => exact congrArg Except.ok (Value.type_relocate value)

/-- The results have the same text. -/
theorem text (h : Repeats earlier r s r' s') : r'.map Value.text = r.map Value.text := by
  rw [h.result]
  cases r with
  | error e => rfl
  | ok value => exact congrArg Except.ok (Value.text_relocate value)

end Repeats

/-- Run once more in the environment it started in, a program repeats what it
did when there were no objects. -/
theorem repeats_runMain (hbare : s.environment.IsBare)
    (hnatives : ∀ name native, s.environment.native? name = some native → native.IgnoresPlaces)
    (hheap : s.heap = {}) (houtput : s.output = "") (hrun : runMain cx fuel s = some (r, s'))
    {t : State} (henvironment : t.environment = s.environment) (hdepth : t.depth = s.depth) :
    ∃ r' t', runMain cx fuel { t with output := "" } = some (r', t') ∧
      Repeats t.heap.objects r s' r' t' ∧
      t'.environment = s.environment ∧ t'.depth = s.depth := by
  let past : Past := { objects := t.heap.objects, output := "", output' := "" }
  have halike : past.Alike 0 s { t with output := "" } := by
    refine ⟨.of_agrees ?_, ?_, hdepth, "", houtput, rfl⟩
    · refine ⟨fun name => ?_, fun name => ?_, ?_, fun name native hnative => ?_, ?_⟩
      · rw [henvironment, hbare.lookup? name, Option.map_none]
      · rw [henvironment]
      · rw [henvironment]
      · exact hnatives name native hnative _ (injective_behind _)
      · rw [henvironment, hbare.pendingReturn, Option.map_none]
    · rw [hheap, Heap.Extends]
      simp [past]
  rcases mimics_runMain past cx fuel halike with ⟨hnone, -⟩ | ⟨r₀, s₀, t', hs, ht, hend⟩
  · cases hnone.symm.trans hrun
  · cases hs.symm.trans hrun
    obtain ⟨text, houtput, houtput'⟩ := hend.output
    have hkept := environment_of_runMain (s := { t with output := "" })
      (henvironment ▸ hbare) ht
    exact ⟨_, t', ht, ⟨rfl, hend.heap, houtput'.trans houtput.symm⟩,
      hkept.1.trans henvironment, hkept.2.trans hdepth⟩

end

/-! ## Any number of runs -/

/-- **Runs repeat.** If a program that is ready to run ends, its environment and
its depth are what they were, and there was nothing but the global scope, no
variable and no pending return. So it can be run again any number of times: each
time it ends with the same error or with a value of the same type and text, the
same but for where the object stands that it may be, and writes the same. -/
theorem runs_repeat (p : Program) (limit : Nat) (natives : List Native)
    (hnatives : ∀ native ∈ natives, native.IgnoresPlaces) {fuel : Nat}
    {r : Except RuntimeError Value} {s : State}
    (hrun : runMain ⟨p, limit⟩ fuel (.ready p natives) = some (r, s)) :
    s.environment = (State.ready p natives).environment ∧ s.environment.IsBare ∧ s.depth = 0 ∧
    ∀ n, ∃ outcomes, runTimes ⟨p, limit⟩ fuel n s = some outcomes ∧ outcomes.length = n ∧
      ∀ r' s', (r', s') ∈ outcomes →
        r'.map Value.type = r.map Value.type ∧ r'.map Value.text = r.map Value.text ∧
        s'.output = s.output ∧
        s'.environment = (State.ready p natives).environment ∧ s'.depth = 0 ∧
        ∃ earlier, Repeats earlier r s r' s' := by
  have hbare := isBare_ready p natives
  obtain ⟨henvironment, hdepth⟩ := environment_of_runMain hbare hrun
  refine ⟨henvironment, henvironment ▸ hbare, hdepth, fun n => ?_⟩
  -- A further run starts where any other one before it ended.
  suffices hruns : ∀ t : State, t.environment = (State.ready p natives).environment →
      t.depth = (State.ready p natives).depth →
      ∃ outcomes, runTimes ⟨p, limit⟩ fuel n t = some outcomes ∧ outcomes.length = n ∧
        ∀ r' s', (r', s') ∈ outcomes → s'.environment = (State.ready p natives).environment ∧
          s'.depth = 0 ∧ ∃ earlier, Repeats earlier r s r' s' by
    obtain ⟨outcomes, houtcomes, hlength, hall⟩ := hruns s henvironment hdepth
    refine ⟨outcomes, houtcomes, hlength, fun r' s' hmem => ?_⟩
    obtain ⟨henvironment', hdepth', earlier, hrepeats⟩ := hall r' s' hmem
    exact ⟨hrepeats.type, hrepeats.text, hrepeats.output, henvironment', hdepth', earlier, hrepeats⟩
  induction n with
  | zero => exact fun t _ _ => ⟨[], rfl, rfl, fun _ _ hmem => by cases hmem⟩
  | succ n ih =>
    intro t henvironment hdepth
    obtain ⟨r', t', hrun', hrepeats, henvironment', hdepth'⟩ := repeats_runMain hbare
      (fun _ native hnative => hnatives native (mem_of_native?_ready hnative)) rfl rfl hrun
      henvironment hdepth
    obtain ⟨outcomes, houtcomes, hlength, hall⟩ := ih t' henvironment' hdepth'
    refine ⟨(r', t') :: outcomes, ?_, congrArg (· + 1) hlength, fun r₁ s₁ hmem => ?_⟩
    · rw [runTimes, hrun']
      exact congrArg (Option.map _) houtcomes
    · rcases List.mem_cons.mp hmem with heq | hmem
      · cases heq
        exact ⟨henvironment', hdepth', _, hrepeats⟩
      · exact hall r₁ s₁ hmem

/-- A program that makes an object and returns it. -/
def returnsObject : Program where
  functions := .ofList [
    ("main", { returns := .cls "C", name := "main", parameters := [], body := [
      .declare { type := .cls "C", name := "c", initial := none },
      .call (.call (.member "System" ["out", "print"]) [.var "c"]),
      .ret (.var "c")] })]
  classes := .ofList [("C", { name := "C", fields := [], methods := [] })]

/-- A run that returns an object, and two further ones. -/
theorem runs_repeat_returnsObject :
    ∃ s outcomes, runMain ⟨returnsObject, 2⟩ 9 (.ready returnsObject [.print])
        = some (.ok (.object ⟨"C", 0⟩), s) ∧ s.output = "C instance\n" ∧
      runTimes ⟨returnsObject, 2⟩ 9 2 s = some outcomes ∧ outcomes.length = 2 ∧
      ∀ r' s', (r', s') ∈ outcomes →
        r'.map Value.text = .ok "C instance" ∧ s'.output = "C instance\n" := by
  obtain ⟨s, hrun, houtput⟩ : ∃ s, runMain ⟨returnsObject, 2⟩ 9 (.ready returnsObject [.print])
      = some (.ok (.object ⟨"C", 0⟩), s) ∧ s.output = "C instance\n" := ⟨_, rfl, rfl⟩
  have hnatives : ∀ native ∈ [Native.print], native.IgnoresPlaces := by
    rintro native hmem
    cases List.mem_singleton.mp hmem
    exact ignoresPlaces_print
  obtain ⟨-, -, -, hagain⟩ := runs_repeat returnsObject 2 [.print] hnatives hrun
  obtain ⟨outcomes, houtcomes, hlength, hall⟩ := hagain 2
  refine ⟨s, outcomes, hrun, houtput, houtcomes, hlength, fun r' s' hmem => ?_⟩
  obtain ⟨-, htext, hsame, -⟩ := hall r' s' hmem
  exact ⟨htext, hsame.trans houtput⟩

end ClassLang
