import ClassLang.Proofs.Fitting
import ClassLang.Proofs.Parser.WellFormed
import ClassLang.Proofs.SteadyCalls

/-!
# What parsed programs look like

A parsed program is well formed, and so are its parts at their places
(`Program.IsShaped`). Two branches of the interpreter are there for programs that
are not: a write to a member with an empty path goes to the variable in front,
and a dotted call with an empty path is refused. The guard `Guard.paths` raises
an alarm in front of both. It raises none in any run of a parsed program.
-/

namespace ClassLang

/-- The guard against members and dotted calls with an empty path, wherever one
might be written to or called. -/
def Guard.paths (alarm : RuntimeError) : Guard where
  evaluate e := ∀ head path arguments,
    e = .call (.member head path) arguments ∨ e = .methodCall head path arguments → path ≠ []
  execute st := ∀ head path e, st = .assign (.member head path) e → path ≠ []
  invoke routine arguments := ∀ b ∈ routine.bindings arguments, ∀ head path,
    b.target = .member head path → path ≠ []
  alarm := alarm

/-- Every program writes to some names or other. -/
theorem Program.writesOnly_true (p : Program) : p.WritesOnly fun _ => True :=
  ⟨fun _ _ _ => trivial, fun _ _ _ _ => trivial⟩

/-- An argument that names a member is one. -/
theorem Expr.eq_member_of_target? {e : Expr} {head : String} {path : List String}
    (h : e.target? = some (.member head path)) : e = .member head path := by
  cases e <;> cases h
  rfl

/-- The guard has nothing to say against a program of the right shape. -/
theorem Program.IsShaped.passes_paths {p : Program} (h : p.IsShaped) (alarm : RuntimeError) :
    (Guard.paths alarm).Passes p where
  evaluate e he head path arguments hcall := by
    rcases hcall with rfl | rfl
    · exact h.callPath head path arguments he
    · exact h.methodPath head path arguments he
  execute st hst head path e hassign := h.targetPath head path e (hassign ▸ hst)
  invoke routine arguments _ harguments b hb head path htarget := by
    obtain ⟨_, e, hmem, -, he⟩ := routine.mem_bindings hb
    have hargument := (harguments e (List.of_mem_zip hmem).2).hasExpr
    exact h.memberPath head path (Expr.eq_member_of_target? (htarget ▸ he) ▸ hargument)

/-- Every guard that looks at no states accepts those of a run. -/
theorem State.accepts_paths (s : State) (p : Program) (alarm : RuntimeError) :
    (Guard.paths alarm).Accepts p (Horizon.none : Horizon fun _ => True) s.heap
      (s.environment.scopes.map fun _ _ => True) where
  stable := s.stable_self
  state _ _ _ _ := trivial

/-- **Parsed programs are shaped, and two branches are not reached.** In a parsed
program functions and classes go by their names, the members of a class have
different names, paths are not empty, what stands as a statement is a call, and
dotted calls in the form of statements and negated comparisons stand in their
one place. When such a program is run, and run again, no member with an empty
path is written to and no dotted call with an empty path is made, even if the
run does not end: whatever the alarm, it goes under guard as it goes without. -/
theorem parsed_programs_shaped {tokens : List Token} {p : Program}
    (hp : parseProgram tokens = .ok p) :
    p.IsShaped ∧
    (∀ natives, (State.ready p natives).Serves p) ∧
    ∀ (limit fuel : Nat) (s : State), s.Serves p →
      (∀ alarm, runMainGuarded (.paths alarm) ⟨p, limit⟩ fuel s = runMain ⟨p, limit⟩ fuel s) ∧
      ∀ r s', runMain ⟨p, limit⟩ fuel s = some (r, s') → s'.Serves p := by
  obtain ⟨_, _, -, -, hprogram⟩ := isProgram_of_parseProgram hp
  have hshaped : p.IsShaped := Program.isShaped hprogram.wellFormed
  refine ⟨hshaped, State.serves_ready p, fun limit fuel s hs => ?_⟩
  have hsteady (alarm : RuntimeError) := Calls.Steady.runMain
    (steady_guardedAt ⟨p, limit⟩ p.writesOnly_true (hshaped.passes_paths alarm) fuel)
    (s.accepts_paths p alarm) (hs.isSteady s.fits_self.scopes)
  refine ⟨fun alarm => (hsteady alarm).1 Horizon.admits_none, fun r s' hrun => ?_⟩
  exact ((hsteady .mainNotDeclared).2 r s' hrun).1.serves

/-- A program that calls a method as a statement and inside an expression, and
has a negated comparison. -/
def countsUp : Program where
  functions := .ofList [
    ("main", { returns := .boolean, name := "main", parameters := [], body := [
      .declare { type := .cls "C", name := "c", initial := some (.var "C") },
      .call (.call (.member "c" ["up"]) []),
      .assign (.member "c" ["n"]) (.methodCall "c" ["up"] []),
      .ret (.not (.relation .lt true (.member "c" ["n"]) (.integer .zero)))] })]
  classes := .ofList [("C", {
    name := "C"
    fields := [{ type := .integer, name := "n", initial := none }]
    methods := [{
      returns := .integer, name := "up", parameters := []
      body := [
        .assign (.var "n") (.binary .add (.var "n") (.integer ⟨5, inRange_five⟩)),
        .ret (.var "n")] }] })]

/-- The tokens of the program, somewhere. -/
def countsUpTokens : List Token :=
  (countsUp.kinds ++ [Kind.stop]).map fun kind => { kind, lexeme := "", start := {}, stop := {} }

/-- A program with dotted calls, whose paths are not empty. -/
theorem parsed_programs_shaped_countsUp :
    parseProgram countsUpTokens = .ok countsUp ∧ countsUp.IsShaped ∧
    (∀ alarm, runMainGuarded (.paths alarm) ⟨countsUp, 9⟩ 20 (.ready countsUp [])
      = runMain ⟨countsUp, 9⟩ 20 (.ready countsUp [])) ∧
    ∃ v s, runMain ⟨countsUp, 9⟩ 20 (.ready countsUp []) = some (.ok v, s) ∧
      v.text = "true" ∧ s.Serves countsUp := by
  have hparse : parseProgram countsUpTokens = .ok countsUp := by
    obtain ⟨rest, hreads, hstop⟩ := textKinds_eq_iff.mp
      (show textKinds countsUpTokens = countsUp.kinds by decide)
    exact parseProgram_of_isProgram (countsUp.isProgram_kinds (by decide)) hreads hstop
  obtain ⟨hshaped, hready, hruns⟩ := parsed_programs_shaped hparse
  obtain ⟨hguarded, hends⟩ := hruns 9 20 _ (hready [])
  have htext : ((runMain ⟨countsUp, 9⟩ 20 (.ready countsUp [])).bind (·.1.toOption)).map
      Value.text = some "true" := by decide +kernel
  obtain ⟨v, hv, htext⟩ := Option.map_eq_some_iff.mp htext
  obtain ⟨⟨_ | v, s⟩, hrun, hok⟩ := Option.bind_eq_some_iff.mp hv <;> cases hok
  exact ⟨hparse, hshaped, hguarded, v, s, hrun, htext, hends _ s hrun⟩

end ClassLang
