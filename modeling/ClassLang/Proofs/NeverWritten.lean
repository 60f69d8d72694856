import ClassLang.Proofs.SteadyCalls

/-!
# Names that are never written

If no assignment of a program is to a variable or a field of some name, and no
argument of a call names one, then nothing of that name ever changes: a variable
holds what it was declared with until its scope is closed, a field what it got
when the object was made (`never_written_is_constant`).

Two states are compared, an earlier and a later one, by what has the name in the
earlier one (`State.Lasts`). One guard compares every state of a run with the
state that the run started in, another one with the state that it ends in. The
second sees the objects that are made on the way.
-/

namespace ClassLang

open Run (Steady)

/-- No assignment in the program is to a variable or a field of this name, and
no argument of a call names one. -/
def Program.NeverWrites (p : Program) (n : String) : Prop := p.WritesOnly (· ≠ n)

/-- What the earlier scope holds under a name the later one does. -/
def Scope.Lasts (n : String) (earlier later : Scope) : Prop :=
  ∀ v, earlier.Holds n v → later.Holds n v

/-- The scopes of the earlier state are still the lowest ones, and what they and
the objects hold under a name they hold in the later state. -/
structure State.Lasts (n : String) (earlier later : State) : Prop where
  /-- the variables -/
  scopes : ∃ above below, later.environment.scopes = above ++ below ∧
    List.Forall₂ (Scope.Lasts n) earlier.environment.scopes below
  /-- the fields -/
  fields : ∀ ref v, earlier.heap.field? ref n = some v → later.heap.field? ref n = some v

/-- The guard that compares all states with an earlier one, and sees to it that
the program can be run in each of them. -/
def Guard.lasting (p : Program) (n : String) (earlier : State) (alarm : RuntimeError) : Guard where
  state later := earlier.Lasts n later ∧ later.Serves p
  alarm := alarm

/-- The guard that compares the fields in all states with those in a later
one. -/
def Guard.foreseeing (n : String) (later : State) (alarm : RuntimeError) : Guard where
  state earlier := ∀ ref v, earlier.heap.field? ref n = some v →
    later.heap.field? ref n = some v
  alarm := alarm

/-- From the state on, a computation raises no alarm, whatever the alarm. What
has the name in the beginning is the same in the end, and what fields of the
name hold on the way they hold in the end. -/
structure LeavesConstant {α : Type} (p : Program) (n : String) (s : State) (m : Run α)
    (guarded : Guard → Run α) : Prop where
  /-- on the way, seen from the beginning -/
  quiet : ∀ alarm, guarded (.lasting p n s alarm) s = m s
  /-- in the end -/
  ends : ∀ r s', m s = some (r, s') → s.Lasts n s' ∧ s'.Serves p
  /-- on the way, seen from the end -/
  foreseen : ∀ r s', m s = some (r, s') → ∀ alarm, guarded (.foreseeing n s' alarm) s = m s

/-! ## Scopes -/

namespace Scope

variable {n : String} {earlier : Scope}

/-- Writing to other names leaves what an earlier scope holds under this one. -/
theorem stable_lasts : Stable (· ≠ n) (Lasts n earlier) :=
  fun s name value hname hs v hv => stable_holds s name value hname (hs v hv)

/-- Declarations leave it too. -/
theorem open_lasts : Open (Lasts n earlier) where
  declare hdeclare hs v hv := open_holds.declare hdeclare (hs v hv)
  declareMethod _ hs := hs

/-- What the earlier scopes hold under the name survives every allowed
assignment. -/
theorem stable_map_lasts {scopes : List Scope} :
    ∀ ψ ∈ scopes.map (Lasts n), Stable (· ≠ n) ψ := by
  intro ψ hψ
  obtain ⟨_, -, rfl⟩ := List.mem_map.mp hψ
  exact stable_lasts

end Scope

section

variable {p : Program} {n : String} {s s' : State}

/-- Every scope holds what it holds itself. -/
theorem Fit.lasts_self (n : String) (scopes : List Scope) :
    Fit (scopes.map (Scope.Lasts n)) scopes :=
  List.forall₂_map_left_iff.mpr (List.forall₂_same.mpr fun _ _ _ => id)

/-- Seen from an earlier state that its scopes last in, steady states are such. -/
theorem State.IsSteady.lasts {Φ : List (Scope → Prop)}
    (hs' : s'.IsSteady p (· ≠ n) s.heap (Φ ++ s.environment.scopes.map (Scope.Lasts n))) :
    s.Lasts n s' := by
  have hbelow : Fit (s.environment.scopes.map (Scope.Lasts n))
      (s'.environment.scopes.drop Φ.length) :=
    (List.forall₂_drop_append _ _ _ hs'.scopes.flip).flip
  exact ⟨⟨_, _, (List.take_append_drop Φ.length s'.environment.scopes).symm,
    (List.forall₂_map_left_iff (f := Scope.Lasts n)).mp hbelow⟩,
    fun ref v hv => hs'.heap.fields ref n v (fun hne => hne rfl) hv⟩

/-- In steady states what has the name lasts, and the program can be run. -/
theorem Guard.accepts_lasting (p : Program) (n : String) (s : State) (alarm : RuntimeError) :
    (Guard.lasting p n s alarm).Accepts p (Horizon.none : Horizon (· ≠ n)) s.heap
      (s.environment.scopes.map (Scope.Lasts n)) where
  stable := Scope.stable_map_lasts
  state _ _ ht _ := ⟨ht.lasts, ht.serves⟩

/-- In steady states the fields of the name hold what they hold in the end. -/
theorem Guard.accepts_foreseeing (p : Program) (n : String) (s s' : State)
    (alarm : RuntimeError) :
    (Guard.foreseeing n s' alarm).Accepts p
      (.fields n s'.heap fun hne => hne rfl : Horizon (· ≠ n)) s.heap
      (s.environment.scopes.map (Scope.Lasts n)) where
  stable := Scope.stable_map_lasts
  state _ _ _ hfields := hfields

/-- A computation that is steady under all guards that accept the states leaves
what has the name as it is. -/
theorem LeavesConstant.of_steady {α : Type} {post : α → Heap → Prop} {Ψ : List (Scope → Prop)}
    {m : Run α} {guarded : Guard → Run α} (hs : s.Serves p)
    (hΨ : s.environment.scopes.map (Scope.Lasts n) = Ψ)
    (hm : ∀ {H : Horizon (· ≠ n)} {g : Guard}, g.Passes p →
      g.Accepts p H s.heap (s.environment.scopes.map (Scope.Lasts n)) →
      Steady p H Ψ s.heap post m (guarded g)) :
    LeavesConstant p n s m guarded := by
  subst hΨ
  have hsteady : s.IsSteady p (· ≠ n) s.heap (s.environment.scopes.map (Scope.Lasts n)) :=
    hs.isSteady (Fit.lasts_self n _)
  have hpasses {g : Guard} (hstates : g = { state := g.state, alarm := g.alarm }) : g.Passes p := by
    rw [hstates]
    exact ⟨fun _ _ => trivial, fun _ _ => trivial, fun _ _ _ _ => trivial⟩
  have hlasting (alarm : RuntimeError) :=
    hm (hpasses rfl) (Guard.accepts_lasting p n s alarm) hsteady
  refine ⟨fun alarm => (hlasting alarm).1 Horizon.admits_none, fun r s' hrun => ?_,
    fun r s' hrun alarm => ?_⟩
  · have hs' := ((hlasting .mainNotDeclared).2 r s' hrun).1
    exact ⟨State.IsSteady.lasts (Φ := []) hs', hs'.serves⟩
  · refine (hm (hpasses rfl) (Guard.accepts_foreseeing p n s s' alarm) hsteady).1 ?_
    rw [hrun]
    exact fun _ _ hv => hv

end

/-- From the state on, everything that the program does leaves what has the name
as it is. -/
structure RunsConstant (n : String) (cx : Context) (fuel : Nat) (s : State) : Prop where
  /-- declaring something -/
  declare : ∀ name v, v.ExistsIn s.heap →
    LeavesConstant cx.program n s (Run.declare name v) fun _ => Run.declare name v
  /-- evaluation -/
  evaluate : ∀ e, cx.program.HasExpr e → LeavesConstant cx.program n s (evaluate cx fuel e)
    fun g => evaluateGuarded g cx fuel e
  /-- execution -/
  execute : ∀ st, cx.program.HasStmt st → LeavesConstant cx.program n s (execute cx fuel st)
    fun g => executeGuarded g cx fuel st
  /-- the rest of a block or of a body -/
  executeAll : ∀ body, (∀ st ∈ body, cx.program.HasStmt st) →
    LeavesConstant cx.program n s (executeAll (ClassLang.execute cx fuel) body)
      fun g => ClassLang.executeAll (executeGuarded g cx fuel) body
  /-- making an object -/
  construct : ∀ c ∈ cx.program.classes.values,
    LeavesConstant cx.program n s (construct cx fuel c) fun g => constructGuarded g cx fuel c
  /-- the rest of setting up fields -/
  memberValues : ∀ c ∈ cx.program.classes.values, ∀ ds, (∀ d ∈ ds, d ∈ c.fields) →
    ∀ fields, (∀ name v, fields.get? name = some v → v.ExistsIn s.heap) →
    LeavesConstant cx.program n s
      (memberValues (initialValue cx (ClassLang.evaluate cx fuel) (ClassLang.construct cx fuel))
        fields ds)
      fun g => ClassLang.memberValues
        (initialValue cx (evaluateGuarded g cx fuel) (constructGuarded g cx fuel)) fields ds
  /-- calling a routine, on an object that is there -/
  invoke : ∀ routine arguments receiver, cx.program.Defines routine →
    (∀ e ∈ arguments, cx.program.HasArgument e) →
    (∀ ref, receiver = some ref → ref.ExistsIn s.heap) →
    LeavesConstant cx.program n s (invoke cx fuel routine arguments receiver)
      fun g => invokeGuarded g cx fuel routine arguments receiver
  /-- filling the scope of a call -/
  bindCall : ∀ routine values receiver, (∀ v ∈ values, v.ExistsIn s.heap) →
    (∀ ref, receiver = some ref → ref.ExistsIn s.heap) →
    LeavesConstant cx.program n s (bindCall cx routine values receiver)
      fun _ => ClassLang.bindCall cx routine values receiver
  /-- calling `main` -/
  runMain : LeavesConstant cx.program n s (runMain cx fuel) fun g => runMainGuarded g cx fuel

/-- From any state in which the program can be run, all functions leave the name
constant. -/
theorem runsConstant {n : String} {cx : Context} (hn : cx.program.NeverWrites n) (fuel : Nat)
    {s : State} (hs : s.Serves cx.program) : RunsConstant n cx fuel s := by
  obtain ⟨top, rest, hscopes⟩ : ∃ top rest, s.environment.scopes = top :: rest :=
    List.exists_cons_of_ne_nil (by simp [Environment.scopes])
  have hcons : s.environment.scopes.map (Scope.Lasts n)
      = Scope.Lasts n top :: rest.map (Scope.Lasts n) := by rw [hscopes, List.map_cons]
  have hcalls {H : Horizon (· ≠ n)} {g : Guard} (hpasses : g.Passes cx.program) :
      (callsAt cx fuel).Steady cx H g (guardedAt g cx fuel) :=
    steady_guardedAt cx hn hpasses fuel
  -- In a scope that may take declarations the property of the innermost one is named.
  have hexecute {H : Horizon (· ≠ n)} {g : Guard} (hpasses : g.Passes cx.program)
      (hg : g.Accepts cx.program H s.heap (s.environment.scopes.map (Scope.Lasts n))) :=
    (hcalls hpasses).execute (hcons ▸ hg) Scope.open_lasts
  have hinitial {H : Horizon (· ≠ n)} {g : Guard} (hpasses : g.Passes cx.program)
      (hg : g.Accepts cx.program H s.heap (s.environment.scopes.map (Scope.Lasts n)))
      {c : ClassDef} (hc : c ∈ cx.program.classes.values) {d : Declaration} (hd : d ∈ c.fields) :=
    steady_initialValue (d := d)
      (fun e he => (hcalls hpasses).evaluate (hcons ▸ hg) e ⟨_, .field hc hd he⟩)
      ((hcalls hpasses).construct (hcons ▸ hg))
  exact
    { declare := fun name v hv => .of_steady hs hcons fun _ _ => .declare Scope.open_lasts hv
      evaluate := fun e he => .of_steady hs rfl fun hpasses hg => (hcalls hpasses).evaluate hg e he
      execute := fun st hst => .of_steady hs hcons fun hpasses hg => hexecute hpasses hg st hst
      executeAll := fun body hbody => .of_steady hs hcons fun hpasses hg =>
        steady_executeAll fun st hst => hexecute hpasses hg st (hbody st hst)
      construct := fun c hc => .of_steady hs rfl fun hpasses hg =>
        (hcalls hpasses).construct hg c hc
      memberValues := fun c hc ds hds fields hfields => .of_steady hs hcons fun hpasses hg =>
        steady_memberValues Scope.open_lasts
          (fun d hd => hinitial hpasses hg hc (hds d hd)) hfields
      invoke := fun routine arguments receiver hroutine harguments hreceiver =>
        .of_steady hs rfl fun hpasses hg => (hcalls hpasses).invoke hg routine arguments receiver
          hroutine harguments hreceiver
      bindCall := fun routine values receiver hvalues hreceiver => .of_steady hs hcons fun _ _ =>
        steady_bindCall Scope.open_lasts hreceiver hvalues
      runMain := .of_steady hs rfl fun hpasses hg => (hcalls hpasses).runMain hg }

/-- What a variable is declared with it holds. -/
theorem Run.holds_of_declare {name : String} {v : Value} {s s' : State}
    (hrun : Run.declare name v s = some (.ok (), s')) :
    ∃ top rest, s'.environment.scopes = top :: rest ∧ top.Holds name v := by
  rw [Run.declare, Run.tryModify] at hrun
  rcases hdeclare : s.environment.declare name v with e | e <;> rw [hdeclare] at hrun <;>
    cases hrun
  obtain ⟨_, top, rest, -, htop, hscopes⟩ := Environment.scopes_declare hdeclare
  exact ⟨top, rest, hscopes, Scope.holds_of_declare htop⟩

/-- What the fields of an object are made with they hold. -/
theorem Run.field?_of_allocate {object : Object} {ref : Ref} {s s' : State}
    (hrun : Run.allocate object s = some (.ok ref, s')) (name : String) :
    s'.heap.field? ref name = object.fields.get? name := by
  cases hrun
  exact (Heap.field?_allocate ..).trans (if_pos rfl)

/-- **A name that is never written is constant.** Let no assignment of a program
be to a variable or a field of some name, and no argument of a call name one. A
variable of that name holds what it is declared with, and a field what the
object is made with. From any state on that the program can come to, and so also
from that one on, nothing that the program does changes what variables and
fields of the name hold: in every state on the way the scopes that there were
are still the lowest ones and hold what they held, and so do the objects, whatever
is called, copied back and made in between, and even if the run does not end.
Objects that are made on the way hold from then on what they hold in the end. -/
theorem never_written_is_constant {p : Program} {n : String} (hn : p.NeverWrites n) :
    (∀ natives, (State.ready p natives).Serves p) ∧
    ∀ (limit fuel : Nat) (s : State), s.Serves p →
      RunsConstant n ⟨p, limit⟩ fuel s ∧
      (∀ v s', Run.declare n v s = some (.ok (), s') →
        ∃ top rest, s'.environment.scopes = top :: rest ∧ top.Holds n v) ∧
      ∀ object ref s', Run.allocate object s = some (.ok ref, s') →
        s'.heap.field? ref n = object.fields.get? n :=
  ⟨State.serves_ready p, fun _ fuel _ hs => ⟨runsConstant hn fuel hs,
    fun _ _ => Run.holds_of_declare, fun _ _ _ hrun => Run.field?_of_allocate hrun n⟩⟩

/-- Is nothing of the name written to in the program? -/
def Program.neverWrites (p : Program) (n : String) : Bool :=
  p.every (fun st => match st with | .assign target _ => target.lastName != n | _ => true)
    fun e => (e.arguments?.getD []).all fun a => a.target?.all (·.lastName != n)

/-- The check on programs means what it should. -/
theorem Program.neverWrites_of_neverWrites {p : Program} {n : String}
    (h : p.neverWrites n = true) : p.NeverWrites n := by
  obtain ⟨hstatements, hexpressions⟩ := Program.of_every h
  refine ⟨fun target e hst => ?_, fun a target ha htarget => ?_⟩
  · exact bne_iff_ne.mp (hstatements _ hst)
  · obtain ⟨e, arguments, he, harguments, hmem⟩ := ha
    have hall := hexpressions e he
    rw [harguments, Option.getD_some, List.all_eq_true] at hall
    have htargets := hall a hmem
    rw [htarget, Option.all_some] at htargets
    exact bne_iff_ne.mp htargets

/-- Statements that make an object and declare a number. -/
def prepares : List Stmt := [
  .declare { type := .cls "C", name := "c", initial := some (.var "C") },
  .declare { type := .integer, name := "x", initial := none }]

/-- A call of a method of the object. -/
def fills : Stmt := .call (.call (.member "c" ["fill"]) [.var "x"])

/-- A program with a field that is never written to, in a class with a method
that writes to another field and to its parameter. -/
def keepsLimit : Program where
  functions := .ofList [
    ("main", { returns := .integer, name := "main", parameters := [], body :=
      prepares ++ [fills, .ret (.member "c" ["limit"])] })]
  classes := .ofList [("C", {
    name := "C"
    fields := [
      { type := .integer, name := "limit", initial := some (.integer ⟨5, inRange_five⟩) },
      { type := .integer, name := "level", initial := none }]
    methods := [{
      returns := .void, name := "fill"
      parameters := [{ type := .integer, name := "x", byReference := true }]
      body := [.assign (.var "level") (.var "limit"), .assign (.var "x") (.var "limit")] }] })]

/-- All these statements stand in the body of the one function. -/
theorem keepsLimit_hasStmt {st : Stmt}
    (hst : st ∈ prepares ++ [fills, .ret (.member "c" ["limit"])]) : keepsLimit.HasStmt st :=
  .body (.inl (List.mem_singleton_self _)) hst

/-- A program that sets a field up once, and the values that it reads there. -/
theorem never_written_is_constant_keepsLimit :
    keepsLimit.NeverWrites "limit" ∧
    ∃ r made r' called v w,
      executeAll (execute ⟨keepsLimit, 9⟩ 9) prepares (.ready keepsLimit []) = some (r, made) ∧
      made.Serves keepsLimit ∧
      made.heap.field? ⟨"C", 0⟩ "limit" = some v ∧ v.text = "5" ∧
      execute ⟨keepsLimit, 9⟩ 9 fills made = some (r', called) ∧
      called.heap.field? ⟨"C", 0⟩ "limit" = some v ∧
      called.heap.field? ⟨"C", 0⟩ "level" = some w ∧ w.text = "5" := by
  have hn : keepsLimit.NeverWrites "limit" :=
    Program.neverWrites_of_neverWrites (by decide +kernel)
  obtain ⟨hready, hruns⟩ := never_written_is_constant hn
  have hmade : ((executeAll (execute ⟨keepsLimit, 9⟩ 9) prepares (.ready keepsLimit [])).bind
      (·.2.heap.field? ⟨"C", 0⟩ "limit")).map Value.text = some "5" := by decide +kernel
  obtain ⟨v, hv, htext⟩ := Option.map_eq_some_iff.mp hmade
  obtain ⟨⟨r, made⟩, hprepares, hlimit⟩ := Option.bind_eq_some_iff.mp hv
  obtain ⟨hconstant, -⟩ := hruns 9 9 _ (hready [])
  obtain ⟨-, hserves⟩ := (hconstant.executeAll prepares
    fun st hst => keepsLimit_hasStmt (List.mem_append_left _ hst)).ends r made hprepares
  have hcalled : (((executeAll (execute ⟨keepsLimit, 9⟩ 9) prepares (.ready keepsLimit [])).bind
      fun x => execute ⟨keepsLimit, 9⟩ 9 fills x.2).bind
        (·.2.heap.field? ⟨"C", 0⟩ "level")).map Value.text = some "5" := by decide +kernel
  rw [hprepares, Option.bind_some] at hcalled
  obtain ⟨w, hw, htext'⟩ := Option.map_eq_some_iff.mp hcalled
  obtain ⟨⟨r', called⟩, hfills, hlevel⟩ := Option.bind_eq_some_iff.mp hw
  obtain ⟨hconstant', -⟩ := hruns 9 9 made hserves
  obtain ⟨hlasts, -⟩ := (hconstant'.execute fills
    (keepsLimit_hasStmt (List.mem_append_right _ List.mem_cons_self))).ends r' called hfills
  exact ⟨hn, r, made, r', called, v, w, hprepares, hserves, hlimit, htext, hfills,
    hlasts.fields _ v hlimit, hlevel, htext'⟩

end ClassLang
