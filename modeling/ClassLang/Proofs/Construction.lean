import ClassLang.Proofs.Fitting
import ClassLang.Proofs.Parser.WellFormed
import ClassLang.Proofs.Reached

/-!
# New objects

The fields of a new object are set up one after the other, each in the state
that the one before left (`SetsUp`). Whatever code runs for that, the object is
made at its end, from the values alone. So nothing refers to it yet, neither in
the state before nor in the state after (`State.Holds`), and each field has the
value that was made for it. That has the declared type: it was made for the
type, or the type has been checked.
-/

namespace ClassLang

/-! ## What refers to objects -/

/-- Somewhere in the state the value is held. -/
inductive State.Holds (s : State) (v : Value) : Prop where
  /-- by a variable -/
  | inScope {scope : Scope} {name : String} :
    scope ∈ s.environment.scopes → scope.vars.get? name = some v → s.Holds v
  /-- by a field of an object -/
  | inObject {location : Nat} {o : Object} {name : String} :
    s.heap.object? location = some o → o.fields.get? name = some v → s.Holds v
  /-- by a `return` on its way out -/
  | returned : s.environment.pendingReturn = some v → s.Holds v

/-- What a variable of a sound scope holds exists. -/
theorem SoundScopes.existsIn_of_mem {h : Heap} {κ : Marks} {scopes : List Scope}
    (hs : SoundScopes h κ scopes) {scope : Scope} (hscope : scope ∈ scopes) {name : String}
    {v : Value} (hv : scope.vars.get? name = some v) : v.ExistsIn h := by
  induction scopes with
  | nil => cases hscope
  | cons top rest ih =>
    rcases List.mem_cons.mp hscope with rfl | hrest
    · exact (hs.1 name v hv).1
    · exact ih hs.2 hrest

/-- In a sound state whatever is held is there. -/
theorem State.IsSound.existsIn_of_holds {cx : Context} {κ : Marks} {s : State} {v : Value}
    (hs : s.IsSound cx κ) (hv : s.Holds v) : v.ExistsIn s.heap := by
  cases hv with
  | inScope hscope hv => exact hs.scopes.existsIn_of_mem hscope hv
  | inObject ho hv => exact (hs.heap.fields _ _ ho _ _ hv).1
  | returned hv => exact hs.pendingReturn v hv

/-- What is there is not where a new object is going to be. -/
theorem Ref.ExistsIn.location_ne {h : Heap} {ref : Ref} (href : ref.ExistsIn h) (object : Object) :
    ref.location ≠ (h.allocate object).1.location := by
  obtain ⟨o, ho, -⟩ := href
  intro heq
  cases (heq ▸ Heap.object?_allocate_fresh h object).symm.trans ho

/-- When a new object has been made of values that were there before, nothing
refers to it. -/
theorem State.IsSound.location_ne_of_allocate {cx : Context} {κ : Marks} {s : State}
    (hs : s.IsSound cx κ) {object : Object}
    (hfields : ∀ name v, object.fields.get? name = some v → v.ExistsIn s.heap) {ref : Ref}
    (hheld : ({ s with heap := (s.heap.allocate object).2 } : State).Holds (.object ref)) :
    ref.location ≠ (s.heap.allocate object).1.location := by
  have hexists : ref.ExistsIn s.heap := by
    cases hheld with
    | inScope hscope hv => exact hs.existsIn_of_holds (.inScope hscope hv)
    | returned hv => exact hs.existsIn_of_holds (.returned hv)
    | inObject ho hv =>
      rw [Heap.object?_allocate] at ho
      split at ho
      · cases ho
        exact hfields _ _ hv
      · exact hs.existsIn_of_holds (.inObject ho hv)
  exact hexists.location_ne object

/-! ## First values -/

section

variable {cx : Context} {evaluate : Expr → Run Value} {construct : ClassDef → Run Ref}
  {d : Declaration} {v : Value} {s s' : State}

/-- Without an initialisation a class gives a new object, and any other type its
zero value: there always is one. -/
theorem initialValue_of_none (hd : d.initial = none) :
    (∃ name, d.type = .cls name ∧
        initialValue cx evaluate construct d = constructNamed cx construct name) ∨
      ∃ zero, Value.zero? d.type = some zero ∧
        initialValue cx evaluate construct d = pure zero := by
  rw [initialValue, hd]
  cases d.type with
  | cls name => exact .inl ⟨name, rfl, rfl⟩
  | _ => exact .inr ⟨_, rfl, rfl⟩

variable (hnames : cx.program.NamesClasses)
  (hconstruct : ∀ c s ref s', construct c s = some (.ok ref, s') → ref.className = c.name)
include hnames hconstruct

/-- Constructing by name gives an object of that class. -/
theorem type_of_constructNamed {name : String}
    (hrun : constructNamed cx construct name s = some (.ok v, s')) :
    v.type = .cls name ∧ ¬ v.IsClass := by
  obtain ⟨c, t, hclass, hrun⟩ := Run.bind_eq_ok hrun
  obtain ⟨ref, u, hobject, hpure⟩ := Run.bind_eq_ok hrun
  cases hpure
  obtain ⟨hclass, -⟩ := Prod.mk.inj (Option.some.inj hclass)
  rw [Context.classNamed] at hclass
  split at hclass <;> cases hclass
  next hfound =>
  refine ⟨?_, id⟩
  rw [Value.type, hconstruct c t ref _ hobject, hnames name c hfound]

/-- What a declared name starts out with has the declared type, and is no
class. -/
theorem type_of_initialValue
    (hrun : initialValue cx evaluate construct d s = some (.ok v, s')) :
    v.type = d.type ∧ ¬ v.IsClass := by
  rcases hd : d.initial with _ | e
  · rcases initialValue_of_none hd with ⟨name, htype, heq⟩ | ⟨zero, hzero, heq⟩ <;> rw [heq] at hrun
    · rw [htype]
      exact type_of_constructNamed hnames hconstruct hrun
    · cases hrun
      refine ⟨Value.type_of_zero? hzero, ?_⟩
      have hnot := (Value.existsIn_zero {} d.type).2
      rwa [hzero] at hnot
  · have hcheck : ∀ {value : Value} {t : State}, ¬ value.IsClass →
        (if value.type = d.type then pure value
          else Run.fail (.invalidInitialisation d.name d.type value.type) : Run Value) t
            = some (.ok v, s') → v.type = d.type ∧ ¬ v.IsClass := by
      intro value t hclass hend
      split at hend
      · next htype =>
        cases hend
        exact ⟨htype, hclass⟩
      · cases hend
    rw [initialValue, hd] at hrun
    obtain ⟨given, t, -, hrun⟩ := Run.bind_eq_ok hrun
    cases given with
    | cls name =>
      obtain ⟨value, u, hvalue, hrun⟩ := Run.bind_eq_ok hrun
      exact hcheck (type_of_constructNamed hnames hconstruct hvalue).2 hrun
    | _ =>
      obtain ⟨value, u, hvalue, hrun⟩ := Run.bind_eq_ok hrun
      cases hvalue
      exact hcheck id hrun

end

/-! ## Setting up fields -/

/-- Declared names get their first values one after the other: each value is
made in the state that the one before left, and is a variable for those behind
it. -/
inductive SetsUp (first : Declaration → Run Value) :
    List Declaration → State → List Value → State → Prop where
  /-- there are none -/
  | nil {s : State} : SetsUp first [] s [] s
  /-- a first one, and those behind it -/
  | cons {d : Declaration} {ds : List Declaration} {s t u s' : State} {v : Value}
    {values : List Value} :
    first d s = some (.ok v, t) → Run.declare d.name v t = some (.ok (), u) →
    SetsUp first ds u values s' → SetsUp first (d :: ds) s (v :: values) s'

/-- If each first value is right for its field, all of them are. -/
theorem SetsUp.forall₂ {first : Declaration → Run Value} {R : Declaration → Value → Prop}
    (hfirst : ∀ d s v s', first d s = some (.ok v, s') → R d v) {ds : List Declaration}
    {s s' : State} {values : List Value} (h : SetsUp first ds s values s') :
    List.Forall₂ R ds values := by
  induction h with
  | nil => exact .nil
  | cons hv _ _ ih => exact .cons (hfirst _ _ _ _ hv) ih

/-- The fields of a new object are set up one after the other, and hold what was
made for them. -/
theorem setsUp_of_memberValues {first : Declaration → Run Value} {ds : List Declaration}
    {fields result : Table Value} {s s' : State}
    (hrun : memberValues first fields ds s = some (.ok result, s')) :
    ∃ values, SetsUp first ds s values s' ∧
      result = ((ds.map Declaration.name).zip values).foldl (fun t f => t.insert f.1 f.2) fields := by
  induction ds generalizing fields s with
  | nil =>
    cases hrun
    exact ⟨[], .nil, rfl⟩
  | cons d ds ih =>
    obtain ⟨v, t, hv, hrun⟩ := Run.bind_eq_ok hrun
    obtain ⟨⟨⟩, u, hdeclare, hrun⟩ := Run.bind_eq_ok hrun
    obtain ⟨values, hvalues, rfl⟩ := ih hrun
    exact ⟨v :: values, .cons hv hdeclare hvalues, rfl⟩

/-! ## Objects -/

/-- An object of the class has been made: one that nothing refers to, with the
fields that the class declares, of which each holds a value of its type that was
made for it. -/
structure State.Constructs (cx : Context) (fuel : Nat) (c : ClassDef) (s : State) (ref : Ref)
    (s' : State) : Prop where
  /-- nothing referred to the object before -/
  fresh : ∀ other, s.Holds (.object other) → other.location ≠ ref.location
  /-- nor does anything now -/
  unshared : ∀ other, s'.Holds (.object other) → other.location ≠ ref.location
  /-- its class -/
  classOf : ref.className = c.name ∧ cx.classOf? ref = some c
  /-- its fields -/
  object : ∃ o values closed, s'.heap.object? ref.location = some o ∧ o.className = c.name ∧
    (∀ name, name ∈ o.fields.names ↔ name ∈ c.fields.map Declaration.name) ∧
    SetsUp (initialValue cx (evaluate cx fuel) (construct cx fuel)) c.fields
      { s with environment := s.environment.startBlock, depth := s.depth + 1 } values closed ∧
    List.Forall₂ (fun d v => o.fields.get? d.name = some v ∧ v.type = d.type ∧ ¬ v.IsClass ∧
      v.ExistsIn s'.heap) c.fields values
  /-- a field that is not said to start out as something has a class, or a type
  with a zero value, which is where it starts -/
  zero : ∀ d ∈ c.fields, d.initial = none →
    (∃ name, d.type = .cls name ∧
        initialValue cx (evaluate cx fuel) (construct cx fuel) d
          = constructNamed cx (construct cx fuel) name) ∨
      ∃ zero, Value.zero? d.type = some zero ∧
        initialValue cx (evaluate cx fuel) (construct cx fuel) d = pure zero

/-- Making an object is setting up its fields and then making it of them. -/
theorem construct_eq_ok {cx : Context} {fuel : Nat} {c : ClassDef} {s s' : State} {ref : Ref}
    (hrun : construct cx (fuel + 1) c s = some (.ok ref, s')) :
    ∃ fields t, Run.deeper cx.maxDepth (Run.inBlock
        (memberValues (initialValue cx (evaluate cx fuel) (construct cx fuel)) ∅ c.fields)) s
          = some (.ok fields, t) ∧
      ref = (t.heap.allocate ⟨c.name, fields⟩).1 ∧
      s' = { t with heap := (t.heap.allocate ⟨c.name, fields⟩).2 } := by
  obtain ⟨fields, t, hfields, hallocate⟩ := Run.bind_eq_ok hrun
  cases hallocate
  exact ⟨fields, t, hfields, rfl, rfl⟩

/-- A new object has the class from which it was constructed. -/
theorem className_of_construct {cx : Context} {fuel : Nat} {c : ClassDef} {s s' : State} {ref : Ref}
    (hrun : construct cx fuel c s = some (.ok ref, s')) : ref.className = c.name := by
  cases fuel with
  | zero => cases hrun
  | succ fuel =>
    obtain ⟨fields, t, -, rfl, -⟩ := construct_eq_ok hrun
    rfl

/-- When the fields of a new object have been set up, the state is sound and the
fields are those declared. -/
theorem isSound_of_setUp {cx : Context} {κ : Marks} {fuel : Nat} {c : ClassDef} {s t : State}
    {fields : Table Value} (hnames : cx.program.NamesClasses) (hs : s.IsSound cx κ)
    (hrun : Run.deeper cx.maxDepth (Run.inBlock
      (memberValues (initialValue cx (evaluate cx fuel) (construct cx fuel)) ∅ c.fields)) s
        = some (.ok fields, t)) :
    t.IsSound cx κ ∧ s.heap.Grows t.heap ∧
      FieldsOf (c.fields.map Declaration.name) fields t.heap := by
  have hsafe : (callsAt cx fuel).Safe cx κ (observedAt cx κ fuel) :=
    safe_callsAt hnames fuel fun _ _ => id
  have hself : s.Fits s.heap (named (namesOf s.environment.scopes)) :=
    ⟨.refl _, fit_named_iff.mpr rfl⟩
  obtain ⟨-, hends⟩ := safe_setUp hnames hsafe c hs hself
  obtain ⟨ht, hfits, hfields⟩ := hends _ t hrun
  exact ⟨ht, hfits.heap, hfields fields rfl⟩

/-- Each of different names has its own value in a table. -/
theorem Table.get?_ofList_zip {ds : List Declaration} (hds : (ds.map Declaration.name).Nodup)
    {values : List Value} (hlength : ds.length = values.length) {d : Declaration} {v : Value}
    (hmem : (d, v) ∈ ds.zip values) :
    (Table.ofList ((ds.map Declaration.name).zip values)).get? d.name = some v := by
  have hfst : ((ds.map Declaration.name).zip values).map Prod.fst = ds.map Declaration.name :=
    List.map_fst_zip (Nat.le_of_eq ((List.length_map _).trans hlength))
  have hpairwise : ((ds.map Declaration.name).zip values).Pairwise fun a b => a.1 ≠ b.1 :=
    List.pairwise_map.mp (hfst.symm ▸ hds)
  rw [Table.get?_ofList hpairwise, Table.find?_eq_some_iff hpairwise, List.zip_map_left]
  exact List.mem_map.mpr ⟨(d, v), hmem, rfl⟩

/-- **Construction makes a new object of its class.** In a parsed program, and
in any state that its runs reach, a construction that succeeds gives an object
that nothing referred to before, and that nothing refers to now. Its fields are
those that the class declares. They are set up in the order of their
declaration, whatever code runs for that; each holds the value that was made for
it, which has the declared type and is no class. A field without an
initialisation gets a new object or the zero value of its type: there always is
one. (With no fuel at all there is no outcome.) -/
theorem constructions_make_new_objects {tokens : List Token} {p : Program}
    (hp : parseProgram tokens = .ok p) {limit : Nat} {natives : List Native} {s : State}
    (hs : s.IsReached p limit natives) {name : String} {c : ClassDef}
    (hc : p.classes.get? name = some c) {fuel : Nat} {ref : Ref} {s' : State}
    (hrun : construct ⟨p, limit⟩ (fuel + 1) c s = some (.ok ref, s')) :
    s.Constructs ⟨p, limit⟩ fuel c ref s' := by
  have hnames : p.NamesClasses := namesClasses_of_parseProgram hp
  have hclass : p.classes.get? c.name = some c := (hnames name c hc).symm ▸ hc
  obtain ⟨κ, hsound⟩ := hs.isSound hnames
  obtain ⟨fields, t, hfields, rfl, rfl⟩ := construct_eq_ok hrun
  obtain ⟨ht, hgrows, hfieldsOf⟩ := isSound_of_setUp hnames hsound hfields
  refine ⟨fun other hheld => ?_, fun other => ?_, ⟨rfl, hclass⟩, ?_, fun d _ => initialValue_of_none⟩
  · exact Ref.ExistsIn.location_ne ((hsound.existsIn_of_holds hheld).mono hgrows) _
  · exact ht.location_ne_of_allocate fun name v hv => (hfieldsOf.values name v hv).1
  obtain ⟨u, hinside, rfl⟩ := Run.deeper_eq_ok hfields
  obtain ⟨closed, hmembers, rfl⟩ := Run.inBlock_eq_ok hinside
  obtain ⟨values, hsets, rfl⟩ := setsUp_of_memberValues hmembers
  have htyped := hsets.forall₂ fun d s v s' =>
    type_of_initialValue (d := d) hnames fun _ _ _ _ => className_of_construct
  have hnodup : (c.fields.map Declaration.name).Nodup :=
    (List.nodup_append.mp ((Program.isShaped (wellFormed_of_parseProgram hp)).members _ _ hc)).1
  refine ⟨_, values, closed, (Heap.object?_allocate _ _ _).trans (if_pos rfl), rfl,
    hfieldsOf.names, hsets, ?_⟩
  refine List.forall₂_iff_zip.mpr ⟨htyped.length_eq, fun {d v} hmem => ?_⟩
  have hget := Table.get?_ofList_zip hnodup htyped.length_eq hmem
  obtain ⟨htype, hnot⟩ := (List.forall₂_iff_zip.mp htyped).2 hmem
  exact ⟨hget, htype, hnot, (hfieldsOf.values _ _ hget).1.mono (Heap.Grows.allocate _ _)⟩

/-- A class with two fields for objects, a field that is read from one of them,
and one with nothing said. -/
def node : ClassDef where
  name := "Node"
  fields := [
    { type := .cls "Leaf", name := "left", initial := none },
    { type := .cls "Leaf", name := "right", initial := some (.var "Leaf") },
    { type := .integer, name := "count", initial := some (.call (.var "countOf") [.var "left"]) },
    { type := .string, name := "text", initial := none }]
  methods := []

/-- A function that gives an object of the class. -/
def makesNode : Routine where
  returns := .cls "Node"
  name := "main"
  parameters := []
  body := [
    .declare { type := .cls "Node", name := "made", initial := none },
    .ret (.var "made")]

/-- A program that makes an object of the class. -/
def makesNodes : Program where
  functions := .ofList [
    ("main", makesNode),
    ("countOf", {
      returns := .integer, name := "countOf"
      parameters := [{ type := .cls "Leaf", name := "leaf", byReference := false }]
      body := [.ret (.member "leaf" ["count"])] })]
  classes := .ofList [("Node", node), ("Leaf", {
    name := "Leaf"
    fields := [{ type := .integer, name := "count", initial := none }]
    methods := [] })]

/-- The tokens of the program, somewhere. -/
def makesNodesTokens : List Token :=
  (makesNodes.kinds ++ [Kind.stop]).map fun kind => { kind, lexeme := "", start := {}, stop := {} }

/-- Behind a run there are objects, and one more can be made. -/
theorem constructions_make_new_objects_makesNodes :
    parseProgram makesNodesTokens = .ok makesNodes ∧
    makesNodes.classes.get? "Node" = some node ∧
    ∃ s ref s', s.IsReached makesNodes 9 [] ∧ s.heap.objects.size = 3 ∧
      construct ⟨makesNodes, 9⟩ 12 node s = some (.ok ref, s') ∧
      s.Constructs ⟨makesNodes, 9⟩ 11 node ref s' := by
  have hparse : parseProgram makesNodesTokens = .ok makesNodes := by
    obtain ⟨rest, hreads, hstop⟩ := textKinds_eq_iff.mp
      (show textKinds makesNodesTokens = makesNodes.kinds by decide)
    exact parseProgram_of_isProgram (makesNodes.isProgram_kinds (by decide)) hreads hstop
  have hsizes : ((runMain ⟨makesNodes, 9⟩ 12 (.ready makesNodes [])).bind fun (_, s) =>
      (construct ⟨makesNodes, 9⟩ 12 node { s with output := "" }).bind fun (result, _) =>
        result.toOption.map fun _ => s.heap.objects.size) = some 3 := by decide +kernel
  obtain ⟨⟨_, s⟩, hrun, hsizes⟩ := Option.bind_eq_some_iff.mp hsizes
  obtain ⟨⟨_ | ref, s'⟩, hconstruct, hsizes⟩ := Option.bind_eq_some_iff.mp hsizes
  · cases hsizes
  let start : State := { s with output := "" }
  have hmain : makesNodes.functions.get? "main" = some makesNode := rfl
  have hreached : start.IsReached makesNodes 9 [] :=
    State.StartsRun.isReached hmain (.again .first hrun)
  have hnode : makesNodes.classes.get? "Node" = some node := rfl
  exact ⟨hparse, hnode, start, ref, s', hreached, Option.some.inj hsizes, hconstruct,
    constructions_make_new_objects hparse hreached hnode hconstruct⟩

end ClassLang
