import ClassLang.Proofs.Frame
import ClassLang.Proofs.Fuel
import ClassLang.Proofs.Mimics

/-!
# How scopes are layered does not show

A name means what the innermost scope says that has it. How many scopes there
are, and in which of them a variable lives, makes no difference to an
expression, although a routine called in it reads and changes the variables of
all scopes below its own: two states in which every name means the same
(`State.SameNames`) lead evaluation to the same end.
-/

namespace ClassLang

/-- The states differ in nothing but the arrangement of their scopes, and in
what has been written before. No `return` is on its way out. -/
structure State.SameNames (s s' : State) : Prop where
  /-- variables hold the same -/
  lookup? : ∀ name, s'.environment.lookup? name = s.environment.lookup? name
  /-- routines are the same -/
  method? : ∀ name, s'.environment.method? name = s.environment.method? name
  /-- natives are the same -/
  natives : s'.environment.natives = s.environment.natives
  /-- the objects are the same -/
  heap : s'.heap = s.heap
  /-- calls are nested as deeply -/
  depth : s'.depth = s.depth
  /-- nothing is returning in the first state -/
  quiet : s.IsQuiet
  /-- nothing is returning in the second state -/
  quiet' : s'.IsQuiet

namespace State.SameNames

variable {s s' : State}

/-- The relation goes in both directions. -/
theorem symm (h : s.SameNames s') : s'.SameNames s where
  lookup? name := (h.lookup? name).symm
  method? name := (h.method? name).symm
  natives := h.natives.symm
  heap := h.heap.symm
  depth := h.depth.symm
  quiet := h.quiet'
  quiet' := h.quiet

/-- The past of two states that hold the same objects: there are no earlier
ones. -/
def past (s s' : State) : Past := { objects := #[], output := s.output, output' := s'.output }

theorem relocate_place : Value.relocate (past s s').place = id :=
  funext Value.relocate_id

/-- States that resolve names alike are alike, with no earlier objects. -/
theorem alike (h : s.SameNames s') : (past s s').Alike 0 s s' where
  environment := .of_agrees {
    lookup? := fun name => by rw [h.lookup?, relocate_place, Option.map_id, id]
    method? := h.method?
    natives := h.natives
    overlooks := fun _ native _ => native.overlooks_id
    pendingReturn := by rw [h.quiet, h.quiet', Option.map_none] }
  heap := Heap.extends_empty_iff.mpr h.heap
  depth := h.depth
  output := ⟨"", String.append_empty.symm, String.append_empty.symm⟩

/-- States that are alike with no earlier objects resolve names alike. -/
theorem of_alike {k : Nat} {t t' : State} (h : (past s s').Alike k t t') (hquiet : t.IsQuiet) :
    t.SameNames t' where
  lookup? name := by rw [h.environment.agrees.lookup?, relocate_place, Option.map_id, id]
  method? := h.environment.agrees.method?
  natives := h.environment.agrees.natives
  heap := Heap.extends_empty_iff.mp h.heap
  depth := h.depth
  quiet := hquiet
  quiet' := by rw [IsQuiet, h.environment.agrees.pendingReturn, hquiet, Option.map_none]

/-- Where evaluation comes to an end from the first state, it comes to the same
end from the second. -/
theorem evaluatesTo {cx : Context} {e : Expr} {t : State} {r : Except RuntimeError Value}
    (h : s.SameNames s') (hrun : EvaluatesTo cx e s r t) :
    ∃ t', EvaluatesTo cx e s' r t' ∧ t.SameNames t' ∧
      ∃ written, t.output = s.output ++ written ∧ t'.output = s'.output ++ written := by
  obtain ⟨fuel, hrun⟩ := hrun
  have hquiet : t.IsQuiet := ((framed_callsAt cx fuel).evaluate s.shape e ⟨rfl, h.quiet⟩ hrun).2
  rcases (mimic_callsAt (past s s') cx fuel).evaluate 0 e h.alike with
    ⟨hnone, -⟩ | ⟨r', u, t', hu, ht', halike⟩
  · cases hnone.symm.trans hrun
  · cases hu.symm.trans hrun
    rw [relocate_place, Except.map_id, id] at ht'
    exact ⟨t', ⟨fuel, ht'⟩, of_alike halike hquiet, halike.output⟩

end State.SameNames

/-- **How scopes are layered does not show.** Let two states differ in nothing
but the arrangement of their scopes: every name means the same in both. Then
the evaluation of an expression comes to an end from one of them exactly if it
does from the other. It ends in the same value or the same error, has written
the same, and leaves two states that again differ in nothing but the
arrangement of their scopes. -/
theorem layering_does_not_show (cx : Context) {s s' : State} (h : s.SameNames s') (e : Expr) :
    ((∃ r t, EvaluatesTo cx e s r t) ↔ ∃ r' t', EvaluatesTo cx e s' r' t') ∧
    ∀ r t r' t', EvaluatesTo cx e s r t → EvaluatesTo cx e s' r' t' →
      r' = r ∧ t.SameNames t' ∧
        ∃ written, t.output = s.output ++ written ∧ t'.output = s'.output ++ written := by
  refine ⟨⟨?_, ?_⟩, ?_⟩
  · rintro ⟨r, t, hrun⟩
    obtain ⟨t', hrun', -⟩ := h.evaluatesTo hrun
    exact ⟨r, t', hrun'⟩
  · rintro ⟨r', t', hrun'⟩
    obtain ⟨t, hrun, -⟩ := h.symm.evaluatesTo hrun'
    exact ⟨r', t, hrun⟩
  · intro r t r' t' hrun hrun'
    obtain ⟨u, hu, hsame, hwritten⟩ := h.evaluatesTo hrun
    obtain ⟨rfl, rfl⟩ := hu.unique hrun'
    exact ⟨rfl, hsame, hwritten⟩

/-- A program with a function that changes a variable it does not declare, and
makes an object. -/
def changesOutside : Program where
  functions := .ofList [
    ("f", { returns := .string, name := "f", parameters := [], body := [
      .assign (.var "x") (.string "new"),
      .declare { type := .cls "C", name := "c", initial := none },
      .ret (.var "x")] })]
  classes := .ofList [("C", { name := "C", fields := [], methods := [] })]

/-- The one variable stands in the global scope. -/
def oneScope : State where
  environment := {
    global := { vars := .ofList [("x", .string "old")], methods := changesOutside.functions } }

/-- The variable stands in a scope of its own, and one of its name below. -/
def threeScopes : State where
  environment := {
    inner := [{}, { vars := .ofList [("x", .string "old")] }]
    global := { vars := .ofList [("x", .boolean false)], methods := changesOutside.functions } }

theorem sameNames_oneScope_threeScopes : oneScope.SameNames threeScopes where
  lookup? name := by
    by_cases hx : "x" = name <;>
      simp [oneScope, threeScopes, Environment.lookup?, List.findSome?_cons, Table.ofList,
        Table.get?_insert, hx]
  method? _ := rfl
  natives := rfl
  heap := rfl
  depth := rfl
  quiet := rfl
  quiet' := rfl

/-- The function writes to the same variable below one scope and below three. -/
theorem layering_does_not_show_oneScope_threeScopes :
    ∃ t t', EvaluatesTo ⟨changesOutside, 2⟩ (.call (.var "f") []) oneScope (.ok (.string "new")) t ∧
      EvaluatesTo ⟨changesOutside, 2⟩ (.call (.var "f") []) threeScopes (.ok (.string "new")) t' ∧
      t.SameNames t' := by
  obtain ⟨t, ht⟩ : ∃ t, EvaluatesTo ⟨changesOutside, 2⟩ (.call (.var "f") []) oneScope
      (.ok (.string "new")) t := ⟨_, 9, rfl⟩
  obtain ⟨t', ht'⟩ : ∃ t', EvaluatesTo ⟨changesOutside, 2⟩ (.call (.var "f") []) threeScopes
      (.ok (.string "new")) t' := ⟨_, 9, rfl⟩
  obtain ⟨-, hends⟩ := layering_does_not_show ⟨changesOutside, 2⟩ sameNames_oneScope_threeScopes
    (.call (.var "f") [])
  exact ⟨t, t', ht, ht', (hends _ _ _ _ ht ht').2.1⟩

end ClassLang
