import Mathlib.Data.Fintype.EquivFin
import ClassLang.Proofs.Parser.StmtViable

/-!
# Programs that are begun can be ended

The last layers are parameters, routines, members and definitions. A name is
the one thing here that must be chosen with care: where a new one is wanted, or
where one is refused since it is defined already, there is always a name that
is not taken.
-/

namespace ClassLang

/-! ## Routines -/

/-- The tokens are a parameter, which has a value. -/
def IsParameter (ks : List Kind) (p : Parameter) : Prop := ks = p.kinds ∧ p.type ≠ .void

/-- The tokens are parameters with commas between them. -/
def AreParameters (ks : List Kind) (ps : List Parameter) : Prop :=
  ks = parameterKinds ps ∧ ∀ p ∈ ps, p.type ≠ .void

theorem areParameters_nil : AreParameters [] [] := ⟨rfl, by simp⟩

/-- A parameter is a list of one. -/
theorem IsParameter.areParameters {ks : List Kind} {p : Parameter} (h : IsParameter ks p) :
    AreParameters ks [p] := by
  obtain ⟨rfl, hvoid⟩ := h
  exact ⟨by simp [parameterKinds], by simpa using hvoid⟩

/-- A parameter in front of others is separated from them by a comma. -/
theorem IsParameter.cons {ks ls : List Kind} {p : Parameter} {ps : List Parameter}
    (hp : IsParameter ks p) (hps : AreParameters ls ps) (hne : ps ≠ []) :
    AreParameters (ks ++ .mark .comma :: ls) (p :: ps) := by
  obtain ⟨rfl, hvoid⟩ := hp
  obtain ⟨rfl, hvoids⟩ := hps
  obtain ⟨q, ps, rfl⟩ := List.exists_cons_of_ne_nil hne
  exact ⟨(parameterKinds_cons_cons p q ps).symm, List.forall_mem_cons.mpr ⟨hvoid, hvoids⟩⟩

/-- What stands behind the type and the name of a routine. -/
def IsNamedRoutine (returns : Ty) (name : String) (ks : List Kind) (r : Routine) : Prop :=
  IsRoutine (returns.kind :: .identifier name :: ks) r ∧ r.name = name

/-- Parentheses around parameters, and a block, make a routine of a name and a
type. -/
theorem isNamedRoutine_mk {returns : Ty} {name : String} {ks ls : List Kind}
    {parameters : List Parameter} {body : List Stmt} (hparameters : AreParameters ks parameters)
    (hbody : IsBlock ls body) :
    IsNamedRoutine returns name (.mark .leftParen :: (ks ++ .mark .rightParen :: ls))
      ⟨returns, name, parameters, body⟩ := by
  obtain ⟨rfl, hvoid⟩ := hparameters
  exact ⟨.mk hvoid hbody, rfl⟩

section

variable (ts : List Token)

/-- A parameter is read in full, or begun. -/
theorem parseParameter_adheres : Adheres IsParameter parseParameter ts where
  sound h := ⟨_, (parseParameter_sound h).1, rfl, (parseParameter_sound h).2⟩
  viable := by
    have hnamed {type : Ty} (hvoid : type ≠ .void) (byReference : Bool) (name : String) :
        IsParameter (Parameter.mk type name byReference).kinds ⟨type, name, byReference⟩ :=
      ⟨rfl, hvoid⟩
    rw [reader_parseParameter]
    refine .accept rfl (.fail ?_) fun k type mid _ htype => ?_
    · exact ⟨[.keyword .integerType, .identifier "x"], _, by simp,
        @hnamed .integer (by rintro ⟨⟩) false "x"⟩
    · obtain ⟨rfl, hvoid⟩ := Ty.ofKind?_eq_some htype
      refine .skip (by rintro ⟨⟩) ?_ fun mid' _ => ?_
      · refine .bind parseName_adheres ?_ fun _ _ _ _ _ => .pure
        rintro _ name rfl
        exact canEnd_after (hnamed hvoid false name)
      · refine .bind parseName_adheres ?_ fun _ _ _ _ _ => .pure
        rintro _ name rfl
        exact canEnd_after (hnamed hvoid true name)

/-- The tokens are parameters, of which there is at least one. -/
def AreSomeParameters (ks : List Kind) (ps : List Parameter) : Prop :=
  AreParameters ks ps ∧ ps ≠ []

/-- Parameters derive what is read of them. -/
theorem parseParameterList_derived (ts : List Token) {ps : List Parameter} {rest : List Token}
    (h : Yields (parseParameterList ts) ps rest) : Derived AreSomeParameters ts ps rest := by
  obtain ⟨hks, hne, hvoid⟩ := parseParameterList_sound ts h
  exact ⟨_, hks, ⟨rfl, hvoid⟩, hne⟩

/-- What is read of parameters before an error can be completed. -/
theorem parseParameterList_viable (ts : List Token) :
    Viable AreSomeParameters (reader parseParameterList) ts := by
  rw [reader_parseParameterList]
  refine .bind (parseParameter_adheres ts) ?_ ?_
  · exact fun ks p hp => canEnd_after ⟨hp.areParameters, by simp⟩
  · refine fun ks p mid _ hp => .skip (by rintro ⟨⟩) .pure fun mid' _ => ?_
    refine .bind ⟨parseParameterList_derived mid', parseParameterList_viable mid'⟩ ?_
      fun _ _ _ _ _ => .pure
    rintro ls ps ⟨hps, hne⟩
    rw [after_after]
    exact canEnd_after ⟨hp.cons hps hne, by simp⟩
termination_by ts.length

theorem parseParameters_adheres : Adheres AreParameters parseParameters ts where
  sound h := ⟨_, (parseParameters_sound h).1, rfl, (parseParameters_sound h).2⟩
  viable := by
    rw [reader_parseParameters]
    exact .next .pure ((parseParameterList_viable ts).imp fun _ _ h => h.1)

theorem parseBlock_adheres : Adheres IsBlock parseBlock ts :=
  ⟨parseBlock_sound ts, parseBlock_viable ts⟩

/-- Behind its type and its name a routine is read in full, or begun. -/
theorem parseRoutine_adheres (returns : Ty) (name : String) :
    Adheres (IsNamedRoutine returns name) (parseRoutine returns name) ts where
  sound h := parseRoutine_sound h
  viable := by
    rw [reader_parseRoutine]
    refine .bind (expect_adheres (by rintro ⟨⟩)) ?_ ?_
    · rintro _ _ rfl
      exact ⟨_, _, by simp, isNamedRoutine_mk areParameters_nil isBlock_nil⟩
    · rintro _ _ mid₁ _ rfl
      refine .bind (parseParameters_adheres mid₁) ?_ ?_
      · exact fun ks ps hps => ⟨_, _, by simp, isNamedRoutine_mk hps isBlock_nil⟩
      · intro ks ps mid₂ _ hps
        refine .bind (expect_adheres (by rintro ⟨⟩)) ?_ ?_
        · rintro _ _ rfl
          exact ⟨[.mark .leftBrace, .mark .rightBrace], _, by simp,
            isNamedRoutine_mk hps isBlock_nil⟩
        · rintro _ _ mid₃ _ rfl
          refine .bind (parseBlock_adheres mid₃) ?_ fun _ _ _ _ _ => .pure
          intro ls body hbody
          rw [after_after]
          exact canEnd_after (isNamedRoutine_mk hps hbody)

end

/-! ## Names that are new -/

/-- There is always one more name. -/
theorem exists_name_notMem (taken : List String) : ∃ name, name ∉ taken := by
  obtain ⟨name, hname⟩ := Infinite.exists_notMem_finset taken.toFinset
  exact ⟨name, by simpa using hname⟩

/-- A new name is read, or could be: there is one that is not taken. -/
theorem parseNew_adheres {what : Expectation} {definition : Definition} {taken : String → Bool}
    (hfree : ∃ name, taken name = false) (ts : List Token) :
    Adheres (fun ks name => ks = [.identifier name] ∧ taken name = false)
      (parseNew what definition taken) ts where
  sound {name rest} h := by
    obtain ⟨name', mid, _, hname, h⟩ := h.of_bind
    dsimp only at h
    split at h
    · exact absurd h Yields.not_error
    next hnew =>
      obtain ⟨rfl, rfl⟩ := h.of_ok
      exact ⟨_, reads_of_parseName hname, rfl, by simpa using hnew⟩
  viable := by
    obtain ⟨name, hnew⟩ := hfree
    have hend : CanEnd fun ks name => ks = [.identifier name] ∧ taken name = false :=
      ⟨[.identifier name], name, by simp, rfl, hnew⟩
    rw [reader_parseNew]
    refine .next (.fail hend) ?_
    rw [reader_parseName]
    exact .accept rfl (.fail hend) fun _ _ _ _ _ => .pure

/-- The tokens are members of a class with names that are not taken. -/
def AreNewMembers (taken : List String) (ks : List Kind)
    (members : List Declaration × List Routine) : Prop :=
  AreMembers ks members.1 members.2 ∧ Unused taken (memberNames members.1 members.2)

section

variable {taken : List String} {type : Ty} {name : String} {ks ls : List Kind}
  {members : List Declaration × List Routine}

theorem areNewMembers_nil : AreNewMembers taken [] ([], []) := ⟨.nil, unused_nil⟩

/-- A field is a member like others, if its name is new. -/
theorem AreNewMembers.field {initial : Option Expr} (hinitial : AreInitial ks initial)
    (hname : name ∉ taken) (h : AreNewMembers (name :: taken) ls members) :
    AreNewMembers taken
      (type.kind :: .identifier name :: (ks ++ .mark .semicolon :: ls))
      (⟨type, name, initial⟩ :: members.1, members.2) := by
  have hfield := AreMembers.field (hinitial.isDeclaration type name) h.1
  exact ⟨by simpa using hfield, unused_member_iff.mpr ⟨hname, h.2⟩⟩

/-- So is a method, if its name is new. -/
theorem AreNewMembers.method {method : Routine} (hmethod : IsNamedRoutine type name ks method)
    (hname : name ∉ taken) (h : AreNewMembers (name :: taken) ls members) :
    AreNewMembers taken (type.kind :: .identifier name :: (ks ++ ls))
      (members.1, method :: members.2) := by
  obtain ⟨hmethod, rfl⟩ := hmethod
  exact ⟨.method hmethod h.1, (unused_member_iff.mpr ⟨hname, h.2⟩).perm
    (memberNames_method_perm members.1 method members.2).symm⟩

end

/-- Members with new names derive what is read of them. -/
theorem parseMembers_derived (taken : List String) (ts : List Token)
    {members : List Declaration × List Routine} {rest : List Token}
    (h : Yields (parseMembers taken ts) members rest) :
    Derived (AreNewMembers taken) ts members rest := by
  obtain ⟨⟨ks, hks, hmembers⟩, hunused⟩ := parseMembers_sound taken ts h
  exact ⟨ks, hks, hmembers, hunused⟩

/-- What is read of members before an error can be completed. -/
theorem parseMembers_viable (taken : List String) (ts : List Token) :
    Viable (AreNewMembers taken) (reader (parseMembers taken)) ts := by
  rw [reader_parseMembers]
  refine .leading .pure fun type mid₁ _ _ => ?_
  refine .bind (parseNew_adheres ?_ mid₁) ?_ ?_
  · obtain ⟨name, hname⟩ := exists_name_notMem taken
    exact ⟨name, by simpa using hname⟩
  · rintro _ name ⟨rfl, hname⟩
    have hname : name ∉ taken := by simpa using hname
    exact ⟨[.mark .semicolon], _, by simp, areNewMembers_nil.field areInitial_none hname⟩
  · rintro _ name mid₂ _ ⟨rfl, hname⟩
    have hname : name ∉ taken := by simpa using hname
    rw [after_after]
    refine .next ?_ ?_
    · refine .bind (parseRoutine_adheres mid₂ type name) ?_ ?_
      · intro ks method hmethod
        have hone := areNewMembers_nil.method hmethod hname
        rw [List.append_nil] at hone
        exact canEnd_after hone
      · intro ks method mid₃ _ hmethod
        refine .bind ⟨parseMembers_derived _ mid₃, parseMembers_viable _ mid₃⟩ ?_
          fun _ _ _ _ _ => .pure
        intro ls members hmembers
        have hmore := hmembers.method hmethod hname
        rw [after_after]
        exact canEnd_after hmore
    · refine .bind (parseInitial_adheres mid₂) ?_ ?_
      · exact fun ks initial hinitial =>
          ⟨[.mark .semicolon], _, by simp, areNewMembers_nil.field hinitial hname⟩
      · intro ks initial mid₃ _ hinitial
        refine .bind (expect_adheres (by rintro ⟨⟩)) ?_ ?_
        · rintro _ _ rfl
          exact ⟨[], _, by simp, areNewMembers_nil.field hinitial hname⟩
        · rintro _ _ mid₄ _ rfl
          refine .bind ⟨parseMembers_derived _ mid₄, parseMembers_viable _ mid₄⟩ ?_
            fun _ _ _ _ _ => .pure
          intro ls members hmembers
          rw [after_after, after_after]
          exact canEnd_after (hmembers.field hinitial hname)
termination_by ts.length

/-- What stands behind the name of a class. -/
def IsNamedClass (name : String) (ks : List Kind) (c : ClassDef) : Prop :=
  IsClass (.keyword .classWord :: .identifier name :: ks) c ∧ c.name = name

/-- Braces around members make a class. -/
theorem AreNewMembers.isNamedClass {name : String} {ks : List Kind}
    {members : List Declaration × List Routine} (h : AreNewMembers [] ks members) :
    IsNamedClass name (.mark .leftBrace :: (ks ++ [.mark .rightBrace]))
      ⟨name, members.1, members.2⟩ :=
  ⟨.mk h.1 h.2.1, rfl⟩

/-- Behind its name a class is read in full, or begun. -/
theorem parseClass_adheres (name : String) (ts : List Token) :
    Adheres (IsNamedClass name) (parseClass name) ts where
  sound h := parseClass_sound h
  viable := by
    rw [reader_parseClass]
    refine .bind (expect_adheres (by rintro ⟨⟩)) ?_ ?_
    · rintro _ _ rfl
      exact ⟨_, _, by simp, areNewMembers_nil.isNamedClass⟩
    · rintro _ _ mid₁ _ rfl
      refine .bind ⟨parseMembers_derived _ mid₁, parseMembers_viable _ mid₁⟩ ?_ ?_
      · exact fun ks members h => ⟨[.mark .rightBrace], _, by simp, h.isNamedClass⟩
      · intro ks members mid₂ _ h
        refine .bind (expect_adheres (by rintro ⟨⟩)) ?_ fun _ _ _ _ _ => .pure
        rintro _ _ rfl
        exact ⟨[], _, by simp, h.isNamedClass⟩

/-- The tokens are functions and classes with names that are new in a program,
and this is the program with them. -/
def AreNewDefinitions (p : Program) (ks : List Kind) (p' : Program) : Prop :=
  ∃ functions classes, AreDefinitions ks functions classes ∧ p.Admits functions classes ∧
    p' = p.extend functions classes

theorem areNewDefinitions_nil (p : Program) : AreNewDefinitions p [] p :=
  ⟨[], [], .nil, p.admits_nil, rfl⟩

section

variable {p p' : Program} {name : String} {ks ls : List Kind}

/-- A function is a definition like others, if its name is new. -/
theorem AreNewDefinitions.function {returns : Ty} {f : Routine}
    (hf : IsNamedRoutine returns name ks f) (hname : p.functions.contains name = false)
    (h : AreNewDefinitions { p with functions := p.functions.insert name f } ls p') :
    AreNewDefinitions p (returns.kind :: .identifier name :: (ks ++ ls)) p' := by
  obtain ⟨hf, rfl⟩ := hf
  obtain ⟨functions, classes, hmore, hadmits, rfl⟩ := h
  exact ⟨f :: functions, classes, .function hf hmore,
    Program.admits_function_iff.mpr ⟨by simp [hname], hadmits⟩, rfl⟩

/-- So is a class, if its name is new. -/
theorem AreNewDefinitions.cls {c : ClassDef} (hc : IsNamedClass name ks c)
    (hname : p.classes.contains name = false)
    (h : AreNewDefinitions { p with classes := p.classes.insert name c } ls p') :
    AreNewDefinitions p (.keyword .classWord :: .identifier name :: (ks ++ ls)) p' := by
  obtain ⟨hc, rfl⟩ := hc
  obtain ⟨functions, classes, hmore, hadmits, rfl⟩ := h
  exact ⟨functions, c :: classes, .cls hc hmore,
    Program.admits_class_iff.mpr ⟨by simp [hname], hadmits⟩, rfl⟩

theorem exists_contains_eq_false {α : Type} (t : Table α) : ∃ name, t.contains name = false := by
  obtain ⟨name, hname⟩ := exists_name_notMem t.names
  exact ⟨name, by simpa [Table.mem_names_iff] using hname⟩

end

/-- Definitions with new names derive what is read of them. -/
theorem parseDefinitions_derived (p : Program) (ts : List Token) {p' : Program}
    {rest : List Token} (h : Yields (parseDefinitions p ts) p' rest) :
    Derived (AreNewDefinitions p) ts p' rest := by
  obtain ⟨ks, functions, classes, hks, hdefinitions, hadmits, rfl⟩ := parseDefinitions_sound p ts h
  exact ⟨ks, hks, functions, classes, hdefinitions, hadmits, rfl⟩

/-- What is read of definitions before an error can be completed. -/
theorem parseDefinitions_viable (p : Program) (ts : List Token) :
    Viable (AreNewDefinitions p) (reader (parseDefinitions p)) ts := by
  rw [reader_parseDefinitions]
  refine .leading (.skip (by rintro ⟨⟩) .pure fun mid₁ _ => ?_) fun returns mid₁ _ _ => ?_
  · refine .bind (parseNew_adheres (exists_contains_eq_false _) mid₁) ?_ ?_
    · rintro _ name ⟨rfl, hname⟩
      have hclass := @AreNewMembers.isNamedClass name _ _ areNewMembers_nil
      have hone := (areNewDefinitions_nil _).cls hclass hname
      exact ⟨[.mark .leftBrace, .mark .rightBrace], _, by simp, hone⟩
    · rintro _ name mid₂ _ ⟨rfl, hname⟩
      rw [after_after]
      refine .bind (parseClass_adheres name mid₂) ?_ ?_
      · intro ks c hc
        have hone := (areNewDefinitions_nil _).cls hc hname
        rw [List.append_nil] at hone
        exact canEnd_after hone
      · intro ks c mid₃ _ hc
        refine (parseDefinitions_viable _ mid₃).imp fun ls p' h => ?_
        have hmore := h.cls hc hname
        exact hmore
  · refine .bind (parseNew_adheres (exists_contains_eq_false _) mid₁) ?_ ?_
    · rintro _ name ⟨rfl, hname⟩
      have hroutine := @isNamedRoutine_mk returns name _ _ _ _ areParameters_nil isBlock_nil
      have hone := (areNewDefinitions_nil _).function hroutine hname
      exact ⟨[.mark .leftParen, .mark .rightParen, .mark .leftBrace, .mark .rightBrace], _, by simp,
        hone⟩
    · rintro _ name mid₂ _ ⟨rfl, hname⟩
      rw [after_after]
      refine .bind (parseRoutine_adheres mid₂ returns name) ?_ ?_
      · intro ks f hf
        have hone := (areNewDefinitions_nil _).function hf hname
        rw [List.append_nil] at hone
        exact canEnd_after hone
      · intro ks f mid₃ _ hf
        refine (parseDefinitions_viable _ mid₃).imp fun ls p' h => ?_
        have hmore := h.function hf hname
        exact hmore
termination_by ts.length

/-! ## Programs -/

/-- Braces around definitions make a program. -/
theorem AreNewDefinitions.isProgram {ks : List Kind} {p : Program}
    (h : AreNewDefinitions {} ks p) :
    IsProgram (.mark .leftBrace :: (ks ++ [.mark .rightBrace])) p := by
  obtain ⟨functions, classes, hks, hadmits, rfl⟩ := h
  rw [Program.extend_empty]
  exact .mk hks hadmits.functions.1 hadmits.classes.1

/-- What is read of a program before an error can be completed. -/
theorem readProgram_viable (ts : List Token) : Viable IsProgram readProgram ts := by
  refine .bind (expect_adheres (by rintro ⟨⟩)) ?_ ?_
  · rintro _ _ rfl
    exact ⟨_, _, by simp, (areNewDefinitions_nil {}).isProgram⟩
  · rintro _ _ mid₁ _ rfl
    refine .bind ⟨parseDefinitions_derived {} mid₁, parseDefinitions_viable {} mid₁⟩ ?_ ?_
    · exact fun ks p hp => ⟨[.mark .rightBrace], p, by simp, hp.isProgram⟩
    · intro ks p mid₂ _ hp
      have hend := hp.isProgram
      refine .bind (expect_adheres (by rintro ⟨⟩)) ?_ ?_
      · rintro _ _ rfl
        exact ⟨[], p, by simp, hend⟩
      · rintro _ _ mid₃ _ rfl
        exact .next .pure (.fail ⟨[], p, by simp, hend⟩)

end ClassLang
