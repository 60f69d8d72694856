import ClassLang.Grammar.Written
import ClassLang.Proofs.Fitting
import ClassLang.Proofs.Parser.WellFormed

/-!
# Where `Void` stands in a program

Variables in blocks and parameters have values, and the parser asks for types
that have some. The members of a class it reads in one way up to their names,
and only then finds out whether they are methods. So there a field of type
`Void` is not refused.

In the tokens such a field is easily seen: `Void` stands in front of a name that
no parenthesis follows (`HasVoidField`). Expressions and statements do not have
that word at all.
-/

namespace ClassLang

/-! ## The word in front of a name -/

/-- Somewhere in the tokens `Void` and a name stand in front of something else
than the parameters of a routine. -/
def HasVoidField (ks : List Kind) : Prop :=
  ∃ before name next behind,
    ks = before ++ .keyword .voidType :: .identifier name :: next :: behind ∧
      next ≠ .mark .leftParen

variable {ks ls : List Kind}

theorem not_hasVoidField_nil : ¬ HasVoidField [] := by
  rintro ⟨before, _, _, _, hks, -⟩
  simp at hks

theorem hasVoidField_cons {k : Kind} (hk : k ≠ .keyword .voidType) :
    HasVoidField (k :: ks) ↔ HasVoidField ks := by
  constructor
  · rintro ⟨_ | ⟨b, before⟩, name, next, behind, hks, hnext⟩
    · exact absurd (List.cons.inj hks).1 hk
    · exact ⟨before, name, next, behind, (List.cons.inj hks).2, hnext⟩
  · rintro ⟨before, name, next, behind, rfl, hnext⟩
    exact ⟨k :: before, name, next, behind, rfl, hnext⟩

theorem hasVoidField_void {name : String} {next : Kind} :
    HasVoidField (.keyword .voidType :: .identifier name :: next :: ks) ↔
      next ≠ .mark .leftParen ∨ HasVoidField (next :: ks) := by
  constructor
  · rintro ⟨_ | ⟨b, before⟩, name, next, behind, hks, hnext⟩
    · cases hks
      exact .inl hnext
    · obtain ⟨-, hks⟩ := List.cons.inj hks
      exact .inr ((hasVoidField_cons (by rintro ⟨⟩)).mp ⟨before, name, next, behind, hks, hnext⟩)
  · rintro (hnext | ⟨before, name', next', behind, hks, hnext⟩)
    · exact ⟨[], name, next, ks, rfl, hnext⟩
    · exact ⟨.keyword .voidType :: .identifier name :: before, name', next', behind,
        by rw [hks]; rfl, hnext⟩

/-- Tokens without the word make no difference. -/
theorem hasVoidField_append (hks : .keyword .voidType ∉ ks) :
    HasVoidField (ks ++ ls) ↔ HasVoidField ls := by
  induction ks with
  | nil => rfl
  | cons k ks ih =>
    obtain ⟨hk, hks⟩ := not_or.mp (mt List.mem_cons.mpr hks)
    rw [List.cons_append, hasVoidField_cons (Ne.symm hk), ih hks]

/-! ## Expressions and statements -/

theorem void_notMem_pathKinds (head : String) (path : List String) :
    .keyword .voidType ∉ pathKinds head path := by
  simp [pathKinds]

theorem Ty.kind_eq_void_iff {type : Ty} : type.kind = .keyword .voidType ↔ type = .void := by
  cases type <;> simp [kind]

theorem LogicOp.void_ne_kind (op : LogicOp) : .keyword .voidType ≠ op.kind := by
  cases op <;> rintro ⟨⟩

theorem BinaryOp.void_ne_kind (op : BinaryOp) : .keyword .voidType ≠ op.kind := by
  cases op <;> rintro ⟨⟩

theorem RelationOp.void_ne_kind (op : RelationOp) : .keyword .voidType ≠ op.kind := by
  cases op <;> rintro ⟨⟩

theorem IsTarget.void_notMem {target : Target} (h : IsTarget ks target) :
    .keyword .voidType ∉ ks := by
  cases h with
  | var => simp
  | member _ => exact void_notMem_pathKinds _ _

mutual

theorem IsExpr.void_notMem {level : Level} {ks : List Kind} {e : Expr} (h : IsExpr level ks e) :
    .keyword .voidType ∉ ks := by
  match h with
  | .operand h | .relation h | .sum h => exact h.void_notMem
  | .logic hl hr => simp [hl.void_notMem, hr.void_notMem, LogicOp.void_ne_kind]
  | .arithmetic _ hl hr | .equality _ hl hr =>
    simp [hl.void_notMem, hr.void_notMem, BinaryOp.void_ne_kind]
  | .comparison hl hr | .negatedComparison hl hr =>
    simp [hl.void_notMem, hr.void_notMem, RelationOp.void_ne_kind]
  | .integer | .decimal | .string | .var => simp
  | @IsExpr.truth value => cases value <;> simp
  | .group h | .negation h => simp [h.void_notMem]
  | .member _ => exact void_notMem_pathKinds _ _
  | .call h => simp [h.void_notMem]
  | .methodCall _ h => simp [h.void_notMem, void_notMem_pathKinds]

theorem AreArguments.void_notMem {ks : List Kind} {es : List Expr} (h : AreArguments ks es) :
    .keyword .voidType ∉ ks := by
  match h with
  | .none => exact List.not_mem_nil
  | .some he hrest => simp [he.void_notMem, hrest.void_notMem]

theorem AreMoreArguments.void_notMem {ks : List Kind} {es : List Expr}
    (h : AreMoreArguments ks es) : .keyword .voidType ∉ ks := by
  match h with
  | .none => exact List.not_mem_nil
  | .some he hrest => simp [he.void_notMem, hrest.void_notMem]

end

theorem IsDeclaration.void_notMem {d : Declaration} (h : IsDeclaration ks d)
    (hvoid : d.type ≠ .void) : .keyword .voidType ∉ ks := by
  have hkind := mt Ty.kind_eq_void_iff.mp hvoid
  cases h with
  | bare => simp [Ne.symm hkind]
  | initialised he => simp [Ne.symm hkind, he.void_notMem]

theorem IsCondition.void_notMem {e : Expr} (h : IsCondition ks e) : .keyword .voidType ∉ ks := by
  cases h with
  | mk he => simp [he.void_notMem]

mutual

theorem IsStmt.void_notMem {ks : List Kind} {st : Stmt} (h : IsStmt ks st) :
    .keyword .voidType ∉ ks := by
  match h with
  | .declare hvoid hd => exact hd.void_notMem hvoid
  | .assign ht he => simp [ht.void_notMem, he.void_notMem]
  | .call ht ha => simp [ht.void_notMem, ha.void_notMem]
  | .ret he => simp [he.void_notMem]
  | .ifThen hc hb | .loop hc hb => simp [hc.void_notMem, hb.void_notMem]
  | .ifElse hc hb ho => simp [hc.void_notMem, hb.void_notMem, ho.void_notMem]
  | .block hb => exact hb.void_notMem

theorem IsBlock.void_notMem {ks : List Kind} {body : List Stmt} (h : IsBlock ks body) :
    .keyword .voidType ∉ ks := by
  match h with
  | .mk h => simp [h.void_notMem]

theorem AreStmts.void_notMem {ks : List Kind} {body : List Stmt} (h : AreStmts ks body) :
    .keyword .voidType ∉ ks := by
  match h with
  | .nil => exact List.not_mem_nil
  | .cons hs hrest => simp [hs.void_notMem, hrest.void_notMem]

end

/-! ## Definitions -/

theorem void_notMem_parameterKinds {parameters : List Parameter}
    (hvoid : ∀ p ∈ parameters, p.type ≠ .void) :
    .keyword .voidType ∉ parameterKinds parameters := by
  have hkinds (p : Parameter) (hp : p.type ≠ .void) : .keyword .voidType ∉ p.kinds := by
    have hkind := mt Ty.kind_eq_void_iff.mp hp
    cases hreference : p.byReference <;> simp [Parameter.kinds, hreference, Ne.symm hkind]
  cases parameters with
  | nil => exact List.not_mem_nil
  | cons p rest =>
    obtain ⟨hp, hrest⟩ := List.forall_mem_cons.mp hvoid
    simp only [parameterKinds, List.mem_append, List.mem_flatMap, List.mem_cons, not_or, not_exists,
      not_and]
    exact ⟨hkinds p hp, fun q hq => ⟨by rintro ⟨⟩, hkinds q (hrest q hq)⟩⟩

/-- In front of a routine `Void` stands in front of its name and its
parameters. -/
theorem IsRoutine.hasVoidField_append {r : Routine} (h : IsRoutine ks r) :
    HasVoidField (ks ++ ls) ↔ HasVoidField ls := by
  cases h with
  | @mk returns name parameters body _ hvoid hbody =>
    -- Behind the type there is no other.
    have hrest : .keyword .voidType ∉
        parameterKinds parameters ++ .mark .rightParen :: body := by
      simp [void_notMem_parameterKinds hvoid, hbody.void_notMem]
    have hbehind : HasVoidField (.mark .leftParen :: (parameterKinds parameters
        ++ .mark .rightParen :: body ++ ls)) ↔ HasVoidField ls := by
      rw [hasVoidField_cons (by rintro ⟨⟩), ClassLang.hasVoidField_append hrest]
    simp only [List.cons_append]
    by_cases hreturns : returns.kind = .keyword .voidType
    · rw [hreturns, hasVoidField_void, hbehind]
      exact or_iff_right (fun hne => hne rfl)
    · rw [hasVoidField_cons hreturns, hasVoidField_cons (by rintro ⟨⟩), hbehind]

theorem IsDeclaration.hasVoidField_append {d : Declaration} (h : IsDeclaration ks d) :
    HasVoidField (ks ++ ls) ↔ d.type = .void ∨ HasVoidField ls := by
  by_cases hvoid : d.type = .void
  · cases h with
    | bare =>
      simp only [List.cons_append, Ty.kind_eq_void_iff.mpr hvoid, hasVoidField_void]
      exact iff_of_true (.inl (by rintro ⟨⟩)) (.inl hvoid)
    | initialised he =>
      simp only [List.cons_append, Ty.kind_eq_void_iff.mpr hvoid, hasVoidField_void]
      exact iff_of_true (.inl (by rintro ⟨⟩)) (.inl hvoid)
  · rw [ClassLang.hasVoidField_append (h.void_notMem hvoid), or_iff_right hvoid]

theorem AreMembers.hasVoidField_append {fields : List Declaration} {methods : List Routine}
    (h : AreMembers ks fields methods) :
    HasVoidField (ks ++ ls) ↔ (∃ d ∈ fields, d.type = .void) ∨ HasVoidField ls := by
  induction h with
  | nil => simp
  | field hd _ ih =>
    rw [List.append_assoc, hd.hasVoidField_append, ih]
    simp only [List.mem_cons, exists_eq_or_imp, or_assoc]
  | method hm _ ih => rw [List.append_assoc, hm.hasVoidField_append, ih]

theorem IsClass.hasVoidField_append {c : ClassDef} (h : IsClass ks c) :
    HasVoidField (ks ++ ls) ↔ (∃ d ∈ c.fields, d.type = .void) ∨ HasVoidField ls := by
  cases h with
  | mk hmembers _ =>
    simp only [List.cons_append, List.append_assoc]
    rw [hasVoidField_cons (by rintro ⟨⟩), hasVoidField_cons (by rintro ⟨⟩),
      hasVoidField_cons (by rintro ⟨⟩), hmembers.hasVoidField_append,
      hasVoidField_cons (by rintro ⟨⟩)]
    rfl

theorem AreDefinitions.hasVoidField_append {functions : List Routine} {classes : List ClassDef}
    (h : AreDefinitions ks functions classes) :
    HasVoidField (ks ++ ls) ↔
      (∃ c ∈ classes, ∃ d ∈ c.fields, d.type = .void) ∨ HasVoidField ls := by
  induction h with
  | nil => simp
  | function hf _ ih => rw [List.append_assoc, hf.hasVoidField_append, ih]
  | cls hc _ ih =>
    rw [List.append_assoc, hc.hasVoidField_append, ih]
    simp only [List.mem_cons, exists_eq_or_imp, or_assoc]

theorem Table.mem_values_ofList_named {α : Type} {name : α → String} {as : List α}
    (h : (as.map name).Nodup) {a : α} :
    a ∈ (ofList (as.map fun a => (name a, a))).values ↔ a ∈ as := by
  simp [values, mem_entries_ofList_named_iff h]

/-- In the tokens of a program it shows whether one of its classes has a field
of type `Void`. -/
theorem IsProgram.hasVoidField_iff {p : Program} (h : IsProgram ks p) :
    HasVoidField ks ↔ ∃ c ∈ p.classes.values, ∃ d ∈ c.fields, d.type = .void := by
  cases h with
  | mk hdefinitions _ hclasses =>
    rw [List.cons_append, hasVoidField_cons (by rintro ⟨⟩), hdefinitions.hasVoidField_append,
      hasVoidField_cons (by rintro ⟨⟩), or_iff_left not_hasVoidField_nil]
    simp only [Table.mem_values_ofList_named hclasses]

/-- **`Void` is no type of variables and parameters.** In a parsed program no
variable of a block and no parameter is declared with it, and a field is just if
the tokens have `Void` and a name in front of something else than a parenthesis.
Without that, `Void` stands in front of functions and methods only. -/
theorem void_types_of_parseProgram {tokens : List Token} {p : Program}
    (hp : parseProgram tokens = .ok p) :
    (∀ d, p.HasStmt (.declare d) → d.type ≠ .void) ∧
      (∀ r, p.Defines r → ∀ parameter ∈ r.parameters, parameter.type ≠ .void) ∧
      ((∃ c ∈ p.classes.values, ∃ d ∈ c.fields, d.type = .void) ↔
        HasVoidField (textKinds tokens)) := by
  obtain ⟨ks, rest, hreads, hstop, hprogram⟩ := isProgram_of_parseProgram hp
  refine ⟨fun d hd => ?_, fun r hr parameter hparameter => ?_, ?_⟩
  · have hstmt := Program.wellFormed_of_hasStmt hprogram.wellFormed hd
    simp only [Stmt.wellFormed, Bool.and_eq_true, bne_iff_ne] at hstmt
    exact hstmt.1
  · have hroutine := Program.wellFormed_of_defines hprogram.wellFormed hr
    simp only [Routine.wellFormed, Bool.and_eq_true, List.all_eq_true, bne_iff_ne] at hroutine
    exact hroutine.1 parameter hparameter
  · rw [textKinds_eq_iff.mpr ⟨rest, hreads, hstop⟩, hprogram.hasVoidField_iff]

/-- A class with a field of type `Void`, and a method that gives no result. -/
def voidField : Program where
  classes := .ofList [("C", {
    name := "C"
    fields := [{ type := .void, name := "x", initial := none }]
    methods := [{ returns := .void, name := "m", parameters := [], body := [] }] })]

/-- The tokens of the program, somewhere. -/
def voidFieldTokens : List Token :=
  (voidField.kinds ++ [Kind.stop]).map fun kind => { kind, lexeme := "", start := {}, stop := {} }

theorem parseProgram_voidField : parseProgram voidFieldTokens = .ok voidField := by
  obtain ⟨rest, hreads, hstop⟩ := textKinds_eq_iff.mp
    (show textKinds voidFieldTokens = voidField.kinds by decide)
  exact parseProgram_of_isProgram (voidField.isProgram_kinds (by decide)) hreads hstop

/-- The field is seen in the tokens. -/
theorem void_types_of_parseProgram_voidField :
    parseProgram voidFieldTokens = .ok voidField ∧ HasVoidField (textKinds voidFieldTokens) := by
  refine ⟨parseProgram_voidField,
    (void_types_of_parseProgram parseProgram_voidField).2.2.mp ?_⟩
  exact ⟨_, List.mem_cons_self, _, List.mem_cons_self, rfl⟩

/-- Not every field of a parsed program has another type than `Void`. -/
theorem not_all_fields_have_values :
    ¬ ∀ (tokens : List Token) (p : Program), parseProgram tokens = .ok p →
      ∀ c ∈ p.classes.values, ∀ d ∈ c.fields, d.type ≠ .void := by
  intro h
  exact h _ _ parseProgram_voidField _ List.mem_cons_self _ List.mem_cons_self rfl

end ClassLang
