import ClassLang.Parse.Program
import ClassLang.Proofs.Parser.StmtComplete

/-!
# The parser and the grammar agree

The last layers are parameters, routines, the members of a class, and the
definitions of a program. For each of them both directions are here: what is
parsed derives the result, and what derives it is parsed.

Names are checked while they are read, against the names read before; the
grammar asks of whole lists that no name comes twice. `Unused` mediates between
the two: it is the claim for the names that are still to come.

The result is `parseProgram_eq_ok_iff`.
-/

namespace ClassLang

/-! ## Names that are still to come -/

/-- The names differ from one another and from those taken. -/
def Unused (taken names : List String) : Prop :=
  names.Nodup ∧ ∀ name ∈ names, name ∉ taken

section

variable {taken taken' names names' : List String} {name : String}

theorem unused_nil : Unused taken [] := ⟨.nil, by simp⟩

theorem unused_of_nodup (h : names.Nodup) : Unused [] names := ⟨h, by simp⟩

/-- A name that is read is taken from then on. -/
theorem unused_cons_iff (htaken : ∀ other, other ∈ taken' ↔ other = name ∨ other ∈ taken) :
    Unused taken (name :: names) ↔ name ∉ taken ∧ Unused taken' names := by
  constructor
  · rintro ⟨hnodup, hnames⟩
    obtain ⟨hname, hnodup⟩ := List.nodup_cons.mp hnodup
    refine ⟨hnames name (List.mem_cons_self ..), hnodup, fun other hother h => ?_⟩
    rcases (htaken other).mp h with rfl | h
    · exact hname hother
    · exact hnames other (List.mem_cons_of_mem _ hother) h
  · rintro ⟨hname, hnodup, hnames⟩
    refine ⟨List.nodup_cons.mpr ⟨fun h => ?_, hnodup⟩, fun other hother h => ?_⟩
    · exact hnames name h ((htaken name).mpr (.inl rfl))
    · rcases List.mem_cons.mp hother with rfl | hother
      · exact hname h
      · exact hnames other hother ((htaken other).mpr (.inr h))

/-- Names are unused in any order. -/
theorem Unused.perm (hperm : names.Perm names') (h : Unused taken names) : Unused taken names' :=
  ⟨hperm.nodup_iff.mp h.1, fun name hname => h.2 name (hperm.mem_iff.mpr hname)⟩

end

/-! ## Parameters -/

section

variable {ts mid rest : List Token}

theorem Ty.ofKind?_eq_some {k : Kind} {type : Ty} (h : Ty.ofKind? k = some type) :
    k = type.kind ∧ type ≠ .void := by
  simp only [ofKind?] at h
  split at h
  · cases h
    exact ⟨rfl, by rintro ⟨⟩⟩
  · obtain ⟨hkind, hvoid⟩ := builtIn?_eq_some h
    exact ⟨hkind, fun h => by cases hvoid h⟩

theorem Ty.ofKind?_kind {type : Ty} (h : type ≠ .void) : Ty.ofKind? type.kind = some type := by
  cases type with
  | void => exact absurd rfl h
  | _ => rfl

/-- A parameter is what is read of it, and not `Void`. -/
theorem parseParameter_sound {p : Parameter} (h : Yields (parseParameter ts) p rest) :
    Reads ts p.kinds rest ∧ p.type ≠ .void := by
  rw [parseParameter] at h
  rcases accept?_cases Ty.ofKind? rfl ts with
    ⟨hnone, -⟩ | ⟨k, type, mid, hlt, hsome, hask, htype⟩
  · rw [hnone] at h
    exact absurd h Yields.not_wanted
  · obtain ⟨rfl, hvoid⟩ := Ty.ofKind?_eq_some hask
    rw [hsome] at h
    dsimp only at h
    rcases skip?_cases (k := .mark .star) (by rintro ⟨⟩) mid with
      ⟨hnone, -⟩ | ⟨mid', hlt', hsome, hstar⟩
    · rw [hnone] at h
      obtain ⟨name, _, _, hname, h⟩ := h.of_bind
      obtain ⟨rfl, rfl⟩ := h.of_ok
      exact ⟨htype.trans (reads_of_parseName hname), hvoid⟩
    · rw [hsome] at h
      obtain ⟨name, _, _, hname, h⟩ := h.of_bind
      obtain ⟨rfl, rfl⟩ := h.of_ok
      exact ⟨htype.trans (hstar.trans (reads_of_parseName hname)), hvoid⟩

/-- A parameter that is not `Void` is parsed from its tokens. -/
theorem parseParameter_complete {p : Parameter} (h : Reads ts p.kinds rest)
    (hvoid : p.type ≠ .void) : Yields (parseParameter ts) p rest := by
  obtain ⟨type, name, byReference⟩ := p
  obtain ⟨mid, htype, h⟩ := Reads.cons_iff.mp h
  obtain ⟨_, haccept⟩ := accept?_of_reads _ htype (Ty.ofKind?_kind hvoid)
  rw [parseParameter, haccept]
  dsimp only
  cases byReference with
  | false =>
    rw [skip?_of_peek (by rw [h.peek_eq]; rintro ⟨⟩)]
    exact (parseName_of_reads h).bind fun _ => .ok
  | true =>
    obtain ⟨mid', hstar, hname⟩ := Reads.cons_iff.mp h
    obtain ⟨_, hskip⟩ := skip?_of_reads hstar
    rw [hskip]
    exact (parseName_of_reads hname).bind fun _ => .ok

theorem parameterKinds_cons_cons (p q : Parameter) (rest : List Parameter) :
    parameterKinds (p :: q :: rest) = p.kinds ++ .mark .comma :: parameterKinds (q :: rest) := by
  simp [parameterKinds]

/-- Parameters are what is read of them, and none is `Void`. -/
theorem parseParameterList_sound {ps : List Parameter} {rest : List Token} (ts : List Token)
    (h : Yields (parseParameterList ts) ps rest) :
    Reads ts (parameterKinds ps) rest ∧ ps ≠ [] ∧ ∀ p ∈ ps, p.type ≠ .void := by
  rw [parseParameterList] at h
  obtain ⟨p, mid, hlt, hp, h⟩ := h.of_bind
  obtain ⟨hp, hvoid⟩ := parseParameter_sound hp
  dsimp only at h
  rcases skip?_cases (k := .mark .comma) (by rintro ⟨⟩) mid with
    ⟨hnone, -⟩ | ⟨mid', hlt', hsome, hcomma⟩
  · rw [hnone] at h
    obtain ⟨rfl, rfl⟩ := h.of_ok
    exact ⟨by simpa [parameterKinds] using hp, by simp, by simpa using hvoid⟩
  · rw [hsome] at h
    obtain ⟨more, _, _, hmore, h⟩ := h.of_bind
    obtain ⟨rfl, rfl⟩ := h.of_ok
    obtain ⟨hmore, hne, hvoids⟩ := parseParameterList_sound mid' hmore
    obtain ⟨q, more, rfl⟩ := List.exists_cons_of_ne_nil hne
    refine ⟨?_, List.cons_ne_nil _ _, List.forall_mem_cons.mpr ⟨hvoid, hvoids⟩⟩
    have hreads := hp.trans (hcomma.trans hmore)
    rwa [List.singleton_append, ← parameterKinds_cons_cons] at hreads
termination_by ts.length

/-- Parameters that are not `Void` are parsed from their tokens. -/
theorem parseParameterList_complete {p : Parameter} {ps : List Parameter}
    (hvoid : ∀ q ∈ p :: ps, q.type ≠ .void) (h : Reads ts (parameterKinds (p :: ps)) mid)
    (hclose : Reads mid [.mark .rightParen] rest) :
    Yields (parseParameterList ts) (p :: ps) mid := by
  obtain ⟨hp, hps⟩ := List.forall_mem_cons.mp hvoid
  rw [parseParameterList]
  induction ps generalizing ts p with
  | nil =>
    rw [parameterKinds, List.flatMap_nil, List.append_nil] at h
    refine (parseParameter_complete h hp).bind fun _ => ?_
    dsimp only
    rw [skip?_of_peek (by rw [hclose.peek_eq]; rintro ⟨⟩)]
    exact .ok
  | cons q ps ih =>
    rw [parameterKinds_cons_cons] at h
    obtain ⟨mid₁, hreads, h⟩ := Reads.append_iff.mp h
    obtain ⟨mid₂, hcomma, h⟩ := Reads.cons_iff.mp h
    obtain ⟨_, hskip⟩ := skip?_of_reads hcomma
    obtain ⟨hq, hrest⟩ := List.forall_mem_cons.mp hps
    have hmore := ih hps h hq hrest
    rw [← parseParameterList] at hmore
    refine (parseParameter_complete hreads hp).bind fun _ => ?_
    dsimp only
    rw [hskip]
    exact hmore.bind fun _ => .ok

theorem parseParameters_sound {ps : List Parameter} (h : Yields (parseParameters ts) ps rest) :
    Reads ts (parameterKinds ps) rest ∧ ∀ p ∈ ps, p.type ≠ .void := by
  rw [parseParameters] at h
  split at h
  · obtain ⟨rfl, rfl⟩ := h.of_ok
    exact ⟨.nil, by simp [Parsed.here]⟩
  · obtain ⟨ps, _, _, hps, h⟩ := h.of_bind
    obtain ⟨rfl, rfl⟩ := h.of_ok
    obtain ⟨hps, -, hvoid⟩ := parseParameterList_sound ts hps
    exact ⟨hps, hvoid⟩

theorem parameterKinds_starts {ps : List Parameter} (hne : ps ≠ []) :
    ∃ k ls, parameterKinds ps = k :: ls ∧ k ≠ .mark .rightParen := by
  obtain ⟨p, ps, rfl⟩ := List.exists_cons_of_ne_nil hne
  refine ⟨p.type.kind, _, rfl, ?_⟩
  cases p.type <;> rintro ⟨⟩

theorem parseParameters_complete {ps : List Parameter} (hvoid : ∀ p ∈ ps, p.type ≠ .void)
    (h : Reads ts (parameterKinds ps) mid) (hclose : Reads mid [.mark .rightParen] rest) :
    Yields (parseParameters ts) ps mid := by
  cases ps with
  | nil =>
    cases h
    rw [parseParameters, if_pos hclose.peek_eq]
    exact .ok
  | cons p ps =>
    obtain ⟨k, ls, hstarts, hk⟩ := parameterKinds_starts (List.cons_ne_nil p ps)
    have hpeek : (peek ts).kind ≠ .mark .rightParen := by
      rw [hstarts] at h
      rwa [h.peek_eq]
    rw [parseParameters, if_neg hpeek]
    exact (parseParameterList_complete hvoid h hclose).bind (f := fun x => .ok x.weaken)
      fun _ => .ok

end

/-! ## Routines -/

section

variable {ts mid rest : List Token}

/-- Behind its type and its name a routine derives what is read. -/
theorem parseRoutine_sound {returns : Ty} {name : String} {r : Routine}
    (h : Yields (parseRoutine returns name ts) r rest) :
    ∃ ks, Reads ts ks rest ∧ IsRoutine (returns.kind :: .identifier name :: ks) r ∧
      r.name = name := by
  rw [parseRoutine] at h
  obtain ⟨_, mid₁, _, hopen, h⟩ := h.of_bind
  obtain ⟨parameters, mid₂, _, hparameters, h⟩ := h.of_bind
  obtain ⟨_, mid₃, _, hclose, h⟩ := h.of_bind
  obtain ⟨body, _, _, hbody, h⟩ := h.of_bind
  obtain ⟨rfl, rfl⟩ := h.of_ok
  have hopen := reads_of_expect (by rintro ⟨⟩) hopen
  obtain ⟨hparameters, hvoid⟩ := parseParameters_sound hparameters
  have hclose := reads_of_expect (by rintro ⟨⟩) hclose
  obtain ⟨ks, hks, hbody⟩ := parseBlock_sound mid₃ hbody
  exact ⟨_, (hopen.trans hparameters).trans (hclose.trans hks), .mk hvoid hbody, rfl⟩

/-- How the tokens of a routine are parsed: its type and its name first. -/
theorem IsRoutine.parse {ks : List Kind} {r : Routine} (h : IsRoutine ks r)
    (hks : Reads ts ks rest) :
    ∃ mid₁ mid₂, Reads ts [r.returns.kind] mid₁ ∧ Reads mid₁ [.identifier r.name] mid₂ ∧
      (peek mid₂).kind = .mark .leftParen ∧
      Yields (parseRoutine r.returns r.name mid₂) r rest := by
  obtain ⟨hvoid, hbody⟩ := h
  obtain ⟨mid₄, hks, h⟩ := Reads.append_iff.mp hks
  obtain ⟨mid₅, hclose, hbody'⟩ := Reads.cons_iff.mp h
  obtain ⟨mid₁, htype, hks⟩ := Reads.cons_iff.mp hks
  obtain ⟨mid₂, hname, hks⟩ := Reads.cons_iff.mp hks
  obtain ⟨mid₃, hopen, hparameters⟩ := Reads.cons_iff.mp hks
  refine ⟨mid₁, mid₂, htype, hname, hopen.peek_eq, ?_⟩
  rw [parseRoutine]
  exact (expect_of_reads hopen).bind fun _ =>
    (parseParameters_complete hvoid hparameters hclose).bind fun _ =>
      (expect_of_reads hclose).bind fun _ =>
        (parseBlock_complete ⟨_, hbody', hbody⟩).bind fun _ => .ok

end

/-! ## Classes -/

/-- The names of the members of a class. -/
def memberNames (fields : List Declaration) (methods : List Routine) : List String :=
  fields.map Declaration.name ++ methods.map Routine.name

theorem memberNames_method_perm (fields : List Declaration) (m : Routine)
    (methods : List Routine) :
    (memberNames fields (m :: methods)).Perm (m.name :: memberNames fields methods) :=
  List.perm_middle

theorem unused_member_iff {taken names : List String} {name : String} :
    Unused taken (name :: names) ↔ name ∉ taken ∧ Unused (name :: taken) names :=
  unused_cons_iff fun _ => List.mem_cons

section

variable {ts mid rest : List Token}

/-- Members derive what is read of them, and their names are new and different. -/
theorem parseMembers_sound {members : List Declaration × List Routine} {rest : List Token}
    (taken : List String) (ts : List Token) (h : Yields (parseMembers taken ts) members rest) :
    (∃ ks, Reads ts ks rest ∧ AreMembers ks members.1 members.2) ∧
      Unused taken (memberNames members.1 members.2) := by
  rw [parseMembers] at h
  rcases leadingType?_cases true ts with hnone | ⟨type, named, hlt, hsome, htype, -⟩
  · rw [hnone] at h
    obtain ⟨rfl, rfl⟩ := h.of_ok
    exact ⟨⟨[], .nil, .nil⟩, unused_nil⟩
  · rw [hsome] at h
    obtain ⟨name, mid, _, hname, h⟩ := h.of_bind
    have hname := reads_of_parseName hname
    dsimp only at h
    split at h
    · exact absurd h Yields.not_error
    next hfree =>
    split at h
    · obtain ⟨method, mid', _, hmethod, h⟩ := h.of_bind
      obtain ⟨⟨fields, methods⟩, _, _, hmembers, h⟩ := h.of_bind
      obtain ⟨rfl, rfl⟩ := h.of_ok
      obtain ⟨ks, hks, hmethod, rfl⟩ := parseRoutine_sound hmethod
      obtain ⟨⟨ls, hls, hmembers⟩, hunused⟩ := parseMembers_sound _ mid' hmembers
      refine ⟨⟨_, (htype.trans (hname.trans hks)).trans hls, .method hmethod hmembers⟩, ?_⟩
      exact (unused_member_iff.mpr ⟨hfree, hunused⟩).perm
        (memberNames_method_perm fields method methods).symm
    · obtain ⟨initial, mid₁, _, hinitial, h⟩ := h.of_bind
      obtain ⟨_, mid₂, _, hend, h⟩ := h.of_bind
      obtain ⟨⟨fields, methods⟩, _, _, hmembers, h⟩ := h.of_bind
      obtain ⟨rfl, rfl⟩ := h.of_ok
      have hlt' : mid₂.length < mid₁.length := hend.shorter
      obtain ⟨ks, hks, hinitial⟩ := parseInitial_sound hinitial
      have hend := reads_of_expect (by rintro ⟨⟩) hend
      obtain ⟨⟨ls, hls, hmembers⟩, hunused⟩ := parseMembers_sound _ mid₂ hmembers
      refine ⟨⟨_, (htype.trans ((hname.trans hks).trans hend)).trans hls,
        .field (hinitial.isDeclaration type name) hmembers⟩, ?_⟩
      exact unused_member_iff.mpr ⟨hfree, hunused⟩
termination_by ts.length
decreasing_by
  · omega
  · omega

/-- Members with new and different names are parsed from their tokens. -/
theorem parseMembers_complete {ks : List Kind} {fields : List Declaration}
    {methods : List Routine} (h : AreMembers ks fields methods) {taken : List String}
    (hunused : Unused taken (memberNames fields methods)) (hks : Reads ts ks mid)
    (hclose : Reads mid [.mark .rightBrace] rest) :
    Yields (parseMembers taken ts) (fields, methods) mid := by
  induction h generalizing ts taken with
  | nil =>
    cases hks
    have hpeek := hclose.peek_eq
    rw [parseMembers, leadingType?_of_peek (by rw [hpeek]; rfl) (by rw [hpeek]; rfl)]
    exact .ok
  | @field ks ls d fields methods hd hmembers ih =>
    obtain ⟨mid', hks, hls⟩ := Reads.append_iff.mp hks
    obtain ⟨mid₁, mid₂, mid₃, htype, hname, hinitial, hend⟩ := hd.reads hks
    obtain ⟨_, hleading⟩ := leadingType?_of_reads true htype hname (fun _ => rfl)
    obtain ⟨hfree, hunused⟩ := unused_member_iff.mp hunused
    -- Only what stands behind the name tells a field from a method.
    have hfield : (peek mid₂).kind ≠ .mark .leftParen := by
      obtain ⟨ms, hms, hinitial⟩ := hinitial
      rcases hinitial.starts hms hend with h | h <;> rw [h] <;> rintro ⟨⟩
    rw [parseMembers, hleading]
    refine (parseName_of_reads hname).bind fun _ => ?_
    dsimp only
    rw [if_neg hfree, if_neg hfield]
    exact (parseInitial_complete hinitial hend).bind fun _ =>
      (expect_of_reads hend).bind fun _ => (ih hunused hls).bind fun _ => .ok
  | @method ks ls m fields methods hm hmembers ih =>
    obtain ⟨mid', hks, hls⟩ := Reads.append_iff.mp hks
    obtain ⟨mid₁, mid₂, htype, hname, hopen, hroutine⟩ := hm.parse hks
    obtain ⟨_, hleading⟩ := leadingType?_of_reads true htype hname (fun _ => rfl)
    -- The names of all fields come first in `memberNames`, those of methods behind
    -- them, wherever the members stand.
    have hunused := hunused.perm (memberNames_method_perm fields m methods)
    obtain ⟨hfree, hunused⟩ := unused_member_iff.mp hunused
    rw [parseMembers, hleading]
    refine (parseName_of_reads hname).bind fun _ => ?_
    dsimp only
    rw [if_neg hfree, if_pos hopen]
    exact hroutine.bind fun _ => (ih hunused hls).bind fun _ => .ok

/-- Behind its name a class derives what is read. -/
theorem parseClass_sound {name : String} {c : ClassDef} (h : Yields (parseClass name ts) c rest) :
    ∃ ks, Reads ts ks rest ∧ IsClass (.keyword .classWord :: .identifier name :: ks) c ∧
      c.name = name := by
  rw [parseClass] at h
  obtain ⟨_, mid₁, _, hopen, h⟩ := h.of_bind
  obtain ⟨⟨fields, methods⟩, mid₂, _, hmembers, h⟩ := h.of_bind
  obtain ⟨_, _, _, hclose, h⟩ := h.of_bind
  obtain ⟨rfl, rfl⟩ := h.of_ok
  have hopen := reads_of_expect (by rintro ⟨⟩) hopen
  obtain ⟨⟨ks, hks, hmembers⟩, hunused⟩ := parseMembers_sound [] mid₁ hmembers
  have hclose := reads_of_expect (by rintro ⟨⟩) hclose
  exact ⟨_, (hopen.trans hks).trans hclose, .mk hmembers hunused.1, rfl⟩

/-- How the tokens of a class are parsed: the word and its name first. -/
theorem IsClass.parse {ks : List Kind} {c : ClassDef} (h : IsClass ks c)
    (hks : Reads ts ks rest) :
    ∃ mid₁ mid₂, Reads ts [.keyword .classWord] mid₁ ∧ Reads mid₁ [.identifier c.name] mid₂ ∧
      Yields (parseClass c.name mid₂) c rest := by
  obtain ⟨hmembers, hnodup⟩ := h
  obtain ⟨mid₄, hks, hclose⟩ := Reads.append_iff.mp hks
  obtain ⟨mid₁, hword, hks⟩ := Reads.cons_iff.mp hks
  obtain ⟨mid₂, hname, hks⟩ := Reads.cons_iff.mp hks
  obtain ⟨mid₃, hopen, hks⟩ := Reads.cons_iff.mp hks
  refine ⟨mid₁, mid₂, hword, hname, ?_⟩
  rw [parseClass]
  exact (expect_of_reads hopen).bind fun _ =>
    (parseMembers_complete hmembers (unused_of_nodup hnodup) hks hclose).bind fun _ =>
      (expect_of_reads hclose).bind fun _ => .ok

end

/-! ## Programs -/

namespace Program

/-- A program with more functions and classes. -/
def extend (p : Program) (functions : List Routine) (classes : List ClassDef) : Program where
  functions := functions.foldl (fun t f => t.insert f.name f) p.functions
  classes := classes.foldl (fun t c => t.insert c.name c) p.classes

theorem extend_empty (functions : List Routine) (classes : List ClassDef) :
    ({} : Program).extend functions classes =
      { functions := .ofList (functions.map fun f => (f.name, f))
        classes := .ofList (classes.map fun c => (c.name, c)) } := by
  rw [extend, Table.ofList, Table.ofList, List.foldl_map, List.foldl_map]

end Program

/-- The names of these definitions are still to come in the program. -/
structure Program.Admits (p : Program) (functions : List Routine) (classes : List ClassDef) :
    Prop where
  /-- the names of the functions -/
  functions : Unused p.functions.names (functions.map Routine.name)
  /-- the names of the classes -/
  classes : Unused p.classes.names (classes.map ClassDef.name)

namespace Program

theorem admits_nil (p : Program) : p.Admits [] [] := ⟨unused_nil, unused_nil⟩

theorem admits_function_iff {p : Program} {f : Routine} {functions : List Routine}
    {classes : List ClassDef} :
    p.Admits (f :: functions) classes ↔ ¬ p.functions.contains f.name = true ∧
      ({ p with functions := p.functions.insert f.name f } : Program).Admits functions classes := by
  have hcons : Unused p.functions.names ((f :: functions).map Routine.name) ↔
      f.name ∉ p.functions.names ∧
        Unused (p.functions.insert f.name f).names (functions.map Routine.name) :=
    unused_cons_iff fun _ => Table.mem_names_insert
  rw [Table.mem_names_iff] at hcons
  exact ⟨fun h => ⟨(hcons.mp h.functions).1, (hcons.mp h.functions).2, h.classes⟩,
    fun h => ⟨hcons.mpr ⟨h.1, h.2.functions⟩, h.2.classes⟩⟩

theorem admits_class_iff {p : Program} {c : ClassDef} {functions : List Routine}
    {classes : List ClassDef} :
    p.Admits functions (c :: classes) ↔ ¬ p.classes.contains c.name = true ∧
      ({ p with classes := p.classes.insert c.name c } : Program).Admits functions classes := by
  have hcons : Unused p.classes.names ((c :: classes).map ClassDef.name) ↔
      c.name ∉ p.classes.names ∧
        Unused (p.classes.insert c.name c).names (classes.map ClassDef.name) :=
    unused_cons_iff fun _ => Table.mem_names_insert
  rw [Table.mem_names_iff] at hcons
  exact ⟨fun h => ⟨(hcons.mp h.classes).1, h.functions, (hcons.mp h.classes).2⟩,
    fun h => ⟨h.2.functions, hcons.mpr ⟨h.1, h.2.classes⟩⟩⟩

end Program

section

variable {ts mid rest : List Token}

/-- Definitions derive what is read of them, and extend a program that admits
them. -/
theorem parseDefinitions_sound {p' : Program} {rest : List Token} (p : Program) (ts : List Token)
    (h : Yields (parseDefinitions p ts) p' rest) :
    ∃ ks functions classes, Reads ts ks rest ∧ AreDefinitions ks functions classes ∧
      p.Admits functions classes ∧ p' = p.extend functions classes := by
  rw [parseDefinitions] at h
  rcases leadingType?_cases true ts with hnone | ⟨returns, named, hlt, hsome, htype, -⟩
  · rw [hnone] at h
    rcases skip?_cases (k := .keyword .classWord) (by rintro ⟨⟩) ts with
      ⟨hnone, -⟩ | ⟨named, hlt, hsome, hword⟩
    · rw [hnone] at h
      obtain ⟨rfl, rfl⟩ := h.of_ok
      exact ⟨[], [], [], .nil, .nil, p.admits_nil, rfl⟩
    · rw [hsome] at h
      obtain ⟨name, mid, _, hname, h⟩ := h.of_bind
      dsimp only at h
      split at h
      · exact absurd h Yields.not_error
      next hfree =>
      obtain ⟨c, mid', _, hc, h⟩ := h.of_bind
      obtain ⟨_, _, _, hmore, h⟩ := h.of_bind
      obtain ⟨rfl, rfl⟩ := h.of_ok
      have hname := reads_of_parseName hname
      obtain ⟨ks, hks, hc, rfl⟩ := parseClass_sound hc
      obtain ⟨ls, functions, classes, hls, hrest, hadmits, rfl⟩ :=
        parseDefinitions_sound _ mid' hmore
      exact ⟨_, functions, c :: classes, (hword.trans (hname.trans hks)).trans hls,
        .cls hc hrest, Program.admits_class_iff.mpr ⟨hfree, hadmits⟩, rfl⟩
  · rw [hsome] at h
    obtain ⟨name, mid, _, hname, h⟩ := h.of_bind
    dsimp only at h
    split at h
    · exact absurd h Yields.not_error
    next hfree =>
    obtain ⟨f, mid', _, hf, h⟩ := h.of_bind
    obtain ⟨_, _, _, hmore, h⟩ := h.of_bind
    obtain ⟨rfl, rfl⟩ := h.of_ok
    have hname := reads_of_parseName hname
    obtain ⟨ks, hks, hf, rfl⟩ := parseRoutine_sound hf
    obtain ⟨ls, functions, classes, hls, hrest, hadmits, rfl⟩ :=
      parseDefinitions_sound _ mid' hmore
    exact ⟨_, f :: functions, classes, (htype.trans (hname.trans hks)).trans hls,
      .function hf hrest, Program.admits_function_iff.mpr ⟨hfree, hadmits⟩, rfl⟩
termination_by ts.length

/-- Definitions that a program admits are parsed from their tokens, and extend
it. -/
theorem parseDefinitions_complete {ks : List Kind} {functions : List Routine}
    {classes : List ClassDef} (h : AreDefinitions ks functions classes) {p : Program}
    (hadmits : p.Admits functions classes) (hks : Reads ts ks mid)
    (hclose : Reads mid [.mark .rightBrace] rest) :
    Yields (parseDefinitions p ts) (p.extend functions classes) mid := by
  induction h generalizing ts p with
  | nil =>
    cases hks
    have hpeek := hclose.peek_eq
    rw [parseDefinitions, leadingType?_of_peek (by rw [hpeek]; rfl) (by rw [hpeek]; rfl),
      skip?_of_peek (by rw [hpeek]; rintro ⟨⟩)]
    exact .ok
  | function hf hmore ih =>
    obtain ⟨mid', hks, hls⟩ := Reads.append_iff.mp hks
    obtain ⟨mid₁, mid₂, htype, hname, -, hroutine⟩ := hf.parse hks
    obtain ⟨_, hleading⟩ := leadingType?_of_reads true htype hname (fun _ => rfl)
    obtain ⟨hfree, hadmits⟩ := Program.admits_function_iff.mp hadmits
    rw [parseDefinitions, hleading]
    refine (parseName_of_reads hname).bind fun _ => ?_
    dsimp only
    rw [if_neg hfree]
    exact hroutine.bind fun _ => (ih hadmits hls).bind fun _ => .ok
  | cls hc hmore ih =>
    obtain ⟨mid', hks, hls⟩ := Reads.append_iff.mp hks
    obtain ⟨mid₁, mid₂, hword, hname, hclass⟩ := hc.parse hks
    obtain ⟨_, hskip⟩ := skip?_of_reads hword
    obtain ⟨hfree, hadmits⟩ := Program.admits_class_iff.mp hadmits
    have hpeek := hword.peek_eq
    rw [parseDefinitions, leadingType?_of_peek (by rw [hpeek]; rfl) (by rw [hpeek]; rfl), hskip]
    refine (parseName_of_reads hname).bind fun _ => ?_
    dsimp only
    rw [if_neg hfree]
    exact hclass.bind fun _ => (ih hadmits hls).bind fun _ => .ok

end

/-- What a list of tokens holds before the end of the text is what can be read
before it. -/
theorem textKinds_eq_iff {ts : List Token} {ks : List Kind} :
    textKinds ts = ks ↔ ∃ rest, Reads ts ks rest ∧ (peek rest).kind = .stop := by
  constructor
  · rintro rfl
    induction ts with
    | nil => exact ⟨[], .nil, rfl⟩
    | cons t ts ih =>
      by_cases hstop : t.kind = .stop
      · have hnone : textKinds (t :: ts) = [] := by simp [textKinds, hstop]
        rw [hnone]
        exact ⟨t :: ts, .nil, hstop⟩
      · obtain ⟨rest, hreads, hpeek⟩ := ih
        refine ⟨rest, ?_, hpeek⟩
        rw [textKinds, List.map_cons, List.takeWhile_cons_of_pos (by simpa using hstop)]
        exact .cons rfl hstop hreads
  · rintro ⟨rest, hreads, hpeek⟩
    induction hreads with
    | @nil ts =>
      rcases ts with _ | ⟨t, ts⟩
      · rfl
      · rw [textKinds, List.map_cons, show t.kind = .stop from hpeek]
        rfl
    | cons hkind hstop _ ih =>
      rw [textKinds, List.map_cons, hkind, List.takeWhile_cons_of_pos (by simpa using hstop)]
      rw [← ih hpeek, textKinds]

/-- What is parsed as a program is one of the grammar, in front of the end of the
text. -/
theorem isProgram_of_parseProgram {ts : List Token} {p : Program} (h : parseProgram ts = .ok p) :
    ∃ ks rest, Reads ts ks rest ∧ (peek rest).kind = .stop ∧ IsProgram ks p := by
  rw [parseProgram] at h
  obtain ⟨_, mid₁, _, hopen, h⟩ := exists_yields_of_bind h
  obtain ⟨_, mid₂, _, hdefinitions, h⟩ := exists_yields_of_bind h
  obtain ⟨_, rest, _, hclose, h⟩ := exists_yields_of_bind h
  dsimp only at h
  split at h
  next hstop =>
    cases h
    have hopen := reads_of_expect (by rintro ⟨⟩) hopen
    have hclose := reads_of_expect (by rintro ⟨⟩) hclose
    obtain ⟨ks, functions, classes, hks, hderived, hadmits, rfl⟩ :=
      parseDefinitions_sound {} mid₁ hdefinitions
    rw [Program.extend_empty]
    exact ⟨_, rest, (hopen.trans hks).trans hclose, hstop,
      .mk hderived hadmits.functions.1 hadmits.classes.1⟩
  · cases h

/-- A program of the grammar in front of the end of the text is parsed as such. -/
theorem parseProgram_of_isProgram {ts rest : List Token} {ks : List Kind} {p : Program}
    (h : IsProgram ks p) (hks : Reads ts ks rest) (hstop : (peek rest).kind = .stop) :
    parseProgram ts = .ok p := by
  obtain ⟨hdefinitions, hfunctions, hclasses⟩ := h
  obtain ⟨mid₂, hks, hclose⟩ := Reads.append_iff.mp hks
  obtain ⟨mid₁, hopen, hks⟩ := Reads.cons_iff.mp hks
  have hadmits : ({} : Program).Admits _ _ := ⟨unused_of_nodup hfunctions, unused_of_nodup hclasses⟩
  rw [parseProgram, ← Program.extend_empty]
  refine (expect_of_reads hopen).bind_eq_of fun _ => ?_
  refine (parseDefinitions_complete hdefinitions hadmits hks hclose).bind_eq_of fun _ => ?_
  refine (expect_of_reads hclose).bind_eq_of fun _ => ?_
  exact if_pos hstop

/-- **The parser accepts its grammar.** A list of tokens is parsed as a program
exactly if the grammar derives that program from the tokens before the end of
the text. What stands behind the end does not matter, and an end that is
missing is taken to be there. -/
theorem parseProgram_eq_ok_iff (ts : List Token) (p : Program) :
    parseProgram ts = .ok p ↔ IsProgram (textKinds ts) p := by
  constructor
  · intro h
    obtain ⟨ks, rest, hks, hstop, hp⟩ := isProgram_of_parseProgram h
    rwa [textKinds_eq_iff.mpr ⟨rest, hks, hstop⟩]
  · intro h
    obtain ⟨rest, hks, hstop⟩ := textKinds_eq_iff.mp (rfl : textKinds ts = textKinds ts)
    exact parseProgram_of_isProgram h hks hstop

end ClassLang
