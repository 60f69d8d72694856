import ClassLang.Proofs.Parser.Program

/-!
# The order of definitions

A program between its braces is a sequence of segments, each of which defines a
function or a class (`Segment`). The parser hands a program on from segment to
segment and looks up in it whether a name is taken. That is all it uses it for:
what a segment defines depends on its own tokens only, and the parser is done
with it just behind the last of them. So the parser accepts segments just if the
names they define differ (`parseProgram_of_admits`, `admits_of_parseProgram`).
That does not depend on their order, and neither do the tables of what they
define.
-/

namespace ClassLang

/-- The tokens define a function or a class. -/
inductive IsDefinition : List Kind → Routine ⊕ ClassDef → Prop where
  /-- a function -/
  | function {ks : List Kind} {f : Routine} : IsRoutine ks f → IsDefinition ks (.inl f)
  /-- a class -/
  | cls {ks : List Kind} {c : ClassDef} : IsClass ks c → IsDefinition ks (.inr c)

/-- The tokens of one definition. -/
structure Segment where
  /-- the tokens -/
  tokens : List Token
  /-- their kinds -/
  kinds : List Kind
  /-- what they define -/
  definition : Routine ⊕ ClassDef
  /-- the tokens are of these kinds -/
  reads : Reads tokens kinds []
  /-- they are a definition -/
  derived : IsDefinition kinds definition

namespace Segment

/-- The functions that segments define. -/
def functions (segments : List Segment) : List Routine :=
  segments.filterMap (·.definition.getLeft?)

/-- The classes that segments define. -/
def classes (segments : List Segment) : List ClassDef :=
  segments.filterMap (·.definition.getRight?)

/-- Segments are definitions one behind the other. -/
theorem areDefinitions (segments : List Segment) :
    AreDefinitions (segments.flatMap kinds) (functions segments) (classes segments) := by
  induction segments with
  | nil => exact .nil
  | cons segment segments ih =>
    obtain ⟨tokens, kinds, definition, hreads, hderived⟩ := segment
    cases hderived with
    | function hf => exact .function hf ih
    | cls hc => exact .cls hc ih

theorem reads_append (segments : List Segment) (rest : List Token) :
    Reads (segments.flatMap tokens ++ rest) (segments.flatMap kinds) rest := by
  induction segments with
  | nil => exact .nil
  | cons segment segments ih =>
    obtain ⟨taken, htaken, hreads⟩ := segment.reads.append_right
    rw [List.append_nil] at htaken
    rw [List.flatMap_cons, List.flatMap_cons, List.append_assoc, htaken]
    exact (hreads _).trans ih

end Segment

/-! ## What the parser accepts -/

/-- If definitions are parsed, in whatever program, their names are still to
come in it. -/
theorem admits_of_parseDefinitions {ks : List Kind} {functions : List Routine}
    {classes : List ClassDef} (h : AreDefinitions ks functions classes) {p p' : Program}
    {ts mid rest : List Token} (hks : Reads ts ks mid)
    (hparse : Yields (parseDefinitions p ts) p' rest) : p.Admits functions classes := by
  induction h generalizing ts p p' rest with
  | nil => exact p.admits_nil
  | function hf hmore ih =>
    obtain ⟨mid', hks, hls⟩ := Reads.append_iff.mp hks
    obtain ⟨mid₁, mid₂, htype, hname, -, hroutine⟩ := hf.parse hks
    obtain ⟨_, hleading⟩ := leadingType?_of_reads true htype hname (fun _ => rfl)
    rw [parseDefinitions, hleading] at hparse
    obtain ⟨name, _, _, hname', hparse⟩ := hparse.of_bind
    obtain ⟨rfl, rfl⟩ := hname'.unique (parseName_of_reads hname)
    dsimp only at hparse
    split at hparse
    · exact absurd hparse Yields.not_error
    next hfree =>
    obtain ⟨_, _, _, hroutine', hparse⟩ := hparse.of_bind
    obtain ⟨rfl, rfl⟩ := hroutine'.unique hroutine
    obtain ⟨_, _, _, hparse, -⟩ := hparse.of_bind
    exact Program.admits_function_iff.mpr ⟨hfree, ih hls hparse⟩
  | cls hc hmore ih =>
    obtain ⟨mid', hks, hls⟩ := Reads.append_iff.mp hks
    obtain ⟨mid₁, mid₂, hword, hname, hclass⟩ := hc.parse hks
    obtain ⟨_, hskip⟩ := skip?_of_reads hword
    have hpeek := hword.peek_eq
    rw [parseDefinitions, leadingType?_of_peek (by rw [hpeek]; rfl) (by rw [hpeek]; rfl), hskip]
      at hparse
    obtain ⟨name, _, _, hname', hparse⟩ := hparse.of_bind
    obtain ⟨rfl, rfl⟩ := hname'.unique (parseName_of_reads hname)
    dsimp only at hparse
    split at hparse
    · exact absurd hparse Yields.not_error
    next hfree =>
    obtain ⟨_, _, _, hclass', hparse⟩ := hparse.of_bind
    obtain ⟨rfl, rfl⟩ := hclass'.unique hclass
    obtain ⟨_, _, _, hparse, -⟩ := hparse.of_bind
    exact Program.admits_class_iff.mpr ⟨hfree, ih hls hparse⟩

/-! ## Programs -/

theorem Table.ofList_named_perm {α : Type} {name : α → String} {l l' : List α} (hperm : l.Perm l')
    (hnodup : (l.map name).Nodup) :
    Table.ofList (l.map fun a => (name a, a)) = .ofList (l'.map fun a => (name a, a)) :=
  ofList_perm (hperm.map _) (List.pairwise_map.mpr (List.pairwise_map.mp hnodup))

/-- In whatever order, definitions make the same program, if their names
differ. -/
theorem Program.extend_perm {functions functions' : List Routine}
    {classes classes' : List ClassDef} (hadmits : ({} : Program).Admits functions classes)
    (hfunctions : functions.Perm functions') (hclasses : classes.Perm classes') :
    ({} : Program).extend functions' classes' = ({} : Program).extend functions classes := by
  rw [extend_empty, extend_empty, Table.ofList_named_perm hfunctions hadmits.functions.1,
    Table.ofList_named_perm hclasses hadmits.classes.1]

/-- The tokens of a program with these definitions. -/
def programTokens (opening : Token) (segments : List Segment) (closing stop : Token) : List Token :=
  opening :: (segments.flatMap Segment.tokens ++ [closing, stop])

section

variable {opening closing stop : Token} {segments : List Segment}

/-- The definitions are read between the braces, and behind these the end. -/
theorem reads_programTokens (hopening : opening.kind = .mark .leftBrace)
    (hclosing : closing.kind = .mark .rightBrace) (segments : List Segment) :
    Reads (programTokens opening segments closing stop)
      (.mark .leftBrace :: segments.flatMap Segment.kinds ++ [.mark .rightBrace]) [stop] :=
  .cons hopening (by rintro ⟨⟩) <|
    (Segment.reads_append segments _).trans (.cons hclosing (by rintro ⟨⟩) .nil)

/-- A program of definitions is accepted if their names differ. -/
theorem parseProgram_of_admits (hopening : opening.kind = .mark .leftBrace)
    (hclosing : closing.kind = .mark .rightBrace) (hstop : stop.kind = .stop)
    (hadmits : ({} : Program).Admits (Segment.functions segments) (Segment.classes segments)) :
    parseProgram (programTokens opening segments closing stop) =
      .ok (({} : Program).extend (Segment.functions segments) (Segment.classes segments)) := by
  rw [Program.extend_empty]
  exact parseProgram_of_isProgram
    (.mk (Segment.areDefinitions segments) hadmits.functions.1 hadmits.classes.1)
    (reads_programTokens hopening hclosing segments) hstop

/-- If a program of definitions is accepted, their names differ. -/
theorem admits_of_parseProgram (hopening : opening.kind = .mark .leftBrace) {p : Program}
    (h : parseProgram (programTokens opening segments closing stop) = .ok p) :
    ({} : Program).Admits (Segment.functions segments) (Segment.classes segments) := by
  rw [parseProgram] at h
  obtain ⟨_, mid, _, hopen, h⟩ := exists_yields_of_bind h
  obtain ⟨_, _, _, hdefinitions, -⟩ := exists_yields_of_bind h
  have hfirst : Reads (programTokens opening segments closing stop) [.mark .leftBrace]
      (segments.flatMap Segment.tokens ++ [closing, stop]) := .cons hopening (by rintro ⟨⟩) .nil
  obtain ⟨-, rfl⟩ := hopen.unique (expect_of_reads hfirst)
  exact admits_of_parseDefinitions (Segment.areDefinitions segments)
    (Segment.reads_append segments _) hdefinitions

end

/-- **The order of definitions does not matter.** If the parser accepts a program,
it accepts the same definitions in any other order, and the result is the same
program. -/
theorem parseProgram_perm {opening closing stop : Token} {segments segments' : List Segment}
    {p : Program} (hopening : opening.kind = .mark .leftBrace)
    (hclosing : closing.kind = .mark .rightBrace) (hstop : stop.kind = .stop)
    (hperm : segments.Perm segments')
    (h : parseProgram (programTokens opening segments closing stop) = .ok p) :
    parseProgram (programTokens opening segments' closing stop) = .ok p := by
  have hfunctions : (Segment.functions segments).Perm (Segment.functions segments') :=
    hperm.filterMap _
  have hclasses : (Segment.classes segments).Perm (Segment.classes segments') :=
    hperm.filterMap _
  have hadmits := admits_of_parseProgram hopening h
  have hadmits' : ({} : Program).Admits (Segment.functions segments') (Segment.classes segments') :=
    ⟨hadmits.functions.perm (hfunctions.map _), hadmits.classes.perm (hclasses.map _)⟩
  rw [parseProgram_of_admits hopening hclosing hstop hadmits] at h
  rw [parseProgram_of_admits hopening hclosing hstop hadmits',
    Program.extend_perm hadmits hfunctions hclasses]
  exact h

/-- A token of a kind, at the origin. -/
def Token.ofKind (kind : Kind) : Token :=
  { kind, lexeme := kind.spelling, start := .origin, stop := .origin }

/-- A class without members. -/
def emptyClass : Segment where
  tokens := [.ofKind (.keyword .classWord), .ofKind (.identifier "main"),
    .ofKind (.mark .leftBrace), .ofKind (.mark .rightBrace)]
  kinds := [.keyword .classWord, .identifier "main", .mark .leftBrace, .mark .rightBrace]
  definition := .inr ⟨"main", [], []⟩
  reads := .cons rfl (by decide) <| .cons rfl (by decide) <| .cons rfl (by decide) <|
    .cons rfl (by decide) .nil
  derived := .cls (.mk .nil (by decide))

/-- A function without statements, of the same name as the class. -/
def emptyFunction : Segment where
  tokens := [.ofKind (.keyword .voidType), .ofKind (.identifier "main"),
    .ofKind (.mark .leftParen), .ofKind (.mark .rightParen), .ofKind (.mark .leftBrace),
    .ofKind (.mark .rightBrace)]
  kinds := [.keyword .voidType, .identifier "main", .mark .leftParen, .mark .rightParen,
    .mark .leftBrace, .mark .rightBrace]
  definition := .inl ⟨.void, "main", [], []⟩
  reads := .cons rfl (by decide) <| .cons rfl (by decide) <| .cons rfl (by decide) <|
    .cons rfl (by decide) <| .cons rfl (by decide) <| .cons rfl (by decide) .nil
  derived := .function (@IsRoutine.mk .void "main" [] _ [] (by simp) (.mk .nil))

/-- The function may stand in front of the class or behind it. -/
theorem parseProgram_perm_emptyClass :
    ∃ p, parseProgram (programTokens (.ofKind (.mark .leftBrace)) [emptyClass, emptyFunction]
        (.ofKind (.mark .rightBrace)) (.ofKind .stop)) = .ok p ∧
      parseProgram (programTokens (.ofKind (.mark .leftBrace)) [emptyFunction, emptyClass]
        (.ofKind (.mark .rightBrace)) (.ofKind .stop)) = .ok p := by
  have hadmits : ({} : Program).Admits (Segment.functions [emptyClass, emptyFunction])
      (Segment.classes [emptyClass, emptyFunction]) :=
    ⟨unused_of_nodup (by decide), unused_of_nodup (by decide)⟩
  refine ⟨_, parseProgram_of_admits rfl rfl rfl hadmits, ?_⟩
  exact parseProgram_perm rfl rfl rfl (.swap ..) (parseProgram_of_admits rfl rfl rfl hadmits)

end ClassLang
