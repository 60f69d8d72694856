import ClassLang.Parse.Stmt
import ClassLang.Token.Scan

/-!
# Parsing programs

A program is a sequence of functions and classes between braces. Names are
checked as they come: a function, class or member that is defined already is
refused at its name, before anything behind the name is read.

* `parseProgram` — from tokens.
* `parseSource` — from source text, through the scanner.
-/

namespace ClassLang

/-- The error of defining something a second time, at its name. -/
def redefined {α : Type} (what : Definition) (tokens : List Token) : Parse α :=
  .error { unread := tokens, problem := .redefined what }

/-- Reads one parameter. -/
def parseParameter (tokens : List Token) : Parse (Parsed tokens.length Parameter) :=
  match accept? Ty.ofKind? tokens with
  | none => wanted .parameterType tokens
  | some ⟨type, rest, h₁⟩ =>
    match skip? (.mark .star) rest with
    | some ⟨_, rest, h₂⟩ => do
      let ⟨name, rest, h₃⟩ ← parseName .parameterName rest
      return .after h₁ (.after h₂ ⟨{ type, name, byReference := true }, rest, h₃⟩)
    | none => do
      let ⟨name, rest, h₂⟩ ← parseName .parameterName rest
      return .after h₁ ⟨{ type, name, byReference := false }, rest, h₂⟩

/-- Reads parameters, of which there is at least one. -/
def parseParameterList (tokens : List Token) :
    Parse (Parsed tokens.length (List Parameter)) := do
  let ⟨parameter, rest, h₁⟩ ← parseParameter tokens
  match skip? (.mark .comma) rest with
  | none => return ⟨[parameter], rest, h₁⟩
  | some ⟨_, rest, h₂⟩ =>
    let ⟨more, rest, h₃⟩ ← parseParameterList rest
    return .after h₁ (.after h₂ ⟨parameter :: more, rest, h₃⟩)
termination_by tokens.length

/-- Reads the parameters of a routine up to the closing parenthesis, which it
leaves. -/
def parseParameters (tokens : List Token) :
    Parse (Parsed (tokens.length + 1) (List Parameter)) :=
  if (peek tokens).kind = .mark .rightParen then return .here [] tokens
  else return (← parseParameterList tokens).weaken

/-- Reads a routine behind its name. -/
def parseRoutine (returns : Ty) (name : String) (tokens : List Token) :
    Parse (Parsed tokens.length Routine) := do
  let ⟨_, rest, h₁⟩ ← expect (.mark .leftParen) .parametersOpening tokens
  let ⟨parameters, rest, h₂⟩ ← parseParameters rest
  let ⟨_, rest, h₃⟩ ← expect (.mark .rightParen) .parametersClosing rest
  let ⟨body, rest, h₄⟩ ← parseBlock rest
  return .upTo h₁ (.after h₂ (.after h₃ ⟨{ returns, name, parameters, body }, rest, h₄⟩))

/-- Reads the members of a class, none of which may have one of the names
taken: its fields and its methods. -/
def parseMembers (taken : List String) (tokens : List Token) :
    Parse (Parsed (tokens.length + 1) (List Declaration × List Routine)) :=
  match leadingType? true tokens with
  | none => return .here ([], []) tokens
  | some ⟨type, named, h₁⟩ => do
    let ⟨name, rest, h₂⟩ ← parseName .memberName named
    if name ∈ taken then redefined .member named
    else if (peek rest).kind = .mark .leftParen then
      let ⟨method, rest, h₃⟩ ← parseRoutine type name rest
      let ⟨(fields, methods), rest, h₄⟩ ← parseMembers (name :: taken) rest
      return .weaken (.after h₁ (.after h₂ (.upTo h₃ ⟨(fields, method :: methods), rest, h₄⟩)))
    else
      let ⟨initial, rest, h₃⟩ ← parseInitial rest
      let ⟨_, rest, h₄⟩ ← expect (.mark .semicolon) .memberEnd rest
      let ⟨(fields, methods), rest, h₅⟩ ← parseMembers (name :: taken) rest
      let members := ({ type, name, initial } :: fields, methods)
      return .weaken (.after h₁ (.upTo h₂ (.after h₃ (.upTo h₄ ⟨members, rest, h₅⟩))))
termination_by tokens.length

/-- Reads a class behind its name. -/
def parseClass (name : String) (tokens : List Token) :
    Parse (Parsed tokens.length ClassDef) := do
  let ⟨_, rest, h₁⟩ ← expect (.mark .leftBrace) .classOpening tokens
  let ⟨(fields, methods), rest, h₂⟩ ← parseMembers [] rest
  let ⟨_, rest, h₃⟩ ← expect (.mark .rightBrace) .classClosing rest
  return .upTo h₁ (.after h₂ ⟨{ name, fields, methods }, rest, h₃⟩)

/-- Reads functions and classes up to where none starts, and adds them to a
program. -/
def parseDefinitions (program : Program) (tokens : List Token) :
    Parse (Parsed (tokens.length + 1) Program) :=
  match leadingType? true tokens with
  | some ⟨returns, named, h₁⟩ => do
    let ⟨name, rest, h₂⟩ ← parseName .functionName named
    if program.functions.contains name then redefined .function named
    else
      let ⟨function, rest, h₃⟩ ← parseRoutine returns name rest
      let ⟨program, rest, h₄⟩ ← parseDefinitions
        { program with functions := program.functions.insert name function } rest
      return .weaken (.after h₁ (.after h₂ (.upTo h₃ ⟨program, rest, h₄⟩)))
  | none =>
    match skip? (.keyword .classWord) tokens with
    | some ⟨_, named, h₁⟩ => do
      let ⟨name, rest, h₂⟩ ← parseName .className named
      if program.classes.contains name then redefined .cls named
      else
        let ⟨cls, rest, h₃⟩ ← parseClass name rest
        let ⟨program, rest, h₄⟩ ← parseDefinitions
          { program with classes := program.classes.insert name cls } rest
        return .weaken (.after h₁ (.after h₂ (.upTo h₃ ⟨program, rest, h₄⟩)))
    | none => return .here program tokens
termination_by tokens.length

/-- Reads a whole program. Tokens behind the end of the text are not looked
at. -/
def parseProgram (tokens : List Token) : Parse Program := do
  let ⟨_, rest, _⟩ ← expect (.mark .leftBrace) .programOpening tokens
  let ⟨program, rest, _⟩ ← parseDefinitions {} rest
  let ⟨_, rest, _⟩ ← expect (.mark .rightBrace) .programClosing rest
  if (peek rest).kind = .stop then return program
  else wanted .endOfText rest

/-- Why a source text is no program. -/
inductive SourceError where
  /-- it is no sequence of tokens -/
  | scan (error : ScanError)
  /-- its tokens are no program -/
  | parse (error : ParseError)

/-- The report of a source error. -/
def SourceError.message : SourceError → String
  | scan e => e.message
  | parse e => e.message

/-- The program that a source text is. -/
def parseSource (limits : Limits) (source : String) : Except SourceError Program := do
  let tokens ← (scan limits source).mapError .scan
  (parseProgram tokens).mapError .parse

end ClassLang
