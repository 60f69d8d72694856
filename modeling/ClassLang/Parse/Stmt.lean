import ClassLang.Parse.Expr
import ClassLang.Program

/-!
# Parsing statements

The first token of a statement says what it is, except for a name: two names
in a row declare a variable of a class, and one name alone is the head of an
assignment or a call. Where no statement starts, the list of statements ends,
and it is for the enclosing block to find its closing brace.
-/

namespace ClassLang

/-- The marks and words, other than those of types, that open a statement. -/
inductive Opening where
  | conditional
  | loop
  | result
  | block
deriving DecidableEq, Repr

/-- The opening of a statement that a token is, if it is one. -/
def opening? : Kind → Option Opening
  | .keyword .ifWord => some .conditional
  | .keyword .whileWord => some .loop
  | .keyword .returnWord => some .result
  | .mark .leftBrace => some .block
  | _ => none

/-- Reads any expression. -/
def parseExpr (tokens : List Token) : Parse (Parsed tokens.length Expr) :=
  parseLevel .top tokens

/-- Reads what a declaration says its name starts out as, if it says so. -/
def parseInitial (tokens : List Token) : Parse (Parsed (tokens.length + 1) (Option Expr)) :=
  match skip? (.mark .equal) tokens with
  | none => return .here none tokens
  | some ⟨_, rest, h₁⟩ => do
    let ⟨value, rest, h₂⟩ ← parseExpr rest
    return .weaken (.after h₁ ⟨some value, rest, h₂⟩)

/-- Reads a declaration behind its type. -/
def parseDeclaration (type : Ty) (tokens : List Token) : Parse (Parsed tokens.length Stmt) := do
  let ⟨name, rest, h₁⟩ ← parseName .variableName tokens
  let ⟨initial, rest, h₂⟩ ← parseInitial rest
  let ⟨_, rest, h₃⟩ ← expect (.mark .semicolon) .declarationEnd rest
  return .upTo h₁ (.after h₂ ⟨.declare { type, name, initial }, rest, h₃⟩)

/-- Reads an assignment or a call behind its first name. -/
def parseEffect (head : String) (tokens : List Token) :
    Parse (Parsed (tokens.length + 1) Stmt) := do
  let ⟨path, rest, h₁⟩ ← parsePath tokens
  let target := targetOf head path
  match skip? (.mark .leftParen) rest with
  | some ⟨_, rest, h₂⟩ => do
    let ⟨arguments, rest, h₃⟩ ← parseArguments rest
    let ⟨_, rest, h₄⟩ ← expect (.mark .semicolon) .callEnd rest
    return .after h₁ (.after h₂ (.after h₃ ⟨.call (.call target arguments), rest, h₄⟩))
  | none =>
    match skip? (.mark .equal) rest with
    | some ⟨_, rest, h₂⟩ => do
      let ⟨value, rest, h₃⟩ ← parseExpr rest
      let ⟨_, rest, h₄⟩ ← expect (.mark .semicolon) .assignmentEnd rest
      return .after h₁ (.after h₂ (.after h₃ ⟨.assign target value, rest, h₄⟩))
    | none => wanted .callOrAssignment rest

/-- Reads a condition in parentheses. -/
def parseCondition (opening closing : Expectation) (tokens : List Token) :
    Parse (Parsed tokens.length Expr) := do
  let ⟨_, rest, h₁⟩ ← expect (.mark .leftParen) opening tokens
  let ⟨value, rest, h₂⟩ ← parseExpr rest
  let ⟨_, rest, h₃⟩ ← expect (.mark .rightParen) closing rest
  return .after h₁ (.after h₂ ⟨value, rest, h₃⟩)

mutual

/-- Reads a block. -/
def parseBlock (tokens : List Token) : Parse (Parsed tokens.length (List Stmt)) := do
  let ⟨_, rest, h₁⟩ ← expect (.mark .leftBrace) .blockOpening tokens
  let ⟨body, rest, h₂⟩ ← parseBody rest
  return .after h₁ ⟨body, rest, h₂⟩
termination_by 4 * tokens.length

/-- Reads a block behind its opening brace. -/
def parseBody (tokens : List Token) : Parse (Parsed tokens.length (List Stmt)) := do
  let ⟨body, rest, h₁⟩ ← parseStatements tokens
  let ⟨_, rest, h₂⟩ ← expect (.mark .rightBrace) .blockClosing rest
  return .within h₁ ⟨body, rest, h₂⟩
termination_by 4 * tokens.length + 2

/-- Reads statements up to where none starts. -/
def parseStatements (tokens : List Token) :
    Parse (Parsed (tokens.length + 1) (List Stmt)) := do
  match ← parseStatement? tokens with
  | none => return .here [] tokens
  | some ⟨first, rest, h₁⟩ =>
    let ⟨more, rest, h₂⟩ ← parseStatements rest
    return .weaken (.upTo h₁ ⟨first :: more, rest, h₂⟩)
termination_by 4 * tokens.length + 1

/-- Reads a statement, if one starts here. -/
def parseStatement? (tokens : List Token) : Parse (Option (Parsed tokens.length Stmt)) :=
  match accept? opening? tokens with
  | some ⟨.conditional, rest, h₁⟩ => do
    let ⟨condition, rest, h₂⟩ ← parseCondition .ifOpening .ifClosing rest
    let ⟨body, rest, h₃⟩ ← parseBlock rest
    match skip? (.keyword .elseWord) rest with
    | none => return some (.after h₁ (.after h₂ ⟨.ifThen condition body, rest, h₃⟩))
    | some ⟨_, rest, h₄⟩ => do
      let ⟨otherwise, rest, h₅⟩ ← parseBlock rest
      let conditional := Stmt.ifElse condition body otherwise
      return some (.after h₁ (.after h₂ (.after h₃ (.after h₄ ⟨conditional, rest, h₅⟩))))
  | some ⟨.loop, rest, h₁⟩ => do
    let ⟨condition, rest, h₂⟩ ← parseCondition .whileOpening .whileClosing rest
    let ⟨body, rest, h₃⟩ ← parseBlock rest
    return some (.after h₁ (.after h₂ ⟨.loop condition body, rest, h₃⟩))
  | some ⟨.result, rest, h₁⟩ => do
    let ⟨value, rest, h₂⟩ ← parseExpr rest
    let ⟨_, rest, h₃⟩ ← expect (.mark .semicolon) .returnEnd rest
    return some (.after h₁ (.after h₂ ⟨.ret value, rest, h₃⟩))
  | some ⟨.block, rest, h₁⟩ => do
    let ⟨body, rest, h₂⟩ ← parseBody rest
    return some (.after h₁ ⟨.block body, rest, h₂⟩)
  | none =>
    -- Two names in a row are a declaration, so this is asked before a name alone.
    match leadingType? false tokens with
    | some ⟨type, rest, h₁⟩ => do
      let ⟨value, rest, h₂⟩ ← parseDeclaration type rest
      return some (.after h₁ ⟨value, rest, h₂⟩)
    | none =>
      match accept? Kind.name? tokens with
      | some ⟨head, rest, h₁⟩ => do
        let ⟨value, rest, h₂⟩ ← parseEffect head rest
        return some (.upTo h₁ ⟨value, rest, h₂⟩)
      | none => return none
termination_by 4 * tokens.length

end

end ClassLang
