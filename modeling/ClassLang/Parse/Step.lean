import ClassLang.Expr
import ClassLang.Parse.Error

/-!
# Steps of parsing

A step of parsing takes the unread tokens and gives a result with the tokens
that are left, or the error at which it stops. Its type bounds how many tokens
are left, which is what lets the recursion over nested constructs end: a step
that reads something leaves fewer tokens than it was given.

* `Parsed` — a result, the tokens left, and the bound. Bounds are carried along
  a sequence of steps by `Parsed.after`, `Parsed.upTo` and `Parsed.within`.
* `accept?` — one token, if it is one of those asked for. Nothing else ever
  takes a token off the list, and no question accepts the end of the text.
* `expect`, `parseName` — one token that has to be there.
* `parsePath` — the segments behind a name, each after a dot.
* `leadingType?` — the type at the head of a declaration.
-/

namespace ClassLang

/-- The result of a step, and the tokens it left: fewer than `bound`. -/
structure Parsed (bound : Nat) (α : Type) where
  /-- the result -/
  value : α
  /-- the tokens left -/
  rest : List Token
  /-- there are fewer of them than `bound` -/
  shorter : rest.length < bound

namespace Parsed

variable {α : Type} {m n : Nat}

/-- A result for which nothing was read. -/
def here (value : α) (tokens : List Token) : Parsed (tokens.length + 1) α :=
  { value, rest := tokens, shorter := Nat.lt_succ_self _ }

/-- The same result with a bound that is one larger. -/
def weaken (p : Parsed n α) : Parsed (n + 1) α :=
  { p with shorter := Nat.lt_succ_of_lt p.shorter }

/-- What is read behind a step. -/
def after (h : m < n) (p : Parsed m α) : Parsed n α :=
  { p with shorter := Nat.lt_trans p.shorter h }

/-- What may be read behind a step that reads something: the whole reads
something even if this does not. -/
def upTo (h : m < n) (p : Parsed (m + 1) α) : Parsed n α :=
  { p with shorter := Nat.lt_of_lt_of_le p.shorter h }

/-- What is read behind a step that may have read nothing: the whole reads
something all the same. -/
def within (h : m < n + 1) (p : Parsed m α) : Parsed n α :=
  { p with shorter := Nat.lt_of_lt_of_le p.shorter (Nat.le_of_lt_succ h) }

end Parsed

/-- What parsing gives: a result, or the error at which it stops. -/
abbrev Parse : Type → Type := Except ParseError

/-- The error of wanting something else than the first of the tokens left. -/
def wanted {α : Type} (what : Expectation) (tokens : List Token) : Parse α :=
  .error { unread := tokens, problem := .expected what }

/-- Takes the first token if it answers a question, and gives the answer. -/
def accept? {α : Type} (ask : Kind → Option α) :
    (tokens : List Token) → Option (Parsed tokens.length α)
  | [] => none
  | t :: rest => (ask t.kind).map fun value => .here value rest

/-- Takes the first token if it is of the given kind. -/
def skip? (kind : Kind) : (tokens : List Token) → Option (Parsed tokens.length Unit) :=
  accept? fun k => if k = kind then some () else none

/-- Takes a token that has to be of the given kind. -/
def expect (kind : Kind) (what : Expectation) (tokens : List Token) :
    Parse (Parsed tokens.length Unit) :=
  match skip? kind tokens with
  | some taken => .ok taken
  | none => wanted what tokens

/-- The name that a token is, if it is one. -/
def Kind.name? : Kind → Option String
  | identifier name => some name
  | _ => none

/-- Takes a token that has to be a name. -/
def parseName (what : Expectation) (tokens : List Token) : Parse (Parsed tokens.length String) :=
  match accept? Kind.name? tokens with
  | some taken => .ok taken
  | none => wanted what tokens

/-- Reads the path behind a name: any number of segments, each after a dot. -/
def parsePath (tokens : List Token) : Parse (Parsed (tokens.length + 1) (List String)) :=
  match skip? (.mark .dot) tokens with
  | none => return .here [] tokens
  | some ⟨_, rest, h₁⟩ => do
    let ⟨segment, rest, h₂⟩ ← parseName .pathSegment rest
    let ⟨path, rest, h₃⟩ ← parsePath rest
    return .weaken (.after h₁ (.upTo h₂ ⟨segment :: path, rest, h₃⟩))
termination_by tokens.length

/-- The built-in type that a reserved word names. -/
def Ty.ofKeyword? : Keyword → Option Ty
  | .integerType => some .integer
  | .doubleType => some .double
  | .booleanType => some .boolean
  | .stringType => some .string
  | .voidType => some .void
  | _ => none

/-- The built-in type that a token names, where `Void` may be left out. -/
def Ty.builtIn? (allowVoid : Bool) : Kind → Option Ty
  | .keyword word =>
    if word.isParameterType || (allowVoid && word.isFunctionType) then Ty.ofKeyword? word
    else none
  | _ => none

/-- The type of values that a token names: built in and not `Void`, or a
class. -/
def Ty.ofKind? : Kind → Option Ty
  | .identifier name => some (.cls name)
  | kind => Ty.builtIn? false kind

/-- The type at the head of a declaration, if the tokens left begin with one:
a built-in type, or a class name that another name follows. Whether `Void`
counts is for the caller to say. -/
def leadingType? (allowVoid : Bool) (tokens : List Token) : Option (Parsed tokens.length Ty) :=
  match accept? Kind.name? tokens with
  | some ⟨name, rest, h⟩ =>
    if (peek rest).kind.isIdentifier then some ⟨.cls name, rest, h⟩ else none
  | none => accept? (Ty.builtIn? allowVoid) tokens

end ClassLang
