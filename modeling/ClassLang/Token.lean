import ClassLang.Integer
import ClassLang.Position

/-!
# Tokens

A token is a piece of source text together with what it means. Meanings fall
into a fixed vocabulary, whose members have one spelling each, and the tokens
that carry data:

* `Keyword` — the reserved words, among them the names of the built-in types;
* `Mark` — punctuation and operators;
* `Kind` — a reserved word, a mark, a name, a literal, or the end of the text.

`Keyword.spelling` and `Mark.spelling` say how they are written. A reserved word
is read back by looking through the list of all of them
(`Keyword.ofSpelling?_eq_some_iff`), a mark by its first character and the
equals sign that may follow it (`Mark.ofChar?`, `Mark.withEqual?`).
-/

namespace ClassLang

/-- The reserved words. -/
inductive Keyword where
  | integerType
  | doubleType
  | booleanType
  | stringType
  | voidType
  | ifWord
  | elseWord
  | classWord
  | returnWord
  | whileWord
  | trueWord
  | falseWord
deriving DecidableEq, Repr

namespace Keyword

/-- Every reserved word. -/
def all : List Keyword :=
  [integerType, doubleType, booleanType, stringType, voidType, ifWord, elseWord, classWord,
    returnWord, whileWord, trueWord, falseWord]

/-- How a reserved word is written. -/
def spelling : Keyword → String
  | integerType => "Integer"
  | doubleType => "Double"
  | booleanType => "Boolean"
  | stringType => "String"
  | voidType => "Void"
  | ifWord => "if"
  | elseWord => "else"
  | classWord => "class"
  | returnWord => "return"
  | whileWord => "while"
  | trueWord => "true"
  | falseWord => "false"

/-- The reserved word written so, if there is one. -/
def ofSpelling? (word : String) : Option Keyword :=
  all.find? (·.spelling == word)

/-- **One word, one spelling.** A text is read as a reserved word exactly if it
is how that word is written. -/
theorem ofSpelling?_eq_some_iff {word : String} {k : Keyword} :
    ofSpelling? word = some k ↔ k.spelling = word := by
  constructor
  · intro h
    simpa using List.find?_some h
  · rintro rfl
    cases k <;> decide

/-- Does the word name a type that values can have? `Void` does not count. -/
def isParameterType : Keyword → Bool
  | integerType | doubleType | booleanType | stringType => true
  | _ => false

/-- May the word stand before the name of a function? -/
def isFunctionType (k : Keyword) : Bool :=
  k == voidType || k.isParameterType

end Keyword

/-- Punctuation and operators. -/
inductive Mark where
  | leftBrace
  | rightBrace
  | leftParen
  | rightParen
  | comma
  | dot
  | semicolon
  | plus
  | minus
  | star
  | slash
  | pipe
  | ampersand
  | bang
  | less
  | lessEqual
  | greater
  | greaterEqual
  | equalEqual
  | bangEqual
  | equal
deriving DecidableEq, Repr

namespace Mark

/-- How a mark is written. -/
def spelling : Mark → String
  | leftBrace => "\x7b"
  | rightBrace => "\x7d"
  | leftParen => "("
  | rightParen => ")"
  | comma => ","
  | dot => "."
  | semicolon => ";"
  | plus => "+"
  | minus => "-"
  | star => "*"
  | slash => "/"
  | pipe => "|"
  | ampersand => "&"
  | bang => "!"
  | less => "<"
  | lessEqual => "<="
  | greater => ">"
  | greaterEqual => ">="
  | equalEqual => "=="
  | bangEqual => "!="
  | equal => "="

/-- The mark a single character makes. -/
def ofChar? : Char → Option Mark
  | '\x7b' => some leftBrace
  | '\x7d' => some rightBrace
  | '(' => some leftParen
  | ')' => some rightParen
  | ',' => some comma
  | '.' => some dot
  | ';' => some semicolon
  | '+' => some plus
  | '-' => some minus
  | '*' => some star
  | '/' => some slash
  | '|' => some pipe
  | '&' => some ampersand
  | '!' => some bang
  | '<' => some less
  | '>' => some greater
  | '=' => some equal
  | _ => none

/-- The mark that a mark becomes when an equals sign follows it directly. -/
def withEqual? : Mark → Option Mark
  | bang => some bangEqual
  | less => some lessEqual
  | greater => some greaterEqual
  | equal => some equalEqual
  | _ => none

end Mark

/-- What a token is. -/
inductive Kind where
  /-- a reserved word -/
  | keyword (word : Keyword)
  /-- punctuation or an operator -/
  | mark (mark : Mark)
  /-- a name -/
  | identifier (name : String)
  /-- a whole number -/
  | integer (value : Integer)
  /-- a number with a fraction: `fraction` over ten to the `places` is added to `whole` -/
  | double (whole fraction : Integer) (places : Nat)
  /-- a string, with its escapes decoded -/
  | string (value : String)
  /-- the end of the text -/
  | stop
deriving DecidableEq

namespace Kind

/-- What a diagnostic calls tokens of this kind. -/
def text : Kind → String
  | keyword word => "'" ++ word.spelling ++ "'"
  | mark m => "'" ++ m.spelling ++ "'"
  | identifier _ => "identifier"
  | integer _ => "integer literal"
  | double _ _ _ => "double literal"
  | string _ => "string literal"
  | stop => "end of text"

/-- Is this a reserved word that names a type values can have? -/
def isParameterType : Kind → Bool
  | keyword word => word.isParameterType
  | _ => false

/-- Is this a reserved word that may stand before the name of a function? -/
def isFunctionType : Kind → Bool
  | keyword word => word.isFunctionType
  | _ => false

/-- Is this a name? -/
def isIdentifier : Kind → Bool
  | identifier _ => true
  | _ => false

end Kind

/-- A piece of the source text and what it is. -/
structure Token where
  /-- what it is -/
  kind : Kind
  /-- the text itself, as written -/
  lexeme : String
  /-- where the text starts -/
  start : Position
  /-- where the text ends -/
  stop : Position
deriving DecidableEq

namespace Token

/-- What a diagnostic calls this token: its text in quotes, or the words for
the end of the text, which has none. -/
def describe (t : Token) : String :=
  match t.kind with
  | .stop => t.kind.text
  | _ => "'" ++ t.lexeme ++ "'"

/-- The end of the text as it stands in for a token that is missing. -/
def missing : Token :=
  { kind := .stop, lexeme := "", start := .origin, stop := .origin }

end Token

end ClassLang
