import ClassLang.Token

/-!
# Reading one lexeme

What the text at hand says next, without regard to where it stands. Reading
never hands back text: it answers how many characters belong to the lexeme and
what they mean, and the caller cuts the text there. So nothing can be lost or
made up, and a reading depends on the text alone.

* `ignorable` — how much of the head is blank space and comments.
* `Lexeme.read` — the lexeme at the head: `Lexeme.ofString`, `Lexeme.ofNumber`
  and `Lexeme.ofWord` for those that carry data, a table for the marks.

A lexeme that means nothing still has a length: the reader goes on behind it.
-/

namespace ClassLang

/-- The longest names and strings that are accepted, in characters. -/
structure Limits where
  /-- the longest name -/
  identifier : Nat := 64
  /-- the longest string, counted after decoding its escapes -/
  string : Nat := 256
deriving DecidableEq, Repr

/-- Why a lexeme means nothing. -/
inductive ScanFault where
  /-- no lexeme starts with this character -/
  | unexpectedCharacter (character : Char)
  /-- the row or the text ended inside a string -/
  | unterminatedString
  /-- a name is longer than allowed -/
  | identifierTooLong (length limit : Nat)
  /-- a string is longer than allowed -/
  | stringTooLong (length limit : Nat)
  /-- a word that starts with a digit and is no number in range -/
  | invalidNumber (literal : String)
deriving DecidableEq

namespace ScanFault

/-- The fault in words. -/
def text : ScanFault → String
  | unexpectedCharacter c => "Unexpected character '" ++ c.toString ++ "'."
  | unterminatedString => "Unterminated string."
  | identifierTooLong length limit =>
    "Identifier is " ++ toString length ++ " characters long, the limit is " ++ toString limit
      ++ "."
  | stringTooLong length limit =>
    "String literal is " ++ toString length ++ " characters long, the limit is "
      ++ toString limit ++ "."
  | invalidNumber literal => "Invalid number literal '" ++ literal ++ "'."

end ScanFault

/-! ## Character classes

All three are classes of ASCII characters; a character beyond ASCII can stand
only inside strings and comments. -/

/-- Blank space between lexemes. -/
def isBlank (c : Char) : Bool :=
  c == ' ' || c == '\t' || c == '\r' || c == '\n'

/-- A character a name can start with. -/
def isWordStart (c : Char) : Bool :=
  c.isAlpha || c == '_'

/-- A character a name can go on with. -/
def isWordPart (c : Char) : Bool :=
  c.isAlphanum || c == '_'

/-! ## Text between lexemes -/

/-- How many characters at the head are ignorable: blanks, and comments from
two slashes up to the end of the row. `inComment` says whether the text starts
inside a comment. -/
def ignorableFrom : Bool → List Char → Nat
  | _, [] => 0
  | true, c :: rest => ignorableFrom (c != '\n') rest + 1
  | false, c :: rest =>
    if isBlank c then ignorableFrom false rest + 1
    else if c = '/' ∧ rest.head? = some '/' then ignorableFrom true rest + 1
    else 0

/-- How many characters at the head of a text are ignorable. -/
def ignorable (text : List Char) : Nat := ignorableFrom false text

/-! ## Lexemes -/

/-- What stands at the head of a text: how many characters, and what they mean
or why they mean nothing. -/
structure Lexeme where
  /-- the number of characters -/
  length : Nat
  /-- what they mean -/
  meaning : Except ScanFault Kind

namespace Lexeme

/-- What a backslash and the character after it stand for. An unknown escape
stands for itself, backslash included. -/
def unescape (c : Char) : List Char :=
  if c = 'n' then ['\n']
  else if c = 't' then ['\t']
  else if c = '"' then ['"']
  else if c = '\\' then ['\\']
  else ['\\', c]

/-- The inside of a string, read from just behind its opening quote: how many
characters up to and with the closing quote, and the decoded text. There is no
decoded text if the row or the whole text ends first; a character behind a
backslash is taken whatever it is. -/
def stringBody : List Char → Nat × Option (List Char)
  | [] => (0, none)
  | c :: rest =>
    if c = '\n' then (0, none)
    else if c = '"' then (1, some [])
    else if c = '\\' then
      match rest with
      | [] => (1, none)
      | escaped :: rest =>
        let body := stringBody rest
        (body.1 + 2, body.2.map (unescape escaped ++ ·))
    else
      let body := stringBody rest
      (body.1 + 1, body.2.map (c :: ·))

/-- A string, read from just behind its opening quote. -/
def ofString (limits : Limits) (rest : List Char) : Lexeme :=
  let body := stringBody rest
  { length := body.1 + 1
    meaning :=
      match body.2 with
      | none => .error .unterminatedString
      | some value =>
        if value.length ≤ limits.string then .ok (.string (String.ofList value))
        else .error (.stringTooLong value.length limits.string) }

/-- The digits behind a point, if the text starts with a point that a digit
follows directly; otherwise nothing. -/
def fractionDigits : List Char → List Char
  | '.' :: rest => rest.takeWhile Char.isDigit
  | _ => []

/-- The number that a string of digits denotes, if it is in range. -/
def numeral? (digits : List Char) : Option Integer :=
  Integer.ofInt? (Nat.ofDigitChars 10 digits 0)

/-- What the digits before and behind the point mean. The count of places is
kept in 32 bits, which holds every count that a text of practical size has. -/
def numberKind? (whole fraction : List Char) : Option Kind :=
  match numeral? whole, fraction with
  | some w, [] => some (.integer w)
  | some w, fraction =>
    (numeral? fraction).map fun f => .double w f (fraction.length % 4294967296)
  | none, _ => none

/-- A number: digits, and behind a point more digits. A word that merely starts
like one is a fault as a whole, and so is a superfluous leading zero and a
number out of range. -/
def ofNumber (text : List Char) : Lexeme :=
  let whole := text.takeWhile Char.isDigit
  let fraction := fractionDigits (text.drop whole.length)
  let length := whole.length + if fraction.isEmpty then 0 else fraction.length + 1
  -- Letters that follow directly belong to the lexeme and spoil it.
  let trailing := ((text.drop length).takeWhile isWordPart).length
  if trailing ≠ 0 ∨ (1 < whole.length ∧ whole.head? = some '0') then
    { length := length + trailing
      meaning := .error (.invalidNumber (String.ofList (text.take (length + trailing)))) }
  else
    { length
      meaning :=
        match numberKind? whole fraction with
        | some kind => .ok kind
        | none => .error (.invalidNumber (String.ofList (text.take length))) }

/-- A word: a reserved word or a name. A reserved word is never too long. -/
def ofWord (limits : Limits) (text : List Char) : Lexeme :=
  let word := text.takeWhile isWordPart
  { length := word.length
    meaning :=
      match Keyword.ofSpelling? (String.ofList word) with
      | some keyword => .ok (.keyword keyword)
      | none =>
        if word.length ≤ limits.identifier then .ok (.identifier (String.ofList word))
        else .error (.identifierTooLong word.length limits.identifier) }

/-- A mark, which takes an equals sign behind it along where the two make
another mark. -/
def ofMark (mark : Mark) (rest : List Char) : Lexeme :=
  match mark.withEqual?, rest.head? with
  | some longer, some '=' => { length := 2, meaning := .ok (.mark longer) }
  | _, _ => { length := 1, meaning := .ok (.mark mark) }

/-- The lexeme at the head of a text that starts with nothing ignorable. At the
end of the text it is empty. -/
def read (limits : Limits) : List Char → Lexeme
  | [] => { length := 0, meaning := .ok .stop }
  | c :: rest =>
    if c = '"' then ofString limits rest
    else if c.isDigit then ofNumber (c :: rest)
    else if isWordStart c then ofWord limits (c :: rest)
    else
      match Mark.ofChar? c with
      | some mark => ofMark mark rest
      | none => { length := 1, meaning := .error (.unexpectedCharacter c) }

end Lexeme

end ClassLang
