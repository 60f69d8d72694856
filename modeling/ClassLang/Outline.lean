import ClassLang.Text.Extending
import ClassLang.Text.Invisible

/-!
# Outlines

A tree as text, for looking at. An outline is a leaf, something with a label in
front, or a group of outlines in brackets; it can be laid out on one line
(`Outline.inline`) or with every member of a group on lines of its own, indented
by four blanks a level (`Outline.layout`).
-/

namespace ClassLang

/-- The brackets of a group. -/
inductive Brackets where
  /-- braces around labelled parts -/
  | record
  /-- parentheses around parts -/
  | tuple
  /-- square brackets -/
  | list
  /-- braces around entries -/
  | table
deriving DecidableEq, Repr

namespace Brackets

/-- What opens the group, behind its name. -/
def opening : Brackets → String
  | record => " \x7b"
  | tuple => "("
  | list => "["
  | table => "\x7b"

/-- What closes the group. -/
def closing : Brackets → String
  | record => "\x7d"
  | tuple => ")"
  | list => "]"
  | table => "\x7d"

/-- What stands inside the brackets on either side if all is on one line. -/
def padding : Brackets → String
  | record => " "
  | _ => ""

end Brackets

/-- A tree to be shown. -/
inductive Outline where
  /-- a text -/
  | leaf (text : String)
  /-- something with a label in front -/
  | labelled (label : String) (content : Outline)
  /-- a named group -/
  | group (name : String) (brackets : Brackets) (members : List Outline)

namespace Outline

/-- A character by its code point, in hexadecimal. -/
def codePoint (c : Char) : String :=
  "\\u\x7b" ++ String.ofList (Nat.toDigits 16 c.toNat) ++ "\x7d"

/-- A character as it stands between quotes. The quote, the backslash and four
control characters have escapes of their own. A character that cannot be seen,
or that would attach to the one before it, is written by its code point. -/
def escape (c : Char) : String :=
  if c = '"' then "\\\""
  else if c = '\\' then "\\\\"
  else if c = '\n' then "\\n"
  else if c = '\t' then "\\t"
  else if c = '\r' then "\\r"
  else if c.toNat = 0 then "\\0"
  else if Text.isInvisible c || Text.isExtending c then codePoint c
  else c.toString

/-- A text in quotes. -/
def quoted (text : String) : String :=
  "\"" ++ String.join (text.toList.map escape) ++ "\""

/-- A text in quotes, as an outline. -/
def string (text : String) : Outline := leaf (quoted text)

/-- A record: a name and labelled parts. -/
def record (name : String) (parts : List (String × Outline)) : Outline :=
  group name .record (parts.map fun (label, content) => labelled label content)

/-- A name and one part. -/
def tagged (name : String) (content : Outline) : Outline := group name .tuple [content]

/-- A list. -/
def list (members : List Outline) : Outline := group "" .list members

/-- A table of named things. -/
def table (entries : List (String × Outline)) : Outline :=
  group "" .table (entries.map fun (name, content) => labelled (quoted name) content)

/-- Something that may be missing. -/
def optional (content : Option Outline) : Outline :=
  match content with
  | none => leaf "None"
  | some content => tagged "Some" content

mutual

/-- The outline on one line. -/
def inline : Outline → String
  | leaf text => text
  | labelled label content => label ++ ": " ++ content.inline
  | group name brackets members =>
    name ++ brackets.opening ++ brackets.padding ++ ", ".intercalate (inlineAll members)
      ++ brackets.padding ++ brackets.closing

/-- Outlines on one line each. -/
def inlineAll : List Outline → List String
  | [] => []
  | o :: rest => o.inline :: inlineAll rest

end

mutual

/-- The outline with every member of a group on lines of its own. `margin` is
what stands in front of the line that the outline ends on. -/
def layout (margin : String) : Outline → String
  | leaf text => text
  | labelled label content => label ++ ": " ++ content.layout margin
  | group name brackets [] => name ++ brackets.opening ++ brackets.closing
  | group name brackets (first :: rest) =>
    let inner := margin ++ "    "
    name ++ brackets.opening ++ "\n" ++ inner ++ first.layout inner ++ ",\n"
      ++ layoutAll inner rest ++ margin ++ brackets.closing

/-- Outlines on lines of their own, each with a comma behind it. -/
def layoutAll (margin : String) : List Outline → String
  | [] => ""
  | o :: rest => margin ++ o.layout margin ++ ",\n" ++ layoutAll margin rest

end

end Outline

end ClassLang
