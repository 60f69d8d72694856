/-!
# Positions in a source text

Rows and columns start at one. A position is never stored per character: it is
what counting the text read so far gives (`Position.advance`), so every
statement about positions is a statement about text.

* `Position.step` — reading one character. Only a line feed starts a row.
* `Position.advance` — reading a list of characters.
-/

namespace ClassLang

/-- A place in the source text, between two characters. -/
structure Position where
  /-- the row, from one -/
  row : Nat := 1
  /-- the column, from one, counted in characters -/
  column : Nat := 1
deriving DecidableEq, Repr

namespace Position

/-- The place before the first character. -/
def origin : Position := {}

/-- The place after one more character: a line feed opens the next row, any
other character moves one column on. -/
def step (p : Position) (c : Char) : Position :=
  if c = '\n' then { row := p.row + 1, column := 1 }
  else { p with column := p.column + 1 }

/-- The place after a stretch of text. -/
def advance (p : Position) (text : List Char) : Position :=
  text.foldl step p

@[simp] theorem advance_nil (p : Position) : p.advance [] = p := rfl

@[simp] theorem advance_cons (p : Position) (c : Char) (text : List Char) :
    p.advance (c :: text) = (p.step c).advance text := rfl

/-- Reading two stretches of text is reading the first and then the second. -/
theorem advance_append (p : Position) (first second : List Char) :
    p.advance (first ++ second) = (p.advance first).advance second :=
  List.foldl_append

/-- The written form, row and column with a colon between them. -/
def text (p : Position) : String :=
  toString p.row ++ ":" ++ toString p.column

end Position

end ClassLang
