import ClassLang.Decimal.Shortest
import ClassLang.Expr
import ClassLang.Token.Lexeme

/-!
# Writing tokens

The canonical text of each kind of token, and which tokens have one. It is the
other direction of `Lexeme.read`: a name or a literal that the scanner can read
at all is read back from its spelling.

* `Kind.spelling` — the text. In strings the quote, the backslash, the line feed
  and the tab are escaped, and every other character stands for itself.
* `Kind.IsWritable` — is this a token that a text within the limits can have?
-/

namespace ClassLang

/-- A character as it is written inside a string. -/
def escaped (c : Char) : List Char :=
  if c = '"' then ['\\', '"']
  else if c = '\\' then ['\\', '\\']
  else if c = '\n' then ['\\', 'n']
  else if c = '\t' then ['\\', 't']
  else [c]

/-- A string as it is written, with its quotes. -/
def stringLiteral (value : String) : String :=
  String.ofList ('"' :: value.toList.flatMap escaped ++ ['"'])

namespace Kind

/-- The canonical text of a token. The end of the text has none. -/
def spelling : Kind → String
  | keyword word => word.spelling
  | mark m => m.spelling
  | identifier name => name
  | integer value => value.text
  | double whole fraction places => decimalText whole fraction places
  | string value => stringLiteral value
  | stop => ""

/-- Is a text a name: a word that is not reserved? -/
def IsName (name : String) : Prop :=
  (∃ c rest, name.toList = c :: rest ∧ isWordStart c = true ∧ ∀ d ∈ rest, isWordPart d = true) ∧
    ∀ word : Keyword, word.spelling ≠ name

/-- Can a text within the limits have this token? Names must be names and
numbers must not be negative; a fraction has as many digits as it has places,
which leading zeros fill up. -/
def IsWritable (limits : Limits) : Kind → Prop
  | keyword _ => True
  | mark _ => True
  | identifier name => IsName name ∧ name.length ≤ limits.identifier
  | integer value => 0 ≤ value.val
  | double whole fraction places =>
    0 ≤ whole.val ∧ 0 ≤ fraction.val ∧ 1 ≤ places ∧ places < 4294967296 ∧
      fraction.val.toNat < tenTo places
  | string value => value.length ≤ limits.string
  | stop => False

theorem isName_iff {name : String} :
    IsName name ↔ (name.toList.head?.any isWordStart && name.toList.tail.all isWordPart) = true ∧
      ∀ word ∈ Keyword.all, word.spelling ≠ name := by
  refine and_congr ?_ ⟨fun h word _ => h word, fun h word => h word (by cases word <;> decide)⟩
  rcases name.toList with _ | ⟨c, rest⟩
  · simp
  · constructor
    · rintro ⟨_, _, ⟨⟩, hstart, hrest⟩
      simpa [hstart] using hrest
    · intro h
      exact ⟨c, rest, rfl, by simpa using h⟩

instance (name : String) : Decidable (IsName name) := decidable_of_iff' _ isName_iff

instance (limits : Limits) : (k : Kind) → Decidable (k.IsWritable limits)
  | keyword _ | mark _ => .isTrue trivial
  | identifier name => inferInstanceAs (Decidable (IsName name ∧ name.length ≤ limits.identifier))
  | integer value => inferInstanceAs (Decidable (0 ≤ value.val))
  | double whole fraction places => inferInstanceAs (Decidable (0 ≤ whole.val ∧
      0 ≤ fraction.val ∧ 1 ≤ places ∧ places < 4294967296 ∧ fraction.val.toNat < tenTo places))
  | string value => inferInstanceAs (Decidable (value.length ≤ limits.string))
  | stop => .isFalse id

end Kind

end ClassLang
