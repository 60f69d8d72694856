import ClassLang.Program.Parts
import ClassLang.Program.Source
import ClassLang.Proofs.Scanner.Spelling

/-!
# Reading expressions back from their text

The text of an expression is laid out in one of three ways (`Layout`): it starts
with a name or a literal, behind which a path and arguments may stand; or it is
a string between quotes; or it is an operator with its operands, all of it in
parentheses. Two texts that start alike have the same layout:

* the first character tells which of the three it is;
* the scanner finds the first token, as what stands behind it does not go on
  with it (`first_unique`);
* a list of pieces is known if each of them is and the separator tells whether
  another one follows (`flatMap_unique`).

By induction on the expression, the text says where it ends and which expression
it is of (`Expr.IsLegible.text_unique`).
-/

namespace ClassLang

/-! ## Layouts -/

/-- How the text of an expression is laid out. -/
inductive Layout where
  /-- a token, a path behind it, and arguments in parentheses if it is a call -/
  | word (first : Kind) (path : List String) (arguments : Option (List Expr))
  /-- a string between quotes -/
  | quoted (value : String)
  /-- in parentheses the sign of an operator, and operands with a blank in front
  of each -/
  | operation (sign : Kind) (operands : List Expr)

namespace Expr

/-- How the text of the expression is laid out. -/
def layout : Expr → Layout
  | integer value => .word (.integer value) [] none
  | decimal whole fraction places => .word (.double whole fraction places) [] none
  | string value => .quoted value
  | boolean value => .word (.keyword (if value then .trueWord else .falseWord)) [] none
  | var name => .word (.identifier name) [] none
  | member head path => .word (.identifier head) path none
  | not operand => .operation (.mark .bang) [operand]
  | logic op left right => .operation op.kind [left, right]
  | binary op left right => .operation op.kind [left, right]
  | relation op _ left right => .operation op.kind [left, right]
  | call (.var name) arguments => .word (.identifier name) [] (some arguments)
  | call (.member head path) arguments => .word (.identifier head) path (some arguments)
  | methodCall head path arguments => .word (.identifier head) path (some arguments)

end Expr

/-- The operation with two operands that a sign stands for. -/
def Kind.operation : Kind → Expr → Expr → Expr
  | mark .pipe => .logic .or
  | mark .ampersand => .logic .and
  | mark .plus => .binary .add
  | mark .minus => .binary .sub
  | mark .star => .binary .mul
  | mark .slash => .binary .div
  | mark .equalEqual => .binary .eq
  | mark .bangEqual => .binary .ne
  | mark .less => .relation .lt false
  | mark .greater => .relation .gt false
  | mark .lessEqual => .relation .le false
  | mark .greaterEqual => .relation .ge false
  | _ => fun left _ => left

namespace Layout

/-- The expression of a layout. What the text does not tell apart is taken in one
of its forms. -/
def expr : Layout → Expr
  | word (.integer value) _ _ => .integer value
  | word (.double whole fraction places) _ _ => .decimal whole fraction places
  | word (.keyword name) _ _ => .boolean (name == .trueWord)
  | word (.identifier name) [] none => .var name
  | word (.identifier head) path none => .member head path
  | word (.identifier name) [] (some arguments) => .call (.var name) arguments
  | word (.identifier head) path (some arguments) => .methodCall head path arguments
  | operation _ [operand] => .not operand
  | operation sign [left, right] => sign.operation left right
  | quoted value => .string value
  | word _ _ _ | operation _ _ => .string ""

/-- The operands of an operation, or the arguments of a call. -/
def operands : Layout → List Expr
  | word _ _ arguments => arguments.getD []
  | quoted _ => []
  | operation _ operands => operands

end Layout

/-- Names with a point in front of each. -/
def dots (path : List String) : List Char := path.flatMap fun segment => '.' :: segment.toList

/-- The texts of expressions with a blank in front of each. -/
def blanks (es : List Expr) : List Char := es.flatMap fun e => ' ' :: e.text.toList

/-- The texts of further expressions, with a comma and a blank in front of each. -/
def moreCommas (es : List Expr) : List Char := es.flatMap fun e => ',' :: ' ' :: e.text.toList

/-- The texts of expressions with commas between them. -/
def commas : List Expr → List Char
  | [] => []
  | e :: rest => e.text.toList ++ moreCommas rest

/-- The text of arguments, if there are any, in front of what follows. -/
def argumentsBefore (rest : List Char) : Option (List Expr) → List Char
  | none => rest
  | some arguments => '(' :: (commas arguments ++ ')' :: rest)

/-- The text of a layout in front of what follows. -/
def Layout.before (rest : List Char) : Layout → List Char
  | word first path arguments =>
    first.spelling.toList ++ (dots path ++ argumentsBefore rest arguments)
  | quoted value => '"' :: (value.toList ++ '"' :: rest)
  | operation sign operands => '(' :: (sign.spelling.toList ++ (blanks operands ++ ')' :: rest))

/-- A dotted name is its head followed by the rest of its path. -/
theorem toList_dotted (head : String) (path : List String) :
    (dotted head path).toList = head.toList ++ dots path := by
  induction path generalizing head with
  | nil => simp [dotted, dots]
  | cons segment path ih =>
    have hmore := ih (head ++ "." ++ segment)
    rw [dotted] at hmore ⊢
    rw [List.foldl_cons, hmore]
    simp [dots]

/-- The texts of arguments are separated by commas. -/
theorem intercalate_texts (es : List Expr) :
    [',', ' '].intercalate ((Expr.texts es).map String.toList) = commas es := by
  induction es with
  | nil => rfl
  | cons e es ih =>
    cases es with
    | nil => simp [Expr.texts, commas, moreCommas]
    | cons e' es =>
      rw [Expr.texts, List.map_cons] at ih
      rw [Expr.texts, Expr.texts, List.map_cons, List.map_cons, List.intercalate_cons_cons, ih]
      simp [commas, moreCommas]

namespace Expr

/-- The layout has the operands of the expression. -/
theorem operands_layout (e : Expr) : e.layout.operands = e.operands := by
  cases e with
  | call target arguments => cases target <;> rfl
  | _ => rfl

/-- The layout in front of what follows is the text in front of what follows. -/
theorem before_layout (e : Expr) (rest : List Char) :
    e.layout.before rest = e.text.toList ++ rest := by
  cases e with
  | boolean value => cases value <;> rfl
  | member head path =>
    simp [layout, Layout.before, text, toList_dotted, argumentsBefore, Kind.spelling]
  | logic op left right | binary op left right | relation op negated left right =>
    cases op <;> simp [layout, Layout.before, text, blanks, LogicOp.kind, BinaryOp.kind,
      RelationOp.kind, LogicOp.symbol, BinaryOp.symbol, RelationOp.symbol, Kind.spelling,
      Mark.spelling]
  | call target arguments =>
    cases target <;> simp [layout, Layout.before, text, Target.text, toList_dotted, dots,
      intercalate_texts, argumentsBefore, Kind.spelling]
  | methodCall head path arguments =>
    simp [layout, Layout.before, text, toList_dotted, intercalate_texts, argumentsBefore,
      Kind.spelling]
  | _ => simp [layout, Layout.before, text, dots, argumentsBefore, blanks, Kind.spelling,
      Mark.spelling]

end Expr

/-! ## Legible layouts -/

/-- Can a word start with the token? -/
def Kind.IsWord : Kind → Prop
  | keyword _ | identifier _ | integer _ | double _ _ _ => True
  | mark _ | string _ | stop => False

/-- Can a layout be told from its text? Tokens must be some that can be read, a
path stands only behind a name, and a quote ends the string. -/
def Layout.IsLegible (limits : Limits) : Layout → Prop
  | word first path _ => first.IsWritable limits ∧ first.IsWord ∧
      (first.isIdentifier = false → path = []) ∧ ∀ segment ∈ path, Kind.IsName segment
  | quoted value => '"' ∉ value.toList
  | operation sign operands => (∃ m, sign = .mark m) ∧ operands ≠ []

/-- Can an expression be told from its text? -/
inductive Expr.IsLegible (limits : Limits) : Expr → Prop
  /-- its layout can, nothing is lost in that, and its operands can -/
  | mk {e : Expr} : e.layout.expr = e → e.layout.IsLegible limits →
    (∀ inner ∈ e.operands, inner.IsLegible limits) → e.IsLegible limits

/-- What may stand behind the text of an expression. -/
def EndsExpr (rest : List Char) : Prop := ∀ c ∈ rest.head?, c = ' ' ∨ c = ')' ∨ c = ','

/-- No word goes on, and no point stands in front of digits or a name. -/
structure EndsWord (rest : List Char) : Prop where
  /-- no word goes on -/
  word : rest.takeWhile isWordPart = []
  /-- there is no point -/
  point : rest.head? ≠ some '.'

variable {limits : Limits} {r r' : List Char}

/-- A word ends in front of a blank, a parenthesis or a comma. -/
theorem endsWord_of_head? (h : ∀ c ∈ r.head?, c = ' ' ∨ c = ')' ∨ c = ',' ∨ c = '(') :
    EndsWord r := by
  cases r with
  | nil => exact ⟨rfl, by simp⟩
  | cons c rest =>
    have hc := h c rfl
    refine ⟨?_, ?_⟩
    · rcases hc with rfl | rfl | rfl | rfl <;> rfl
    · rintro ⟨⟩
      simp at hc

/-- It also ends in front of arguments. -/
theorem EndsExpr.endsWord_arguments (h : EndsExpr r) (arguments : Option (List Expr)) :
    EndsWord (argumentsBefore r arguments) := by
  apply endsWord_of_head?
  cases arguments with
  | none => exact fun c hc => (h c hc).imp_right (Or.imp_right .inl)
  | some arguments => simp [argumentsBefore]

/-- No word goes on in front of a point. -/
theorem EndsWord.takeWhile_dots (h : EndsWord r) (path : List String) :
    (dots path ++ r).takeWhile isWordPart = [] := by
  cases path with
  | nil => exact h.word
  | cons segment path => rfl

/-! ## Pieces -/

/-- Where it is seen where each of several pieces ends, and what follows does not
start like one more, the pieces are known. -/
theorem flatMap_unique {α : Type} {code : α → List Char} {start : Char}
    {Ends : List Char → Prop} (hstart : ∀ text, Ends (start :: text)) {as bs : List α}
    (hcode : ∀ a ∈ as, ∀ b ∈ bs, ∀ {r r' : List Char}, Ends r → Ends r' →
      code a ++ r = code b ++ r' → a = b ∧ r = r')
    (hr : Ends r) (hr' : Ends r') (hne : r.head? ≠ some start) (hne' : r'.head? ≠ some start)
    (h : (as.flatMap fun a => start :: code a) ++ r = (bs.flatMap fun b => start :: code b) ++ r') :
    as = bs ∧ r = r' := by
  -- Behind a piece stands one more, or what follows all of them.
  have hends : ∀ {l : List α} {rest : List Char}, Ends rest →
      Ends ((l.flatMap fun a => start :: code a) ++ rest) := by
    intro l rest hrest
    cases l with
    | nil => exact hrest
    | cons a l => exact hstart _
  induction as generalizing bs with
  | nil =>
    cases bs with
    | nil => exact ⟨rfl, h⟩
    | cons b bs =>
      rw [List.flatMap_nil, List.nil_append] at h
      exact absurd (by simp [h]) hne
  | cons a as ih =>
    cases bs with
    | nil =>
      rw [List.flatMap_nil, List.nil_append] at h
      exact absurd (by simp [← h]) hne'
    | cons b bs =>
      rw [List.flatMap_cons, List.flatMap_cons, List.cons_append, List.cons_append,
        List.cons_append, List.cons_append, List.append_assoc, List.append_assoc] at h
      obtain ⟨rfl, hmore⟩ := hcode a List.mem_cons_self b List.mem_cons_self (hends hr) (hends hr')
        (List.cons.inj h).2
      obtain ⟨rfl, hrest⟩ := ih (fun a ha b hb =>
        hcode a (List.mem_cons_of_mem _ ha) b (List.mem_cons_of_mem _ hb)) hmore
      exact ⟨rfl, hrest⟩

/-- Words are known if they end where what follows does not go on with them. -/
theorem append_unique {p : Char → Bool} {text text' : List Char} (htext : ∀ c ∈ text, p c = true)
    (htext' : ∀ c ∈ text', p c = true) (hr : r.takeWhile p = []) (hr' : r'.takeWhile p = [])
    (h : text ++ r = text' ++ r') : text = text' ∧ r = r' := by
  have htake := congrArg (List.takeWhile p) h
  rw [takeWhile_append_of_nil htext hr, takeWhile_append_of_nil htext' hr'] at htake
  subst htake
  exact ⟨rfl, List.append_cancel_left h⟩

theorem forall_ne_of_notMem {c : Char} {text : List Char} (h : c ∉ text) :
    ∀ d ∈ text, (d != c) = true := by
  intro d hd
  simp only [bne_iff_ne]
  rintro rfl
  exact h hd

/-- A name consists of characters that words consist of. -/
theorem Kind.IsName.isWordPart {name : String} (h : Kind.IsName name) :
    ∀ c ∈ name.toList, isWordPart c = true := by
  obtain ⟨⟨c, rest, htext, hstart, hrest⟩, -⟩ := h
  rw [htext]
  exact List.forall_mem_cons.mpr ⟨Lexeme.isWordPart_of_isWordStart hstart, hrest⟩

/-- Paths are known where it is seen that they end. -/
theorem dots_unique {path path' : List String} (hpath : ∀ name ∈ path, Kind.IsName name)
    (hpath' : ∀ name ∈ path', Kind.IsName name) (hr : EndsWord r) (hr' : EndsWord r')
    (h : dots path ++ r = dots path' ++ r') : path = path' ∧ r = r' := by
  refine @flatMap_unique r r' String String.toList '.' (fun text => text.takeWhile isWordPart = [])
    (fun _ => rfl) path path' ?_ hr.word hr'.word hr.point hr'.point h
  intro name hname name' hname' r r' hr hr' h
  obtain ⟨hnames, hrest⟩ := append_unique (hpath name hname).isWordPart
    (hpath' name' hname').isWordPart hr hr' h
  exact ⟨String.toList_inj.mp hnames, hrest⟩

/-! ## First tokens -/

/-- The scanner finds the first token of a word. -/
theorem read_first {first : Kind} (hfirst : first.IsWritable limits) (hword : first.IsWord)
    (hr : r.takeWhile isWordPart = []) (hpoint : first.isIdentifier = false → r.head? ≠ some '.') :
    Lexeme.read limits (first.spelling.toList ++ r) =
      { length := first.spelling.toList.length, meaning := .ok first } := by
  cases first with
  | keyword word => exact Lexeme.read_keyword word hr
  | identifier name => exact Lexeme.read_name hfirst.1 hfirst.2 hr
  | integer value =>
    exact Lexeme.read_integer hfirst ⟨hr, fun _ => Lexeme.fractionDigits_of_head?_ne (hpoint rfl)⟩
  | double whole fraction places =>
    obtain ⟨hwhole, hfraction, hplaces, hbound, hfits⟩ := hfirst
    exact Lexeme.read_decimal hwhole hfraction hplaces hbound hfits hr
  | mark | string | stop => exact hword.elim

/-- The text of a number that is not negative starts with a digit. -/
theorem exists_digit (value : Integer) (hvalue : 0 ≤ value.val) :
    ∃ c text, value.text.toList = c :: text ∧ isWordPart c = true := by
  rw [Lexeme.toList_text hvalue]
  have hdigits := Lexeme.isDigit_of_mem_toDigits value.val.toNat
  obtain ⟨c, text, htext⟩ :=
    List.exists_cons_of_ne_nil (Nat.toDigits_ne_nil (b := 10) (n := value.val.toNat))
  rw [htext] at hdigits ⊢
  exact ⟨c, text, rfl, Lexeme.isWordPart_of_isDigit (hdigits c List.mem_cons_self)⟩

/-- The first character of a word is part of it. -/
theorem exists_wordPart {first : Kind} (hfirst : first.IsWritable limits) (hword : first.IsWord) :
    ∃ c text, first.spelling.toList = c :: text ∧ isWordPart c = true := by
  cases first with
  | keyword word => cases word <;> exact ⟨_, _, rfl, rfl⟩
  | identifier name =>
    obtain ⟨⟨c, text, htext, hstart, -⟩, -⟩ := hfirst.1
    exact ⟨c, text, htext, Lexeme.isWordPart_of_isWordStart hstart⟩
  | integer value => exact exists_digit value hfirst
  | double whole fraction places =>
    obtain ⟨hwhole, hfraction, hplaces, -, hfits⟩ := hfirst
    obtain ⟨digits, -, -, -, htext⟩ := Lexeme.fraction_digits hfraction hplaces hfits
    obtain ⟨c, text, hc, hpart⟩ := exists_digit whole hwhole
    exact ⟨c, text ++ '.' :: digits, by rw [Kind.spelling, htext, hc]; rfl, hpart⟩
  | mark | string | stop => exact hword.elim

/-- Words that start alike start with the same token. -/
theorem first_unique {first first' : Kind} {path path' : List String}
    {arguments arguments' : Option (List Expr)}
    (hl : (Layout.word first path arguments).IsLegible limits)
    (hl' : (Layout.word first' path' arguments').IsLegible limits)
    (hr : EndsWord r) (hr' : EndsWord r')
    (h : first.spelling.toList ++ (dots path ++ r) = first'.spelling.toList ++ (dots path' ++ r')) :
    first = first' ∧ dots path ++ r = dots path' ++ r' := by
  -- Behind a number there is no path, so no point that it could go on with.
  have hpoint : ∀ {first : Kind} {path : List String} {r : List Char},
      (first.isIdentifier = false → path = []) → EndsWord r →
        first.isIdentifier = false → (dots path ++ r).head? ≠ some '.' := by
    intro first path r hpath hr hfirst
    rw [hpath hfirst]
    exact hr.point
  have hread := read_first hl.1 hl.2.1 (hr.takeWhile_dots path) (hpoint hl.2.2.1 hr)
  rw [h, read_first hl'.1 hl'.2.1 (hr'.takeWhile_dots path') (hpoint hl'.2.2.1 hr')] at hread
  obtain rfl : first' = first := by simpa using congrArg Lexeme.meaning hread
  exact ⟨rfl, List.append_cancel_left h⟩

/-- No word starts with a character that is no part of words. -/
theorem word_ne {first : Kind} (hfirst : first.IsWritable limits) (hword : first.IsWord) {c : Char}
    (hc : isWordPart c = false) (rest text : List Char) :
    first.spelling.toList ++ rest ≠ c :: text := by
  obtain ⟨d, word, hspelling, hd⟩ := exists_wordPart hfirst hword
  rw [hspelling]
  rintro ⟨⟩
  rw [hc] at hd
  cases hd

/-- Operations that start alike have the same sign. -/
theorem sign_unique {m m' : Mark} (hr : Separated r) (hr' : Separated r')
    (h : m.spelling.toList ++ r = m'.spelling.toList ++ r') : m = m' ∧ r = r' := by
  have hread : Lexeme.read {} (m.spelling.toList ++ r) = _ := Lexeme.read_mark m hr
  rw [h, Lexeme.read_mark m' hr'] at hread
  obtain rfl : m' = m := by simpa using congrArg Lexeme.meaning hread
  exact ⟨rfl, List.append_cancel_left h⟩

/-! ## Operands and arguments -/

namespace Expr

/-- Do the texts of two expressions tell them apart, whatever follows? -/
def AreApart (e e' : Expr) : Prop :=
  ∀ {r r' : List Char}, EndsExpr r → EndsExpr r' →
    e.text.toList ++ r = e'.text.toList ++ r' → e = e' ∧ r = r'

/-- No expression starts with the parenthesis that ends arguments. -/
theorem IsLegible.ne_closed {e : Expr} (he : e.IsLegible limits) (rest text : List Char) :
    e.text.toList ++ rest ≠ ')' :: text := by
  cases he with
  | mk _ hlayout _ =>
    rw [← e.before_layout]
    generalize e.layout = l at hlayout
    cases l with
    | word first path arguments => exact word_ne hlayout.1 hlayout.2.1 rfl _ _
    | quoted value => rintro ⟨⟩
    | operation sign operands => rintro ⟨⟩

end Expr

theorem endsExpr_blank (text : List Char) : EndsExpr (' ' :: text) := by simp [EndsExpr]

theorem endsExpr_comma (text : List Char) : EndsExpr (',' :: text) := by simp [EndsExpr]

theorem endsExpr_closed (text : List Char) : EndsExpr (')' :: text) := by simp [EndsExpr]

/-- The operands of an operation are separated from its sign. -/
theorem separated_blanks {es : List Expr} (hes : es ≠ []) (text : List Char) :
    Separated (blanks es ++ text) := by
  cases es with
  | nil => exact absurd rfl hes
  | cons e es => exact separated_cons.mpr rfl

/-- The operands of an operation are known from their text. -/
theorem blanks_unique {es es' : List Expr} (hes : ∀ e ∈ es, ∀ e' ∈ es', e.AreApart e')
    (h : blanks es ++ ')' :: r = blanks es' ++ ')' :: r') : es = es' ∧ r = r' := by
  obtain ⟨rfl, hrest⟩ := flatMap_unique endsExpr_blank hes (endsExpr_closed r) (endsExpr_closed r')
    (by simp) (by simp) h
  exact ⟨rfl, (List.cons.inj hrest).2⟩

theorem endsExpr_moreCommas (es : List Expr) (text : List Char) :
    EndsExpr (moreCommas es ++ ')' :: text) := by
  cases es with
  | nil => exact endsExpr_closed text
  | cons e es => exact endsExpr_comma _

/-- The arguments behind the first are known from their text. -/
theorem moreCommas_unique {es es' : List Expr} (hes : ∀ e ∈ es, ∀ e' ∈ es', e.AreApart e')
    (h : moreCommas es ++ ')' :: r = moreCommas es' ++ ')' :: r') : es = es' ∧ r = r' := by
  have hcode : ∀ e ∈ es, ∀ e' ∈ es', ∀ {r r' : List Char}, EndsExpr r → EndsExpr r' →
      ' ' :: e.text.toList ++ r = ' ' :: e'.text.toList ++ r' → e = e' ∧ r = r' := by
    intro e he e' he' r r' hr hr' h
    exact hes e he e' he' hr hr' (List.cons.inj h).2
  obtain ⟨rfl, hrest⟩ := flatMap_unique endsExpr_comma hcode (endsExpr_closed r)
    (endsExpr_closed r') (by simp) (by simp) h
  exact ⟨rfl, (List.cons.inj hrest).2⟩

/-- Arguments are known from their text, none of them included. -/
theorem commas_unique {es es' : List Expr} (hlegible : ∀ e ∈ es, e.IsLegible limits)
    (hlegible' : ∀ e ∈ es', e.IsLegible limits) (hes : ∀ e ∈ es, ∀ e' ∈ es', e.AreApart e')
    (h : commas es ++ ')' :: r = commas es' ++ ')' :: r') : es = es' ∧ r = r' := by
  -- The parenthesis behind the last argument starts none, so none is not some.
  cases es with
  | nil =>
    cases es' with
    | nil => exact ⟨rfl, (List.cons.inj h).2⟩
    | cons e' es' =>
      rw [commas, commas, List.append_assoc] at h
      exact absurd h.symm ((hlegible' e' List.mem_cons_self).ne_closed _ _)
  | cons e es =>
    cases es' with
    | nil =>
      rw [commas, commas, List.append_assoc] at h
      exact absurd h ((hlegible e List.mem_cons_self).ne_closed _ _)
    | cons e' es' =>
      rw [commas, commas, List.append_assoc, List.append_assoc] at h
      obtain ⟨rfl, hmore⟩ := hes e List.mem_cons_self e' List.mem_cons_self
        (endsExpr_moreCommas es r) (endsExpr_moreCommas es' r') h
      obtain ⟨rfl, hrest⟩ := moreCommas_unique (fun a ha b hb =>
        hes a (List.mem_cons_of_mem _ ha) b (List.mem_cons_of_mem _ hb)) hmore
      exact ⟨rfl, hrest⟩

/-- Calls are told from names, and their arguments are known. -/
theorem arguments_unique {arguments arguments' : Option (List Expr)}
    (hlegible : ∀ e ∈ arguments.getD [], e.IsLegible limits)
    (hlegible' : ∀ e ∈ arguments'.getD [], e.IsLegible limits)
    (hes : ∀ e ∈ arguments.getD [], ∀ e' ∈ arguments'.getD [], e.AreApart e')
    (hr : EndsExpr r) (hr' : EndsExpr r')
    (h : argumentsBefore r arguments = argumentsBefore r' arguments') :
    arguments = arguments' ∧ r = r' := by
  cases arguments with
  | none =>
    cases arguments' with
    | none => exact ⟨rfl, h⟩
    | some es' =>
      have hopen := hr '(' (by rw [← show argumentsBefore r none = r from rfl, h]; rfl)
      simp at hopen
  | some es =>
    cases arguments' with
    | none =>
      have hopen := hr' '(' (by rw [← show argumentsBefore r' none = r' from rfl, ← h]; rfl)
      simp at hopen
    | some es' =>
      obtain ⟨rfl, hrest⟩ := commas_unique hlegible hlegible' hes (List.cons.inj h).2
      exact ⟨rfl, hrest⟩

/-! ## Expressions -/

/-- If their operands can be told apart, layouts can. -/
theorem Layout.before_unique {l l' : Layout} (hl : l.IsLegible limits) (hl' : l'.IsLegible limits)
    (hlegible : ∀ e ∈ l.operands, e.IsLegible limits)
    (hlegible' : ∀ e ∈ l'.operands, e.IsLegible limits)
    (hes : ∀ e ∈ l.operands, ∀ e' ∈ l'.operands, e.AreApart e')
    (hr : EndsExpr r) (hr' : EndsExpr r') (h : l.before r = l'.before r') : l = l' ∧ r = r' := by
  -- Different layouts do not start with the same character.
  cases l with
  | word first path arguments =>
    cases l' with
    | word first' path' arguments' =>
      have hends := hr.endsWord_arguments arguments
      have hends' := hr'.endsWord_arguments arguments'
      obtain ⟨rfl, hpath⟩ := first_unique hl hl' hends hends' h
      obtain ⟨rfl, harguments⟩ := dots_unique hl.2.2.2 hl'.2.2.2 hends hends' hpath
      obtain ⟨rfl, hrest⟩ := arguments_unique hlegible hlegible' hes hr hr' harguments
      exact ⟨rfl, hrest⟩
    | quoted value => exact absurd h (word_ne hl.1 hl.2.1 rfl _ _)
    | operation sign operands => exact absurd h (word_ne hl.1 hl.2.1 rfl _ _)
  | quoted value =>
    cases l' with
    | word first path arguments => exact absurd h.symm (word_ne hl'.1 hl'.2.1 rfl _ _)
    | quoted value' =>
      obtain ⟨hvalue, hrest⟩ := append_unique (forall_ne_of_notMem hl) (forall_ne_of_notMem hl')
        (by simp) (by simp) (List.cons.inj h).2
      exact ⟨congrArg quoted (String.toList_inj.mp hvalue), (List.cons.inj hrest).2⟩
    | operation sign operands => simp [before] at h
  | operation sign operands =>
    cases l' with
    | word first path arguments => exact absurd h.symm (word_ne hl'.1 hl'.2.1 rfl _ _)
    | quoted value => simp [before] at h
    | operation sign' operands' =>
      obtain ⟨⟨m, rfl⟩, hoperands⟩ := hl
      obtain ⟨⟨m', rfl⟩, hoperands'⟩ := hl'
      obtain ⟨rfl, hblanks⟩ := sign_unique (separated_blanks hoperands _)
        (separated_blanks hoperands' _) (List.cons.inj h).2
      obtain ⟨rfl, hrest⟩ := blanks_unique hes hblanks
      exact ⟨rfl, hrest⟩

/-- **An expression is known from its text**, whatever follows. -/
theorem Expr.IsLegible.text_unique {e e' : Expr} (he : e.IsLegible limits)
    (he' : e'.IsLegible limits) : e.AreApart e' := by
  induction he generalizing e' with
  | @mk e hexpr hlayout hoperands ih =>
  cases he' with
  | mk hexpr' hlayout' hoperands' =>
  intro r r' hr hr' h
  rw [← e.before_layout, ← e'.before_layout] at h
  rw [← e.operands_layout] at hoperands ih
  rw [← e'.operands_layout] at hoperands'
  obtain ⟨heq, hrest⟩ := Layout.before_unique hlayout hlayout' hoperands hoperands'
    (fun inner hinner inner' hinner' => ih inner hinner (hoperands' inner' hinner')) hr hr' h
  exact ⟨by rw [← hexpr, heq, hexpr'], hrest⟩

end ClassLang
