import ClassLang.Parse.Step

/-!
# Parsing expressions

From the loosest to the tightest, the levels of an expression are disjunction,
conjunction, equality, relation, sum, product and primary. Four of them are
chains: operands of the next level joined by operators, grouping to the left
(`Chain`). Equality joins two operands at most, and so does a relation, in
front of which an exclamation mark negates it as a whole; the words for the
two truth values are relations by themselves.

Only a primary leads back to the loosest level, in parentheses or in the
arguments of a call, and only behind a token it has read. So the recursion ends
by the number of tokens left, and at the same number by the level.
-/

namespace ClassLang

/-- The levels whose operators form chains. -/
inductive Chain where
  | disjunction
  | conjunction
  | sum
  | product
deriving DecidableEq, Repr

/-- The levels of an expression. -/
inductive Level where
  | chain (chain : Chain)
  | equality
  | relation
  | primary
deriving DecidableEq, Repr

namespace Level

/-- The loosest level: any expression. -/
def top : Level := .chain .disjunction

/-- How loose a level is. The rank below that of a relation is left for the
comparison inside it. -/
def rank : Level → Nat
  | chain .disjunction => 8
  | chain .conjunction => 7
  | equality => 6
  | relation => 5
  | chain .sum => 3
  | chain .product => 2
  | primary => 1

theorem rank_lt (level : Level) : level.rank < 9 := by
  rcases level with c | _ | _ | _
  · cases c <;> decide
  all_goals decide

end Level

namespace Chain

/-- The level of the operands of a chain. -/
def operand : Chain → Level
  | disjunction => .chain .conjunction
  | conjunction => .equality
  | sum => .chain .product
  | product => .primary

theorem rank_operand_lt (c : Chain) : c.operand.rank < (Level.chain c).rank := by
  cases c <;> decide

/-- The expression that an operator of a chain builds from its operands, if a
token is one. -/
def operator? : Chain → Kind → Option (Expr → Expr → Expr)
  | disjunction, .mark .pipe => some (.logic .or)
  | conjunction, .mark .ampersand => some (.logic .and)
  | sum, .mark .plus => some (.binary .add)
  | sum, .mark .minus => some (.binary .sub)
  | product, .mark .star => some (.binary .mul)
  | product, .mark .slash => some (.binary .div)
  | _, _ => none

end Chain

/-- The operator of equality that a token is, if it is one. -/
def equalityOp? : Kind → Option BinaryOp
  | .mark .equalEqual => some .eq
  | .mark .bangEqual => some .ne
  | _ => none

/-- The operator of order that a token is, if it is one. -/
def relationOp? : Kind → Option RelationOp
  | .mark .lessEqual => some .le
  | .mark .greaterEqual => some .ge
  | .mark .less => some .lt
  | .mark .greater => some .gt
  | _ => none

/-- The truth value that a token is, if it is one. -/
def truthValue? : Kind → Option Bool
  | .keyword .trueWord => some true
  | .keyword .falseWord => some false
  | _ => none

/-- The literal that a token is, if it is one. -/
def literal? : Kind → Option Expr
  | .integer value => some (.integer value)
  | .double whole fraction places => some (.decimal whole fraction places)
  | .string value => some (.string value)
  | _ => none

/-- A name with its path, as an expression. -/
def reference (head : String) (path : List String) : Expr :=
  if path.isEmpty then .var head else .member head path

/-- A name with its path, as a target. -/
def targetOf (head : String) (path : List String) : Target :=
  if path.isEmpty then .var head else .member head path

/-- A call of a name with its path, as it stands inside an expression. -/
def callOf (head : String) (path : List String) (arguments : List Expr) : Expr :=
  if path.isEmpty then .call (.var head) arguments else .methodCall head path arguments

/-- A relation that an exclamation mark may stand in front of. -/
def negateIf (negated : Bool) (e : Expr) : Expr :=
  if negated then .not e else e

mutual

/-- Reads an expression of a level. -/
def parseLevel (level : Level) (tokens : List Token) : Parse (Parsed tokens.length Expr) :=
  match level with
  | .chain c => do
    let ⟨left, rest, h₁⟩ ← parseLevel c.operand tokens
    let ⟨value, rest, h₂⟩ ← parseChain c left rest
    return .upTo h₁ ⟨value, rest, h₂⟩
  | .equality => do
    let ⟨left, rest, h₁⟩ ← parseLevel .relation tokens
    match accept? equalityOp? rest with
    | none => return ⟨left, rest, h₁⟩
    | some ⟨op, rest, h₂⟩ => do
      let ⟨right, rest, h₃⟩ ← parseLevel .relation rest
      return .after h₁ (.after h₂ ⟨.binary op left right, rest, h₃⟩)
  | .relation =>
    match accept? truthValue? tokens with
    | some ⟨value, rest, h⟩ => return ⟨.boolean value, rest, h⟩
    | none =>
      match skip? (.mark .bang) tokens with
      | none => parseComparison false tokens
      | some ⟨_, rest, h₁⟩ => do
        let ⟨value, rest, h₂⟩ ← parseComparison true rest
        return .after h₁ ⟨value, rest, h₂⟩
  | .primary =>
    match accept? literal? tokens with
    | some literal => return literal
    | none =>
      match skip? (.mark .leftParen) tokens with
      | some ⟨_, rest, h₁⟩ => do
        let ⟨value, rest, h₂⟩ ← parseLevel .top rest
        let ⟨_, rest, h₃⟩ ← expect (.mark .rightParen) .groupClosing rest
        return .after h₁ (.after h₂ ⟨value, rest, h₃⟩)
      | none =>
        match accept? Kind.name? tokens with
        | none => wanted .expression tokens
        | some ⟨head, rest, h₁⟩ => do
          let ⟨path, rest, h₂⟩ ← parsePath rest
          match skip? (.mark .leftParen) rest with
          | none => return .upTo h₁ ⟨reference head path, rest, h₂⟩
          | some ⟨_, rest, h₃⟩ => do
            let ⟨arguments, rest, h₄⟩ ← parseArguments rest
            return .upTo h₁ (.after h₂ (.after h₃ ⟨callOf head path arguments, rest, h₄⟩))
termination_by 16 * tokens.length + level.rank
decreasing_by
  · have := c.rank_operand_lt; omega
  · omega
  · simp [Level.rank]
  · simp only [Level.rank]; omega
  · simp [Level.rank]
  · simp only [Level.rank]; omega
  · simp only [Level.rank, Level.top]; omega
  · simp only [Level.rank]; omega

/-- Reads the rest of a chain behind its first operands. -/
def parseChain (c : Chain) (left : Expr) (tokens : List Token) :
    Parse (Parsed (tokens.length + 1) Expr) :=
  match accept? c.operator? tokens with
  | none => return .here left tokens
  | some ⟨build, rest, h₁⟩ => do
    let ⟨right, rest, h₂⟩ ← parseLevel c.operand rest
    let ⟨value, rest, h₃⟩ ← parseChain c (build left right) rest
    return .weaken (.after h₁ (.upTo h₂ ⟨value, rest, h₃⟩))
termination_by 16 * tokens.length
decreasing_by
  · have := c.operand.rank_lt; omega
  · omega

/-- Reads sums, two at most, that an operator of order joins. -/
def parseComparison (negated : Bool) (tokens : List Token) :
    Parse (Parsed tokens.length Expr) := do
  let ⟨left, rest, h₁⟩ ← parseLevel (.chain .sum) tokens
  match accept? relationOp? rest with
  | none => return ⟨negateIf negated left, rest, h₁⟩
  | some ⟨op, rest, h₂⟩ => do
    let ⟨right, rest, h₃⟩ ← parseLevel (.chain .sum) rest
    let relation := negateIf negated (.relation op negated left right)
    return .after h₁ (.after h₂ ⟨relation, rest, h₃⟩)
termination_by 16 * tokens.length + 4
decreasing_by
  · simp [Level.rank]
  · simp only [Level.rank]; omega

/-- Reads the arguments of a call behind its opening parenthesis. -/
def parseArguments (tokens : List Token) : Parse (Parsed tokens.length (List Expr)) :=
  match skip? (.mark .rightParen) tokens with
  | some ⟨_, rest, h⟩ => return ⟨[], rest, h⟩
  | none => parseArgumentList tokens
termination_by 16 * tokens.length + 11
decreasing_by
  · omega

/-- Reads arguments, of which there is at least one, and the closing
parenthesis. -/
def parseArgumentList (tokens : List Token) : Parse (Parsed tokens.length (List Expr)) := do
  let ⟨argument, rest, h₁⟩ ← parseLevel .top tokens
  match skip? (.mark .comma) rest with
  | some ⟨_, rest, h₂⟩ => do
    let ⟨more, rest, h₃⟩ ← parseArgumentList rest
    return .after h₁ (.after h₂ ⟨argument :: more, rest, h₃⟩)
  | none => do
    let ⟨_, rest, h₂⟩ ← expect (.mark .rightParen) .argumentsClosing rest
    return .after h₁ ⟨[argument], rest, h₂⟩
termination_by 16 * tokens.length + 10
decreasing_by
  · simp [Level.rank, Level.top]
  · omega

end

end ClassLang
