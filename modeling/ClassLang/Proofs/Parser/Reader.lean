import ClassLang.Proofs.Parser.Program

/-!
# The parser without its bounds

A step of parsing carries a bound on what it leaves, for the sake of the
recursion. Without it a step is a computation whose state is the tokens left,
and the whole parser is written down in a few forms: read what another step
reads and go on, ask a question about the tokens in front, fail where one
stands. Each equation here is one function of the parser in that form; what is
said of all steps is then said of the forms once.

* `Reader` — such computations, and `reader`, which drops the bound of a step.
* `ask` — goes on one way if a question takes a token, and another way if not.
* `ifNext` — asks for the kind of the next token and leaves it.
-/

namespace ClassLang

/-- Computations that take tokens off a list, or stop with an error. -/
abbrev Reader : Type → Type := StateT (List Token) (Except ParseError)

section

variable {α β : Type}

/-- What a step comes to, without the bound on what it leaves. -/
def erase {n : Nat} (x : Parse (Parsed n α)) : Except ParseError (α × List Token) :=
  x.map fun p => (p.value, p.rest)

/-- A step of parsing without its bound. -/
def reader {n : List Token → Nat} (parse : (ts : List Token) → Parse (Parsed (n ts) α)) :
    Reader α :=
  fun ts => erase (parse ts)

/-- The same of a step that may find nothing where it starts. -/
def erase? {n : Nat} (ts : List Token) (x : Parse (Option (Parsed n α))) :
    Except ParseError (Option α × List Token) :=
  x.map fun
    | none => (none, ts)
    | some p => (some p.value, p.rest)

/-- A step that may find nothing where it starts, without its bound. -/
def reader? (parse : (ts : List Token) → Parse (Option (Parsed ts.length α))) :
    Reader (Option α) :=
  fun ts => erase? ts (parse ts)

/-- Stops at the first of the tokens left. -/
def fail (problem : Problem) : Reader α := fun ts => .error { unread := ts, problem }

/-- Asks a question about the tokens in front, and goes on with the answer. -/
def ask (look : (ts : List Token) → Option (Parsed ts.length α)) (none : Reader β)
    (some : α → Reader β) : Reader β :=
  fun ts =>
    match look ts with
    | .none => none ts
    | .some ⟨a, rest, _⟩ => some a rest

/-- Goes on one way or the other by the kind of the next token. -/
def ifNext (test : Kind → Prop) [DecidablePred test] (yes no : Reader β) : Reader β :=
  fun ts => if test (peek ts).kind then yes ts else no ts

/-! ## What a reader does -/

section

variable {n : List Token → Nat} {parse : (ts : List Token) → Parse (Parsed (n ts) α)}
  {ts mid : List Token} {a : α}

/-- A reader that ends well yields its result. -/
theorem reader_eq_ok_iff : reader parse ts = .ok (a, mid) ↔ Yields (parse ts) a mid := by
  rw [reader]
  rcases parse ts with e | p
  · exact ⟨by rintro ⟨⟩, fun h => absurd h Yields.not_error⟩
  · refine ⟨?_, fun h => by obtain ⟨rfl, rfl⟩ := h.of_ok; rfl⟩
    rintro ⟨⟩
    exact .ok

end

/-- Steps in sequence are readers in sequence. -/
theorem erase_bind {m n : Nat} {x : Parse (Parsed m α)} {f : Parsed m α → Parse (Parsed n β)}
    {ts : List Token} {p : Reader α} {k : α → Reader β} (hx : erase x = p ts)
    (hf : ∀ a mid h, erase (f ⟨a, mid, h⟩) = k a mid) : erase (x >>= f) = (p >>= k) ts := by
  change _ = (p ts).bind fun r => k r.1 r.2
  rw [← hx]
  rcases x with e | ⟨a, mid, h⟩
  · rfl
  · exact hf a mid h

theorem erase?_bind {m n : Nat} {x : Parse (Parsed m α)}
    {f : Parsed m α → Parse (Option (Parsed n β))} {ts start : List Token} {p : Reader α}
    {k : α → Reader (Option β)} (hx : erase x = p ts)
    (hf : ∀ a mid h, erase? start (f ⟨a, mid, h⟩) = k a mid) :
    erase? start (x >>= f) = (p >>= k) ts := by
  change _ = (p ts).bind fun r => k r.1 r.2
  rw [← hx]
  rcases x with e | ⟨a, mid, h⟩
  · rfl
  · exact hf a mid h

theorem bind_eq_map_fst {m : Nat} {x : Parse (Parsed m α)} {f : Parsed m α → Parse β}
    {ts : List Token} {p : Reader α} {k : α → Reader β} (hx : erase x = p ts)
    (hf : ∀ a mid h, f ⟨a, mid, h⟩ = (k a mid).map Prod.fst) :
    x >>= f = ((p >>= k) ts).map Prod.fst := by
  change _ = ((p ts).bind fun r => k r.1 r.2).map Prod.fst
  rw [← hx]
  rcases x with e | ⟨a, mid, h⟩
  · rfl
  · exact hf a mid h

/-- What only passes on a result comes to the same. -/
theorem erase_bind_eq {m n : Nat} {x : Parse (Parsed m α)} {f : Parsed m α → Parse (Parsed n α)}
    (hf : ∀ a mid h, erase (f ⟨a, mid, h⟩) = .ok (a, mid)) : erase (x >>= f) = erase x := by
  rcases x with e | ⟨a, mid, h⟩
  · rfl
  · exact hf a mid h

end

/-! ## Steps and expressions -/

theorem reader_expect (kind : Kind) (what : Expectation) :
    reader (expect kind what) = ask (skip? kind) (fail (.expected what)) fun _ => pure () := by
  funext ts
  rw [reader, expect, ask]
  rcases skip? kind ts with _ | ⟨_, rest, _⟩
  · rfl
  · rfl

theorem reader_parseName (what : Expectation) :
    reader (parseName what) = ask (accept? Kind.name?) (fail (.expected what)) pure := by
  funext ts
  rw [reader, parseName, ask]
  rcases accept? Kind.name? ts with _ | ⟨_, rest, _⟩
  · rfl
  · rfl

theorem reader_parsePath :
    reader parsePath = ask (skip? (.mark .dot)) (pure []) fun _ => (do
      let segment ← reader (parseName .pathSegment)
      let path ← reader parsePath
      return segment :: path) := by
  funext ts
  rw [reader, parsePath, ask]
  rcases skip? (.mark .dot) ts with _ | ⟨_, rest, _⟩
  · rfl
  · exact erase_bind rfl fun _ _ _ => erase_bind rfl fun _ _ _ => rfl

theorem reader_chain (c : Chain) :
    reader (parseLevel (.chain c)) = (do
      let left ← reader (parseLevel c.operand)
      reader (parseChain c left)) := by
  funext ts
  rw [reader, parseLevel]
  refine erase_bind rfl fun left mid _ => ?_
  exact erase_bind_eq fun _ _ _ => rfl

theorem reader_equality :
    reader (parseLevel .equality) = (do
      let left ← reader (parseLevel .relation)
      ask (accept? equalityOp?) (pure left) fun op => do
        let right ← reader (parseLevel .relation)
        return .binary op left right) := by
  funext ts
  rw [reader, parseLevel]
  refine erase_bind rfl fun _ mid _ => ?_
  dsimp only
  rw [ask]
  rcases accept? equalityOp? mid with _ | ⟨_, rest, _⟩
  · rfl
  · exact erase_bind rfl fun _ _ _ => rfl

theorem reader_relation :
    reader (parseLevel .relation) =
      ask (accept? truthValue?)
        (ask (skip? (.mark .bang)) (reader (parseComparison false)) fun _ =>
          reader (parseComparison true))
        fun value => pure (.boolean value) := by
  funext ts
  rw [reader, parseLevel, ask]
  rcases accept? truthValue? ts with _ | ⟨_, rest, _⟩
  · dsimp only
    rw [ask]
    rcases skip? (.mark .bang) ts with _ | ⟨_, rest, _⟩
    · rfl
    · exact erase_bind_eq fun _ _ _ => rfl
  · rfl

theorem reader_primary :
    reader (parseLevel .primary) =
      ask (accept? literal?)
        (ask (skip? (.mark .leftParen))
          (ask (accept? Kind.name?) (fail (.expected .expression)) fun head => do
            let path ← reader parsePath
            ask (skip? (.mark .leftParen)) (pure (reference head path)) fun _ => do
              let arguments ← reader parseArguments
              return callOf head path arguments)
          fun _ => do
            let value ← reader (parseLevel .top)
            let _ ← reader (expect (.mark .rightParen) .groupClosing)
            return value)
        pure := by
  funext ts
  rw [reader, parseLevel, ask]
  rcases accept? literal? ts with _ | ⟨_, rest, _⟩
  · dsimp only
    rw [ask]
    rcases skip? (.mark .leftParen) ts with _ | ⟨_, rest, _⟩
    · dsimp only
      rw [ask]
      rcases accept? Kind.name? ts with _ | ⟨_, rest, _⟩
      · rfl
      · refine erase_bind rfl fun _ mid _ => ?_
        dsimp only
        rw [ask]
        rcases skip? (.mark .leftParen) mid with _ | ⟨_, rest, _⟩
        · rfl
        · exact erase_bind rfl fun _ _ _ => rfl
    · exact erase_bind rfl fun _ _ _ => erase_bind rfl fun _ _ _ => rfl
  · rfl

theorem reader_parseChain (c : Chain) (left : Expr) :
    reader (parseChain c left) = ask (accept? c.operator?) (pure left) fun build => (do
      let right ← reader (parseLevel c.operand)
      reader (parseChain c (build left right))) := by
  funext ts
  rw [reader, parseChain, ask]
  rcases accept? c.operator? ts with _ | ⟨_, rest, _⟩
  · rfl
  · exact erase_bind rfl fun _ _ _ => erase_bind_eq fun _ _ _ => rfl

theorem reader_parseComparison (negated : Bool) :
    reader (parseComparison negated) = (do
      let left ← reader (parseLevel (.chain .sum))
      ask (accept? relationOp?) (pure (negateIf negated left)) fun op => do
        let right ← reader (parseLevel (.chain .sum))
        return negateIf negated (.relation op negated left right)) := by
  funext ts
  rw [reader, parseComparison]
  refine erase_bind rfl fun _ mid _ => ?_
  dsimp only
  rw [ask]
  rcases accept? relationOp? mid with _ | ⟨_, rest, _⟩
  · rfl
  · exact erase_bind rfl fun _ _ _ => rfl

theorem reader_parseArguments :
    reader parseArguments =
      ask (skip? (.mark .rightParen)) (reader parseArgumentList) fun _ => pure [] := by
  funext ts
  rw [reader, parseArguments, ask]
  rcases skip? (.mark .rightParen) ts with _ | ⟨_, rest, _⟩
  · rfl
  · rfl

theorem reader_parseArgumentList :
    reader parseArgumentList = (do
      let argument ← reader (parseLevel .top)
      ask (skip? (.mark .comma))
        (do
          let _ ← reader (expect (.mark .rightParen) .argumentsClosing)
          return [argument])
        fun _ => do
          let more ← reader parseArgumentList
          return argument :: more) := by
  funext ts
  rw [reader, parseArgumentList]
  refine erase_bind rfl fun _ mid _ => ?_
  dsimp only
  rw [ask]
  rcases skip? (.mark .comma) mid with _ | ⟨_, rest, _⟩
  · exact erase_bind rfl fun _ _ _ => rfl
  · exact erase_bind rfl fun _ _ _ => rfl

/-! ## Statements -/

theorem reader_parseInitial :
    reader parseInitial = ask (skip? (.mark .equal)) (pure none) fun _ => (do
      let value ← reader parseExpr
      return some value) := by
  funext ts
  rw [reader, parseInitial, ask]
  rcases skip? (.mark .equal) ts with _ | ⟨_, rest, _⟩
  · rfl
  · exact erase_bind rfl fun _ _ _ => rfl

theorem reader_parseDeclaration (type : Ty) :
    reader (parseDeclaration type) = (do
      let name ← reader (parseName .variableName)
      let initial ← reader parseInitial
      let _ ← reader (expect (.mark .semicolon) .declarationEnd)
      return .declare { type, name, initial }) := by
  funext ts
  exact erase_bind rfl fun _ _ _ => erase_bind rfl fun _ _ _ => erase_bind rfl fun _ _ _ => rfl

theorem reader_parseEffect (head : String) :
    reader (parseEffect head) = (do
      let path ← reader parsePath
      ask (skip? (.mark .leftParen))
        (ask (skip? (.mark .equal)) (fail (.expected .callOrAssignment)) fun _ => do
          let value ← reader parseExpr
          let _ ← reader (expect (.mark .semicolon) .assignmentEnd)
          return .assign (targetOf head path) value)
        fun _ => do
          let arguments ← reader parseArguments
          let _ ← reader (expect (.mark .semicolon) .callEnd)
          return .call (.call (targetOf head path) arguments)) := by
  funext ts
  rw [reader, parseEffect]
  refine erase_bind rfl fun _ mid _ => ?_
  dsimp only
  rw [ask]
  rcases skip? (.mark .leftParen) mid with _ | ⟨_, rest, _⟩
  · dsimp only
    rw [ask]
    rcases skip? (.mark .equal) mid with _ | ⟨_, rest, _⟩
    · rfl
    · exact erase_bind rfl fun _ _ _ => erase_bind rfl fun _ _ _ => rfl
  · exact erase_bind rfl fun _ _ _ => erase_bind rfl fun _ _ _ => rfl

theorem reader_parseCondition (opening closing : Expectation) :
    reader (parseCondition opening closing) = (do
      let _ ← reader (expect (.mark .leftParen) opening)
      let value ← reader parseExpr
      let _ ← reader (expect (.mark .rightParen) closing)
      return value) := by
  funext ts
  exact erase_bind rfl fun _ _ _ => erase_bind rfl fun _ _ _ => erase_bind rfl fun _ _ _ => rfl

theorem reader_parseBlock :
    reader parseBlock = (do
      let _ ← reader (expect (.mark .leftBrace) .blockOpening)
      reader parseBody) := by
  funext ts
  rw [reader, parseBlock]
  exact erase_bind rfl fun _ _ _ => erase_bind_eq fun _ _ _ => rfl

theorem reader_parseBody :
    reader parseBody = (do
      let body ← reader parseStatements
      let _ ← reader (expect (.mark .rightBrace) .blockClosing)
      return body) := by
  funext ts
  rw [reader, parseBody]
  exact erase_bind rfl fun _ _ _ => erase_bind rfl fun _ _ _ => rfl

theorem reader_parseStatements :
    reader parseStatements = (do
      match ← reader? parseStatement? with
      | none => return []
      | some first =>
        let more ← reader parseStatements
        return first :: more) := by
  funext ts
  rw [reader, parseStatements]
  change _ = (reader? parseStatement? ts).bind _
  rw [reader?]
  rcases parseStatement? ts with e | _ | ⟨first, rest, _⟩
  · rfl
  · rfl
  · exact erase_bind rfl fun _ _ _ => rfl

/-- Reads a statement behind the token that opens it. -/
def readOpened : Opening → Reader (Option Stmt)
  | .conditional => do
    let condition ← reader (parseCondition .ifOpening .ifClosing)
    let body ← reader parseBlock
    ask (skip? (.keyword .elseWord)) (pure (some (.ifThen condition body))) fun _ => do
      let otherwise ← reader parseBlock
      return some (.ifElse condition body otherwise)
  | .loop => do
    let condition ← reader (parseCondition .whileOpening .whileClosing)
    let body ← reader parseBlock
    return some (.loop condition body)
  | .result => do
    let value ← reader parseExpr
    let _ ← reader (expect (.mark .semicolon) .returnEnd)
    return some (.ret value)
  | .block => do
    let body ← reader parseBody
    return some (.block body)

theorem reader?_parseStatement? :
    reader? parseStatement? =
      ask (accept? opening?)
        (ask (leadingType? false)
          (ask (accept? Kind.name?) (pure none) fun head => do
            let effect ← reader (parseEffect head)
            return some effect)
          fun type => do
            let declaration ← reader (parseDeclaration type)
            return some declaration)
        readOpened := by
  funext ts
  rw [reader?, parseStatement?, ask]
  rcases accept? opening? ts with _ | ⟨_ | _ | _ | _, rest, _⟩
  · dsimp only
    rw [ask]
    rcases leadingType? false ts with _ | ⟨type, rest, _⟩
    · dsimp only
      rw [ask]
      rcases accept? Kind.name? ts with _ | ⟨head, rest, _⟩
      · rfl
      · exact erase?_bind rfl fun _ _ _ => rfl
    · exact erase?_bind rfl fun _ _ _ => rfl
  · refine erase?_bind rfl fun _ _ _ => erase?_bind rfl fun _ mid _ => ?_
    dsimp only
    rw [ask]
    rcases skip? (.keyword .elseWord) mid with _ | ⟨_, rest, _⟩
    · rfl
    · exact erase?_bind rfl fun _ _ _ => rfl
  · exact erase?_bind rfl fun _ _ _ => erase?_bind rfl fun _ _ _ => rfl
  · exact erase?_bind rfl fun _ _ _ => erase?_bind rfl fun _ _ _ => rfl
  · exact erase?_bind rfl fun _ _ _ => rfl

/-! ## Programs -/

/-- Takes a name that must not be defined yet. -/
def parseNew (what : Expectation) (definition : Definition) (taken : String → Bool)
    (tokens : List Token) : Parse (Parsed tokens.length String) := do
  let named ← parseName what tokens
  if taken named.value then redefined definition tokens else return named

theorem reader_parseParameter :
    reader parseParameter =
      ask (accept? Ty.ofKind?) (fail (.expected .parameterType)) fun type =>
        ask (skip? (.mark .star))
          (do
            let name ← reader (parseName .parameterName)
            return { type, name, byReference := false })
          fun _ => do
            let name ← reader (parseName .parameterName)
            return { type, name, byReference := true } := by
  funext ts
  rw [reader, parseParameter, ask]
  rcases accept? Ty.ofKind? ts with _ | ⟨type, rest, _⟩
  · rfl
  · dsimp only
    rw [ask]
    rcases skip? (.mark .star) rest with _ | ⟨_, rest, _⟩
    · exact erase_bind rfl fun _ _ _ => rfl
    · exact erase_bind rfl fun _ _ _ => rfl

theorem reader_parseParameterList :
    reader parseParameterList = (do
      let parameter ← reader parseParameter
      ask (skip? (.mark .comma)) (pure [parameter]) fun _ => do
        let more ← reader parseParameterList
        return parameter :: more) := by
  funext ts
  rw [reader, parseParameterList]
  refine erase_bind rfl fun _ mid _ => ?_
  dsimp only
  rw [ask]
  rcases skip? (.mark .comma) mid with _ | ⟨_, rest, _⟩
  · rfl
  · exact erase_bind rfl fun _ _ _ => rfl

theorem reader_parseParameters :
    reader parseParameters =
      ifNext (· = .mark .rightParen) (pure []) (reader parseParameterList) := by
  funext ts
  rw [reader, parseParameters, ifNext]
  split
  · rfl
  · exact erase_bind_eq fun _ _ _ => rfl

theorem reader_parseRoutine (returns : Ty) (name : String) :
    reader (parseRoutine returns name) = (do
      let _ ← reader (expect (.mark .leftParen) .parametersOpening)
      let parameters ← reader parseParameters
      let _ ← reader (expect (.mark .rightParen) .parametersClosing)
      let body ← reader parseBlock
      return { returns, name, parameters, body }) := by
  funext ts
  exact erase_bind rfl fun _ _ _ => erase_bind rfl fun _ _ _ => erase_bind rfl fun _ _ _ =>
    erase_bind rfl fun _ _ _ => rfl

theorem reader_parseNew (what : Expectation) (definition : Definition) (taken : String → Bool) :
    reader (parseNew what definition taken) =
      ifNext (fun kind => kind.name?.any taken) (fail (.redefined definition))
        (reader (parseName what)) := by
  funext ts
  rw [reader, parseNew, ifNext, reader, parseName]
  rcases ts with _ | ⟨t, rest⟩
  · rfl
  · change _ = if t.kind.name?.any taken = true then _ else _
    rw [accept?]
    rcases t.kind.name? with _ | name
    · rfl
    · change erase (if taken name = true then _ else _) = if taken name = true then _ else _
      split
      · rfl
      · rfl

/-- A name and the check that it is new are one step. -/
theorem erase_bind_parseNew {α : Type} {n : Nat} {what : Expectation} {definition : Definition}
    {taken : String → Bool} {ts : List Token} {f : Parsed ts.length String → Parse (Parsed n α)}
    {k : String → Reader α}
    (hf : ∀ name mid h, erase (f ⟨name, mid, h⟩) =
      if taken name then redefined definition ts else k name mid) :
    erase (parseName what ts >>= f) =
      (reader (parseNew what definition taken) >>= k) ts := by
  change _ = (erase (parseNew what definition taken ts)).bind fun r => k r.1 r.2
  rw [parseNew]
  rcases parseName what ts with e | ⟨name, mid, h⟩
  · rfl
  · change erase (f _) = (erase (if taken name then redefined definition ts else _)).bind _
    rw [hf]
    split
    · rfl
    · rfl

theorem reader_parseMembers (taken : List String) :
    reader (parseMembers taken) =
      ask (leadingType? true) (pure ([], [])) fun type => (do
        let name ← reader (parseNew .memberName .member fun name => decide (name ∈ taken))
        ifNext (· = .mark .leftParen)
          (do
            let method ← reader (parseRoutine type name)
            let (fields, methods) ← reader (parseMembers (name :: taken))
            return (fields, method :: methods))
          (do
            let initial ← reader parseInitial
            let _ ← reader (expect (.mark .semicolon) .memberEnd)
            let (fields, methods) ← reader (parseMembers (name :: taken))
            return ({ type, name, initial } :: fields, methods))) := by
  funext ts
  rw [reader, parseMembers, ask]
  rcases leadingType? true ts with _ | ⟨type, named, _⟩
  · rfl
  · refine erase_bind_parseNew fun name mid _ => ?_
    dsimp only
    simp only [decide_eq_true_eq]
    split
    · rfl
    · rw [ifNext]
      split
      · exact erase_bind rfl fun _ _ _ => erase_bind rfl fun _ _ _ => rfl
      · exact erase_bind rfl fun _ _ _ => erase_bind rfl fun _ _ _ =>
          erase_bind rfl fun _ _ _ => rfl

theorem reader_parseClass (name : String) :
    reader (parseClass name) = (do
      let _ ← reader (expect (.mark .leftBrace) .classOpening)
      let (fields, methods) ← reader (parseMembers [])
      let _ ← reader (expect (.mark .rightBrace) .classClosing)
      return { name, fields, methods }) := by
  funext ts
  exact erase_bind rfl fun _ _ _ => erase_bind rfl fun _ _ _ => erase_bind rfl fun _ _ _ => rfl

theorem reader_parseDefinitions (p : Program) :
    reader (parseDefinitions p) =
      ask (leadingType? true)
        (ask (skip? (.keyword .classWord)) (pure p) fun _ => do
          let name ← reader (parseNew .className .cls p.classes.contains)
          let cls ← reader (parseClass name)
          reader (parseDefinitions { p with classes := p.classes.insert name cls }))
        fun returns => (do
          let name ← reader (parseNew .functionName .function p.functions.contains)
          let function ← reader (parseRoutine returns name)
          reader (parseDefinitions { p with functions := p.functions.insert name function })) := by
  funext ts
  rw [reader, parseDefinitions, ask]
  rcases leadingType? true ts with _ | ⟨returns, named, _⟩
  · dsimp only
    rw [ask]
    rcases skip? (.keyword .classWord) ts with _ | ⟨_, named, _⟩
    · rfl
    · refine erase_bind_parseNew fun name mid _ => ?_
      dsimp only
      split
      · rfl
      · exact erase_bind rfl fun _ _ _ => erase_bind_eq fun _ _ _ => rfl
  · refine erase_bind_parseNew fun name mid _ => ?_
    dsimp only
    split
    · rfl
    · exact erase_bind rfl fun _ _ _ => erase_bind_eq fun _ _ _ => rfl

/-- A program, with the end of the text looked for but left. -/
def readProgram : Reader Program := do
  let _ ← reader (expect (.mark .leftBrace) .programOpening)
  let program ← reader (parseDefinitions {})
  let _ ← reader (expect (.mark .rightBrace) .programClosing)
  ifNext (· = .stop) (pure program) (fail (.expected .endOfText))

/-- Parsing a program is reading one and forgetting what is left. -/
theorem parseProgram_eq (ts : List Token) : parseProgram ts = (readProgram ts).map Prod.fst := by
  refine bind_eq_map_fst rfl fun _ _ _ => bind_eq_map_fst rfl fun _ _ _ =>
    bind_eq_map_fst rfl fun _ rest _ => ?_
  dsimp only
  rw [ifNext]
  split
  · rfl
  · rfl

end ClassLang
