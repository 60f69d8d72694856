import ClassLang.Proofs.Fuel

/-!
# Arithmetic with whole numbers

Sums, differences and products of whole numbers, of literals and of variables
that hold such, have a value that no limit cuts off (`Expr.exactValue?`). The
language has a limit: it computes the parts of an expression one after the
other, operands before what is made of them (`Expr.inPostOrder`), and each must
fit. So there are two ways for an expression to end. If all parts fit, its value
is the exact one. If not, the first that does not fit is reported, even if the
whole would fit again.
-/

namespace ClassLang

/-- What an operator does to whole numbers, if that gives a whole number. -/
def BinaryOp.onIntegers? : BinaryOp → Option (Int → Int → Int)
  | add => some (· + ·)
  | sub => some (· - ·)
  | mul => some (· * ·)
  | _ => none

namespace Expr

/-- The value of an expression of whole numbers as if there were no limit to
them. Other expressions have none. -/
def exactValue? (env : Environment) : Expr → Option Int
  | integer n => some n.val
  | var name =>
    match env.lookup? name with
    | some (.integer n) => some n.val
    | _ => none
  | binary op left right => do
    let operation ← op.onIntegers?
    return operation (← left.exactValue? env) (← right.exactValue? env)
  | _ => none

/-- Does an expression have an exact value, and one in range? -/
def StaysInRange (env : Environment) (e : Expr) : Prop := ∃ v ∈ e.exactValue? env, InRange v

instance (env : Environment) (e : Expr) : Decidable (e.StaysInRange env) :=
  inferInstanceAs (Decidable (∃ v ∈ e.exactValue? env, InRange v))

mutual

/-- An expression and all inside of it, from left to right and operands before
what is made of them. -/
def inPostOrder : Expr → List Expr
  | not operand => operand.inPostOrder ++ [not operand]
  | logic op left right => left.inPostOrder ++ right.inPostOrder ++ [logic op left right]
  | binary op left right => left.inPostOrder ++ right.inPostOrder ++ [binary op left right]
  | relation op negated left right =>
    left.inPostOrder ++ right.inPostOrder ++ [relation op negated left right]
  | call target arguments => allInPostOrder arguments ++ [call target arguments]
  | methodCall head path arguments =>
    allInPostOrder arguments ++ [methodCall head path arguments]
  | e => [e]

/-- Expressions and all inside of them, from left to right and operands before
what is made of them. -/
def allInPostOrder : List Expr → List Expr
  | [] => []
  | e :: rest => e.inPostOrder ++ allInPostOrder rest

end

/-- The first part of an expression that does not fit. -/
def misfit? (env : Environment) (e : Expr) : Option Expr :=
  e.inPostOrder.find? fun part => ¬ part.StaysInRange env

end Expr

/-! ## How the evaluation of an operation ends -/

namespace EvaluatesTo

variable {cx : Context} {s t u : State} {left right e : Expr} {op : BinaryOp}
  {r r' : Except RuntimeError Value} {l v : Value} {error : RuntimeError}

/-- An evaluation that comes to an end comes to no other one. -/
theorem iff (h : EvaluatesTo cx e s r t) : EvaluatesTo cx e s r' u ↔ r' = r ∧ u = t := by
  refine ⟨h.unique, ?_⟩
  rintro ⟨rfl, rfl⟩
  exact h

/-- An error of the left operand is one of the whole. -/
theorem binary_left (hl : EvaluatesTo cx left s (.error error) t) :
    EvaluatesTo cx (.binary op left right) s (.error error) t := by
  obtain ⟨fuel, hl⟩ := hl
  exact ⟨fuel + 1, Run.bind_of_error hl⟩

/-- So is one of the right operand, where the left one has a value. -/
theorem binary_right (hl : EvaluatesTo cx left s (.ok l) t)
    (hr : EvaluatesTo cx right t (.error error) u) :
    EvaluatesTo cx (.binary op left right) s (.error error) u := by
  obtain ⟨fuel, hl, hr⟩ := hl.with_one_fuel hr
  exact ⟨fuel + 1, (Run.bind_of_ok hl).trans (Run.bind_of_error hr)⟩

/-- Where both operands have values of one type, the operator is applied. -/
theorem binary (hl : EvaluatesTo cx left s (.ok l) t) (hr : EvaluatesTo cx right t (.ok v) u)
    (htype : l.type = v.type) :
    EvaluatesTo cx (.binary op left right) s (op.apply (.binary op left right) l v) u := by
  obtain ⟨fuel, hl, hr⟩ := hl.with_one_fuel hr
  have hcheck : checkOperands (.binary op left right) l v = .ok () := if_pos htype
  refine ⟨fuel + 1, (Run.bind_of_ok hl).trans ((Run.bind_of_ok hr).trans ?_)⟩
  rw [hcheck]
  rfl

end EvaluatesTo

/-! ## Exact values -/

/-- **Exact or reported**, for one operator. -/
theorem BinaryOp.apply_integers {op : BinaryOp} {operation : Int → Int → Int}
    (hop : op.onIntegers? = some operation) (e : Expr) (a b : Integer) :
    op.apply e (.integer a) (.integer b) = exactly e (Integer.ofInt? (operation a.val b.val)) := by
  cases op <;> cases hop <;> rfl

namespace Expr

variable {cx : Context} {s : State} {env : Environment} {e left right : Expr} {op : BinaryOp}
  {v : Int}

/-- A part with an exact value stays in range exactly if this value does. -/
theorem staysInRange_iff (h : e.exactValue? env = some v) : e.StaysInRange env ↔ InRange v := by
  simp [StaysInRange, h]

/-- A literal or a variable that holds a whole number fits. -/
theorem misfit?_of_leaf {n : Integer} (hparts : e.inPostOrder = [e])
    (h : e.exactValue? env = some n.val) : e.misfit? env = none := by
  rw [misfit?, hparts, List.find?_singleton, if_neg]
  simpa [staysInRange_iff h] using n.fits

/-- The parts of an operation are those of its operands, and itself. -/
theorem misfit?_binary (h : (binary op left right).exactValue? env = some v) :
    (binary op left right).misfit? env = ((left.misfit? env).or (right.misfit? env)).or
      (if InRange v then none else some (binary op left right)) := by
  rw [misfit?, inPostOrder, List.find?_append, List.find?_append, List.find?_singleton]
  simp [misfit?, staysInRange_iff h]

/-- The exact value of an operation is computed from those of its operands. -/
theorem exactValue?_binary (h : (binary op left right).exactValue? env = some v) :
    ∃ operation a b, op.onIntegers? = some operation ∧ left.exactValue? env = some a ∧
      right.exactValue? env = some b ∧ v = operation a b := by
  simp only [exactValue?, Option.bind_eq_bind, Option.bind_eq_some_iff, Option.pure_def,
    Option.some.injEq] at h
  obtain ⟨operation, hop, a, ha, b, hb, rfl⟩ := h
  exact ⟨operation, a, b, hop, ha, hb, rfl⟩

/-- An expression of whole numbers is evaluated to its value, or to the report
of the first part that does not fit. -/
theorem evaluatesTo_of_exactValue? (cx : Context) (h : e.exactValue? s.environment = some v) :
    (e.misfit? s.environment = none ∧
      ∃ n : Integer, n.val = v ∧ EvaluatesTo cx e s (.ok (.integer n)) s) ∨
    ∃ part, e.misfit? s.environment = some part ∧
      EvaluatesTo cx e s (.error (.overflow (.expression part))) s := by
  fun_induction exactValue? generalizing v
  case case1 n =>
    cases h
    exact .inl ⟨misfit?_of_leaf rfl rfl, n, rfl, 1, rfl⟩
  case case2 name n hname =>
    cases h
    refine .inl ⟨misfit?_of_leaf rfl (by rw [exactValue?, hname]), n, rfl, 1, ?_⟩
    change (Run.reads (·.environment.lookup? name) >>= _) s = _
    rw [Run.bind_of_ok (a := some (Value.integer n)) (t := s) (by rw [Run.reads, hname])]
    rfl
  case case4 op left right ihl ihr =>
    change (binary op left right).exactValue? s.environment = some v at h
    rw [misfit?_binary h]
    obtain ⟨operation, a, b, hop, ha, hb, rfl⟩ := exactValue?_binary h
    obtain ⟨hleft, l, rfl, hl⟩ | ⟨part, hleft, hl⟩ := ihl ha
    · obtain ⟨hright, r, rfl, hr⟩ | ⟨part, hright, hr⟩ := ihr hb
      · -- Both operands fit, so it is the operation itself that fits or does not.
        have happly : EvaluatesTo cx (.binary op left right) s _ s := hl.binary hr rfl
        rw [BinaryOp.apply_integers hop] at happly
        rw [hleft, hright, Option.or_none, Option.none_or]
        by_cases hfits : InRange (operation l.val r.val)
        · have hexact : Integer.ofInt? (operation l.val r.val) = some ⟨_, hfits⟩ :=
            Integer.ofInt?_eq_some_iff.mpr rfl
          rw [hexact] at happly
          exact .inl ⟨if_pos hfits, _, rfl, happly⟩
        · rw [Integer.ofInt?_eq_none_iff.mpr hfits] at happly
          exact .inr ⟨_, if_neg hfits, happly⟩
      · exact .inr ⟨part, by rw [hleft, hright]; rfl, hl.binary_right hr⟩
    · exact .inr ⟨part, by rw [hleft]; rfl, hl.binary_left⟩
  case case3 | case5 => cases h

/-- All parts of an expression of whole numbers have exact values. -/
theorem exists_exactValue?_of_mem (h : e.exactValue? env = some v) :
    ∀ part ∈ e.inPostOrder, ∃ w, part.exactValue? env = some w := by
  fun_induction exactValue? generalizing v
  case case1 n =>
    exact fun part hpart => ⟨n.val, by rw [List.mem_singleton.mp hpart, exactValue?]⟩
  case case2 name n hname =>
    exact fun part hpart => ⟨n.val, by rw [List.mem_singleton.mp hpart, exactValue?, hname]⟩
  case case4 op left right ihl ihr =>
    obtain ⟨operation, a, b, -, ha, hb, -⟩ := exactValue?_binary h
    intro part hpart
    rw [inPostOrder, List.mem_append, List.mem_append, List.mem_singleton] at hpart
    obtain (hpart | hpart) | rfl := hpart
    · exact ihl ha part hpart
    · exact ihr hb part hpart
    · exact ⟨v, h⟩
  case case3 | case5 => cases h

end Expr

/-- **Arithmetic with whole numbers is exact or reported.** Let an expression be
made of literals, of variables that hold whole numbers, and of sums, differences
and products, and let `v` be its exact value. In every state its evaluation comes
to one end and leaves the state as it is. The result is a whole number just if all
parts of the expression fit, and then it is `v`. Otherwise an overflow is
reported, with the text of the first part whose value does not fit. -/
theorem integer_arithmetic_exact (cx : Context) (s : State) (e : Expr) (v : Int)
    (h : e.exactValue? s.environment = some v) :
    ∃ r, (∀ r' s', EvaluatesTo cx e s r' s' ↔ r' = r ∧ s' = s) ∧
      (∀ n, r = .ok (.integer n) ↔
        (∀ part ∈ e.inPostOrder, part.StaysInRange s.environment) ∧ n.val = v) ∧
      ((¬ ∀ part ∈ e.inPostOrder, part.StaysInRange s.environment) →
        ∃ part w, e.misfit? s.environment = some part ∧
          part.exactValue? s.environment = some w ∧ ¬ InRange w ∧
          r = .error (.overflow (.expression part)) ∧
          (Site.expression part).text = part.text) := by
  obtain ⟨hnone, n, rfl, heval⟩ | ⟨part, hpart, heval⟩ :=
    Expr.evaluatesTo_of_exactValue? cx h
  · have hfit : ∀ part ∈ e.inPostOrder, part.StaysInRange s.environment := by
      simpa [Expr.misfit?] using hnone
    refine ⟨_, fun r' s' => heval.iff, fun m => ?_, fun hmisfit => absurd hfit hmisfit⟩
    constructor
    · rintro ⟨⟩
      exact ⟨hfit, rfl⟩
    · rintro ⟨-, hval⟩
      rw [Integer.ext hval]
  · have hmem : part ∈ e.inPostOrder := List.mem_of_find?_eq_some hpart
    have hmisfit : ¬ part.StaysInRange s.environment := by simpa using List.find?_some hpart
    refine ⟨_, fun r' s' => heval.iff, fun m => ?_, fun _ => ?_⟩
    · constructor
      · rintro ⟨⟩
      · exact fun hfit => absurd (hfit.1 part hmem) hmisfit
    · obtain ⟨w, hw⟩ := Expr.exists_exactValue?_of_mem h part hmem
      have hrange : ¬ InRange w := fun hrange => hmisfit ((Expr.staysInRange_iff hw).mpr hrange)
      exact ⟨part, w, hpart, hw, hrange, rfl, rfl⟩

/-- The greatest whole number. -/
def Integer.greatest : Integer := ⟨9223372036854775807, by decide⟩

/-- A state in which `x` is the greatest whole number. -/
def State.atGreatest : State where
  environment := { global := { vars := (∅ : Table Value).insert "x" (.integer .greatest) } }

/-- From the greatest number one can go down and up again, but not up and down:
then the sum is reported, though the value of the whole would fit. -/
theorem integer_arithmetic_exact_upAndDown :
    let x : Expr := .var "x"
    let down : Expr := .binary .add (.binary .sub x x) x
    let up : Expr := .binary .sub (.binary .add x x) x
    down.exactValue? State.atGreatest.environment = some Integer.greatest.val ∧
      up.exactValue? State.atGreatest.environment = some Integer.greatest.val ∧
      EvaluatesTo ⟨{}, 200⟩ down .atGreatest (.ok (.integer .greatest)) .atGreatest ∧
      EvaluatesTo ⟨{}, 200⟩ up .atGreatest
        (.error (.overflow (.expression (.binary .add x x)))) .atGreatest := by
  intro x down up
  have hdown : down.exactValue? State.atGreatest.environment = some Integer.greatest.val := rfl
  have hup : up.exactValue? State.atGreatest.environment = some Integer.greatest.val := rfl
  obtain ⟨r, hends, hok, -⟩ := integer_arithmetic_exact ⟨{}, 200⟩ .atGreatest down _ hdown
  obtain ⟨r', hends', -, herror⟩ := integer_arithmetic_exact ⟨{}, 200⟩ .atGreatest up _ hup
  obtain ⟨part, w, hpart, -, -, hr', -⟩ := herror (by decide)
  refine ⟨hdown, hup, (hends _ _).mpr ⟨?_, rfl⟩, (hends' _ _).mpr ⟨?_, rfl⟩⟩
  · exact ((hok .greatest).mpr ⟨by decide, rfl⟩).symm
  · rw [hr']
    cases hpart
    rfl

end ClassLang
