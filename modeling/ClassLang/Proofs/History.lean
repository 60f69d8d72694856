import ClassLang.Proofs.Levels

/-!
# Histories of environments

An environment can be worked on in any order: scopes are opened and closed,
variables are declared, assigned to and looked at, whether or not that succeeds.
Here the operations are data (`Operation`), and a list of them is a history
(`Environment.after`).

Between an operation that opens a scope and one that closes it a history may do
what it likes, as long as it ends with as many scopes as it starts with and never
closes more than it has opened (`Environment.IsBalanced`). What it declares is
gone afterwards. What it assigns lasts if it was assigned to a variable that was
there before, and the last such assignment counts (`Environment.lastGiven?`).

The scopes that were there before are the lowest ones throughout. So a history
is followed by what one operation does to the scopes below those that stand on
top (`Environment.below_perform`).
-/

namespace ClassLang

/-- An operation on environments, with what it is given. -/
inductive Operation where
  /-- declares a variable -/
  | declare (name : String) (value : Value)
  /-- assigns to a variable -/
  | assign (name : String) (value : Value)
  /-- looks up what a variable holds -/
  | get (name : String)
  /-- asks whether there is a variable -/
  | contains (name : String)
  /-- looks up a routine -/
  | method (name : String)
  /-- looks up a native -/
  | native (name : String)
  /-- asks whether a `return` is on its way out -/
  | isReturning
  /-- declares a routine in the current scope -/
  | declareMethod (routine : Routine)
  /-- declares a routine in the global scope -/
  | defineFunction (routine : Routine)
  /-- makes a native known -/
  | defineNative (native : Native)
  /-- opens the scope of a block -/
  | startBlock
  /-- opens the scope of a call -/
  | enterCall
  /-- closes the scope of a block -/
  | endBlock
  /-- closes the scope of a call -/
  | leaveCall
  /-- leaves the result of a `return` -/
  | setReturn (value : Value)

namespace Operation

/-- Does the operation open a scope? -/
def opens : Operation → Bool
  | startBlock | enterCall => true
  | _ => false

/-- Does the operation close a scope? -/
def closes : Operation → Bool
  | endBlock | leaveCall => true
  | _ => false

end Operation

namespace Environment

/-- The environment behind an operation. Looking something up leaves it as it
is, and so does an operation that fails. -/
def perform (e : Environment) : Operation → Environment
  | .declare name value => (e.declare name value).toOption.getD e
  | .assign name value => (e.assign name value).toOption.getD e
  | .get _ | .contains _ | .method _ | .native _ | .isReturning => e
  | .declareMethod routine => e.declareMethod routine
  | .defineFunction routine => e.defineFunction routine
  | .defineNative native => e.defineNative native
  | .startBlock | .enterCall => e.startBlock
  | .endBlock => e.endBlock
  | .leaveCall => e.leaveCall.2
  | .setReturn value => e.setReturn value

/-- The environment behind a history. -/
def after (e : Environment) (history : List Operation) : Environment :=
  history.foldl perform e

/-- How many scopes there are. -/
def height (e : Environment) : Nat := e.scopes.length

/-- The history ends with as many scopes as it starts with, and at no time there
are fewer. -/
structure IsBalanced (e : Environment) (history : List Operation) : Prop where
  /-- it ends at the height at which it starts -/
  ends : (e.after history).height = e.height
  /-- it never goes below that -/
  stays : ∀ before, before <+: history → e.height ≤ (e.after before).height

/-- What an operation gives to a variable of the name that is in one of the
lowest `k` scopes: the value that it assigns, if there is such a variable and no
scope above those has one of the name. -/
def given? (k : Nat) (name : String) (e : Environment) : Operation → Option Value
  | .assign other value =>
    if other = name ∧ e.contains name = true ∧
        (e.scopes.take (e.height - k)).any (·.contains name) = false then some value
    else none
  | _ => none

/-- The last of the values that a history gives to a variable of the name in the
lowest `k` scopes, if it gives any. -/
def lastGiven? (k : Nat) (name : String) : Environment → List Operation → Option Value
  | _, [] => none
  | e, operation :: rest =>
    (lastGiven? k name (e.perform operation) rest).or (e.given? k name operation)

/-! ## The lower scopes -/

/-- The lowest scopes are these, and there are others on top of them. -/
def StandsOn (e : Environment) (below : List Scope) : Prop :=
  ∃ above, above ≠ [] ∧ e.scopes = above ++ below

/-- The second scopes are the first ones but for what was given to their
variables: they have the same names, and a name means what was given to it, or
what it meant before. -/
structure IsGiven (given : String → Option Value) (below below' : List Scope) : Prop where
  /-- every scope has the names it had -/
  names : namesOf below' = namesOf below
  /-- a name means what was given to it -/
  meaning : ∀ name, below'.findSome? (·.vars.get? name)
    = (given name).or (below.findSome? (·.vars.get? name))

section

variable {e : Environment} {below below' below'' : List Scope}
  {given given' : String → Option Value}

/-- Scopes to which nothing was given are the same. -/
theorem IsGiven.refl (below : List Scope) : IsGiven (fun _ => none) below below :=
  ⟨rfl, fun _ => (Option.none_or ..).symm⟩

/-- What is given later counts. -/
theorem IsGiven.trans (h : IsGiven given below below') (h' : IsGiven given' below' below'') :
    IsGiven (fun name => (given' name).or (given name)) below below'' where
  names := h'.names.trans h.names
  meaning name := by rw [h'.meaning, h.meaning, Option.or_assoc]

/-- Giving values changes no number of scopes. -/
theorem IsGiven.length_eq (h : IsGiven given below below') : below'.length = below.length := by
  simpa using congrArg List.length h.names

/-- The scopes at the top are the others. -/
theorem any_take_of_append {above : List Scope} (hscopes : e.scopes = above ++ below)
    (name : String) :
    (e.scopes.take (e.height - below.length)).any (·.contains name)
      = above.any (·.contains name) := by
  simp [height, hscopes]

end

/-! ## One operation -/

section

variable {e : Environment} {below : List Scope}

/-- There is always one scope at least. -/
theorem scopes_ne_nil (e : Environment) : e.scopes ≠ [] := by
  simp [scopes]

/-- An operation that opens a scope puts an empty one on top. -/
theorem scopes_perform_of_opens (e : Environment) {operation : Operation}
    (h : operation.opens = true) : (e.perform operation).scopes = {} :: e.scopes := by
  cases operation with
  | startBlock | enterCall => rfl
  | _ => cases h

/-- An operation that closes a scope takes away the one on top. -/
theorem scopes_perform_of_closes (e : Environment) {operation : Operation}
    (h : operation.closes = true) : (e.perform operation).scopes = e.endBlock.scopes := by
  cases operation with
  | endBlock | leaveCall => rfl
  | _ => cases h

/-- Closing takes the innermost scope away if others are left. -/
theorem scopes_endBlock_of_cons {s : Scope} {rest : List Scope} (h : e.scopes = s :: rest)
    (hrest : rest ≠ []) : e.endBlock.scopes = rest := by
  cases rest with
  | nil => exact absurd rfl hrest
  | cons s' rest => exact scopes_endBlock h

/-- What changes the innermost scope only leaves the lower ones alone. -/
theorem StandsOn.of_cons {e' : Environment} {s s' : Scope} {rest : List Scope}
    (h : e.StandsOn below) (hscopes : e.scopes = s :: rest) (hscopes' : e'.scopes = s' :: rest) :
    e'.StandsOn below := by
  obtain ⟨above, hne, happend⟩ := h
  cases above with
  | nil => exact absurd rfl hne
  | cons t above =>
    rw [hscopes] at happend
    refine ⟨s' :: above, by simp, ?_⟩
    rw [hscopes', (List.cons.inj happend).2]
    rfl

/-- An assignment reaches the lower scopes if none of the others has the name. -/
theorem StandsOn.set (h : e.StandsOn below) {other : String} (value : Value)
    (hcontains : e.contains other = true) :
    ∃ below', (e.set other value).StandsOn below' ∧
      IsGiven (fun name => e.given? below.length name (.assign other value)) below below' := by
  obtain ⟨above, hne, hscopes⟩ := h
  have hset : (e.set other value).scopes = _ := (scopes_set other value e).trans
    ((congrArg _ hscopes).trans (setFirst_append other value above below))
  by_cases htop : above.any (·.contains other) = true
  · rw [if_pos htop] at hset
    refine ⟨below, ⟨_, ?_, hset⟩, rfl, fun name => ?_⟩
    · exact fun hnil => hne (List.length_eq_zero_iff.mp (by rw [← length_setFirst, hnil]; rfl))
    · have : e.given? below.length name (.assign other value) = none := by
        rw [given?, any_take_of_append hscopes, if_neg]
        rintro ⟨rfl, -, hfalse⟩
        exact absurd htop (Bool.eq_false_iff.mp hfalse)
      rw [this, Option.none_or]
  · rw [if_neg htop] at hset
    refine ⟨_, ⟨above, hne, hset⟩, namesOf_setFirst .., fun name => ?_⟩
    rw [findSome?_vars_setFirst, given?, any_take_of_append hscopes]
    by_cases hname : other = name
    · subst hname
      -- As the name is in sight, and not on top, it means something below.
      rw [contains_eq, lookup?_eq, ← any_contains_eq, hscopes, List.any_append,
        Bool.eq_false_iff.mpr htop, Bool.false_or, any_contains_eq] at hcontains
      obtain ⟨old, hold⟩ := Option.isSome_iff_exists.mp hcontains
      simp [hold, htop, contains_eq, lookup?_eq, hscopes]
    · simp [hname]

/-- A routine that is defined changes no variable. -/
theorem StandsOn.defineFunction (h : e.StandsOn below) (hbelow : below ≠ []) (routine : Routine) :
    ∃ below', (e.defineFunction routine).StandsOn below' ∧
      IsGiven (fun _ => none) below below' := by
  obtain ⟨above, hne, hscopes⟩ := h
  rw [← List.dropLast_concat_getLast hbelow, ← List.append_assoc] at hscopes
  obtain ⟨hinner, hglobal⟩ := List.append_inj' hscopes rfl
  refine ⟨below.dropLast ++ [e.global.declareMethod routine], ⟨above, hne, ?_⟩, ?_, fun name => ?_⟩
  · rw [← List.append_assoc, ← hinner]
    rfl
  · conv_rhs => rw [← List.dropLast_concat_getLast hbelow]
    rw [← hglobal, namesOf, namesOf, List.map_append, List.map_append]
    rfl
  · conv_rhs => rw [← List.dropLast_concat_getLast hbelow]
    rw [← hglobal, List.findSome?_append, List.findSome?_append, Option.none_or]
    rfl

/-- Closing a scope leaves the lower ones alone if another is left on top. -/
theorem StandsOn.endBlock (h : e.StandsOn below) (hbelow : below ≠ [])
    (hheight : below.length < e.endBlock.height) : e.endBlock.StandsOn below := by
  obtain ⟨above, hne, hscopes⟩ := h
  cases above with
  | nil => exact absurd rfl hne
  | cons s above =>
    have htail := scopes_endBlock_of_cons hscopes (List.append_ne_nil_of_right_ne_nil _ hbelow)
    refine ⟨above, ?_, htail⟩
    rintro rfl
    rw [height, htail] at hheight
    exact absurd hheight (Nat.lt_irrefl _)

/-- One operation that does not close the last of the upper scopes. -/
theorem below_perform (h : e.StandsOn below) (hbelow : below ≠ []) (operation : Operation)
    (hheight : below.length < (e.perform operation).height) :
    ∃ below', (e.perform operation).StandsOn below' ∧
      IsGiven (fun name => e.given? below.length name operation) below below' := by
  have unchanged : ∀ {e' : Environment}, e'.StandsOn below →
      ∃ below', e'.StandsOn below' ∧ IsGiven (fun _ => none) below below' :=
    fun h' => ⟨below, h', .refl below⟩
  cases operation with
  | declare name value =>
    rw [perform]
    rcases hdeclare : e.declare name value with error | e'
    · exact unchanged h
    · obtain ⟨s, s', rest, hscopes, -, hscopes'⟩ := scopes_declare hdeclare
      exact unchanged (h.of_cons hscopes hscopes')
  | assign name value =>
    rw [perform, Environment.assign]
    by_cases hcontains : e.contains name = true
    · rw [if_pos hcontains]
      exact h.set value hcontains
    · rw [if_neg hcontains]
      refine ⟨below, h, rfl, fun key => ?_⟩
      have : e.given? below.length key (.assign name value) = none := by
        rw [given?, if_neg]
        rintro ⟨rfl, hkey, -⟩
        exact hcontains hkey
      rw [this, Option.none_or]
  | get | contains | method | native | isReturning | defineNative | setReturn => exact unchanged h
  | declareMethod routine =>
    obtain ⟨s, rest, hscopes, hscopes'⟩ := scopes_declareMethod e routine
    exact unchanged (h.of_cons hscopes hscopes')
  | defineFunction routine => exact h.defineFunction hbelow routine
  | startBlock | enterCall =>
    obtain ⟨above, -, hscopes⟩ := h
    exact unchanged ⟨{} :: above, by simp, congrArg _ hscopes⟩
  | endBlock | leaveCall => exact unchanged (h.endBlock hbelow hheight)

end

/-! ## Histories -/

section

variable {e : Environment} {below : List Scope}

/-- **A history that does not close the last of the upper scopes changes the
lower ones by what it gives to their variables.** -/
theorem below_after : ∀ (history : List Operation) {e : Environment} {below : List Scope},
    e.StandsOn below → below ≠ [] →
    (∀ before, before <+: history → below.length < (e.after before).height) →
    ∃ below', (e.after history).StandsOn below' ∧
      IsGiven (fun name => lastGiven? below.length name e history) below below'
  | [], _, below, h, _, _ => ⟨below, h, .refl below⟩
  | operation :: history, e, below, h, hbelow, hheight => by
    have hfirst := hheight [operation] (List.prefix_append [operation] history)
    obtain ⟨below₁, h₁, hgiven₁⟩ := below_perform h hbelow operation hfirst
    have hbelow₁ : below₁ ≠ [] := fun hnil => hbelow <|
      List.length_eq_zero_iff.mp (by rw [← hgiven₁.length_eq, hnil]; rfl)
    have hheight₁ : ∀ before, before <+: history →
        below₁.length < ((e.perform operation).after before).height := by
      intro before hbefore
      rw [hgiven₁.length_eq]
      exact hheight (operation :: before) (List.prefix_cons_inj operation |>.mpr hbefore)
    obtain ⟨below₂, h₂, hgiven₂⟩ := below_after history h₁ hbelow₁ hheight₁
    rw [hgiven₁.length_eq] at hgiven₂
    exact ⟨below₂, h₂, hgiven₁.trans hgiven₂⟩

/-- A history on a scope that is opened and closed changes the scopes below by
what it gives to their variables. -/
theorem scopes_of_isBalanced {opening closing : Operation} {history : List Operation}
    (hopening : opening.opens = true) (hclosing : closing.closes = true)
    (h : (e.perform opening).IsBalanced history) :
    IsGiven (fun name => (e.perform opening).lastGiven? e.height name history) e.scopes
      (((e.perform opening).after history).perform closing).scopes := by
  have hopened := e.scopes_perform_of_opens hopening
  have hheight : (e.perform opening).height = e.height + 1 := congrArg List.length hopened
  have hstands : (e.perform opening).StandsOn e.scopes := ⟨[{}], by simp, hopened⟩
  obtain ⟨below, ⟨above, -, hscopes⟩, hgiven⟩ := below_after history hstands e.scopes_ne_nil
    fun before hbefore => by
      have hstays := h.stays before hbefore
      rwa [hheight] at hstays
  -- At the end one scope stands on the lower ones, and that is closed.
  have habove : above.length = 1 := by
    have hends := h.ends
    rw [hheight, height, hscopes, List.length_append, hgiven.length_eq, height] at hends
    omega
  obtain ⟨top, rfl⟩ := List.length_eq_one_iff.mp habove
  have hbelow : below ≠ [] := fun hnil => e.scopes_ne_nil <|
    List.length_eq_zero_iff.mp (by rw [← hgiven.length_eq, hnil]; rfl)
  rw [scopes_perform_of_closes _ hclosing, scopes_endBlock_of_cons hscopes hbelow]
  exact hgiven

end

/-! ## Laws -/

/-- What holds of an environment whatever happened to it. -/
structure IsLawful (e : Environment) : Prop where
  /-- there is a current scope, which is the innermost -/
  current : e.scopes.head? = some e.current
  /-- a variable is there exactly if it can be read -/
  get : ∀ name, e.contains name = true ↔ ∃ v, e.get name = .ok v
  /-- a variable is there exactly if it can be assigned to -/
  assign : ∀ name value, e.contains name = true ↔ ∃ e', e.assign name value = .ok e'
  /-- a declaration that fails changes nothing -/
  declare_error : ∀ (s s' : State) name value error, s.environment = e →
    Run.declare name value s = some (.error error, s') → s' = s
  /-- an assignment that fails changes nothing -/
  write_error : ∀ (s s' : State) name value error, s.environment = e →
    Run.write (.var name) value s = some (.error error, s') → s' = s

/-- The laws hold in every environment. -/
theorem isLawful (e : Environment) : e.IsLawful where
  current := by
    rw [scopes, Environment.current]
    cases e.inner <;> rfl
  get name := by
    rw [contains_eq, Environment.get]
    cases e.lookup? name <;> simp
  assign name value := by
    rw [Environment.assign]
    by_cases h : e.contains name = true
    · simp [h]
    · simp [h]
  declare_error s s' name value error _ h := by
    rw [Run.declare, Run.tryModify] at h
    split at h
    · cases h
    · cases h
      rfl
  write_error s s' name value error _ h := by
    rcases Run.write_eq_some h with ⟨slot, -, hok, -⟩ | ⟨-, hsame⟩
    · cases hok
    · exact hsame

/-- **Scopes obey their laws over any history.** Whatever happened to an
environment, there is a current scope, a variable that is there can be read and
assigned to and no other can, and what fails changes nothing. When a scope is
opened and closed again, and what happens in between is balanced, every scope
has the variables it had. A name then holds the last value that was assigned to
it while none of the scopes opened since had it, and otherwise what it held. -/
theorem laws_of_history (e : Environment) :
    (∀ history, (e.after history).IsLawful) ∧
    ∀ opening history closing, opening.opens = true → closing.closes = true →
      (e.perform opening).IsBalanced history →
      let closed := ((e.perform opening).after history).perform closing
      namesOf closed.scopes = namesOf e.scopes ∧
        ∀ name, closed.lookup? name
          = ((e.perform opening).lastGiven? e.height name history).or (e.lookup? name) := by
  refine ⟨fun history => isLawful _, fun opening history closing hopening hclosing hbalanced => ?_⟩
  have hgiven := scopes_of_isBalanced hopening hclosing hbalanced
  refine ⟨hgiven.names, fun name => ?_⟩
  rw [lookup?_eq, lookup?_eq]
  exact hgiven.meaning name

/-- A variable is assigned to from inside a block, is then shadowed, and is
assigned to again by a block in the block, which reaches its shadow only. -/
theorem laws_of_history_shadowed :
    let history : List Operation := [.assign "x" (.boolean true), .declare "x" .void,
      .startBlock, .assign "x" (.boolean false), .endBlock, .assign "x" .void]
    let e : Environment := ({} : Environment).perform (.declare "x" .void)
    (((e.perform .startBlock).after history).perform .leaveCall).lookup? "x"
      = some (.boolean true) := by
  intro history e
  have hbalanced : (e.perform .startBlock).IsBalanced history := by
    refine ⟨rfl, fun before hbefore => ?_⟩
    simp only [history, List.prefix_cons_iff, List.prefix_nil] at hbefore
    obtain rfl | ⟨_, rfl, rfl | ⟨_, rfl, rfl | ⟨_, rfl, rfl | ⟨_, rfl, rfl | ⟨_, rfl, rfl |
      ⟨_, rfl, rfl⟩⟩⟩⟩⟩⟩ := hbefore <;> decide
  exact ((laws_of_history e).2 .startBlock history .leaveCall rfl rfl hbalanced).2 "x"

end Environment

end ClassLang
