import ClassLang.Grammar
import ClassLang.Parse.Step

/-!
# Reading tokens

Parsing and the grammar look at tokens in different ways: a step of parsing
takes them off the front of a list, a derivation concatenates what its parts
derive. `Reads ts ks rest` is what they have in common: the tokens `ts` are
tokens of the kinds `ks`, and behind them the `rest`.

With it both sides can be said of one list of tokens:

* `Yields x a rest` — the step `x` ends with the result `a` and leaves `rest`;
* `Finds x a rest` — the same of a step that may find nothing where it starts;
* `Derived P ts a rest` — what is in front of `rest` derives `a`.

Steps in sequence yield what their parts yield, and the small steps of parsing
are settled here for good.
-/

namespace ClassLang

/-- The tokens are tokens of these kinds, none of them the end of the text, and
behind them the rest. -/
inductive Reads : List Token → List Kind → List Token → Prop where
  /-- nothing is read -/
  | nil {ts : List Token} : Reads ts [] ts
  /-- a token is read, and then others -/
  | cons {t : Token} {ts rest : List Token} {k : Kind} {ks : List Kind} :
    t.kind = k → k ≠ .stop → Reads ts ks rest → Reads (t :: ts) (k :: ks) rest

/-- In front of the rest there are tokens that derive the tree. -/
def Derived {α : Type} (P : List Kind → α → Prop) (ts : List Token) (a : α)
    (rest : List Token) : Prop :=
  ∃ ks, Reads ts ks rest ∧ P ks a

/-- A step of parsing ends with this result and leaves these tokens. -/
def Yields {α : Type} {n : Nat} (x : Parse (Parsed n α)) (a : α) (rest : List Token) : Prop :=
  ∃ h, x = .ok ⟨a, rest, h⟩

/-- A step of parsing finds something: this result, leaving these tokens. -/
def Finds {α : Type} {n : Nat} (x : Parse (Option (Parsed n α))) (a : α) (rest : List Token) :
    Prop :=
  ∃ h, x = .ok (some ⟨a, rest, h⟩)

/-! ## What is read -/

namespace Reads

variable {ts mid rest : List Token} {ks ls : List Kind} {k : Kind}

/-- What is read in two parts is read as a whole. -/
theorem trans (h : Reads ts ks mid) (h' : Reads mid ls rest) : Reads ts (ks ++ ls) rest := by
  induction h with
  | nil => exact h'
  | cons hkind hstop _ ih => exact .cons hkind hstop (ih h')

/-- What is read can be divided anywhere. -/
theorem append_iff : Reads ts (ks ++ ls) rest ↔ ∃ mid, Reads ts ks mid ∧ Reads mid ls rest := by
  constructor
  · intro h
    induction ks generalizing ts with
    | nil => exact ⟨ts, .nil, h⟩
    | cons k ks ih =>
      cases h with
      | cons hkind hstop h =>
        obtain ⟨mid, hks, hls⟩ := ih h
        exact ⟨mid, .cons hkind hstop hks, hls⟩
  · rintro ⟨mid, hks, hls⟩
    exact hks.trans hls

theorem cons_iff : Reads ts (k :: ks) rest ↔ ∃ mid, Reads ts [k] mid ∧ Reads mid ks rest :=
  @append_iff ts rest [k] ks

/-- The first token that is read is the next one. -/
theorem peek_eq (h : Reads ts (k :: ks) rest) : (peek ts).kind = k := by
  cases h with
  | cons hkind _ _ => exact hkind

/-- What was read can be read in front of anything. -/
theorem append_right (h : Reads ts ks rest) :
    ∃ taken, ts = taken ++ rest ∧ ∀ rest', Reads (taken ++ rest') ks rest' := by
  induction h with
  | nil => exact ⟨[], rfl, fun _ => .nil⟩
  | @cons t ts rest k ks hkind hstop _ ih =>
    obtain ⟨taken, rfl, htaken⟩ := ih
    exact ⟨t :: taken, rfl, fun rest' => .cons hkind hstop (htaken rest')⟩

end Reads

/-! ## Sequences of steps -/

section

variable {α β γ : Type} {m n : Nat} {x : Parse (Parsed m α)} {a : α} {b : β}
  {mid rest : List Token}

theorem Yields.shorter (h : Yields x a rest) : rest.length < m := h.1

/-- A step ends in one way. -/
theorem Yields.unique {a' : α} (h : Yields x a mid) (h' : Yields x a' rest) :
    a = a' ∧ mid = rest := by
  obtain ⟨hlt, rfl⟩ := h
  obtain ⟨hlt', heq⟩ := h'
  cases heq
  exact ⟨rfl, rfl⟩

/-- A step that yields something passes it on. -/
theorem Yields.bind_eq (h : Yields x a mid) (f : Parsed m α → Parse γ) :
    ∃ hlt, x >>= f = f ⟨a, mid, hlt⟩ := by
  obtain ⟨hlt, rfl⟩ := h
  exact ⟨hlt, rfl⟩

theorem Yields.bind_eq_of {f : Parsed m α → Parse γ} {y : Parse γ} (h : Yields x a mid)
    (hf : ∀ hlt, f ⟨a, mid, hlt⟩ = y) : x >>= f = y := by
  obtain ⟨hlt, heq⟩ := h.bind_eq f
  rw [heq, hf]

theorem exists_yields_of_bind {f : Parsed m α → Parse γ} {c : γ} (h : x >>= f = .ok c) :
    ∃ a mid hlt, Yields x a mid ∧ f ⟨a, mid, hlt⟩ = .ok c := by
  rcases x with e | ⟨a, mid, hlt⟩
  · cases h
  · exact ⟨a, mid, hlt, ⟨hlt, rfl⟩, h⟩

namespace Yields

variable {f : Parsed m α → Parse (Parsed n β)}

/-- Steps in sequence yield what the last one yields. -/
theorem bind (hx : Yields x a mid) (hf : ∀ h, Yields (f ⟨a, mid, h⟩) b rest) :
    Yields (x >>= f) b rest := by
  obtain ⟨hlt, heq⟩ := hx.bind_eq f
  rw [heq]
  exact hf hlt

/-- A sequence of steps that yields something is made of steps that do. -/
theorem of_bind (h : Yields (x >>= f) b rest) :
    ∃ a mid hlt, Yields x a mid ∧ Yields (f ⟨a, mid, hlt⟩) b rest := by
  obtain ⟨hrest, h⟩ := h
  obtain ⟨a, mid, hlt, hx, hf⟩ := exists_yields_of_bind h
  exact ⟨a, mid, hlt, hx, hrest, hf⟩

theorem ok {p : Parsed n β} : Yields (.ok p) p.value p.rest := ⟨p.shorter, rfl⟩

theorem of_ok {p : Parsed n β} (h : Yields (.ok p) b rest) : p.value = b ∧ p.rest = rest := by
  obtain ⟨_, h⟩ := h
  cases h
  exact ⟨rfl, rfl⟩

theorem not_error {e : ParseError} : ¬ Yields (.error e : Parse (Parsed n β)) b rest := by
  rintro ⟨_, ⟨⟩⟩

theorem not_wanted {what : Expectation} {ts : List Token} :
    ¬ Yields (wanted what ts : Parse (Parsed n β)) b rest :=
  not_error

end Yields

namespace Finds

variable {f : Parsed m α → Parse (Option (Parsed n β))}

theorem bind (hx : Yields x a mid) (hf : ∀ h, Finds (f ⟨a, mid, h⟩) b rest) :
    Finds (x >>= f) b rest := by
  obtain ⟨hlt, heq⟩ := hx.bind_eq f
  rw [heq]
  exact hf hlt

theorem of_bind (h : Finds (x >>= f) b rest) :
    ∃ a mid hlt, Yields x a mid ∧ Finds (f ⟨a, mid, hlt⟩) b rest := by
  obtain ⟨hrest, h⟩ := h
  obtain ⟨a, mid, hlt, hx, hf⟩ := exists_yields_of_bind h
  exact ⟨a, mid, hlt, hx, hrest, hf⟩

theorem ok {p : Parsed n β} : Finds (.ok (some p)) p.value p.rest := ⟨p.shorter, rfl⟩

theorem of_ok {p : Parsed n β} (h : Finds (.ok (some p)) b rest) : p.value = b ∧ p.rest = rest := by
  obtain ⟨_, h⟩ := h
  cases h
  exact ⟨rfl, rfl⟩

end Finds

end

/-! ## Single tokens -/

section

variable {α : Type} {ask : Kind → Option α} {ts rest : List Token} {a : α} {k : Kind}

theorem accept?_of_reads (ask : Kind → Option α) (h : Reads ts [k] rest)
    (hask : ask k = some a) : ∃ hlt, accept? ask ts = some ⟨a, rest, hlt⟩ := by
  cases h with
  | cons hkind _ h =>
    cases h
    subst hkind
    exact ⟨Nat.lt_succ_self _, by rw [accept?, hask]; rfl⟩

theorem accept?_of_peek (h : ask (peek ts).kind = none) : accept? ask ts = none := by
  rcases ts with _ | ⟨t, rest⟩
  · rfl
  · rw [accept?, show ask t.kind = none from h]
    rfl

/-- What a question that nobody asks about the end of the text accepts. -/
theorem accept?_cases (ask : Kind → Option α) (hstop : ask .stop = none) (ts : List Token) :
    (accept? ask ts = none ∧ ask (peek ts).kind = none) ∨
      ∃ k a rest hlt, accept? ask ts = some ⟨a, rest, hlt⟩ ∧ ask k = some a ∧
        Reads ts [k] rest := by
  rcases ts with _ | ⟨t, rest⟩
  · exact .inl ⟨rfl, hstop⟩
  · rcases hask : ask t.kind with _ | a
    · exact .inl ⟨accept?_of_peek hask, hask⟩
    · have hreads : Reads (t :: rest) [t.kind] rest :=
        .cons rfl (fun h => by rw [h, hstop] at hask; cases hask) .nil
      obtain ⟨hlt, haccept⟩ := accept?_of_reads ask hreads hask
      exact .inr ⟨t.kind, a, rest, hlt, haccept, hask, hreads⟩

theorem skip?_of_reads (h : Reads ts [k] rest) : ∃ hlt, skip? k ts = some ⟨(), rest, hlt⟩ :=
  accept?_of_reads _ h (if_pos rfl)

theorem skip?_of_peek (h : (peek ts).kind ≠ k) : skip? k ts = none :=
  accept?_of_peek (if_neg h)

theorem skip?_cases (hk : k ≠ .stop) (ts : List Token) :
    (skip? k ts = none ∧ (peek ts).kind ≠ k) ∨
      ∃ rest hlt, skip? k ts = some ⟨(), rest, hlt⟩ ∧ Reads ts [k] rest := by
  rcases accept?_cases (fun k' => if k' = k then some () else none) (if_neg (Ne.symm hk)) ts
    with ⟨hnone, hpeek⟩ | ⟨k', _, rest, hlt, hsome, hask, hreads⟩
  · exact .inl ⟨hnone, fun h => by rw [if_pos h] at hpeek; cases hpeek⟩
  · refine .inr ⟨rest, hlt, hsome, ?_⟩
    split at hask
    · next h => exact h ▸ hreads
    · cases hask

/-- An expected token that is there is read. -/
theorem expect_of_reads {what : Expectation} (h : Reads ts [k] rest) :
    Yields (expect k what ts) () rest := by
  obtain ⟨hlt, hskip⟩ := skip?_of_reads h
  exact ⟨hlt, by rw [expect, hskip]⟩

/-- What is read in place of an expected token is that token. -/
theorem reads_of_expect {what : Expectation} {u : Unit} (hk : k ≠ .stop)
    (h : Yields (expect k what ts) u rest) : Reads ts [k] rest := by
  rw [expect] at h
  rcases skip?_cases hk ts with ⟨hnone, -⟩ | ⟨mid, hlt, hsome, hreads⟩
  · rw [hnone] at h
    exact absurd h Yields.not_wanted
  · rw [hsome] at h
    obtain ⟨-, rfl⟩ := h.of_ok
    exact hreads

theorem Kind.name?_eq_some {name : String} (h : k.name? = some name) : k = .identifier name := by
  unfold name? at h
  split at h <;> cases h
  rfl

theorem parseName_of_reads {what : Expectation} {name : String}
    (h : Reads ts [.identifier name] rest) : Yields (parseName what ts) name rest := by
  obtain ⟨hlt, haccept⟩ := accept?_of_reads Kind.name? h rfl
  exact ⟨hlt, by rw [parseName, haccept]⟩

theorem reads_of_parseName {what : Expectation} {name : String}
    (h : Yields (parseName what ts) name rest) : Reads ts [.identifier name] rest := by
  rw [parseName] at h
  rcases accept?_cases Kind.name? rfl ts with
    ⟨hnone, -⟩ | ⟨k, name', mid, hlt, hsome, hask, hreads⟩
  · rw [hnone] at h
    exact absurd h Yields.not_wanted
  · rw [hsome] at h
    obtain ⟨rfl, rfl⟩ := h.of_ok
    exact Kind.name?_eq_some hask ▸ hreads

end

/-! ## Paths -/

/-- The tokens of the path behind a name. -/
def segmentKinds (path : List String) : List Kind :=
  path.flatMap fun segment => [.mark .dot, .identifier segment]

/-- The path that is parsed is the one that is read. -/
theorem parsePath_sound {path : List String} {rest : List Token} :
    ∀ ts : List Token, Yields (parsePath ts) path rest →
      Reads ts (segmentKinds path) rest := by
  intro ts h
  rw [parsePath] at h
  rcases skip?_cases (k := .mark .dot) (by rintro ⟨⟩) ts with
    ⟨hnone, -⟩ | ⟨mid, hlt, hsome, hdot⟩
  · rw [hnone] at h
    obtain ⟨rfl, rfl⟩ := h.of_ok
    exact .nil
  · rw [hsome] at h
    obtain ⟨segment, mid', hlt', hsegment, h⟩ := h.of_bind
    obtain ⟨more, rest', _, hmore, h⟩ := h.of_bind
    obtain ⟨rfl, rfl⟩ := h.of_ok
    exact (hdot.trans (reads_of_parseName hsegment)).trans (parsePath_sound mid' hmore)
termination_by ts => ts.length
decreasing_by omega

/-- A path is parsed in full, if no point follows it. -/
theorem parsePath_complete {path : List String} {ts rest : List Token}
    (h : Reads ts (segmentKinds path) rest) (hends : (peek rest).kind ≠ .mark .dot) :
    Yields (parsePath ts) path rest := by
  induction path generalizing ts with
  | nil =>
    cases h
    rw [parsePath, skip?_of_peek hends]
    exact .ok
  | cons segment path ih =>
    obtain ⟨mid, hdot, h⟩ := Reads.cons_iff.mp h
    obtain ⟨mid', hsegment, h⟩ := Reads.cons_iff.mp h
    obtain ⟨hlt, hskip⟩ := skip?_of_reads hdot
    rw [parsePath, hskip]
    exact (parseName_of_reads hsegment).bind fun _ => (ih h).bind fun _ => .ok

/-! ## Types -/

namespace Ty

theorem builtIn?_eq_some {allowVoid : Bool} {k : Kind} {type : Ty}
    (h : builtIn? allowVoid k = some type) : k = type.kind ∧ (type = .void → allowVoid = true) := by
  cases k with
  | keyword word =>
    cases word <;> cases allowVoid <;> cases h <;>
      first
        | exact ⟨rfl, fun _ => rfl⟩
        | exact ⟨rfl, by rintro ⟨⟩⟩
  | _ => cases h

theorem builtIn?_kind {allowVoid : Bool} {type : Ty} (hcls : ∀ name, type ≠ .cls name)
    (hvoid : type = .void → allowVoid = true) : builtIn? allowVoid type.kind = some type := by
  cases type with
  | cls name => exact absurd rfl (hcls name)
  | void => rw [hvoid rfl]; rfl
  | _ => rfl

end Ty

section

variable {allowVoid : Bool} {ts mid rest : List Token}

/-- A declaration starts with its type. -/
theorem leadingType?_cases (allowVoid : Bool) (ts : List Token) :
    leadingType? allowVoid ts = none ∨
      ∃ type rest hlt, leadingType? allowVoid ts = some ⟨type, rest, hlt⟩ ∧
        Reads ts [type.kind] rest ∧ (type = .void → allowVoid = true) := by
  rcases accept?_cases Kind.name? rfl ts with
    ⟨hnone, -⟩ | ⟨k, name, rest, hlt, hsome, hname, hk⟩
  · rcases accept?_cases (Ty.builtIn? allowVoid) rfl ts with
      ⟨hnone', -⟩ | ⟨k, type, rest, hlt, hsome, htype, hk⟩
    · left
      rw [leadingType?, hnone, ← hnone']
    · obtain ⟨rfl, hvoid⟩ := Ty.builtIn?_eq_some htype
      exact .inr ⟨type, rest, hlt, by rw [leadingType?, hnone, ← hsome], hk, hvoid⟩
  · by_cases hnext : (peek rest).kind.isIdentifier = true
    · obtain rfl := Kind.name?_eq_some hname
      refine .inr ⟨.cls name, rest, hlt, ?_, hk, by rintro ⟨⟩⟩
      rw [leadingType?, hsome]
      exact if_pos hnext
    · left
      rw [leadingType?, hsome]
      exact if_neg hnext

/-- A type in front of a name starts a declaration. -/
theorem leadingType?_of_reads (allowVoid : Bool) {type : Ty} {name : String} {ks : List Kind}
    (htype : Reads ts [type.kind] mid) (hname : Reads mid (.identifier name :: ks) rest)
    (hvoid : type = .void → allowVoid = true) :
    ∃ hlt, leadingType? allowVoid ts = some ⟨type, mid, hlt⟩ := by
  by_cases hcls : ∃ cls, type = .cls cls
  · obtain ⟨cls, rfl⟩ := hcls
    obtain ⟨hlt, haccept⟩ := accept?_of_reads Kind.name? htype rfl
    refine ⟨hlt, ?_⟩
    rw [leadingType?, haccept]
    exact if_pos (by rw [hname.peek_eq]; rfl)
  · have hbuiltIn := Ty.builtIn?_kind (fun name h => hcls ⟨name, h⟩) hvoid
    obtain ⟨hlt, haccept⟩ := accept?_of_reads _ htype hbuiltIn
    refine ⟨hlt, ?_⟩
    rw [leadingType?, accept?_of_peek, haccept]
    rw [htype.peek_eq]
    cases type with
    | cls name => exact absurd ⟨name, rfl⟩ hcls
    | _ => rfl

/-- A name that no other name follows starts no declaration. -/
theorem leadingType?_of_name {head : String} (hhead : Reads ts [.identifier head] mid)
    (hnext : (peek mid).kind.isIdentifier = false) : leadingType? allowVoid ts = none := by
  obtain ⟨hlt, haccept⟩ := accept?_of_reads Kind.name? hhead rfl
  rw [leadingType?, haccept]
  exact if_neg (by rw [hnext]; rintro ⟨⟩)

/-- Neither does anything that is no name and no type. -/
theorem leadingType?_of_peek (hname : (peek ts).kind.name? = none)
    (htype : Ty.builtIn? allowVoid (peek ts).kind = none) : leadingType? allowVoid ts = none := by
  rw [leadingType?, accept?_of_peek hname, accept?_of_peek htype]

end

end ClassLang
