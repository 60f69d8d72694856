import ClassLang.Proofs.Parser.Reader

/-!
# What is read before an error can be completed

Where a step of parsing stops with an error, the tokens it has read up to there
begin something that the grammar derives. So no error comes late: the token
that is reported is the first one that does not fit.

A step is measured against a language, a relation between lists of tokens and
trees. What may follow tokens that are read already is again a language,
`after`, and that is how the claim passes from a sequence of steps to its
parts: the step behind a part is measured against the language behind what the
part derives. An error inside a part leaves something begun, which is ended
with the shortest tokens there are for all that was still to come.
-/

namespace ClassLang

/-! ## Languages -/

section

variable {α β : Type}

/-- What may stand behind these tokens. -/
def after (ks : List Kind) (P : List Kind → α → Prop) : List Kind → α → Prop :=
  fun ls a => P (ks ++ ls) a

theorem after_after (ks ls : List Kind) (P : List Kind → α → Prop) :
    after ls (after ks P) = after (ks ++ ls) P := by
  funext ms a
  rw [after, after, after, List.append_assoc]

/-- There are tokens that derive something. -/
def CanEnd (P : List Kind → α → Prop) : Prop :=
  ∃ ls a, (∀ k ∈ ls, k ≠ .stop) ∧ P ls a

/-- Nothing need stand behind what is derived already. -/
theorem canEnd_after {ks : List Kind} {P : List Kind → α → Prop} {a : α} (h : P ks a) :
    CanEnd (after ks P) :=
  ⟨[], a, by simp, by rwa [after, List.append_nil]⟩

/-- What is begun can be ended in two parts. -/
theorem canEnd_of_append {ks ls ms : List Kind} {P : List Kind → α → Prop} {a : α}
    (hls : ∀ k ∈ ls, k ≠ .stop) (hms : ∀ k ∈ ms, k ≠ .stop) (h : after (ks ++ ls) P ms a) :
    CanEnd (after ks P) :=
  ⟨ls ++ ms, a, fun k hk => (List.mem_append.mp hk).elim (hls k) (hms k),
    by rwa [after, List.append_assoc] at h⟩

/-- A language of what is found, where nothing may be found as well. -/
def Found (P : List Kind → α → Prop) (ks : List Kind) (found : Option α) : Prop :=
  ∃ a, found = some a ∧ P ks a

/-- What a step has read when it stops with an error begins something that the
language derives. -/
def Viable (P : List Kind → α → Prop) (p : Reader α) (ts : List Token) : Prop :=
  ∀ e, p ts = .error e → ∃ ks, Reads ts ks e.unread ∧ CanEnd (after ks P)

/-- A step of parsing reads what the language derives, or begins it. -/
structure Adheres (P : List Kind → α → Prop) {n : List Token → Nat}
    (parse : (ts : List Token) → Parse (Parsed (n ts) α)) (ts : List Token) : Prop where
  /-- what is read derives the result -/
  sound {a : α} {rest : List Token} : Yields (parse ts) a rest → Derived P ts a rest
  /-- what is read before an error can be completed -/
  viable : Viable P (reader parse) ts

namespace Viable

variable {P : List Kind → α → Prop} {ts : List Token}

theorem pure {a : α} : Viable P (pure a) ts := by
  rintro e ⟨⟩

/-- What begins something of one language begins something of a wider one. -/
theorem imp {Q : List Kind → α → Prop} {p : Reader α} (h : Viable P p ts)
    (hPQ : ∀ ks a, P ks a → Q ks a) : Viable Q p ts := by
  intro e he
  obtain ⟨ks, hks, ls, a, hls, ha⟩ := h e he
  exact ⟨ks, hks, ls, a, hls, hPQ _ _ ha⟩

/-- A step may stop with an error where the language can still be ended. -/
theorem fail {problem : Problem} (h : CanEnd P) : Viable P (fail problem) ts := by
  rintro e ⟨⟩
  exact ⟨[], .nil, h⟩

/-- What is read in front of a step is put back. -/
theorem of_reads {p : Reader α} {ks : List Kind} {mid : List Token} (hks : Reads ts ks mid)
    (h : Viable (after ks P) p mid) {e : ParseError} (he : p mid = .error e) :
    ∃ ls, Reads ts ls e.unread ∧ CanEnd (after ls P) := by
  obtain ⟨ls, hls, hend⟩ := h e he
  exact ⟨ks ++ ls, hks.trans hls, by rwa [← after_after]⟩

/-- A step may follow another one, if every result of that leaves something to
complete. -/
theorem bind {Q : List Kind → β → Prop} {n : List Token → Nat}
    {parse : (ts : List Token) → Parse (Parsed (n ts) β)} {p : β → Reader α}
    (h : Adheres Q parse ts) (hend : ∀ ks b, Q ks b → CanEnd (after ks P))
    (hnext : ∀ ks b mid, mid.length < n ts → Q ks b → Viable (after ks P) (p b) mid) :
    Viable P (reader parse >>= p) ts := by
  intro e he
  change (reader parse ts).bind (fun r => p r.1 r.2) = .error e at he
  rcases hparse : reader parse ts with e' | ⟨b, mid⟩
  · rw [hparse] at he
    cases he
    obtain ⟨ks, hks, ls, b, hls, hQ⟩ := h.viable e hparse
    obtain ⟨ms, a, hms, hP⟩ := hend _ b hQ
    exact ⟨ks, hks, canEnd_of_append hls hms hP⟩
  · rw [hparse] at he
    have hyields := reader_eq_ok_iff.mp hparse
    obtain ⟨ks, hks, hQ⟩ := h.sound hyields
    exact of_reads hks (hnext ks b mid hyields.shorter hQ) he

/-- The same behind a step that may find nothing where it starts. -/
theorem bind? {Q : List Kind → β → Prop}
    {parse? : (ts : List Token) → Parse (Option (Parsed ts.length β))} {p : Option β → Reader α}
    (hviable : Viable (Found Q) (reader? parse?) ts)
    (hsound : ∀ {b mid}, Finds (parse? ts) b mid → Derived Q ts b mid)
    (hend : ∀ ks b, Q ks b → CanEnd (after ks P)) (hnone : Viable P (p none) ts)
    (hnext : ∀ ks b mid, mid.length < ts.length → Q ks b →
      Viable (after ks P) (p (some b)) mid) :
    Viable P (reader? parse? >>= p) ts := by
  intro e he
  change (reader? parse? ts).bind (fun r => p r.1 r.2) = .error e at he
  rcases hparse : parse? ts with e' | _ | ⟨b, mid, hlt⟩ <;> rw [reader?, hparse] at he
  · cases he
    obtain ⟨ks, hks, ls, _, hls, b, rfl, hQ⟩ := hviable e (by rw [reader?, hparse]; rfl)
    obtain ⟨ms, a, hms, hP⟩ := hend _ b hQ
    exact ⟨ks, hks, canEnd_of_append hls hms hP⟩
  · exact hnone e he
  · obtain ⟨ks, hks, hQ⟩ := hsound ⟨hlt, hparse⟩
    exact of_reads hks (hnext ks b mid hlt hQ) he

theorem accept {ask? : Kind → Option β} {none : Reader α} {some : β → Reader α}
    (hstop : ask? .stop = .none) (hnone : Viable P none ts)
    (hsome : ∀ k b mid, mid.length < ts.length → ask? k = .some b →
      Viable (after [k] P) (some b) mid) :
    Viable P (ask (accept? ask?) none some) ts := by
  intro e he
  rw [ask] at he
  rcases accept?_cases ask? hstop ts with ⟨hlook, -⟩ | ⟨k, b, mid, hlt, hlook, hk, hks⟩
  · rw [hlook] at he
    exact hnone e he
  · rw [hlook] at he
    exact of_reads hks (hsome k b mid hlt hk) he

theorem skip {k : Kind} {none : Reader α} {some : Unit → Reader α} (hk : k ≠ .stop)
    (hnone : Viable P none ts)
    (hsome : ∀ mid, mid.length < ts.length → Viable (after [k] P) (some ()) mid) :
    Viable P (ask (skip? k) none some) ts := by
  refine accept (if_neg (Ne.symm hk)) hnone fun k' _ mid hlt hk' => ?_
  split at hk'
  · next heq => exact heq ▸ hsome mid hlt
  · cases hk'

theorem leading {allowVoid : Bool} {none : Reader α} {some : Ty → Reader α}
    (hnone : Viable P none ts)
    (hsome : ∀ type mid, mid.length < ts.length → (type = .void → allowVoid = true) →
      Viable (after [type.kind] P) (some type) mid) :
    Viable P (ask (leadingType? allowVoid) none some) ts := by
  intro e he
  rw [ask] at he
  rcases leadingType?_cases allowVoid ts with hlook | ⟨type, mid, hlt, hlook, hks, hvoid⟩
  · rw [hlook] at he
    exact hnone e he
  · rw [hlook] at he
    exact of_reads hks (hsome type mid hlt hvoid) he

theorem next {test : Kind → Prop} [DecidablePred test] {yes no : Reader α}
    (hyes : Viable P yes ts) (hno : Viable P no ts) : Viable P (ifNext test yes no) ts := by
  intro e he
  rw [ifNext] at he
  split at he
  · exact hyes e he
  · exact hno e he

end Viable

end

/-! ## Single tokens and paths -/

section

variable {ts : List Token}

theorem expect_adheres {k : Kind} {what : Expectation} (hk : k ≠ .stop) :
    Adheres (fun ks _ => ks = [k]) (expect k what) ts where
  sound h := ⟨[k], reads_of_expect hk h, rfl⟩
  viable := by
    rw [reader_expect]
    exact .skip hk (.fail ⟨[k], (), by simpa using hk, rfl⟩) fun _ _ => .pure

theorem parseName_adheres {what : Expectation} :
    Adheres (fun ks name => ks = [.identifier name]) (parseName what) ts where
  sound h := ⟨_, reads_of_parseName h, rfl⟩
  viable := by
    rw [reader_parseName]
    exact .accept rfl (.fail ⟨[.identifier "x"], "x", by simp, rfl⟩) fun _ _ _ _ _ => .pure

/-- A path is read in full, or begun. -/
theorem parsePath_viable (ts : List Token) :
    Viable (fun ks path => ks = segmentKinds path) (reader parsePath) ts := by
  rw [reader_parsePath]
  refine .skip (by rintro ⟨⟩) .pure fun mid hlt => ?_
  refine .bind parseName_adheres ?_ ?_
  · rintro _ segment rfl
    exact ⟨[], [segment], by simp, rfl⟩
  · rintro _ segment mid' hlt' rfl
    refine .bind ⟨fun h => ⟨_, parsePath_sound mid' h, rfl⟩, parsePath_viable mid'⟩ ?_ ?_
    · rintro _ path rfl
      exact ⟨[], segment :: path, by simp, by simp [after, segmentKinds]⟩
    · exact fun _ _ _ _ _ => .pure
termination_by ts.length

theorem parsePath_adheres (ts : List Token) :
    Adheres (fun ks path => ks = segmentKinds path) parsePath ts :=
  ⟨fun h => ⟨_, parsePath_sound ts h, rfl⟩, parsePath_viable ts⟩

end

end ClassLang
