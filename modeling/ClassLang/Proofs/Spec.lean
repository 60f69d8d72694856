import ClassLang.Run

/-!
# Specifications of computations

What can be said of a computation is said of its outcomes: from a state with
one property it ends, if it ends, in a result and a state with another
(`Run.Spec`). The special case that matters most is a property of states that
is kept whether the computation ends with a value or with an error
(`Run.Keeps`). Both pass through sequencing, and what only looks at the state
keeps everything.
-/

namespace ClassLang

namespace Run

variable {α β : Type} {pre P : State → Prop} {post : Except RuntimeError α → State → Prop}

/-- Inversion for sequencing: the first part ended with a value and the second
part went on from there, or the first part ended with an error. -/
theorem bind_eq_some {m : Run α} {f : α → Run β} {s s' : State} {r : Except RuntimeError β}
    (h : (m >>= f) s = some (r, s')) :
    (∃ a t, m s = some (.ok a, t) ∧ f a t = some (r, s')) ∨
      ∃ e, m s = some (.error e, s') ∧ r = .error e := by
  change Run.bind m f s = some (r, s') at h
  rw [Run.bind] at h
  rcases hm : m s with _ | ⟨e | a, t⟩ <;> rw [hm] at h
  · cases h
  · cases h
    exact .inr ⟨e, rfl, rfl⟩
  · exact .inl ⟨a, t, rfl, h⟩

/-- Sequencing that ends with a value: so did both parts. -/
theorem bind_eq_ok {m : Run α} {f : α → Run β} {s s' : State} {b : β}
    (h : (m >>= f) s = some (.ok b, s')) :
    ∃ a t, m s = some (.ok a, t) ∧ f a t = some (.ok b, s') := by
  rcases bind_eq_some h with hok | ⟨e, -, herror⟩
  · exact hok
  · cases herror

section

variable {m : Run α} {a : α} {s s' : State}

/-- Inversion for a scope: its body ended with the same value, and the scope was
closed behind it. -/
theorem inBlock_eq_ok (h : inBlock m s = some (.ok a, s')) :
    ∃ t, m { s with environment := s.environment.startBlock } = some (.ok a, t) ∧
      s' = { t with environment := t.environment.endBlock } := by
  rw [inBlock] at h
  rcases hbody : m { s with environment := s.environment.startBlock } with _ | ⟨e | a', t⟩ <;>
    rw [hbody] at h <;> cases h
  exact ⟨t, rfl, rfl⟩

/-- Inversion for the scope of a call: its body ended with the value, and the scope
was left. -/
theorem inCall_eq_ok {returned : Value} (h : inCall m s = some (.ok (a, returned), s')) :
    ∃ t, m { s with environment := s.environment.startBlock } = some (.ok a, t) ∧
      s' = { t with environment := t.environment.leaveCall.2 } := by
  rw [inCall] at h
  rcases hbody : m { s with environment := s.environment.startBlock } with _ | ⟨e | a', t⟩ <;>
    rw [hbody] at h <;> cases h
  exact ⟨t, rfl, rfl⟩

/-- Inversion for one level deeper: the body ended with the value one level down. -/
theorem deeper_eq_ok {limit : Nat} (h : deeper limit m s = some (.ok a, s')) :
    ∃ t, m { s with depth := s.depth + 1 } = some (.ok a, t) ∧
      s' = { t with depth := t.depth - 1 } := by
  rw [deeper] at h
  split at h
  · cases h
  · rcases hbody : m { s with depth := s.depth + 1 } with _ | ⟨e | a', t⟩ <;>
      rw [hbody] at h <;> cases h
    exact ⟨t, rfl, rfl⟩

end

/-- Behind a value the second part goes on. -/
theorem bind_of_ok {m : Run α} {f : α → Run β} {s t : State} {a : α}
    (h : m s = some (.ok a, t)) : (m >>= f) s = f a t := by
  change Run.bind m f s = f a t
  rw [Run.bind, h]

/-- An error is the end of the whole. -/
theorem bind_of_error {m : Run α} {f : α → Run β} {s t : State} {e : RuntimeError}
    (h : m s = some (.error e, t)) : (m >>= f) s = some (.error e, t) := by
  change Run.bind m f s = _
  rw [Run.bind, h]

/-- If the first part has no outcome, the whole has none. -/
theorem bind_of_none {m : Run α} {f : α → Run β} {s : State} (h : m s = none) :
    (m >>= f) s = none := by
  change Run.bind m f s = none
  rw [Run.bind, h]

/-- From a state with `pre`, a computation that ends does so in a result and a
state with `post`. -/
def Spec (pre : State → Prop) (m : Run α) (post : Except RuntimeError α → State → Prop) :
    Prop :=
  ∀ ⦃s r s'⦄, pre s → m s = some (r, s') → post r s'

/-- A computation keeps a property of states, however it ends. -/
def Keeps (P : State → Prop) (m : Run α) : Prop := Spec P m fun _ => P

namespace Spec

/-- A specification may ask for more and promise less. -/
theorem imp {pre' : State → Prop} {post' : Except RuntimeError α → State → Prop} {m : Run α}
    (h : Spec pre m post) (hpre : ∀ s, pre' s → pre s) (hpost : ∀ r s, post r s → post' r s) :
    Spec pre' m post' :=
  fun _ _ _ hs hm => hpost _ _ (h (hpre _ hs) hm)

/-- Sequencing: the state in between belongs to the value that is handed on. -/
theorem bind {Q : α → State → Prop} {post : Except RuntimeError β → State → Prop}
    {m : Run α} {f : α → Run β}
    (hm : Spec pre m fun r s => ∀ a, r = .ok a → Q a s)
    (herror : Spec pre m fun r s => ∀ e, r = .error e → post (.error e) s)
    (hf : ∀ a, Spec (Q a) (f a) post) : Spec pre (m >>= f) post := by
  intro s r s' hs h
  rcases bind_eq_some h with ⟨a, t, ha, hft⟩ | ⟨e, he, rfl⟩
  · exact hf a (hm hs ha a rfl) hft
  · exact herror hs he e rfl

/-- Sequencing behind something that keeps the property it starts with. -/
theorem bind_keeps {post : Except RuntimeError β → State → Prop} {m : Run α} {f : α → Run β}
    (hm : Keeps P m) (herror : ∀ e s, P s → post (.error e) s)
    (hf : ∀ a, Spec P (f a) post) : Spec P (m >>= f) post :=
  bind (Q := fun _ => P) (fun _ _ _ hs h _ _ => hm hs h)
    (fun _ _ _ hs h e _ => herror e _ (hm hs h)) hf

end Spec

namespace Keeps

/-- What both parts keep the whole keeps. -/
theorem bind {m : Run α} {f : α → Run β} (hm : Keeps P m) (hf : ∀ a, Keeps P (f a)) :
    Keeps P (m >>= f) :=
  Spec.bind_keeps hm (fun _ _ hs => hs) hf

/-- What leaves the state as it is keeps every property of it. -/
theorem of_same {m : Run α} (h : ∀ s r s', m s = some (r, s') → s' = s) : Keeps P m := by
  intro s r s' hs hm
  rw [h s r s' hm]
  exact hs

theorem pure (a : α) : Keeps P (Pure.pure a : Run α) :=
  of_same fun s r s' h => by cases h; rfl

/-- Without an outcome there is nothing to keep. -/
theorem outOfFuel : Keeps P (outOfFuel : Run α) := by
  intro s r s' _ h
  cases h

theorem fail (e : RuntimeError) : Keeps P (fail e : Run α) :=
  of_same fun s r s' h => by cases h; rfl

/-- A check changes nothing, so it keeps everything. -/
theorem ofExcept (x : Except RuntimeError α) : Keeps P (ofExcept x) :=
  of_same fun s r s' h => by cases h; rfl

/-- So does a look-up. -/
theorem reads (f : State → α) : Keeps P (reads f) :=
  of_same fun s r s' h => by cases h; rfl

/-- What is looked up comes from a state with the property. -/
theorem reads_bind {look : State → α} {f : α → Run β} (hf : ∀ s, P s → Keeps P (f (look s))) :
    Keeps P (Run.reads look >>= f) :=
  fun s _ _ hs hm => hf s hs hs hm

theorem tryReads (f : State → Except RuntimeError α) : Keeps P (tryReads f) :=
  of_same fun s r s' h => by cases h; rfl

/-- A change keeps what it leaves true of every state. -/
theorem modify {f : State → State} (h : ∀ s, P s → P (f s)) : Keeps P (modify f) := by
  intro s r s' hs hm
  cases hm
  exact h s hs

/-- A change that can fail has to leave it true only where it does not. -/
theorem tryModify {f : State → Except RuntimeError State}
    (h : ∀ s t, P s → f s = .ok t → P t) : Keeps P (tryModify f) := by
  intro s r s' hs hm
  rw [Run.tryModify] at hm
  rcases hf : f s with e | t <;> rw [hf] at hm <;> cases hm
  · exact hs
  · exact h s _ hs hf

theorem valuesOf : ∀ names : List String, Keeps P (valuesOf names)
  | [] => pure _
  | _ :: rest => bind (tryReads _) fun _ => bind (valuesOf rest) fun _ => pure _

/-- Printing keeps what does not depend on the output. -/
theorem print (text : String) (h : ∀ s : State, P s → P { s with output := s.output ++ text }) :
    Keeps P (print text) :=
  modify h

end Keeps

end Run

end ClassLang
