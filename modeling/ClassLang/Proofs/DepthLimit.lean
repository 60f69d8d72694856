import ClassLang.Proofs.Fuel

/-!
# The limit on nesting is only a cut-off

The same program is run under two limits, a smaller one and a larger one. The
two runs go the same way until calls are nested too deeply for the smaller
limit. There the first run ends, and reports it; the second one may go on, and
all it can still do to the output is to add to it.

`Run.CutOff` says this of two computations. That nothing else is reported that
way, and that nothing catches the report, is what takes it through sequencing:
an error ends everything that waits for it.
-/

namespace ClassLang

/-- If there is an outcome, then its output goes on from that of the state. -/
def State.Begins {α : Type} (s : State) (x : Option (Except RuntimeError α × State)) : Prop :=
  ∀ r t, x = some (r, t) → s.Continues t

/-- The first outcome is the second one, or comes earlier and says that calls
were nested too deeply. -/
def CutAt (limit : Nat) {α : Type} (x x' : Option (Except RuntimeError α × State)) : Prop :=
  (x' = x ∧ ∀ r t, x = some (r, t) → Shallow r) ∨
    ∃ t, x = some (.error (.callDepthExceeded limit), t) ∧ t.Begins x'

/-- The first computation is the second one, cut off where nesting goes beyond
the limit. -/
def Run.CutOff (limit : Nat) {α : Type} (m m' : Run α) : Prop :=
  ∀ s, s.Begins (m' s) ∧ CutAt limit (m s) (m' s)

section

variable {α β : Type} {limit : Nat} {s t : State}

/-- Of two states nothing but the outputs decides. -/
theorem State.Continues.of_output_eq {s' t' : State} (hs : s'.output = s.output)
    (ht : t'.output = t.output) (h : s.Continues t) : s'.Continues t' := by
  obtain ⟨more, hmore⟩ := h
  exact ⟨more, by rw [ht, hs, hmore]⟩

/-- An outcome begins where its output goes on. -/
theorem State.begins_some {r : Except RuntimeError α} (h : s.Continues t) :
    s.Begins (some (r, t)) := by
  intro r' t' h'
  cases h'
  exact h

theorem State.begins_none : s.Begins (none : Option (Except RuntimeError α × State)) := by
  rintro r t ⟨⟩

theorem cutAt_none : CutAt limit (none : Option (Except RuntimeError α × State)) none :=
  .inl ⟨rfl, by rintro r t ⟨⟩⟩

/-- An outcome that is not cut off is the same with both limits. -/
theorem cutAt_some {r : Except RuntimeError α} (h : Shallow r) :
    CutAt limit (some (r, t)) (some (r, t)) := by
  refine .inl ⟨rfl, fun r' t' h' => ?_⟩
  cases h'
  exact h

end

namespace Run

variable {α β : Type} {limit limit' : Nat} {m m' : Run α}

/-- If the first part begins here and all continuations where they start, so does
the whole. -/
theorem begins_bind {t s : State} {f' : α → Run β} (ht : t.Begins (m' s))
    (hf : ∀ a (u : State), u.Begins (f' a u)) : t.Begins ((m' >>= f') s) := by
  intro r' s' h
  rcases bind_eq_some h with ⟨a, u, hu, hfu⟩ | ⟨e, he, -⟩
  · exact (ht _ u hu).trans (hf a u r' s' hfu)
  · exact ht _ s' he

/-! ### Opening and closing -/

section

variable {opening closing : State → State} {wrap : α → State → β} {s t : State}

/-- What is opened and closed around a body adds no output of its own. -/
theorem begins_around (hclosing : ∀ s, (closing s).output = s.output)
    (h : t.Begins (m (opening s))) : t.Begins (around opening closing wrap m s) := by
  rcases hbody : m (opening s) with _ | ⟨r, u⟩
  · rw [around_of_none hbody]
    exact State.begins_none
  · rw [around_of_some hbody]
    exact State.begins_some ((h r u hbody).of_output_eq rfl (hclosing u))

/-- What is cut off inside is cut off outside. -/
theorem cutAt_around (hclosing : ∀ s, (closing s).output = s.output)
    (h : CutAt limit (m (opening s)) (m' (opening s))) :
    CutAt limit (around opening closing wrap m s) (around opening closing wrap m' s) := by
  rcases h with ⟨heq, hshallow⟩ | ⟨t, hcut, ht⟩
  · rcases hbody : m (opening s) with _ | ⟨r, t⟩
    · rw [around_of_none hbody, around_of_none (heq.trans hbody)]
      exact cutAt_none
    · rw [around_of_some hbody, around_of_some (heq.trans hbody)]
      refine cutAt_some ?_
      rcases r with e | a
      · rintro limit' ⟨⟩
        exact hshallow _ _ hbody limit' rfl
      · exact shallow_ok _
  · refine .inr ⟨closing t, around_of_some hcut, ?_⟩
    exact begins_around hclosing fun r u h => (ht r u h).of_output_eq (hclosing t) rfl

end

/-! ### The relation respects how computations are built -/

/-- Where the first part is cut off, the rest is not begun. -/
theorem CutOff.bind {f f' : α → Run β} (hm : CutOff limit m m')
    (hf : ∀ a, CutOff limit (f a) (f' a)) : CutOff limit (m >>= f) (m' >>= f') := by
  intro s
  obtain ⟨hbegins, hcut⟩ := hm s
  have hrest : ∀ a (u : State), u.Begins (f' a u) := fun a u => (hf a u).1
  refine ⟨begins_bind hbegins hrest, ?_⟩
  rcases hcut with ⟨heq, hshallow⟩ | ⟨t, hcut, ht⟩
  · rcases hms : m s with _ | ⟨e | a, t⟩
    · rw [bind_of_none hms, bind_of_none (heq.trans hms)]
      exact cutAt_none
    · rw [bind_of_error hms, bind_of_error (heq.trans hms)]
      refine cutAt_some ?_
      rintro limit' ⟨⟩
      exact hshallow _ _ hms limit' rfl
    · rw [bind_of_ok hms, bind_of_ok (heq.trans hms)]
      exact (hf a t).2
  · exact .inr ⟨t, bind_of_error hcut, begins_bind ht hrest⟩

/-- Being cut off respects how computations are built. -/
theorem congruence_cutOff (limit : Nat) : Congruence (CutOff limit) where
  basic hm s := by
    obtain ⟨r, t, hms, -, hcontinues, hshallow⟩ := hm s
    rw [hms]
    exact ⟨State.begins_some hcontinues, cutAt_some hshallow⟩
  bind := CutOff.bind
  around {_ _ opening _ _ _ _} hopening hclosing hm s := by
    obtain ⟨hbegins, hcut⟩ := hm (opening s)
    have hout := fun s => (hclosing s).2
    refine ⟨begins_around hout fun r u h => ?_, cutAt_around hout hcut⟩
    exact (hbegins r u h).of_output_eq (hopening s).2.symm rfl

/-- Going deeper is where the cut is made. -/
theorem CutOff.deeper (hle : limit ≤ limit') (hm : CutOff limit m m') :
    CutOff limit (Run.deeper limit m) (Run.deeper limit' m') := by
  intro s
  obtain ⟨hbegins, hcut⟩ := hm { s with depth := s.depth + 1 }
  have hadds : s.Begins (Run.deeper limit' m' s) := by
    rcases Nat.lt_or_ge s.depth limit' with hlt | hge
    · rw [deeper_of_lt m' hlt]
      exact begins_around (fun _ => rfl) hbegins
    · rw [deeper_of_le m' hge]
      exact State.begins_some (.refl s)
  refine ⟨hadds, ?_⟩
  rcases Nat.lt_or_ge s.depth limit with hlt | hge
  · rw [deeper_of_lt m hlt, deeper_of_lt m' (Nat.lt_of_lt_of_le hlt hle)]
    exact cutAt_around (fun _ => rfl) hcut
  · exact .inr ⟨s, deeper_of_le m hge, hadds⟩

end Run

/-! ## Runs -/

/-- Whatever can be called under the smaller limit is what can be called under
the larger one, cut off. -/
theorem related_callsAt_of_limit_le (p : Program) {limit limit' : Nat} (hle : limit ≤ limit') :
    ∀ fuel : Nat, (callsAt ⟨p, limit⟩ fuel).Related (Run.CutOff limit) (callsAt ⟨p, limit'⟩ fuel)
  | 0 =>
    have hnone : ∀ {α : Type}, Run.CutOff limit (Run.outOfFuel : Run α) Run.outOfFuel :=
      fun _ => ⟨State.begins_none, cutAt_none⟩
    { evaluate := fun _ => hnone
      execute := fun _ => hnone
      construct := fun _ => hnone
      invoke := fun _ _ _ => hnone
      deeper := .deeper hle }
  | fuel + 1 =>
    (Run.congruence_cutOff limit).related_callsAt_succ (.deeper hle)
      (related_callsAt_of_limit_le p hle fuel)

/-- A run with a lower limit is one with a higher limit, cut off. -/
theorem cutOff_runMain (p : Program) {limit limit' : Nat} (hle : limit ≤ limit') (fuel : Nat) :
    Run.CutOff limit (runMain ⟨p, limit⟩ fuel) (runMain ⟨p, limit'⟩ fuel) :=
  (Run.congruence_cutOff limit).runMain (related_callsAt_of_limit_le p hle fuel)

/-- **The limit on nesting is only a cut-off.** A run that ends under some
limit in anything but calls nested too deeply ends in the same way, and in the
same state, under any larger limit. If calls are nested too deeply for the
larger limit, then so they are for the smaller one. And a run that is cut off
has written the beginning of what a run that ends under the larger limit
writes. -/
theorem depth_limit_only_cuts_off (p : Program) {limit limit' : Nat} (hle : limit ≤ limit')
    (s : State) :
    (∀ r t, RunsTo ⟨p, limit⟩ s r t → r ≠ .error (.callDepthExceeded limit) →
      RunsTo ⟨p, limit'⟩ s r t) ∧
    (∀ n t', RunsTo ⟨p, limit'⟩ s (.error (.callDepthExceeded n)) t' →
      ∃ t, RunsTo ⟨p, limit⟩ s (.error (.callDepthExceeded limit)) t) ∧
    (∀ t r' t', RunsTo ⟨p, limit⟩ s (.error (.callDepthExceeded limit)) t →
      RunsTo ⟨p, limit'⟩ s r' t' → t.output.toList <+: t'.output.toList) := by
  refine ⟨?_, ?_, ?_⟩
  · rintro r t ⟨fuel, hrun⟩ hne
    rcases (cutOff_runMain p hle fuel s).2 with ⟨heq, -⟩ | ⟨u, hcut, -⟩
    · exact ⟨fuel, heq.trans hrun⟩
    · rw [hcut] at hrun
      cases hrun
      exact absurd rfl hne
  · rintro n t' ⟨fuel, hrun⟩
    rcases (cutOff_runMain p hle fuel s).2 with ⟨heq, hshallow⟩ | ⟨u, hcut, -⟩
    -- A run that is not cut off does not report calls nested too deeply.
    · exact absurd rfl (hshallow _ t' (heq.symm.trans hrun) n)
    · exact ⟨u, fuel, hcut⟩
  · rintro t r' t' ⟨fuel, hrun⟩ ⟨fuel', hrun'⟩
    -- The two runs may differ in fuel. With the larger amount both still end alike.
    have hrun := refines_runMain _ (Nat.le_max_left fuel fuel') s _ hrun
    have hrun' := refines_runMain _ (Nat.le_max_right fuel fuel') s _ hrun'
    rcases (cutOff_runMain p hle (max fuel fuel') s).2 with ⟨-, hshallow⟩ | ⟨u, hcut, hbegins⟩
    · exact absurd rfl (hshallow _ t hrun limit)
    · rw [hcut] at hrun
      cases hrun
      obtain ⟨more, hmore⟩ := hbegins r' t' hrun'
      exact ⟨more.toList, by rw [hmore, String.toList_append]⟩

/-- A program whose `main` writes something and calls a function that does. -/
def writesTwice : Program where
  functions := .ofList [
    ("main", { returns := .void, name := "main", parameters := [], body := [
      .call (.call (.member "System" ["out", "print"]) [.string "one"]),
      .call (.call (.var "next") [])] }),
    ("next", { returns := .void, name := "next", parameters := [], body := [
      .call (.call (.member "System" ["out", "print"]) [.string "two"])] })]

theorem depth_limit_only_cuts_off_writesTwice :
    ∃ t t', RunsTo ⟨writesTwice, 1⟩ (.ready writesTwice [.print]) (.error (.callDepthExceeded 1)) t ∧
      RunsTo ⟨writesTwice, 2⟩ (.ready writesTwice [.print]) (.ok .void) t' ∧
      RunsTo ⟨writesTwice, 3⟩ (.ready writesTwice [.print]) (.ok .void) t' ∧
      t.output.toList <+: t'.output.toList := by
  obtain ⟨t, ht⟩ : ∃ t, runMain ⟨writesTwice, 1⟩ 9 (.ready writesTwice [.print])
      = some (.error (.callDepthExceeded 1), t) := ⟨_, rfl⟩
  obtain ⟨t', ht'⟩ : ∃ t, runMain ⟨writesTwice, 2⟩ 9 (.ready writesTwice [.print])
      = some (.ok .void, t) := ⟨_, rfl⟩
  obtain ⟨-, -, hprefix⟩ := depth_limit_only_cuts_off writesTwice (show 1 ≤ 2 by decide)
    (.ready writesTwice [.print])
  obtain ⟨hsame, -, -⟩ := depth_limit_only_cuts_off writesTwice (show 2 ≤ 3 by decide)
    (.ready writesTwice [.print])
  exact ⟨t, t', ⟨9, ht⟩, ⟨9, ht'⟩, hsame _ _ ⟨9, ht'⟩ (by rintro ⟨⟩),
    hprefix _ _ _ ⟨9, ht⟩ ⟨9, ht'⟩⟩

end ClassLang
