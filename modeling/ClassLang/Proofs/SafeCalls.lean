import Mathlib.Data.List.Nodup
import ClassLang.Proofs.SafeSteps

/-!
# Calls that leave sound states sound

A call opens a scope and fills it: with the fields of the object that it is on,
none of which is a class, and with its arguments, which may be classes. At its
end the fields go back to the object and the parameters by reference to the
arguments.

In the scope of the call those variables are marked that a class was passed for
(`Marks.passing`). A field cannot be among them, because a parameter named like
a field cannot be declared. What is written back is a class only if the
parameter was marked; then the argument was a class, which leaves only a
variable that may hold one to be written to.
-/

namespace ClassLang

open Run (Safe)

/-! ## The names in the scope of a call -/

/-- The variables that the parameters of a call become. -/
abbrev Routine.passed (routine : Routine) (values : List Value) : List (String × Value) :=
  (routine.parameters.map Parameter.name).zip values

/-- The names of the variables that a call starts with. -/
def Heap.boundNames (h : Heap) (receiver : Option Ref) (routine : Routine) (values : List Value) :
    List String :=
  h.receiverFields receiver ++ (routine.passed values).map Prod.fst

/-- An object keeps its fields. -/
theorem Heap.Grows.receiverFields_eq {h h' : Heap} (hg : h.Grows h') {receiver : Option Ref}
    (hreceiver : ∀ ref, receiver = some ref → ref.ExistsIn h) :
    h'.receiverFields receiver = h.receiverFields receiver := by
  cases receiver with
  | none => rfl
  | some ref =>
    obtain ⟨o, ho, -⟩ := hreceiver ref rfl
    obtain ⟨o', ho', -, hnames⟩ := hg ref.location o ho
    simp only [receiverFields, Option.elim_some, fields, ho, ho', hnames]

section

variable {h : Heap} {N : List String} {Ψ : List (Scope → Prop)} {s s' : State}

/-- A declared name was new, and the scope has it now. -/
theorem Scope.has_of_declare {s s' : Scope} {name : String} {value : Value}
    (hdeclare : s.declare name value = .ok s') (hs : s.Has N) :
    name ∉ N ∧ s'.Has (N ++ [name]) := by
  have hs' : s'.Has N := open_has.declare hdeclare hs
  rw [Scope.declare] at hdeclare
  split at hdeclare <;> cases hdeclare
  next hfree =>
  refine ⟨fun hname => hfree (hs name hname), fun other hother => ?_⟩
  rcases List.mem_append.mp hother with hother | hother
  · exact hs' other hother
  · rw [Scope.contains, ← Table.mem_names_iff, Table.mem_names_insert]
    exact .inl (List.mem_singleton.mp hother)

/-- Nothing need be known of the variables of a scope. -/
theorem fit_has_nil {scopes : List Scope} (hfit : Fit (Scope.Has N :: Ψ) scopes) :
    Fit (Scope.Has [] :: Ψ) scopes := by
  obtain ⟨top, rest, -, hrest, rfl⟩ := List.forall₂_cons_left_iff.mp hfit
  exact .cons top.has_nil hrest

/-- After a declaration the scope on top has the name, and it is known to have been
new. -/
theorem has_declare {name : String} {value : Value} (hs : s.Fits h (Scope.Has N :: Ψ))
    (hrun : Run.declare name value s = some (.ok (), s')) :
    name ∉ N ∧ s'.Fits h (Scope.Has (N ++ [name]) :: Ψ) := by
  have hfits := hs.of_declare (φ := fun top => name ∉ N ∧ top.Has (N ++ [name]))
    Scope.has_of_declare hrun
  obtain ⟨top, rest, ⟨hfree, hhas⟩, hrest, hscopes⟩ := List.forall₂_cons_left_iff.mp hfits.scopes
  exact ⟨hfree, hfits.heap, hscopes ▸ .cons hhas hrest⟩

/-- Variables that could be declared one after the other have different names,
and the scope has them all. -/
theorem has_declareAll {entries : List (String × Value)} (hs : s.Fits h (Scope.Has N :: Ψ))
    (hrun : Run.declareAll entries s = some (.ok (), s')) :
    (∀ name ∈ entries.map Prod.fst, name ∉ N) ∧ (entries.map Prod.fst).Nodup ∧
      s'.Fits h (Scope.Has (N ++ entries.map Prod.fst) :: Ψ) := by
  induction entries generalizing N s with
  | nil =>
    cases hrun
    simp only [List.map_nil, List.append_nil]
    exact ⟨fun _ hname => (by cases hname), .nil, hs⟩
  | cons entry rest ih =>
    obtain ⟨name, value⟩ := entry
    obtain ⟨⟨⟩, t, hdeclare, hrest⟩ := Run.bind_eq_ok hrun
    obtain ⟨hfree, ht⟩ := has_declare hs hdeclare
    obtain ⟨hnew, hnodup, hs'⟩ := ih ht hrest
    rw [List.append_assoc, List.singleton_append] at hs'
    refine ⟨?_, List.nodup_cons.mpr ⟨fun hname => ?_, hnodup⟩, hs'⟩
    · refine List.forall_mem_cons.mpr ⟨hfree, fun other hother hmem => ?_⟩
      exact hnew other hother (List.mem_append_left _ hmem)
    · exact hnew name hname (List.mem_append_right _ (List.mem_singleton_self _))

/-- When the scope of a call has been filled, it has the fields and the
parameters, which have different names. -/
theorem has_bindCall {cx : Context} {routine : Routine} {values : List Value}
    {receiver : Option Ref} (hs : s.Fits h (Scope.Has [] :: Ψ))
    (hrun : bindCall cx routine values receiver s = some (.ok (), s')) :
    ((routine.passed values).map Prod.fst).Nodup ∧
      s'.Fits h (Scope.Has (s.heap.boundNames receiver routine values) :: Ψ) := by
  cases receiver with
  | none => exact (has_declareAll hs hrun).2
  | some ref =>
    rw [bindCall] at hrun
    obtain ⟨fields, t, hread, hrun⟩ := Run.bind_eq_ok hrun
    cases hread
    obtain ⟨⟨⟩, t, hfields, hrun⟩ := Run.bind_eq_ok hrun
    obtain ⟨⟨⟩, u, hmethods, hparameters⟩ := Run.bind_eq_ok hrun
    have ht := (has_declareAll hs hfields).2.2
    have hu := lasts_declareMethods Scope.open_has _ ht hmethods
    exact (has_declareAll hu hparameters).2

end

/-! ## Filling the scope -/

/-- The marks while the body of a call is run: in its scope, which has so many
below it, those parameters are marked that a class was passed for. -/
def Marks.passing (κ : Marks) (level : Nat) (routine : Routine) (values : List Value)
    (fields : List String) : Marks := fun l name =>
  if l = level then (∃ v, (name, v) ∈ routine.passed values ∧ v.IsClass) ∧ name ∉ fields
  else κ l name

section

variable {cx : Context} {κ : Marks} {ν : List (List String)} {N : List String} {h : Heap}
  {calls calls' : Calls} {routine : Routine} {values : List Value} {receiver : Option Ref}

/-- Variables may be declared if what they hold is there, and if those that hold
a class are marked, unless they cannot be declared anyway. -/
theorem safe_declareAll {entries : List (String × Value)}
    (hentries : ∀ entry ∈ entries, entry.2.ExistsIn h ∧
      (entry.2.IsClass → entry.1 ∉ N → κ ν.length entry.1)) :
    Safe cx κ (Scope.Has N :: named ν) h (fun _ _ => True) (Run.declareAll entries)
      (Run.declareAll entries) := by
  induction entries generalizing h with
  | nil => exact .pure fun _ _ => trivial
  | cons entry rest ih =>
    obtain ⟨name, value⟩ := entry
    obtain ⟨⟨hexists, hmarked⟩, hrest⟩ := List.forall_mem_cons.mp hentries
    refine .bind (.declare Scope.open_has hexists fun hclass s top scopes hfits hscopes hfree => ?_)
      fun _ h' hg _ => ih fun entry hentry => ?_
    · have hfit := hfits.scopes
      rw [hscopes] at hfit
      obtain ⟨hhas, hnamed⟩ := List.forall₂_cons.mp hfit
      have hlength : scopes.length = ν.length := by
        rw [← hnamed.length_eq, named, List.length_map]
      rw [hlength]
      refine hmarked hclass fun hname => ?_
      rw [hhas name hname] at hfree
      cases hfree
    · exact ⟨(hrest entry hentry).1.mono hg, (hrest entry hentry).2⟩

/-- Filling the scope of a call is safe, with classes as parameters at most. -/
theorem safe_bindCall (hreceiver : ∀ ref, receiver = some ref → ref.ExistsIn h)
    (hvalues : ∀ v ∈ values, v.ExistsIn h) :
    Safe cx (κ.passing ν.length routine values (h.receiverFields receiver))
      (Scope.Has [] :: named ν) h (fun _ _ => True) (bindCall cx routine values receiver)
      (bindCall cx routine values receiver) := by
  have hparameters : ∀ h', h.Grows h' →
      Safe cx (κ.passing ν.length routine values (h.receiverFields receiver))
        (Scope.Has (h.receiverFields receiver) :: named ν) h' (fun _ _ => True)
        (Run.declareAll (routine.passed values)) (Run.declareAll (routine.passed values)) := by
    refine fun h' hg => safe_declareAll fun entry hentry => ⟨?_, fun hclass hfield => ?_⟩
    · exact (hvalues entry.2 (List.of_mem_zip hentry).2).mono hg
    · rw [Marks.passing, if_pos rfl]
      exact ⟨⟨entry.2, hentry, hclass⟩, hfield⟩
  cases receiver with
  | none => exact hparameters h (.refl h)
  | some ref =>
    rw [bindCall]
    refine .bind (Q := fun fields h' => fields.names = h.receiverFields (some ref) ∧
        ∀ entry ∈ fields.entries, entry.2.ExistsIn h' ∧ ¬ entry.2.IsClass)
      (.reads fun s hs hfits => ⟨hfits.heap.receiverFields_eq hreceiver, fun entry hentry => ?_⟩)
      fun fields h₁ hg₁ hfields => ?_
    · exact hs.heap.field? ((Table.mem_entries_iff _).mp hentry)
    have hdeclare : Safe cx (κ.passing ν.length routine values (h.receiverFields (some ref)))
        (Scope.Has [] :: named ν) h₁ (fun _ _ => True) (Run.declareAll fields.entries)
        (Run.declareAll fields.entries) :=
      safe_declareAll fun entry hentry => ⟨(hfields.2 entry hentry).1, fun hclass =>
        absurd hclass (hfields.2 entry hentry).2⟩
    refine .bind_refine (Φ := Scope.Has (h.receiverFields (some ref)) :: named ν) hdeclare
      (fun s _ s' _ hfits hrun => ?_) (fun _ => fit_has_nil) fun _ h₂ hg₂ _ => ?_
    · rw [← hfields.1]
      exact (has_declareAll hfits.now hrun).2.2
    · refine .bind (.declareMethods Scope.open_has _) fun _ h₃ hg₃ _ => ?_
      exact hparameters h₃ ((hg₁.trans hg₂).trans hg₃)

/-! ## The end of a call -/

/-- What a known variable of the innermost scope holds is there, and a class
only if the variable is marked. -/
theorem State.IsSound.lookup?_of_has {s : State} {name : String} {v : Value}
    (hs : s.IsSound cx κ) (hfits : s.Fits h (Scope.Has N :: named ν)) (hname : name ∈ N)
    (hv : s.environment.lookup? name = some v) :
    v.ExistsIn s.heap ∧ (v.IsClass → κ ν.length name) := by
  obtain ⟨top, htop, hnamed⟩ := fits_has_iff.mp hfits
  obtain ⟨hexists, hallow⟩ := hs.lookup? hv
  rw [fit_named_iff.mp hnamed.scopes] at hallow
  exact ⟨hexists, fun hclass => (hallow hclass).1 (htop name hname)⟩

/-- What is copied out of the scope of a call is there; of the parameters only
those that are marked may hold a class, and no field does. -/
structure CopiesOut (κ : Marks) (level : Nat) (bindings : List Binding)
    (x : List Value × List (String × Value)) (h : Heap) : Prop where
  /-- the parameters -/
  written : List.Forall₂ (fun b v => v.ExistsIn h ∧ (v.IsClass → κ level b.parameter)) bindings x.1
  /-- the fields -/
  fields : ∀ entry ∈ x.2, entry.2.ExistsIn h ∧ ¬ entry.2.IsClass

/-- The final values of a call are there, and those of fields are no classes. -/
theorem safe_finalValues {bindings : List Binding}
    (hreceiver : ∀ ref, receiver = some ref → ref.ExistsIn h)
    (hparameters : ∀ b ∈ bindings, b.parameter ∈ N)
    (hfields : ∀ name ∈ h.receiverFields receiver, name ∈ N ∧ ¬ κ ν.length name) :
    Safe cx κ (Scope.Has N :: named ν) h (CopiesOut κ ν.length bindings)
      (finalValues bindings receiver) (finalValues bindings receiver) := by
  intro s hs hfits
  refine ⟨rfl, fun r s' hrun => ?_⟩
  have hsame : s' = s := keeps_finalValues (P := (· = s)) bindings receiver rfl hrun
  subst hsame
  refine ⟨hs, hfits.now, ?_⟩
  rintro ⟨written, fields⟩ rfl
  obtain ⟨-, hwritten, values, rfl, hvalues⟩ := finalValues_eq_ok hrun
  rw [hfits.heap.receiverFields_eq hreceiver] at hvalues ⊢
  rw [List.forall₂_iff_zip] at hwritten hvalues
  refine ⟨List.forall₂_iff_zip.mpr ⟨hwritten.1, fun {b v} hmem => ?_⟩, fun entry hmem => ?_⟩
  · exact hs.lookup?_of_has hfits (hparameters b (List.of_mem_zip hmem).1) (hwritten.2 hmem)
  · obtain ⟨hname, hunmarked⟩ := hfields entry.1 (List.of_mem_zip hmem).1
    obtain ⟨hexists, hclass⟩ := hs.lookup?_of_has hfits hname (hvalues.2 hmem)
    exact ⟨hexists, fun hcls => hunmarked (hclass hcls)⟩

/-- What happens in the scope of a call. -/
theorem safe_callBody {execute execute' : Stmt → Run Unit} {bindings : List Binding}
    (hreceiver : ∀ ref, receiver = some ref → ref.ExistsIn h)
    (hvalues : ∀ v ∈ values, v.ExistsIn h)
    (hparameters : ∀ b ∈ bindings, b.parameter ∈ (routine.passed values).map Prod.fst)
    (hexecute : ∀ N h' st, Safe cx
      (κ.passing ν.length routine values (h.receiverFields receiver)) (Scope.Has N :: named ν) h'
      (fun _ _ => True) (execute st) (execute' st)) :
    Safe cx (κ.passing ν.length routine values (h.receiverFields receiver))
      (Scope.Has [] :: named ν) h
      (fun x h' => ((routine.passed values).map Prod.fst).Nodup ∧
        CopiesOut (κ.passing ν.length routine values (h.receiverFields receiver)) ν.length bindings
          x h')
      (callBody cx { calls with execute } routine values receiver bindings)
      (callBody cx { calls' with execute := execute' } routine values receiver bindings) := by
  have hbind : Safe cx (κ.passing ν.length routine values (h.receiverFields receiver))
      (Scope.Has [] :: named ν) h
      (fun _ _ => ((routine.passed values).map Prod.fst).Nodup ∧ True)
      (bindCall cx routine values receiver) (bindCall cx routine values receiver) :=
    (safe_bindCall hreceiver hvalues).with_run fun s _ s' hfits hrun => (has_bindCall hfits hrun).1
  refine .bind_refine (Φ := Scope.Has (h.boundNames receiver routine values) :: named ν) hbind
    (fun s _ s' _ hfits hrun => ?_) (fun _ => fit_has_nil) fun _ h₁ hg₁ hbound => ?_
  · have hhas := (has_bindCall hfits.now hrun).2
    rwa [Heap.boundNames, hfits.heap.receiverFields_eq hreceiver] at hhas
  · refine .bind (safe_executeAll (hexecute _) routine.body h₁) fun _ h₂ hg₂ _ => ?_
    have hgrows : h.Grows h₂ := hg₁.trans hg₂
    refine (safe_finalValues (fun ref href => (hreceiver ref href).mono hgrows)
      (fun b hb => List.mem_append_right _ (hparameters b hb)) fun name hname => ?_).imp
      fun x h₃ _ hx => ⟨hbound.1, hx⟩
    rw [hgrows.receiverFields_eq hreceiver] at hname
    refine ⟨List.mem_append_left _ hname, fun hmarked => ?_⟩
    rw [Marks.passing, if_pos rfl] at hmarked
    exact hmarked.2 hname

/-! ## Writing back -/

/-- Values may be written back if they are there, and classes only to variables
that may hold one. -/
theorem safe_writeBack {written : List (Binding × Value)}
    (hwritten : ∀ w ∈ written, w.2.ExistsIn h ∧
      (w.2.IsClass → ∃ name, w.1.target.bareName? = some name ∧ κ.Allow name ν)) :
    Safe cx κ (named ν) h (fun _ _ => True) (writeBack written) (writeBack written) := by
  induction written generalizing h with
  | nil => exact .pure fun _ _ => trivial
  | cons w rest ih =>
    obtain ⟨⟨hexists, hclass⟩, hrest⟩ := List.forall_mem_cons.mp hwritten
    refine .bind (.write stable_named hexists fun hcls => ?_) fun _ h' hg _ => ih fun w hw => ?_
    · obtain ⟨name, hname, hallow⟩ := hclass hcls
      exact ⟨name, hname, fun scopes hfit => fit_named_iff.mp hfit ▸ hallow⟩
    · exact ⟨(hrest w hw).1.mono hg, (hrest w hw).2⟩

/-- A binding belongs to a parameter and to the argument that is passed for
it. -/
theorem Routine.mem_bindings {arguments : List Expr} {b : Binding}
    (hb : b ∈ routine.bindings arguments) :
    ∃ p e, (p, e) ∈ routine.parameters.zip arguments ∧ p.name = b.parameter ∧
      e.target? = some b.target := by
  obtain ⟨⟨p, e⟩, hmem, hbinding⟩ := List.mem_filterMap.mp hb
  refine ⟨p, e, hmem, ?_⟩
  change Routine.binding? p e = some b at hbinding
  rw [Routine.binding?] at hbinding
  split at hbinding
  · obtain ⟨target, htarget, rfl⟩ := Option.map_eq_some_iff.mp hbinding
    exact ⟨rfl, htarget⟩
  · cases hbinding

/-- What is passed for a parameter is the value of its argument. -/
theorem exists_mem_passed {R : Expr → Value → Prop} {p : Parameter} {e : Expr} :
    ∀ {parameters : List Parameter} {arguments : List Expr} {values : List Value},
      List.Forall₂ R arguments values → (p, e) ∈ parameters.zip arguments →
        ∃ v, (p.name, v) ∈ (parameters.map Parameter.name).zip values ∧ R e v
  | [], _, _, _, hmem => by cases hmem
  | _ :: _, _, _, .nil, hmem => by cases hmem
  | _ :: _, _, _, .cons hhead hall, hmem => by
    rcases List.mem_cons.mp hmem with heq | hmem
    · cases heq
      exact ⟨_, List.mem_cons_self .., hhead⟩
    · obtain ⟨v, hv, hR⟩ := exists_mem_passed hall hmem
      exact ⟨v, List.mem_cons_of_mem _ hv, hR⟩

/-- If a class was passed for the parameter of a binding, its target is a
variable that may hold one. -/
theorem allow_of_passed {arguments : List Expr} {b : Binding} {v : Value}
    (hvalues : List.Forall₂ (fun e v => IsValueOf κ ν e v h) arguments values)
    (hnodup : ((routine.passed values).map Prod.fst).Nodup) (hb : b ∈ routine.bindings arguments)
    (hv : (b.parameter, v) ∈ routine.passed values) (hclass : v.IsClass) :
    ∃ name, b.target.bareName? = some name ∧ κ.Allow name ν := by
  obtain ⟨p, e, hmem, hname, htarget⟩ := routine.mem_bindings hb
  obtain ⟨w, hw, hvalue⟩ := exists_mem_passed hvalues hmem
  have heq : (b.parameter, v) = (p.name, w) :=
    List.inj_on_of_nodup_map hnodup hv hw hname.symm
  obtain ⟨-, rfl⟩ := Prod.mk.inj heq
  exact hvalue.2 b.target htarget hclass

/-- What is copied out of the scope of a call may be written back. -/
theorem CopiesOut.writeBack {arguments : List Expr} {bindings : List Binding} {fields : List String}
    {written : List Value} {copied : List (String × Value)} {h h' h'' : Heap}
    (hcopies : CopiesOut (κ.passing ν.length routine values fields) ν.length bindings
      (written, copied) h')
    (hvalues : List.Forall₂ (fun e v => IsValueOf κ ν e v h) arguments values)
    (hnodup : ((routine.passed values).map Prod.fst).Nodup)
    (hbindings : ∀ b ∈ bindings, b ∈ routine.bindings arguments) (hg : h'.Grows h'') :
    ∀ w ∈ bindings.zip written, w.2.ExistsIn h'' ∧
      (w.2.IsClass → ∃ name, w.1.target.bareName? = some name ∧ κ.Allow name ν) := by
  intro w hw
  obtain ⟨hexists, hmarked⟩ := (List.forall₂_iff_zip.mp hcopies.written).2 hw
  refine ⟨hexists.mono hg, fun hclass => ?_⟩
  have hmark := hmarked hclass
  rw [Marks.passing, if_pos rfl] at hmark
  obtain ⟨⟨v, hv, hcls⟩, -⟩ := hmark
  exact allow_of_passed hvalues hnodup (hbindings w.1 (List.of_mem_zip hw).1) hv hcls

/-! ## Calls -/

/-- One step of a call. The body is run with other marks than the rest. -/
theorem safe_invokeStep {execute' : Stmt → Run Unit} (hc : calls.Safe cx κ calls')
    (hreceiver : ∀ ref, receiver = some ref → ref.ExistsIn h) (arguments : List Expr)
    (hexecute : ∀ values N h' st, Safe cx
      (κ.passing ν.length routine values (h.receiverFields receiver)) (Scope.Has N :: named ν) h'
      (fun _ _ => True) (calls.execute st) (execute' st)) :
    Safe cx κ (named ν) h (fun v h' => v.ExistsIn h')
      (invokeStep cx calls routine arguments receiver)
      (invokeStep cx { calls' with execute := execute' } routine arguments receiver) := by
  refine .bind (safe_evaluateAll (hc.evaluate ν) arguments h) fun values h₁ hg₁ hvalues => ?_
  refine .bind (Q := fun _ _ => True) (.ofExcept fun _ _ _ _ => trivial) fun _ h₂ hg₂ _ => ?_
  refine .bind (Q := fun bindings _ => ∀ b ∈ bindings, b ∈ routine.bindings arguments)
    (.reads fun s _ _ b hb => List.mem_of_mem_filter hb) fun bindings h₃ hg₃ hbindings => ?_
  have hgrows : h.Grows h₃ := (hg₁.trans hg₂).trans hg₃
  have hexists : ∀ v ∈ values, v.ExistsIn h₃ := by
    have hall : List.Forall₂ (fun v _ => v.ExistsIn h₁ ∧ True) values arguments :=
      (hvalues.imp fun _ _ hv => ⟨hv.1, trivial⟩).flip
    intro v hv
    exact (((List.forall₂_and_left _ _).mp hall).1 v hv).mono (hg₂.trans hg₃)
  have hparameters : ∀ b ∈ bindings, b.parameter ∈ (routine.passed values).map Prod.fst := by
    intro b hb
    obtain ⟨p, e, hmem, hname, -⟩ := routine.mem_bindings (hbindings b hb)
    obtain ⟨v, hv, -⟩ := exists_mem_passed hvalues hmem
    exact hname ▸ List.mem_map_of_mem hv
  have hfields : h₃.receiverFields receiver = h.receiverFields receiver :=
    hgrows.receiverFields_eq hreceiver
  refine .bind (hc.deeper (.inCall (Scope.has_nil {}) ?_ (safe_callBody
    (fun ref href => (hreceiver ref href).mono hgrows) hexists hparameters
    (hfields ▸ hexecute values)))) ?_
  · intro level hlevel name
    rw [named, List.length_map] at hlevel
    rw [Marks.passing, if_neg (Nat.ne_of_lt hlevel)]
  rintro ⟨⟨written, fields⟩, returned⟩ h₄ hg₄ ⟨⟨hnodup, hcopies⟩, hreturned⟩
  have hback : ∀ h₅, h₄.Grows h₅ → Safe cx κ (named ν) h₅ (fun v h' => v.ExistsIn h')
      (do
        Run.ofExcept (routine.checkResult returned)
        writeBack (bindings.zip written)
        return returned)
      (do
        Run.ofExcept (routine.checkResult returned)
        writeBack (bindings.zip written)
        return returned) := by
    intro h₅ hg₅
    refine .bind (Q := fun _ _ => True) (.ofExcept fun _ _ _ _ => trivial) fun _ h₆ hg₆ _ => ?_
    have hwritten := hcopies.writeBack hvalues hnodup hbindings (hg₅.trans hg₆)
    exact .bind (safe_writeBack hwritten) fun _ h₇ hg₇ _ => .pure fun h₈ hg₈ =>
      hreturned.mono (((hg₅.trans hg₆).trans hg₇).trans hg₈)
  cases receiver with
  | none => exact hback h₄ (.refl h₄)
  | some ref => exact .bind (.putFields ref hcopies.fields) fun _ h₅ hg₅ _ => hback h₅ hg₅

end

end ClassLang
