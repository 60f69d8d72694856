import ClassLang.Proofs.Fitting
import ClassLang.Proofs.Layout
import ClassLang.Proofs.Parser.OwnTokens
import ClassLang.Proofs.Parser.WellFormed
import ClassLang.Proofs.RoundTrip
import ClassLang.Proofs.Scanner.TokenRoundTrip
import ClassLang.Proofs.SteadySteps

/-!
# Which expression a text is of

Three things do not show in the text of an expression: whether a comparison is
marked as negated, which of its two forms a call with a path has, and how many
places a fraction is said to have if its digits are more. `Expr.standard` settles
all three of them. The last does not come up in texts of less than 2 ^ 32
characters, where places are counted right. In longer ones it does: there is a
text with two decimals that show alike (`places_can_hide`).

The expressions of a parsed program, brought into their standard form, are legible
(`Expr.isLegible_shown`). So two of them that have the same text have the same
standard form.
-/

namespace ClassLang

/-! ## Standard forms -/

namespace Expr

section

variable (count : Integer → Nat → Nat)

mutual

/-- The expression without what does not show: comparisons are not marked as
negated, calls with a path have the form of a method call, and places are counted
as told. -/
def standard : Expr → Expr
  | decimal whole fraction places => decimal whole fraction (count fraction places)
  | not operand => not operand.standard
  | logic op left right => logic op left.standard right.standard
  | binary op left right => binary op left.standard right.standard
  | relation op _ left right => relation op false left.standard right.standard
  | call (.var name) arguments => call (.var name) (allStandard arguments)
  | call (.member head path) arguments => methodCall head path (allStandard arguments)
  | methodCall head path arguments => methodCall head path (allStandard arguments)
  | e => e

/-- Expressions without what does not show. -/
def allStandard : List Expr → List Expr
  | [] => []
  | e :: rest => e.standard :: allStandard rest

end

end

/-- How many places are shown of a fraction: as many as it has, but no digits are
left out. -/
def shownPlaces (fraction : Integer) (places : Nat) : Nat :=
  max places (Nat.toDigits 10 fraction.val.natAbs).length

/-- The expression up to the marks of comparisons and the forms of calls. -/
def plain : Expr → Expr := standard fun _ places => places

/-- The same, with as many places in fractions as are shown. -/
def shown : Expr → Expr := standard shownPlaces

/-- Is this no string with a quote in it? -/
def hasNoQuote : Expr → Bool
  | string value => !value.toList.contains '"'
  | _ => true

section

variable {count count' : Integer → Nat → Nat}

theorem allStandard_eq_map (es : List Expr) :
    allStandard count es = es.map (standard count) := by
  induction es with
  | nil => rfl
  | cons e es ih => simp [allStandard, ih]

/-- Operands are smaller than the expression. -/
theorem sizeOf_lt_of_mem_operands {e inner : Expr} (h : inner ∈ e.operands) :
    sizeOf inner < sizeOf e := by
  cases e with
  | not operand =>
    obtain rfl := List.mem_singleton.mp h
    simp
  | logic op left right | binary op left right | relation op negated left right =>
    simp only [operands, List.mem_cons, List.not_mem_nil, or_false] at h
    simp only [logic.sizeOf_spec, binary.sizeOf_spec, relation.sizeOf_spec]
    rcases h with rfl | rfl
    · omega
    · omega
  | call target arguments | methodCall head path arguments =>
    have hlt : sizeOf inner < sizeOf arguments := List.sizeOf_lt_of_mem h
    simp only [call.sizeOf_spec, methodCall.sizeOf_spec]
    omega
  | _ => cases h

/-- What goes for an expression if it goes for those directly inside goes for
all. -/
theorem induction_operands {motive : Expr → Prop}
    (h : ∀ e : Expr, (∀ inner ∈ e.operands, motive inner) → motive e) (e : Expr) : motive e :=
  h e fun inner _ => induction_operands h inner
termination_by sizeOf e
decreasing_by exact sizeOf_lt_of_mem_operands ‹_›

/-- The operands of the standard form are the standard forms of the operands. -/
theorem operands_standard (e : Expr) :
    (e.standard count).operands = e.operands.map (standard count) := by
  cases e with
  | call target arguments => cases target <;> simp [standard, operands, allStandard_eq_map]
  | _ => simp [standard, operands, allStandard_eq_map]

end

end Expr

/-! ## What shows -/

/-- A token with as many places as are shown. -/
def Kind.shown : Kind → Kind
  | double whole fraction places => .double whole fraction (Expr.shownPlaces fraction places)
  | k => k

/-- If all digits have a place, as many places are shown as there are. -/
theorem Expr.shownPlaces_eq {fraction : Integer} {places : Nat} (hfraction : 0 ≤ fraction.val)
    (hplaces : 1 ≤ places) (hfits : fraction.val.toNat < tenTo places) :
    shownPlaces fraction places = places := by
  have hlength := (Nat.length_toDigits_le_iff (by decide) hplaces).mpr hfits
  have habs : fraction.val.natAbs = fraction.val.toNat := by omega
  rw [shownPlaces, habs]
  exact Nat.max_eq_left hlength

/-- A token that can be written shows all its places. -/
theorem Kind.IsWritable.shown_eq {limits : Limits} {k : Kind} (h : k.IsWritable limits) :
    k.shown = k := by
  cases k with
  | double whole fraction places =>
    obtain ⟨-, hfraction, hplaces, -, hfits⟩ := h
    rw [Kind.shown, Expr.shownPlaces_eq hfraction hplaces hfits]
  | _ => rfl

/-- What is read can be written once places are counted as shown. -/
theorem Kind.IsRead.isWritable_shown {limits : Limits} {n : Nat} {k : Kind}
    (h : k.IsRead limits n) : k.shown.IsWritable limits := by
  cases h with
  | keyword | mark => trivial
  | identifier hname hlength => exact ⟨hname, hlength⟩
  | integer hw => exact hw
  | string hlength => exact hlength
  | @double w f fraction hw hne hdigits hlength hf =>
    have hfraction := Lexeme.nonneg_of_numeral? hf
    have hpos : 1 ≤ Expr.shownPlaces f (fraction.length % 4294967296) :=
      Nat.le_trans Nat.length_toDigits_pos (Nat.le_max_right _ _)
    have hbound : (Nat.toDigits 10 f.val.natAbs).length ≤ 19 := by
      rw [Nat.length_toDigits_le_iff (by decide) (by decide)]
      have := f.fits.2
      omega
    refine ⟨hw, hfraction, hpos, ?_, ?_⟩
    · rw [Expr.shownPlaces]
      omega
    · have hfits := (Nat.length_toDigits_le_iff (by decide) hpos).mp (Nat.le_max_right _ _)
      have habs : f.val.natAbs = f.val.toNat := by omega
      rwa [habs] at hfits

namespace Expr

variable {limits : Limits}

/-- Where all digits have a place, the standard forms are the same. -/
theorem shown_eq_plain {e : Expr} (h : e.every (ownAll fun k => decide (k.shown = k)) = true) :
    e.shown = e.plain := by
  induction e using induction_operands with
  | h e ih =>
  obtain ⟨hown, hoperands⟩ := of_every h
  have hinner : ∀ inner ∈ e.operands,
      inner.standard shownPlaces = inner.standard fun _ places => places :=
    fun inner hinner => ih inner hinner (hoperands inner hinner)
  rw [shown, plain]
  cases e with
  | decimal whole fraction places =>
    simpa [standard, ownAll, ownKinds, Kind.shown] using hown
  | call target arguments =>
    cases target <;> simpa [standard, allStandard_eq_map, operands] using hinner
  | methodCall head path arguments =>
    simpa [standard, allStandard_eq_map, operands] using hinner
  | _ => simp_all [standard, operands]

/-- The text of a decimal does not tell places that are not shown. -/
theorem decimalText_shownPlaces {whole fraction : Integer} (hfraction : 0 ≤ fraction.val)
    (places : Nat) :
    decimalText whole fraction (shownPlaces fraction places) =
      decimalText whole fraction places := by
  have hsub : shownPlaces fraction places - (Nat.toDigits 10 fraction.val.natAbs).length =
      places - (Nat.toDigits 10 fraction.val.natAbs).length := by
    rw [shownPlaces]
    omega
  simp only [decimalText, if_neg (Int.not_lt.mpr hfraction), List.leftpad, hsub]

/-- Arguments have the same text if each of them has. -/
theorem texts_allStandard {count : Integer → Nat → Nat} {es : List Expr}
    (h : ∀ e ∈ es, (e.standard count).text = e.text) :
    texts (allStandard count es) = texts es := by
  simpa [texts_eq_map, allStandard_eq_map] using h

/-- The text does not change with what does not show. -/
theorem text_shown {e : Expr}
    (h : e.every (ownAll fun k => decide (k.shown.IsWritable limits)) = true) :
    e.shown.text = e.text := by
  induction e using induction_operands with
  | h e ih =>
  obtain ⟨hown, hoperands⟩ := of_every h
  have hinner : ∀ inner ∈ e.operands, (inner.standard shownPlaces).text = inner.text :=
    fun inner hinner => ih inner hinner (hoperands inner hinner)
  rw [shown]
  cases e with
  | decimal whole fraction places =>
    have hwritable : (Kind.double whole fraction places).shown.IsWritable limits := by
      simpa [ownAll, ownKinds] using hown
    exact decimalText_shownPlaces hwritable.2.1 places
  | call target arguments =>
    have htexts : texts (allStandard shownPlaces arguments) = texts arguments :=
      texts_allStandard hinner
    cases target <;> simp only [standard, text, Target.text, htexts]
  | methodCall head path arguments =>
    have htexts : texts (allStandard shownPlaces arguments) = texts arguments :=
      texts_allStandard hinner
    simp only [standard, text, htexts]
  | _ => simp_all [standard, text, operands]

/-- What is known of an expression by itself where it stands in a parsed program. -/
structure IsSound (limits : Limits) (e : Expr) : Prop where
  /-- its own tokens can be written -/
  own : ∀ k ∈ e.ownKinds, k.shown.IsWritable limits
  /-- the path of a member is not empty -/
  memberPath : ∀ head path, e = .member head path → path ≠ []
  /-- nor is that of a call -/
  callPath : ∀ head path arguments,
    e = .call (.member head path) arguments ∨ e = .methodCall head path arguments → path ≠ []
  /-- there is no quote in a string -/
  quote : e.hasNoQuote = true

/-- A path of tokens that can be written is legible. -/
theorem isLegible_path {head : String} {path : List String} (arguments : Option (List Expr))
    (h : ∀ k ∈ pathKinds head path, k.shown.IsWritable limits) :
    (Layout.word (.identifier head) path arguments).IsLegible limits := by
  refine ⟨h _ List.mem_cons_self, trivial, by rintro ⟨⟩, fun segment hsegment => ?_⟩
  have hkind : Kind.identifier segment ∈ pathKinds head path := by
    simp only [pathKinds, List.mem_cons, List.mem_flatMap]
    exact .inr ⟨segment, hsegment, by simp⟩
  exact (h _ hkind).1

/-- In its standard form the expression has a legible layout, from which it can be
restored. -/
theorem IsSound.layout_shown {e : Expr} (h : e.IsSound limits) :
    e.shown.layout.expr = e.shown ∧ e.shown.layout.IsLegible limits := by
  cases e with
  | integer value | decimal whole fraction places | var name =>
    exact ⟨rfl, h.own _ List.mem_cons_self, trivial, fun _ => rfl, by simp⟩
  | string value =>
    have hquote : '"' ∉ value.toList := by simpa [hasNoQuote] using h.quote
    exact ⟨rfl, hquote⟩
  | boolean value => cases value <;> exact ⟨rfl, trivial, trivial, fun _ => rfl, by simp⟩
  | member head path =>
    obtain ⟨segment, path, rfl⟩ := List.exists_cons_of_ne_nil (h.memberPath head path rfl)
    exact ⟨rfl, isLegible_path none h.own⟩
  | not operand => exact ⟨rfl, ⟨_, rfl⟩, List.cons_ne_nil _ _⟩
  | logic op left right | binary op left right | relation op negated left right =>
    cases op <;> exact ⟨rfl, ⟨_, rfl⟩, List.cons_ne_nil _ _⟩
  | call target arguments =>
    cases target with
    | var name => exact ⟨rfl, isLegible_path _ h.own⟩
    | member head path =>
      obtain ⟨segment, path, rfl⟩ :=
        List.exists_cons_of_ne_nil (h.callPath head path arguments (.inl rfl))
      exact ⟨rfl, isLegible_path _ h.own⟩
  | methodCall head path arguments =>
    obtain ⟨segment, path, rfl⟩ :=
      List.exists_cons_of_ne_nil (h.callPath head path arguments (.inr rfl))
    exact ⟨rfl, isLegible_path _ h.own⟩

end Expr

/-! ## Parsed programs -/

section

variable {limits : Limits} {source : String} {p : Program} {e : Expr}

/-- What holds of all tokens that a text can have holds of the own tokens of all
expressions in the program that is parsed from it. -/
theorem every_own_of_parseSource {P : Kind → Bool} (h : parseSource limits source = .ok p)
    (hP : ∀ k : Kind, k.IsRead limits source.length → P k = true) :
    p.every (fun _ => true) (Expr.ownAll P) = true := by
  obtain ⟨ts, hscan, hparse⟩ := parseSource_eq_ok_iff.mp h
  obtain ⟨ks, hts, hks⟩ := Cursor.isRead_of_tokens hscan
  have htext := textKinds_of_map_eq hts fun k hk hstop => by
    subst hstop
    cases hks _ hk
  obtain ⟨ks', rest, hreads, hstop, hprogram⟩ := isProgram_of_parseProgram hparse
  obtain rfl : ks = ks' := htext.symm.trans (textKinds_eq_iff.mpr ⟨rest, hreads, hstop⟩)
  exact hprogram.every_own (List.all_eq_true.mpr fun k hk => hP k (hks k hk))

/-- What can be written within limits can be written within wider ones. -/
theorem Kind.IsWritable.mono {bounds : Limits} {k : Kind} (h : k.IsWritable limits)
    (hidentifier : limits.identifier ≤ bounds.identifier)
    (hstring : limits.string ≤ bounds.string) : k.IsWritable bounds := by
  cases k with
  | identifier name => exact ⟨h.1, Nat.le_trans h.2 hidentifier⟩
  | string value => exact Nat.le_trans h hstring
  | _ => exact h

/-- In their standard form the expressions of a parsed program are legible. -/
theorem Expr.isLegible_shown (hp : p.IsShaped)
    (hown : p.every (fun _ => true) (ownAll fun k => decide (k.shown.IsWritable limits)) = true)
    (he : p.HasExpr e) (hquote : e.every hasNoQuote = true) : e.shown.IsLegible limits := by
  induction e using induction_operands with
  | h e ih =>
  obtain ⟨hnode, hoperands⟩ := of_every hquote
  have hsound : e.IsSound limits := by
    refine ⟨?_, ?_, ?_, hnode⟩
    · have hkinds := (Program.of_every hown).2 e he
      simpa [ownAll] using hkinds
    · rintro head path rfl
      exact hp.memberPath head path he
    · rintro head path arguments (rfl | rfl)
      · exact hp.callPath head path arguments he
      · exact hp.methodPath head path arguments he
  obtain ⟨hexpr, hlayout⟩ := hsound.layout_shown
  refine .mk hexpr hlayout fun inner hinner => ?_
  rw [shown, operands_standard] at hinner
  obtain ⟨operand, hoperand, rfl⟩ := List.mem_map.mp hinner
  exact ih operand hoperand (he.operand hoperand) (hoperands operand hoperand)

/-- An expression of a parsed program has a legible standard form of the same
text, for all limits that are not tighter. -/
theorem legible_of_parseSource {bounds : Limits} (hp : parseSource limits source = .ok p)
    (hidentifier : limits.identifier ≤ bounds.identifier)
    (hstring : limits.string ≤ bounds.string) (he : p.HasExpr e)
    (hquote : e.every Expr.hasNoQuote = true) :
    e.shown.IsLegible bounds ∧ e.shown.text = e.text := by
  have hown := every_own_of_parseSource hp fun k hk =>
    decide_eq_true (hk.isWritable_shown.mono hidentifier hstring)
  obtain ⟨ts, -, hparse⟩ := parseSource_eq_ok_iff.mp hp
  obtain ⟨place, hplace⟩ := he
  exact ⟨Expr.isLegible_shown (Program.isShaped (wellFormed_of_parseProgram hparse)) hown
    ⟨place, hplace⟩ hquote, Expr.text_shown (Program.every_of_occurs hown hplace)⟩

/-- Where places can be counted, as many are shown as there are. -/
theorem shown_eq_plain_of_parseSource (hp : parseSource limits source = .ok p)
    (hlength : source.length < 4294967296) (he : p.HasExpr e) : e.shown = e.plain := by
  have hown := every_own_of_parseSource hp fun k hk =>
    decide_eq_true (hk.isWritable hlength).shown_eq
  obtain ⟨place, hplace⟩ := he
  exact Expr.shown_eq_plain (Program.every_of_occurs hown hplace)

end

/-- **The text tells the expression.** If two expressions of parsed programs, in
whose strings there is no quote, have the same text, they are the same up to the
marks of comparisons and the forms of calls. That is so as long as the places of
fractions can be counted, in texts of less than 2 ^ 32 characters. In others they
are still the same up to the count of places, as far as it does not show. -/
theorem text_tells_expression {limits limits' : Limits} {source source' : String}
    {p p' : Program} {e e' : Expr} (hp : parseSource limits source = .ok p)
    (hp' : parseSource limits' source' = .ok p') (he : p.HasExpr e) (he' : p'.HasExpr e')
    (hquote : e.every Expr.hasNoQuote = true) (hquote' : e'.every Expr.hasNoQuote = true)
    (htext : e.text = e'.text) :
    e.shown = e'.shown ∧
      (source.length < 4294967296 → source'.length < 4294967296 → e.plain = e'.plain) := by
  let bounds : Limits :=
    ⟨max limits.identifier limits'.identifier, max limits.string limits'.string⟩
  obtain ⟨hlegible, hshown⟩ := @legible_of_parseSource limits source p e bounds hp
    (Nat.le_max_left _ _) (Nat.le_max_left _ _) he hquote
  obtain ⟨hlegible', hshown'⟩ := @legible_of_parseSource limits' source' p' e' bounds hp'
    (Nat.le_max_right _ _) (Nat.le_max_right _ _) he' hquote'
  have hends : EndsExpr [] := by simp [EndsExpr]
  have heq : e.shown = e'.shown :=
    (hlegible.text_unique hlegible' hends hends (by rw [hshown, hshown', htext])).1
  refine ⟨heq, fun hlength hlength' => ?_⟩
  rw [← shown_eq_plain_of_parseSource hp hlength he,
    ← shown_eq_plain_of_parseSource hp' hlength' he', heq]

/-- With quotes in a string, one argument can look like two. -/
example : (Expr.call (.var "f") [.string "a\", \"b"]).text =
    (Expr.call (.var "f") [.string "a", .string "b"]).text := by decide

/-- A comparison under a negation: marked as negated, if there are no parentheses
around it in the text, or not. -/
def notLess (negated : Bool) : Expr :=
  .not (.relation .lt negated (.var "x") (.var "y"))

/-- A function that returns such a comparison. -/
def returnsNotLess (name : String) (negated : Bool) : Routine where
  returns := .boolean
  name := name
  parameters := [⟨.double, "x", false⟩, ⟨.double, "y", false⟩]
  body := [.ret (notLess negated)]

/-- Two functions, with parentheses and without. -/
def twoNegations : Program where
  functions := .ofList [("f", returnsNotLess "f" true), ("g", returnsNotLess "g" false)]

theorem hasExpr_twoNegations (negated : Bool) : twoNegations.HasExpr (notLess negated) := by
  have hvalues : twoNegations.functions.values =
      [returnsNotLess "f" true, returnsNotLess "g" false] := rfl
  obtain ⟨name, hname⟩ : ∃ name, returnsNotLess name negated ∈ twoNegations.functions.values := by
    cases negated with
    | false => exact ⟨"g", by simp [hvalues]⟩
    | true => exact ⟨"f", by simp [hvalues]⟩
  have hst : twoNegations.HasStmt (.ret (notLess negated)) :=
    .body (.inl hname) (List.mem_singleton_self _)
  exact hst.hasExpr (List.mem_singleton_self _)

/-- Two expressions that have one text, and one standard form. -/
theorem text_tells_expression_twoNegations :
    parseSource {} twoNegations.source = .ok twoNegations ∧
      twoNegations.HasExpr (notLess true) ∧ twoNegations.HasExpr (notLess false) ∧
      (notLess true).every Expr.hasNoQuote = true ∧
      (notLess false).every Expr.hasNoQuote = true ∧
      (notLess true).text = (notLess false).text ∧ twoNegations.source.length < 4294967296 ∧
      (notLess true).plain = (notLess false).plain := by
  have hkinds : ∀ k ∈ twoNegations.kinds, k.IsWritable {} := by decide
  have hparse : parseSource {} twoNegations.source = .ok twoNegations :=
    parseSource_of_finds (by decide) (fun k hk => (hkinds k hk).ne_stop)
      (Cursor.finds_of_isWritten (isWritten_intercalate hkinds))
  have hlength : twoNegations.source.length < 4294967296 := by decide +kernel
  have htells := text_tells_expression hparse hparse (hasExpr_twoNegations true)
    (hasExpr_twoNegations false) (by decide) (by decide) (by decide)
  exact ⟨hparse, hasExpr_twoNegations true, hasExpr_twoNegations false, by decide, by decide,
    by decide, hlength, htells.2 hlength hlength⟩

/-! ## Places that are not counted -/

/-- Two digits 5, and noughts in front of them. -/
def noughtsAnd55 (noughts : Nat) : List Char := List.replicate noughts '0' ++ ['5', '5']

theorem inRange_one : InRange 1 := by decide

theorem inRange_fiftyFive : InRange 55 := by decide

/-- The literal 1.55, if it is said to have two places. -/
def oneAnd55 (places : Nat) : Expr := .decimal ⟨1, inRange_one⟩ ⟨55, inRange_fiftyFive⟩ places

/-- Of the places of a fraction, what goes beyond 32 bits is lost. -/
theorem Lexeme.read_oneAnd55 (limits : Limits) (noughts : Nat) {rest : List Char}
    (hrest : Separated rest) :
    read limits ('1' :: '.' :: noughtsAnd55 noughts ++ rest) =
      { length := ('1' :: '.' :: noughtsAnd55 noughts).length
        meaning := .ok
          (.double ⟨1, inRange_one⟩ ⟨55, inRange_fiftyFive⟩ ((noughts + 2) % 4294967296)) } := by
  have hdigits : ∀ c ∈ noughtsAnd55 noughts, c.isDigit = true := by
    intro c hc
    rcases List.mem_append.mp hc with hc | hc
    · rw [List.eq_of_mem_replicate hc]
      rfl
    · obtain rfl : c = '5' := by simpa using hc
      rfl
  have hone : numeral? ['1'] = some ⟨1, inRange_one⟩ := rfl
  have hvalue : numeral? (noughtsAnd55 noughts) = some ⟨55, inRange_fiftyFive⟩ := by
    refine numeral?_of_ofDigitChars (by decide) ?_
    rw [noughtsAnd55, Nat.ofDigitChars_append, Nat.ofDigitChars_replicate_zero, Nat.mul_zero]
    rfl
  have hlength : (noughtsAnd55 noughts).length = noughts + 2 := by simp [noughtsAnd55]
  generalize noughtsAnd55 noughts = fraction at hdigits hvalue hlength ⊢
  obtain ⟨d, ds, rfl⟩ := List.exists_cons_of_length_eq_add_one hlength
  have hkind : numberKind? ['1'] (d :: ds) =
      some (.double ⟨1, inRange_one⟩ ⟨55, inRange_fiftyFive⟩ ((noughts + 2) % 4294967296)) := by
    simp only [numberKind?, hone, hvalue, Option.map_some, hlength]
  exact (read_digits rfl).trans
    (ofNumber_of_endsNumber (List.forall_mem_singleton.mpr rfl) hdigits (.of_separated _ hrest)
      (by simp) hkind)

/-- A class with a field that starts out as this literal. -/
def classWith55 (places : Nat) : ClassDef where
  name := "C"
  fields := [⟨.double, "x", some (oneAnd55 places)⟩]
  methods := []

/-- A program that consists of this class. -/
def startsWith55 (places : Nat) : Program where
  classes := .ofList [("C", classWith55 places)]

/-- The tokens in front of the literal. -/
def kindsBefore55 : List Kind :=
  [.mark .leftBrace, .keyword .classWord, .identifier "C", .mark .leftBrace, .keyword .doubleType,
    .identifier "x", .mark .equal]

/-- The tokens behind it. -/
def kindsBehind55 : List Kind := [.mark .semicolon, .mark .rightBrace, .mark .rightBrace]

/-- The text of the class, with noughts in front of the digits 5. -/
def textWith55 (noughts : Nat) : String :=
  String.ofList (spaced kindsBefore55 ++
    ([' '] ++ ('1' :: '.' :: noughtsAnd55 noughts ++ spaced kindsBehind55)))

example : textWith55 1 = " \x7b class C \x7b Double x = 1.055 ; \x7d \x7d" := by decide

/-- The places of the literal are those in the text, up to 32 bits of them. -/
theorem parseSource_textWith55 (noughts : Nat) :
    parseSource {} (textWith55 noughts) = .ok (startsWith55 ((noughts + 2) % 4294967296)) := by
  have hread := Lexeme.read_oneAnd55 {} noughts (separated_spaced kindsBehind55)
  generalize (noughts + 2) % 4294967296 = places at hread ⊢
  have hbehind : Cursor.Finds {} (spaced kindsBehind55) kindsBehind55 :=
    Cursor.finds_of_isWritten (isWritten_spaced (by decide))
  have hskip : ignorable ('1' :: '.' :: noughtsAnd55 noughts ++ spaced kindsBehind55) = 0 := by
    refine Lexeme.ignorable_eq_zero (congrArg Lexeme.meaning hread) ?_
    rintro ⟨⟨⟩, -⟩
  have hliteral := hbehind.cons (isSkipped_blank (c := ' ') rfl) hread hskip (by rintro ⟨⟩)
  have hkinds : (startsWith55 places).kinds =
      kindsBefore55 ++
        .double ⟨1, inRange_one⟩ ⟨55, inRange_fiftyFive⟩ places :: kindsBehind55 := rfl
  refine parseSource_of_finds rfl ?_ ?_ <;> rw [hkinds]
  · simp [kindsBefore55, kindsBehind55]
  · rw [textWith55, String.toList_ofList]
    exact finds_spaced_append (separated_cons.mpr rfl) hliteral (by decide)

theorem hasExpr_startsWith55 (places : Nat) : (startsWith55 places).HasExpr (oneAnd55 places) := by
  have hclass : classWith55 places ∈ (startsWith55 places).classes.values :=
    List.mem_singleton_self _
  exact ⟨_, .field hclass (List.mem_singleton_self _) rfl⟩

/-- **Places can hide.** Where they go beyond 32 bits, two literals have the same
text, though they are said to have different places. -/
theorem places_can_hide :
    parseSource {} (textWith55 0) = .ok (startsWith55 2) ∧
      parseSource {} (textWith55 4294967295) = .ok (startsWith55 1) ∧
      (startsWith55 2).HasExpr (oneAnd55 2) ∧ (startsWith55 1).HasExpr (oneAnd55 1) ∧
      (oneAnd55 2).every Expr.hasNoQuote = true ∧ (oneAnd55 1).every Expr.hasNoQuote = true ∧
      (oneAnd55 2).text = (oneAnd55 1).text ∧ (oneAnd55 2).plain ≠ (oneAnd55 1).plain := by
  refine ⟨parseSource_textWith55 0, parseSource_textWith55 4294967295, hasExpr_startsWith55 2,
    hasExpr_startsWith55 1, rfl, rfl, by decide, ?_⟩
  rintro ⟨⟩

end ClassLang
