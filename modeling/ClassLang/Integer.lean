/-!
# Whole numbers of the language

The type `Integer` of the language holds the whole numbers that fit 64 bits
with a sign. The bound is part of the type: a computation that would leave the
range has no result (`ofInt?` gives `none`), and the interpreter turns that
into an overflow report. Nothing ever wraps round.
-/

namespace ClassLang

/-- The numbers that fit 64 bits with a sign. -/
def InRange (n : Int) : Prop := -9223372036854775808 ≤ n ∧ n ≤ 9223372036854775807

instance (n : Int) : Decidable (InRange n) :=
  inferInstanceAs (Decidable (-9223372036854775808 ≤ n ∧ n ≤ 9223372036854775807))

/-- A whole number that fits 64 bits with a sign. -/
structure Integer where
  /-- the number itself -/
  val : Int
  /-- it fits 64 bits with a sign -/
  fits : InRange val
deriving DecidableEq

namespace Integer

/-- Numbers are equal as soon as their values are. -/
@[ext] theorem ext {a b : Integer} (h : a.val = b.val) : a = b := by
  cases a; cases b; cases h; rfl

/-- The number with a given value, if that value is in range. -/
def ofInt? (n : Int) : Option Integer :=
  if h : InRange n then some ⟨n, h⟩ else none

/-- **Exact or nothing.** A result has the very value asked for, and there is
one exactly when that value is in range. -/
theorem ofInt?_eq_some_iff {n : Int} {a : Integer} : ofInt? n = some a ↔ a.val = n := by
  unfold ofInt?
  constructor
  · intro h
    split at h
    · cases h; rfl
    · cases h
  · rintro rfl
    rw [dif_pos a.fits]

@[simp] theorem ofInt?_val (a : Integer) : ofInt? a.val = some a :=
  ofInt?_eq_some_iff.mpr rfl

theorem ofInt?_eq_none_iff {n : Int} : ofInt? n = none ↔ ¬ InRange n := by
  unfold ofInt?
  split <;> simp_all

/-- The number nought, which an `Integer` starts out as. -/
def zero : Integer := ⟨0, by decide⟩

instance : LT Integer := ⟨fun a b => a.val < b.val⟩

instance : LE Integer := ⟨fun a b => a.val ≤ b.val⟩

instance (a b : Integer) : Decidable (a < b) := inferInstanceAs (Decidable (a.val < b.val))

instance (a b : Integer) : Decidable (a ≤ b) := inferInstanceAs (Decidable (a.val ≤ b.val))

/-- The sum, if it is in range. -/
def add? (a b : Integer) : Option Integer := ofInt? (a.val + b.val)

/-- The difference, if it is in range. -/
def sub? (a b : Integer) : Option Integer := ofInt? (a.val - b.val)

/-- The product, if it is in range. -/
def mul? (a b : Integer) : Option Integer := ofInt? (a.val * b.val)

/-- The decimal digits, with a leading minus for a negative number. -/
def text (a : Integer) : String := toString a.val

end Integer

end ClassLang
