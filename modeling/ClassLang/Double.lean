import ClassLang.Integer
import ClassLang.Decimal.Shortest

/-!
# Numbers with a fraction

The type `Double` of the language is the binary floating point of 64 bits.

* `Double.ofLiteral` — the number that a decimal literal stands for: the sum of
  its whole part and of its fraction over a power of ten, each rounded.
* `Double.text` — the written form. A whole number has all its digits and one
  place; any other has the fewest places that identify it. There is never an
  exponent, and a number that is none has no sign.
-/

namespace ClassLang

namespace Double

/-- `result * base ^ n` by repeated squaring. The order of the multiplications
matters, because each is rounded. -/
def scaleByPower (result base : Float) (n : Nat) : Float :=
  let result := if n % 2 = 1 then result * base else result
  if n / 2 = 0 then result else scaleByPower result (base * base) (n / 2)
termination_by n
decreasing_by omega

/-- A whole number as a `Double`, to the nearest. -/
def ofInteger (n : Integer) : Float := Float.ofInt n.val

/-- The number that a decimal literal stands for. -/
def ofLiteral (whole fraction : Integer) (places : Nat) : Float :=
  ofInteger whole + ofInteger fraction / scaleByPower 1.0 10.0 places

/-- What the bits of a `Double` mean. -/
inductive Meaning where
  /-- not a number -/
  | nan
  /-- beyond all numbers -/
  | infinite (negative : Bool)
  /-- `mantissa * 2 ^ exponent`, with a sign; `narrowBelow` as for binary
  fractions -/
  | finite (negative : Bool) (mantissa : Nat) (exponent : Int) (narrowBelow : Bool)

/-- Decodes the sign, the eleven bits of the exponent and the 52 bits of the
mantissa, whose leading one is not stored. -/
def meaning (x : Float) : Meaning :=
  let bits := x.toBits.toNat
  let negative := bits / twoTo 63 % 2 = 1
  let exponent : Nat := bits / twoTo 52 % twoTo 11
  let fraction := bits % twoTo 52
  if exponent = twoTo 11 - 1 then
    if fraction = 0 then .infinite negative else .nan
  -- The least exponent is used twice: without the leading one, and with it.
  else if exponent = 0 then .finite negative fraction (-1074) false
  else
    .finite negative (twoTo 52 + fraction) ((exponent : Int) - 1075) (fraction = 0 && 1 < exponent)

/-- The written form of a positive number or nought. -/
def magnitudeText (mantissa : Nat) (exponent : Int) (narrowBelow : Bool) : String :=
  if 0 ≤ exponent then toString (mantissa * twoTo exponent.toNat) ++ ".0"
  else
    let places := (-exponent).toNat
    if mantissa % twoTo places = 0 then toString (mantissa / twoTo places) ++ ".0"
    else (BinaryFraction.shortest { mantissa, places, narrowBelow }).text

/-- The written form of a `Double`. -/
def text (x : Float) : String :=
  match meaning x with
  | .nan => "NaN"
  | .infinite negative => if negative then "-inf" else "inf"
  | .finite negative mantissa exponent narrowBelow =>
    (if negative then "-" else "") ++ magnitudeText mantissa exponent narrowBelow

end Double

end ClassLang
