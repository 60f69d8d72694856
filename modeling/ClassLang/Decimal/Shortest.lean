/-!
# The shortest decimal for a binary fraction

A binary number of fixed precision stands for an interval of reals: those that
are nearer to it than to its neighbours. Written in decimal, any real of the
interval identifies the number. `shortest` takes the fewest places behind the
point that suffice, and among the decimals with so many places the nearest.

All comparisons are between whole numbers: with `k` binary places the number
is `mantissa / 2^k`, and both ends of its interval are whole multiples of
`1 / 2^(k + 2)`.
-/

namespace ClassLang

/-- A power of two. -/
def twoTo (n : Nat) : Nat := Nat.pow 2 n

/-- A power of ten. -/
def tenTo (n : Nat) : Nat := Nat.pow 10 n

/-- The number `mantissa / 2^places`, and whether the gap to its lower
neighbour is half as wide as that to its upper one, as it is where the
mantissa is the least of its binade. -/
structure BinaryFraction where
  /-- the numerator -/
  mantissa : Nat
  /-- the number of binary places -/
  places : Nat
  /-- is the gap below the narrower one? -/
  narrowBelow : Bool

/-- A number `units / 10^places`. -/
structure DecimalFraction where
  /-- the numerator -/
  units : Nat
  /-- the number of decimal places -/
  places : Nat

namespace BinaryFraction

/-- Is a decimal in the interval that a binary number stands for? The ends,
which are as near to a neighbour, count exactly if the mantissa is even. -/
def covers (b : BinaryFraction) (d : DecimalFraction) : Bool :=
  let decimal := d.units * twoTo (b.places + 2)
  let lower := (4 * b.mantissa - if b.narrowBelow then 1 else 2) * tenTo d.places
  let upper := (4 * b.mantissa + 2) * tenTo d.places
  if b.mantissa % 2 = 0 then lower ≤ decimal && decimal ≤ upper
  else lower < decimal && decimal < upper

/-- The decimal with so many places that is next below the number, or equal to
it. -/
def floor (b : BinaryFraction) (places : Nat) : DecimalFraction :=
  { units := b.mantissa * tenTo places / twoTo b.places, places }

/-- The decimal with so many places that lies in the interval of the number and
is nearest to it, if any does. Of two that are as near the larger is taken. -/
def nearest? (b : BinaryFraction) (places : Nat) : Option DecimalFraction :=
  let low := b.floor places
  let high := { low with units := low.units + 1 }
  let belowMiddle := 2 * (b.mantissa * tenTo places % twoTo b.places) < twoTo b.places
  match b.covers low, b.covers high with
  | true, true => some (if belowMiddle then low else high)
  | true, false => some low
  | false, true => some high
  | false, false => none

/-- The first answer from `places` on, within a number of attempts. -/
def searchFrom (b : BinaryFraction) : Nat → Nat → DecimalFraction
  | 0, places => b.floor places
  | attempts + 1, places => (b.nearest? places).getD (b.searchFrom attempts (places + 1))

/-- The decimal with the fewest places, one at least, that lies in the interval
of the number. As many decimal places as there are binary ones write the number
itself, so the search need not go further. -/
def shortest (b : BinaryFraction) : DecimalFraction :=
  b.searchFrom (b.places - 1) 1

end BinaryFraction

/-- The positional form: the digits with a point before the last `places` of
them, and zeros in front where there are too few. -/
def DecimalFraction.text (d : DecimalFraction) : String :=
  let digits := (Nat.toDigits 10 d.units).leftpad (d.places + 1) '0'
  let whole := digits.length - d.places
  String.ofList (digits.take whole ++ '.' :: digits.drop whole)

end ClassLang
