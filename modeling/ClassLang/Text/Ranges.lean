/-!
# Classes of characters

A class of characters is given by ranges of code points in increasing order
with gaps between them. That form is unique, so a class can be compared with
its definition elsewhere range by range.
-/

namespace ClassLang

namespace Text

/-- Does one of the ranges, each given by its first and its last code point,
hold a character? -/
def within (ranges : List (Nat × Nat)) (c : Char) : Bool :=
  ranges.any fun (first, last) => first ≤ c.toNat && c.toNat ≤ last

end Text

end ClassLang
