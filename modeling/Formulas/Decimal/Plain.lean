import Formulas.Decimal.Shortest
/-!
# Plain number text

The text of a double as the program prints it: a `-` when the sign bit is set (so `-0` too), then
the shortest decimal that reads back, always positional: `1e21` prints as twenty-two digits and
`1e-7` as `0.0000001`. The infinities are `inf` and `-inf`; not-a-number is `NaN`, whatever its sign.
-/

namespace Formulas.Decimal

/-- The digits of a decimal laid out with the point in its place: before them with leading zeros,
inside them, or after them with trailing zeros and then no point at all. -/
def plain (d : Decimal) : String :=
  let ds := Nat.toDigits 10 d.digits
  let point : Int := ds.length + d.exponent
  if point ≤ 0 then
    "0." ++ String.ofList (List.replicate (-point).toNat '0' ++ ds)
  else if point < ds.length then
    String.ofList (ds.take point.toNat ++ '.' :: ds.drop point.toNat)
  else
    String.ofList (ds ++ List.replicate (point.toNat - ds.length) '0')

/-- The sign mark of a negative value. -/
def signMark (negative : Bool) : String := if negative then "-" else ""

/-- The printed text of a double. -/
def Shape.text : Shape → String
  | .notANumber => "NaN"
  | .infinite negative => signMark negative ++ "inf"
  | .zero negative => signMark negative ++ "0"
  | .finite negative m => signMark negative ++ m.shortest.plain

/-- The printed text of a double. -/
def floatText (x : Float) : String := (Shape.of x).text

example : plain ⟨25, 8⟩ = "2500000000" ∧ plain ⟨1, -7⟩ = "0.0000001" ∧
    plain ⟨125, -1⟩ = "12.5" := by decide

end Formulas.Decimal
