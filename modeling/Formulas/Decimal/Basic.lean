/-!
# Decimals

A decimal is a natural number of digits scaled by a power of ten. This is the exact value that a
number literal denotes before it is rounded to a binary double; `Decimal.toFloat` does that
rounding, to the nearest double with ties to the even one, as `Float.ofScientific` does.
-/

namespace Formulas

/-- The non-negative rational `digits × 10 ^ exponent`. -/
structure Decimal where
  /-- The digits read as one natural number. -/
  digits : Nat
  /-- The power of ten that scales the digits. -/
  exponent : Int
  deriving DecidableEq, Repr

namespace Decimal

/-- The value of one ASCII decimal digit. -/
def digitValue (c : Char) : Nat := c.toNat - '0'.toNat

/-- The natural number that a run of ASCII digits spells, most significant first. -/
def digitsValue (ds : List Char) : Nat :=
  ds.foldl (fun n c => 10 * n + digitValue c) 0

/-- The double nearest to the decimal, ties to even; above the largest double it is infinity. -/
def toFloat (d : Decimal) : Float :=
  match d.exponent with
  | .ofNat e => Float.ofScientific d.digits false e
  | .negSucc e => Float.ofScientific d.digits true (e + 1)

theorem digitsValue_append (xs ys : List Char) :
    digitsValue (xs ++ ys) = ys.foldl (fun n c => 10 * n + digitValue c) (digitsValue xs) := by
  simp [digitsValue, List.foldl_append]

end Decimal

end Formulas
