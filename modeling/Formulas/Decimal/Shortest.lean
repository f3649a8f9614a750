import Formulas.Decimal.Basic
import Formulas.Decimal.Binary
/-!
# Shortest decimals

The decimal printed for a finite double is the one with the fewest significant digits inside the
interval of reals that read back as it. The search runs over grids: with `k` the least power of
ten above the interval, the grid of `n` digits is `10 ^ (k - n)`, and on it only the value's two
neighbours can be the answer. For `n = 1, 2, …` the first grid where a neighbour lies in the
interval wins; when both do, the nearer wins, and an exact tie goes up. Arithmetic is exact, on
naturals.
-/

namespace Formulas.Decimal

/-- `a × 2 ^ i` compared with `b × 10 ^ j`, exactly. -/
def cmpPow (a : Nat) (i : Int) (b : Nat) (j : Int) : Ordering :=
  compare (a * Nat.pow 2 i.toNat * Nat.pow 10 (-j).toNat)
    (b * Nat.pow 10 j.toNat * Nat.pow 2 (-i).toNat)

/-- Whether the interval stays under `10 ^ k`: its upper end is below it, or at it and excluded. -/
def Binary.under (x : Binary) (k : Int) : Bool :=
  match cmpPow (x.mant + x.above) x.exp 1 k with
  | .lt => true
  | .eq => !x.inclusive
  | .gt => false

/-- The least `k` such that the interval stays under `10 ^ k`. The numbers of decimal digits of
the upper end's numerator and denominator give it within one either way. -/
def Binary.scale (x : Binary) : Int :=
  let num := (x.mant + x.above) * Nat.pow 2 x.exp.toNat
  let den := Nat.pow 2 (-x.exp).toNat
  let k : Int := (Nat.toDigits 10 num).length - (Nat.toDigits 10 den).length
  ([k - 1, k].find? x.under).getD (k + 1)

/-- The answer on the grid `10 ^ (k - n)`, if that grid has one. Everything is scaled to whole
numbers: `v` is the value, `g` the grid step, `r` the value's distance above the grid point `q × g`
below it, and `lower`, `upper` the distances from the value to the ends of the interval. -/
def Binary.onGrid (x : Binary) (k : Int) (n : Nat) : Option Decimal :=
  let t := k - n
  let scaleUp := Nat.pow 2 x.exp.toNat * Nat.pow 10 (-t).toNat
  let v := x.mant * scaleUp
  let g := Nat.pow 10 t.toNat * Nat.pow 2 (-x.exp).toNat
  let q := v / g
  let r := v % g
  let lower := x.below * scaleUp
  let upper := x.above * scaleUp
  let downFits := if x.inclusive then r ≤ lower else r < lower
  let upFits := if x.inclusive then g - r ≤ upper else g - r < upper
  if upFits && (!downFits || g ≤ 2 * r) then some ⟨q + 1, t⟩
  else if downFits then some ⟨q, t⟩
  else none

/-- The decimal with trailing zeros moved into the exponent; it has the same value. -/
def normalize (d : Decimal) : Decimal :=
  if h : d.digits ≠ 0 ∧ d.digits % 10 = 0 then
    normalize ⟨d.digits / 10, d.exponent + 1⟩
  else d
termination_by d.digits
decreasing_by exact Nat.div_lt_self (Nat.pos_of_ne_zero h.1) (by decide)

/-- The exact value of the double as a decimal. -/
def Binary.exact (x : Binary) : Decimal :=
  match x.exp with
  | .ofNat e => ⟨x.mant * Nat.pow 2 e, 0⟩
  | .negSucc e => ⟨x.mant * Nat.pow 5 (e + 1), -((e + 1 : Nat) : Int)⟩

/-- The shortest decimal that reads back as the double, nearest of those, ties up. Seventeen
digits always suffice for a double; past them the exact value stands in. -/
def Binary.shortest (x : Binary) : Decimal :=
  match (List.range' 1 17).findSome? (x.onGrid x.scale) with
  | some d => d.normalize
  | none => x.exact

example : (Binary.ofFields 0x3FF 0).shortest = ⟨1, 0⟩ := by decide +kernel

end Formulas.Decimal
