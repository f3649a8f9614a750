/-!
# Doubles as exact values

A double's 64 bits say what it is: not-a-number, an infinity, a zero or a finite nonzero magnitude,
each but the first with a sign. A finite magnitude is an exact dyadic rational `mant × 2 ^ exp`,
and the reals that read back as it form an interval around it, halfway to its neighbours on either
side. `Binary` carries the magnitude and the interval together; the shortest printer searches
that interval for the decimal with the fewest digits.
-/

namespace Formulas.Decimal

/-- A finite positive double `mant × 2 ^ exp` and the reals that read back as it: those from
`(mant - below) × 2 ^ exp` to `(mant + above) × 2 ^ exp`, the two ends included when
`inclusive` holds. -/
structure Binary where
  /-- The scaled mantissa. -/
  mant : Nat
  /-- The power of two that scales `mant`, `below` and `above`. -/
  exp : Int
  /-- Distance from the value down to the lower end of its interval. -/
  below : Nat
  /-- Distance from the value up to the upper end of its interval. -/
  above : Nat
  /-- Whether the ends of the interval read back as the value too. -/
  inclusive : Bool
  deriving DecidableEq, Repr

/-- What the bits of a double stand for. -/
inductive Shape where
  | notANumber
  | infinite (negative : Bool)
  | zero (negative : Bool)
  | finite (negative : Bool) (magnitude : Binary)
  deriving DecidableEq, Repr

/-- The exponent field of a double's bits. -/
def exponentField (b : UInt64) : Nat := ((b >>> 52) &&& 0x7FF).toNat

/-- The fraction field of a double's bits. -/
def fractionField (b : UInt64) : Nat := (b &&& 0xFFFFFFFFFFFFF).toNat

/-- The magnitude of a finite nonzero double with its interval. A subnormal is `2f × 2 ^ -1075`
and a normal `(2 ^ 52 + f) × 2 ^ (e - 1075)`, both doubled so that the half-way ends are whole;
where the fraction field is zero and the exponent field is not, the value is a power of two and
the neighbour below is at half the distance of the one above, so everything is doubled again.
Ends are included when the undoubled mantissa is even, since ties read back to the even one. -/
def Binary.ofFields (e f : Nat) : Binary :=
  if e = 0 then ⟨2 * f, -1075, 1, 1, true⟩
  else if f = 0 then ⟨4 * Nat.pow 2 52, (e : Int) - 1077, 1, 2, true⟩
  else ⟨2 * (Nat.pow 2 52 + f), (e : Int) - 1076, 1, 1, f % 2 == 0⟩

/-- The shape of a double, read from its bits. -/
def Shape.ofBits (b : UInt64) : Shape :=
  let negative := b >>> 63 == 1
  let e := exponentField b
  let f := fractionField b
  if e = 0x7FF then (if f = 0 then .infinite negative else .notANumber)
  else if e = 0 ∧ f = 0 then .zero negative
  else .finite negative (Binary.ofFields e f)

/-- The shape of a double. -/
def Shape.of (x : Float) : Shape := Shape.ofBits x.toBits

/-- A double is finite when it is neither an infinity nor not-a-number. -/
def isFiniteValue (x : Float) : Bool :=
  match Shape.of x with
  | .notANumber | .infinite _ => false
  | _ => true

/-- A double is integral when it equals its own truncation: zeros, infinities, and finite values
whose mantissa the negative power of two divides; never not-a-number. -/
def isIntegralValue (x : Float) : Bool :=
  match Shape.of x with
  | .notANumber => false
  | .infinite _ | .zero _ => true
  | .finite _ m => m.mant % Nat.pow 2 (-m.exp).toNat == 0

/-- One is `2 ^ 54 × 2 ^ -54`, a power of two with the narrow gap below. -/
example : Shape.ofBits 0x3FF0000000000000 = .finite false ⟨Nat.pow 2 54, -54, 1, 2, true⟩ := by decide

/-- The least subnormal is `2 × 2 ^ -1075`, its interval reaching down to `2 ^ -1075`. -/
example : Shape.ofBits 1 = .finite false ⟨2, -1075, 1, 1, true⟩ := by decide

end Formulas.Decimal
