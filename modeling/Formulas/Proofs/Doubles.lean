import Mathlib
import Formulas.Decimal.Basic
/-!
# Decimals never round to not-a-number

Doubles have a logical model: a double unpacks to an infinity, not-a-number, a zero or a finite
number, and every operation works on the unpacked form and packs its result again. Reading a
decimal multiplies or divides an exact integer by an exact power of ten, or rounds the exact
quotient or product through the model; no step makes not-a-number out of numbers. Main
statement: the double that a decimal rounds to equals itself under the double comparison, so
that comparing two lexed numbers by value is reflexive.
-/

namespace Float.Model.UnpackedFloat

variable {spec : Format}

/-- Bits whose exponent field is not all ones, or whose mantissa field is zero, unpack to a
number. -/
theorem isNaN_unpack_of_exponent {b : BitVec spec.numBits}
    (h : unpackExponent b ≠ -1#_ ∨ unpackMantissa b = 0#_) : (unpack spec b).isNaN = false := by
  unfold unpack
  dsimp only
  split
  · split
    · rfl
    · rcases h with h | h <;> contradiction
  · split
    · split <;> rfl
    · rfl

/-- Packing keeps a number a number: a packed infinity has a zero mantissa field, and a packed
finite number or zero has an exponent field below all ones. -/
theorem isNaN_unpack_pack {f : UnpackedFloat} (hf : f.isNaN = false) :
    (unpack spec (pack spec f)).isNaN = false := by
  fun_cases pack with
  | case1 => cases hf
  | case2 s => exact isNaN_unpack_of_exponent (.inr (by simp [packedInfinity]))
  | case3 s => exact isNaN_unpack_of_exponent (.inr (by simp [packedZero]))
  | case4 s m e hm biasedExponent h =>
    exact isNaN_unpack_of_exponent (.inr (by simp [packedInfinity]))
  | case5 s m e hm actualMantissaBits biasedExponent h₁ h₂ =>
    refine isNaN_unpack_of_exponent (.inl ?_)
    suffices biasedExponent % 2 ^ spec.exponentBits ≠ 2 ^ spec.exponentBits - 1 by
      simp [BitVec.neg_one_eq_allOnes, ← BitVec.toNat_inj, this]
    suffices biasedExponent < 2 ^ spec.exponentBits - 1 by
      rw [Nat.mod_eq_of_lt (by omega)]
      omega
    omega
  | case6 s m e hm actualMantissaBits biasedExponent h₁ h₂ =>
    have hzero : (0 : BitVec spec.exponentBits) ≠ -1#_ := by
      have := Nat.one_lt_two_pow (Nat.pos_iff_ne_zero.1 spec.he)
      simp [BitVec.neg_one_eq_allOnes, ← BitVec.toNat_inj]
      omega
    exact isNaN_unpack_of_exponent (.inl (by simpa using hzero))

/-- Rounding gives a zero or a finite number. -/
theorem isNaN_roundWithAccuracy (spec : Format) (s : Sign) (m : Nat) (e : Int) (acc : Accuracy) :
    (roundWithAccuracy spec s m e acc).isNaN = false := by
  unfold roundWithAccuracy
  dsimp only
  split <;> rfl

/-- A product with a finite nonzero factor is a number when the other factor is. -/
theorem isNaN_mul_finite {a : UnpackedFloat} (ha : a.isNaN = false)
    (s : Sign) (m : Nat) (e : Int) (hm : 0 < m) : (mul spec a (.finite s m e hm)).isNaN = false := by
  cases a with
  | notANumber => cases ha
  | infinity => rfl
  | zero => rfl
  | finite => exact isNaN_roundWithAccuracy ..

/-- A quotient by a finite nonzero divisor is a number when the dividend is. -/
theorem isNaN_div_finite {a : UnpackedFloat} (ha : a.isNaN = false)
    (s : Sign) (m : Nat) (e : Int) (hm : 0 < m) : (div spec a (.finite s m e hm)).isNaN = false := by
  cases a with
  | notANumber => cases ha
  | infinity => rfl
  | zero => rfl
  | finite => exact isNaN_roundWithAccuracy ..

/-- The exact `m × 10 ^ e`, rounded, is a number: the cut-offs give a zero or an infinity, and
otherwise a finite number is multiplied or divided by a finite nonzero power of ten. -/
theorem isNaN_ofScientific (spec : Format) (m : Nat) (e : Int) :
    (ofScientific spec m e).isNaN = false := by
  unfold ofScientific
  split
  · rfl
  split
  · rfl
  split
  · rfl
  split
  · exact isNaN_mul_finite rfl ..
  · exact isNaN_div_finite rfl ..

/-- A natural number, rounded, is a number. -/
theorem isNaN_ofNat (spec : Format) (n : Nat) : (ofNat spec n).isNaN = false := by
  unfold ofNat ofInt normalize round
  split
  · exact isNaN_roundWithAccuracy ..
  · rfl
  · exact isNaN_roundWithAccuracy ..

/-- A finite value that does not compare equal to zero is a finite nonzero number. -/
theorem exists_finite {f : UnpackedFloat} (h : f.isFinite = true)
    (h0 : f.beq (.zero .positive) = false) : ∃ s m e hm, f = .finite s m e hm := by
  cases f with
  | notANumber => cases h
  | infinity => cases h
  | zero s => cases s <;> cases h0
  | finite s m e hm => exact ⟨s, m, e, hm, rfl⟩

/-- Every number compares equal to itself; only not-a-number does not. -/
theorem beq_self {f : UnpackedFloat} (hf : f.isNaN = false) : f.beq f = true := by
  cases f with
  | notANumber => cases hf
  | infinity s => cases s <;> rfl
  | zero s => cases s <;> rfl
  | finite s m e hm =>
    have he : compare e e = .eq := Std.ReflOrd.compare_self
    have hm' : compare m m = .eq := Std.ReflOrd.compare_self
    cases s with
    | negative =>
      show (some ((compare e e).then (compare m m)).swap == some Ordering.eq) = true
      rw [he, hm']
      rfl
    | positive =>
      show (some ((compare e e).then (compare m m)) == some Ordering.eq) = true
      rw [he, hm']
      rfl

end Float.Model.UnpackedFloat

namespace Float.Model

/-- A packed number unpacks to a number. -/
theorem isNaN_pack {f : UnpackedFloat} (hf : f.isNaN = false) : (pack f).unpack.isNaN = false :=
  UnpackedFloat.isNaN_unpack_pack hf

/-- The table of exact powers of ten holds finite nonzero doubles only. -/
theorem powersOfTen_finite : ∀ x ∈ Float.exactlyRepresentablePowersOfTen.toList,
    x.toModel.unpack.isFinite = true ∧ x.toModel.unpack.beq (.zero .positive) = false := by
  decide +kernel

end Float.Model

open Float.Model Float.Model.UnpackedFloat in
/-- Reading `m × 10 ^ ±e` never gives not-a-number, on the fast path through the table of exact
powers of ten as on the slow path through the model. -/
theorem Float.isNaN_ofScientific (m : Nat) (s : Bool) (e : Nat) :
    (Float.ofScientific m s e).toModel.unpack.isNaN = false := by
  unfold Float.ofScientific
  split
  · obtain ⟨hfin, hzero⟩ := powersOfTen_finite _ (Array.getElem_mem_toList ..)
    obtain ⟨sp, mp, ep, hmp, hp⟩ := exists_finite hfin hzero
    have ha : (m.toUInt64.toFloat).toModel.unpack.isNaN = false := isNaN_pack (isNaN_ofNat ..)
    split
    · show (Float.Model.div _ _).unpack.isNaN = false
      rw [Float.Model.div, hp]
      exact isNaN_pack (isNaN_div_finite ha ..)
    · show (Float.Model.mul _ _).unpack.isNaN = false
      rw [Float.Model.mul, hp]
      exact isNaN_pack (isNaN_mul_finite ha ..)
  · exact isNaN_pack (UnpackedFloat.isNaN_ofScientific ..)

/-- A double read from a decimal equals itself. -/
theorem Float.ofScientific_beq_self (m : Nat) (s : Bool) (e : Nat) :
    (Float.ofScientific m s e == Float.ofScientific m s e) = true :=
  Float.Model.UnpackedFloat.beq_self (Float.isNaN_ofScientific m s e)

namespace Formulas

/-- The double a decimal rounds to equals itself under the double comparison. -/
theorem Decimal.toFloat_beq_self (d : Decimal) : (d.toFloat == d.toFloat) = true := by
  unfold Decimal.toFloat
  split <;> exact Float.ofScientific_beq_self ..

end Formulas
