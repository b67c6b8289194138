/-
Workflow.Proofs.Number.Bits — doubles and their bits.

A double is unpacked into sign, mantissa and exponent, and packed again.
Valid bits come out of this as they were, so the bits of a double determine
it, and bits whose exponent field is not full are those of a finite double.

* `pack_unpack` — valid bits, unpacked and packed.
* `ofBits_toBits` — a double is the double of its bits.
* `isFinite_ofBits` — bits whose exponent field is not full.
* `isFinite_nearest_one` — the double nearest to an integer of 64 bits is
  finite.
-/
import Mathlib
import Workflow.Number.Binary64

namespace Workflow.Number

open Float.Model (UnpackedFloat Format)
open Float.Model.UnpackedFloat

/-! ## Bits taken apart and put together -/

/-- The bits of a double. -/
abbrev Bits := BitVec Format.binary64.numBits

theorem toBitVec_ofBitVec (s : BitVec 1) : (Sign.ofBitVec s).toBitVec = s := by
  revert s
  decide

/-- The three parts of bits, put together. -/
theorem packComponents_unpack (b : Bits) :
    packComponents Format.binary64 (Sign.ofBitVec (unpackSign b)) (unpackExponent b)
      (unpackMantissa b) = b := by
  rw [packComponents, toBitVec_ofBitVec]
  simp only [unpackSign, unpackExponent, unpackMantissa, BitVec.extractLsb]
  ext i hi
  grind

/-- Parts of bits under other names, put together. -/
theorem packComponents_eq {b : Bits} {exponent : BitVec 11} {mantissa : BitVec 52}
    (hExponent : unpackExponent b = exponent) (hMantissa : unpackMantissa b = mantissa) :
    packComponents Format.binary64 (Sign.ofBitVec (unpackSign b)) exponent mantissa = b := by
  subst hExponent hMantissa
  exact packComponents_unpack b

/-- A mantissa without its leading one is packed under the exponent field zero. -/
theorem pack_subnormal {s : Sign} {m : BitVec 52} (h : 0 < m.toNat) :
    UnpackedFloat.pack Format.binary64 (.finite s m.toNat (-1074) h) =
      packComponents Format.binary64 s 0#11 m := by
  have hBits : ¬ m.toNat.log2 + 1 = Format.binary64.mantissaBits := by
    have hSmall : m.toNat < 2 ^ 52 := m.isLt
    have hLog : ¬ 52 ≤ m.toNat.log2 := fun hLarge => by
      have := (Nat.le_log2 (by omega)).mp hLarge
      omega
    have hWidth : Format.binary64.mantissaBits = 53 := rfl
    omega
  have hMantissa : BitVec.ofNat 52 m.toNat = m := by
    rw [BitVec.ofNat_toNat, BitVec.setWidth_eq]
  rw [UnpackedFloat.pack, if_neg (by decide), if_neg hBits, hMantissa]

/-- A mantissa with its leading one is packed under its exponent field. -/
theorem pack_normal {s : Sign} {e : BitVec 11} {m : BitVec 52} (hFull : e ≠ -1#11)
    (h : 0 < (1#1 ++ m).toNat) :
    UnpackedFloat.pack Format.binary64 (.finite s (1#1 ++ m).toNat (e.toNat - (1023 + 52)) h) =
      packComponents Format.binary64 s e m := by
  have hSmall : m.toNat < 2 ^ 52 := m.isLt
  have hAppend : (1#1 ++ m).toNat = 2 ^ 52 + m.toNat := by
    rw [BitVec.toNat_append, Nat.shiftLeft_eq, ← Nat.shiftLeft_eq,
      ← Nat.shiftLeft_add_eq_or_of_lt hSmall]
    rfl
  have hField : ((e.toNat : Int) - (1023 + 52) + (Format.binary64.exponentBias : Nat) +
      (Format.binary64.mantissaBitsWithoutImplicit : Nat)).toNat = e.toNat := by
    have hBias : ((Format.binary64.exponentBias : Nat) : Int) = 1023 := rfl
    have hWidth : ((Format.binary64.mantissaBitsWithoutImplicit : Nat) : Int) = 52 := rfl
    rw [hBias, hWidth]
    omega
  have hBelow : ¬ 2 ^ Format.binary64.exponentBits ≤ e.toNat + 1 := fun hLarge => by
    have hLt : e.toNat < 2 ^ 11 := e.isLt
    have hWidth : 2 ^ Format.binary64.exponentBits = 2 ^ 11 := rfl
    refine hFull (BitVec.eq_of_toNat_eq ?_)
    have hOnes : (-1#11 : BitVec 11).toNat = 2 ^ 11 - 1 := by decide
    omega
  have hBits : (1#1 ++ m).toNat.log2 + 1 = Format.binary64.mantissaBits := by
    have hLow : 52 ≤ (1#1 ++ m).toNat.log2 := (Nat.le_log2 (by omega)).mpr (by omega)
    have hHigh : ¬ 53 ≤ (1#1 ++ m).toNat.log2 := fun hLarge => by
      have := (Nat.le_log2 (by omega)).mp hLarge
      omega
    have hWidth : Format.binary64.mantissaBits = 53 := rfl
    omega
  have hExponent : BitVec.ofNat 11 e.toNat = e := by rw [BitVec.ofNat_toNat, BitVec.setWidth_eq]
  have hMantissa : BitVec.ofNat 52 (1#1 ++ m).toNat = m := by
    refine BitVec.eq_of_toNat_eq ?_
    rw [BitVec.toNat_ofNat, hAppend]
    omega
  rw [UnpackedFloat.pack]
  simp only [hField]
  rw [if_neg hBelow, if_pos hBits, hExponent, hMantissa]

/-- Valid bits, unpacked and packed. -/
theorem pack_unpack {b : Bits} (h : Format.binary64.Valid b) :
    UnpackedFloat.pack Format.binary64 (UnpackedFloat.unpack Format.binary64 b) = b := by
  rw [UnpackedFloat.unpack]
  split
  · rename_i hFull
    split
    · rename_i hMantissa
      exact packComponents_eq hFull hMantissa
    · rename_i hMantissa
      exact (h.eq_packedNaN hFull hMantissa).symm
  · rename_i hFull
    split
    · rename_i hZero
      split
      · rename_i hMantissa
        exact packComponents_eq hZero hMantissa
      · rename_i hMantissa
        have hExponent : ((unpackExponent b).toNat : Int) - (Format.binary64.exponentBias +
            Format.binary64.mantissaBitsWithoutImplicit : Nat) + 1 = -1074 := by
          rw [hZero]
          rfl
        have hPos : 0 < (unpackMantissa b).toNat := by
          simpa [BitVec.toNat_pos, BitVec.pos_iff_ne_zero] using hMantissa
        refine Eq.trans ?_ ((pack_subnormal hPos).trans (packComponents_eq hZero rfl))
        simp only [← hExponent]
        rfl
    · exact (pack_normal hFull _).trans (packComponents_eq rfl rfl)

/-! ## Doubles and bits -/

/-- A double is the double of its bits. -/
theorem ofBits_toBits (x : Float) : Float.ofBits x.toBits = x := by
  obtain ⟨⟨bits, hValid⟩⟩ := x
  have hSame := pack_unpack hValid
  simp only [Float.ofBits, Float.toBits, Float.Model.ofBits, Float.Model.pack, hSame]

/-- Bits whose exponent field is not full are those of a finite double. -/
theorem isFinite_ofBits {bits : UInt64}
    (h : @unpackExponent Format.binary64 bits.toBitVec ≠ -1#11) :
    (Float.ofBits bits).isFinite = true := by
  have hSame := pack_unpack (b := bits.toBitVec) ⟨fun hFull => absurd hFull h⟩
  have hFinite : (UnpackedFloat.unpack Format.binary64 bits.toBitVec).isFinite = true := by
    rw [UnpackedFloat.unpack]
    simp only [if_neg h]
    split
    · split <;> rfl
    · rfl
  simpa only [Float.isFinite, Float.ofBits, Float.Model.ofBits, Float.Model.isFinite,
    Float.Model.unpack, Float.Model.pack, hSame] using hFinite

theorem toNat_unpackExponent (b : Bits) : (unpackExponent b).toNat = b.toNat / 2 ^ 52 % 2 ^ 11 := by
  simp [unpackExponent, BitVec.extractLsb, BitVec.extractLsb'_toNat, Nat.shiftRight_eq_div_pow]

/-- A size below infinity, with either sign, is that of a finite double. -/
theorem isFinite_withSign (negative : Bool) {bits : Nat} (h : bits < infinityBits) :
    (withSign negative bits).isFinite = true := by
  have hBits : bits < 2047 * 2 ^ 52 := h
  refine isFinite_ofBits fun hFull => ?_
  have hField : (@unpackExponent Format.binary64 (UInt64.ofNat
      (if negative then bits + Nat.pow 2 63 else bits)).toBitVec).toNat = 2047 := by
    rw [hFull]
    rfl
  have hPower : Nat.pow 2 63 = 2 ^ 63 := rfl
  rw [toNat_unpackExponent, UInt64.toNat_toBitVec, UInt64.toNat_ofNat', hPower] at hField
  split at hField <;> omega

/-! ## Integers -/

theorem roundDiv_le (num den : Nat) : roundDiv num den ≤ num / den + 1 := by
  rw [roundDiv]
  split <;> omega

/-- The mantissa of a number has at most 54 bits. -/
theorem inUnits_lt {n : Nat} {exponent : Int}
    (h : (n.log2 : Int) - 53 ≤ exponent) :
    (inUnits n 1 exponent).1 / (inUnits n 1 exponent).2 < 2 ^ 54 := by
  have hLog : n < 2 ^ (n.log2 + 1) := Nat.lt_log2_self
  unfold inUnits
  split
  · have hPow : n < 2 ^ 54 * 2 ^ exponent.toNat := by
      rw [← Nat.pow_add]
      exact Nat.lt_of_lt_of_le hLog (Nat.pow_le_pow_right (by decide) (by omega))
    exact Nat.div_lt_of_lt_mul (by rwa [Nat.one_mul, Nat.mul_comm])
  · have hPow : n * 2 ^ (-exponent).toNat < 2 ^ 54 := by
      calc n * 2 ^ (-exponent).toNat
          < 2 ^ (n.log2 + 1) * 2 ^ (-exponent).toNat :=
            Nat.mul_lt_mul_of_pos_right hLog (Nat.two_pow_pos _)
        _ = 2 ^ (n.log2 + 1 + (-exponent).toNat) := (Nat.pow_add ..).symm
        _ ≤ 2 ^ 54 := Nat.pow_le_pow_right (by decide) (by omega)
    simpa using hPow

/-- The double whose mantissa is a fraction rounded, at an exponent. -/
def rounded (negative : Bool) (exponent : Int) (fraction : Nat × Nat) : Float :=
  withSign negative (min ((exponent - leastExponent).toNat * Nat.pow 2 fractionBits +
    roundDiv fraction.1 fraction.2) infinityBits)

theorem rounded_eq (negative : Bool) (exponent : Int) (fraction : Nat × Nat) :
    (let (n, d) := fraction
      let bits := (exponent - leastExponent).toNat * Nat.pow 2 fractionBits + roundDiv n d
      withSign negative (min bits infinityBits)) =
      rounded negative exponent fraction := by
  cases fraction
  rfl

theorem nearest_of_ne_zero (negative : Bool) {num den : Nat} (h : num ≠ 0) :
    nearest negative num den =
      (let exponent := mantissaExponent num den
        let (n, d) := inUnits num den exponent
        let bits := (exponent - leastExponent).toNat * Nat.pow 2 fractionBits + roundDiv n d
        withSign negative (min bits infinityBits)) := if_neg h

theorem nearest_eq (negative : Bool) {num den : Nat} (h : num ≠ 0) :
    nearest negative num den = rounded negative (mantissaExponent num den)
      (inUnits num den (mantissaExponent num den)) :=
  Eq.trans (nearest_of_ne_zero negative h)
    (rounded_eq negative (mantissaExponent num den) (inUnits num den (mantissaExponent num den)))

/-- A double is finite when the exponent and the mantissa it is rounded from are small enough. -/
theorem isFinite_rounded (negative : Bool) {exponent : Int} {fraction : Nat × Nat}
    (hExponent : exponent ≤ 12) (hMantissa : fraction.1 / fraction.2 < 2 ^ 54) :
    (rounded negative exponent fraction).isFinite = true := by
  have hRound := roundDiv_le fraction.1 fraction.2
  have hLeast : leastExponent = -1074 := rfl
  have hPower : Nat.pow 2 fractionBits = 4503599627370496 := rfl
  have hInfinity : infinityBits = 9218868437227405312 := rfl
  rw [rounded, hPower]
  exact isFinite_withSign negative (Nat.lt_of_le_of_lt (Nat.min_le_left ..) (by omega))

/-- The double nearest to a number of 64 bits is finite. -/
theorem isFinite_nearest_one (negative : Bool) {n : Nat} (h : n ≤ 2 ^ 64) :
    (nearest negative n 1).isFinite = true := by
  by_cases hZero : n = 0
  · rw [nearest, if_pos hZero]
    exact isFinite_withSign negative (by decide)
  · have hLog : n.log2 ≤ 64 := Nat.le_of_lt_succ ((Nat.log2_lt hZero).mpr (by omega))
    have hOne : Nat.log2 1 = 0 := by decide
    have hLow : (n.log2 : Int) - 53 ≤ mantissaExponent n 1 := by
      simp only [mantissaExponent, hOne, fractionBits]
      split <;> omega
    have hHigh : mantissaExponent n 1 ≤ 12 := by
      simp only [mantissaExponent, hOne, fractionBits, leastExponent]
      split <;> omega
    rw [nearest_eq negative hZero]
    exact isFinite_rounded negative hHigh (inUnits_lt hLow)

end Workflow.Number
