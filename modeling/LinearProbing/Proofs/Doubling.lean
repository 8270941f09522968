-- SUMMARY: The standard policy doubles the capacity, because small floats are exact.
import LinearProbing.Policy
import Mathlib

/-! # Doubling through floats

A policy multiplies the capacity by a float. Below `2 ^ 53` a capacity is a float of its own, and
twice a float is one again, so for the standard ratio nothing is rounded.

`Denotes x mantissa exponent` says that the float `x` is `mantissa * 2 ^ exponent`, where the
mantissa has all of its fifty-three bits. Every operation packs its result into a word, so each
lemma also says that unpacking yields the same fraction.
-/

namespace LinearProbing

open Float.Model Float.Model.UnpackedFloat

/-! ## Mantissas of fifty-three bits -/

/-- The mantissa has its leading bit in front of fifty-two others. -/
def FullWidth (mantissa : Nat) : Prop := 2 ^ 52 ≤ mantissa ∧ mantissa < 2 ^ 53

theorem FullWidth.pos {mantissa : Nat} (h : FullWidth mantissa) : 0 < mantissa :=
  Nat.lt_of_lt_of_le (Nat.two_pow_pos 52) h.1

theorem FullWidth.log2_mul {mantissa : Nat} (h : FullWidth mantissa) (shift : Nat) :
    (mantissa * 2 ^ shift).log2 = 52 + shift := by
  have hne : mantissa * 2 ^ shift ≠ 0 :=
    Nat.ne_of_gt (Nat.mul_pos h.pos (Nat.two_pow_pos shift))
  rw [Nat.log2_eq_iff hne, Nat.add_right_comm, Nat.pow_add, Nat.pow_add]
  exact ⟨Nat.mul_le_mul_right _ h.1, Nat.mul_lt_mul_of_pos_right h.2 (Nat.two_pow_pos shift)⟩

theorem FullWidth.log2_eq {mantissa : Nat} (h : FullWidth mantissa) : mantissa.log2 = 52 := by
  simpa using h.log2_mul 0

/-- Every number of at most fifty-three bits can be shifted to full width. -/
theorem fullWidth_mul {n : Nat} (hpos : 0 < n) (hn : n < 2 ^ 53) :
    n.log2 ≤ 52 ∧ FullWidth (n * 2 ^ (52 - n.log2)) := by
  have hne : n ≠ 0 := Nat.ne_of_gt hpos
  have hlog : n.log2 ≤ 52 := Nat.le_of_lt_succ ((Nat.log2_lt hne).2 hn)
  have hsplit : 52 = n.log2 + (52 - n.log2) := (Nat.add_sub_cancel' hlog).symm
  refine ⟨hlog, ?_, ?_⟩
  · calc 2 ^ 52 = 2 ^ n.log2 * 2 ^ (52 - n.log2) := by rw [← Nat.pow_add, ← hsplit]
      _ ≤ n * 2 ^ (52 - n.log2) := Nat.mul_le_mul_right _ (Nat.log2_self_le hne)
  · calc n * 2 ^ (52 - n.log2) < 2 ^ (n.log2 + 1) * 2 ^ (52 - n.log2) :=
          Nat.mul_lt_mul_of_pos_right Nat.lt_log2_self (Nat.two_pow_pos _)
      _ = 2 ^ 53 := by rw [← Nat.pow_add, Nat.add_right_comm, ← hsplit]

/-! ## Rounding that drops nothing -/

/-- A shift that only drops zeros is exact. -/
theorem shift_exact (mantissa shift : Nat) :
    (⟨mantissa * 2 ^ shift, false, false⟩ : ExtendedMantissa) >>> shift =
      ⟨mantissa, false, false⟩ := by
  change shift.repeat ExtendedMantissa.shiftRightOne _ = _
  induction shift generalizing mantissa with
  | zero => simp [Nat.repeat]
  | succ shift ih =>
    have hmore : mantissa * 2 ^ (shift + 1) = 2 * mantissa * 2 ^ shift := by ring
    rw [Nat.repeat, hmore, ih]
    simp [ExtendedMantissa.shiftRightOne]

theorem shiftToExponent_exact (mantissa : Nat) (exponent : Int) (shift : Nat) :
    shiftToExponent (mantissa * 2 ^ shift) exponent .exact (exponent + shift) =
      (⟨mantissa, false, false⟩, exponent + shift) := by
  have hshift : (exponent + (shift : Int) - exponent).toNat = shift := by omega
  rw [shiftToExponent, hshift]
  simp only [ExtendedMantissa.ofMantissaAndAccuracy, shift_exact]

theorem targetExponent_eq (mantissa : Nat) (exponent : Int) :
    Format.binary64.targetExponent (totalExponent mantissa exponent) =
      max (mantissa.log2 + exponent - 52) (-1074) := by
  have hmin : Format.binary64.minExponent = -1074 := rfl
  have hbits : Format.binary64.mantissaBits = 53 := rfl
  rw [Format.targetExponent, totalExponent, hmin, hbits]
  omega

/-- A full mantissa with zeros behind it loses the zeros. -/
theorem shiftToTargetExponent_exact {mantissa : Nat} (h : FullWidth mantissa) (exponent : Int)
    (shift : Nat) (hlow : -1074 ≤ exponent + shift) :
    shiftToTargetExponent .binary64 (mantissa * 2 ^ shift) exponent .exact =
      (⟨mantissa, false, false⟩, exponent + shift) := by
  have htarget : Format.binary64.targetExponent (totalExponent (mantissa * 2 ^ shift) exponent) =
      exponent + shift := by
    rw [targetExponent_eq, h.log2_mul]
    omega
  rw [shiftToTargetExponent, htarget, shiftToExponent_exact]

/-- The result is short enough to need no second shift. -/
theorem roundWithAccuracy_exact {mantissa : Nat} (h : FullWidth mantissa) (sign : Sign)
    (exponent : Int) (shift : Nat) (hlow : -1074 ≤ exponent + shift) :
    roundWithAccuracy .binary64 sign (mantissa * 2 ^ shift) exponent .exact =
      .finite sign mantissa (exponent + shift) h.pos := by
  have hfirst := shiftToTargetExponent_exact h exponent shift hlow
  have hrounded : (⟨mantissa, false, false⟩ : ExtendedMantissa).roundedMantissa = mantissa := rfl
  have hsecond : shiftToTargetExponent .binary64 mantissa (exponent + shift) .exact =
      (⟨mantissa, false, false⟩, exponent + shift) := by
    simpa using shiftToTargetExponent_exact h (exponent + shift) 0 (by simpa using hlow)
  simp only [roundWithAccuracy, hfirst, hrounded, hsecond, Nat.ne_of_gt h.pos, dite_false]

/-! ## Floats as exact fractions -/

/-- The float is the fraction `mantissa * 2 ^ exponent`, in the one form that fills the mantissa. -/
structure Denotes (x : Float) (mantissa : Nat) (exponent : Int) : Prop where
  fullWidth : FullWidth mantissa
  low : -1074 ≤ exponent
  high : exponent ≤ 971
  unpack_eq : x.toModel.unpack = .finite .positive mantissa exponent fullWidth.pos

/-- The sign bit survives packing, as the other fields do. -/
theorem unpackSign_packComponents {format : Format} (sign : Sign)
    (exponent : BitVec format.exponentBits) (mantissa : BitVec format.mantissaBitsWithoutImplicit) :
    Sign.ofBitVec (unpackSign (packComponents format sign exponent mantissa)) = sign := by
  have hsign : unpackSign (packComponents format sign exponent mantissa) = sign.toBitVec := by
    ext i hi
    have hi0 : i = 0 := by omega
    subst hi0
    simp [unpackSign, packComponents, BitVec.getLsbD_append, BitVec.getElem_append]
  rw [hsign]
  cases sign <;> rfl

/-- The hidden leading bit in front of the stored ones makes the mantissa. -/
theorem toNat_hidden_append {mantissa : Nat} (h : FullWidth mantissa) :
    (1#1 ++ BitVec.ofNat 52 mantissa).toNat = mantissa := by
  obtain ⟨hlow, hhigh⟩ := h
  rw [BitVec.toNat_append, ← Nat.shiftLeft_add_eq_or_of_lt (BitVec.isLt _), Nat.shiftLeft_eq,
    BitVec.toNat_ofNat, BitVec.toNat_ofNat]
  omega

/-- The words for zero and for infinity have other exponent fields. -/
theorem ofNat_ne {field : Nat} (hfield : field < 2047) {word : BitVec 11}
    (hne : field ≠ word.toNat) : BitVec.ofNat 11 field ≠ word := by
  rintro rfl
  rw [BitVec.toNat_ofNat] at hne
  omega

/-- A float that fills its mantissa is packed with its leading bit hidden. -/
theorem pack_fullWidth {mantissa : Nat} (h : FullWidth mantissa) (sign : Sign) {exponent : Int}
    {field : Nat} (hfield : exponent + 1075 = field) (hhigh : exponent ≤ 971) :
    UnpackedFloat.pack .binary64 (.finite sign mantissa exponent h.pos) =
      packComponents .binary64 sign (BitVec.ofNat 11 field) (BitVec.ofNat 52 mantissa) := by
  have hbiased : (exponent + (Format.binary64.exponentBias : Nat) +
      (Format.binary64.mantissaBitsWithoutImplicit : Nat)).toNat = field := by
    change (exponent + (1023 : Nat) + (52 : Nat)).toNat = field
    omega
  have hbelow : ¬2 ^ 11 ≤ field + 1 := by omega
  have hwidth : 52 + 1 = Format.binary64.mantissaBits := rfl
  simp only [UnpackedFloat.pack, hbiased, h.log2_eq]
  rw [if_neg hbelow, if_pos hwidth]

/-- Between the fields for zero and for infinity, unpacking puts the leading bit back. -/
theorem unpack_packComponents {mantissa : Nat} (h : FullWidth mantissa) (sign : Sign)
    {exponent : Int} {field : Nat} (hfield : exponent + 1075 = field) (hpos : 0 < field)
    (hhigh : field < 2047) :
    UnpackedFloat.unpack .binary64
        (packComponents .binary64 sign (BitVec.ofNat 11 field) (BitVec.ofNat 52 mantissa)) =
      .finite sign mantissa exponent h.pos := by
  have hstored : (BitVec.ofNat 11 field).toNat = field := by
    rw [BitVec.toNat_ofNat]
    omega
  have hnotInfinite : BitVec.ofNat 11 field ≠ -1#11 := ofNat_ne hhigh (Nat.ne_of_lt hhigh)
  have hnotSmall : BitVec.ofNat 11 field ≠ 0#11 := ofNat_ne hhigh (Nat.ne_of_gt hpos)
  have hvalue : (field : Int) - ((Format.binary64.exponentBias : Nat) +
      (Format.binary64.mantissaBitsWithoutImplicit : Nat)) = exponent := by
    change (field : Int) - ((1023 : Nat) + (52 : Nat)) = exponent
    omega
  rw [UnpackedFloat.unpack]
  simp only [unpackMantissa_packComponents, unpackExponent_packComponents,
    unpackSign_packComponents]
  rw [if_neg hnotInfinite, if_neg hnotSmall]
  simp only [toNat_hidden_append h, hstored, hvalue]

theorem unpack_pack {mantissa : Nat} (h : FullWidth mantissa) (sign : Sign) {exponent : Int}
    (hlow : -1074 ≤ exponent) (hhigh : exponent ≤ 971) :
    UnpackedFloat.unpack .binary64
        (UnpackedFloat.pack .binary64 (.finite sign mantissa exponent h.pos)) =
      .finite sign mantissa exponent h.pos := by
  obtain ⟨field, hfield⟩ : ∃ field : Nat, exponent + 1075 = field :=
    ⟨(exponent + 1075).toNat, by omega⟩
  rw [pack_fullWidth h sign hfield hhigh]
  exact unpack_packComponents h sign hfield (by omega) (by omega)

theorem denotes_pack {mantissa : Nat} (h : FullWidth mantissa) {exponent : Int}
    (hlow : -1074 ≤ exponent) (hhigh : exponent ≤ 971) :
    Denotes (.ofModel (Float.Model.pack (.finite .positive mantissa exponent h.pos))) mantissa
      exponent :=
  ⟨h, hlow, hhigh, unpack_pack h .positive hlow hhigh⟩

theorem ofNat_exact {n : Nat} (hfull : FullWidth (n * 2 ^ (52 - n.log2))) (hlog : n.log2 ≤ 52) :
    UnpackedFloat.ofNat .binary64 n =
      .finite .positive (n * 2 ^ (52 - n.log2)) (-((52 - n.log2 : Nat) : Int)) hfull.pos := by
  have hpos : 0 < n := Nat.pos_of_mul_pos_right hfull.pos
  have htarget : Format.binary64.targetExponent (totalExponent n 0) =
      -((52 - n.log2 : Nat) : Int) := by
    rw [targetExponent_eq]
    omega
  have hdecrease : decreaseExponent n 0 (-((52 - n.log2 : Nat) : Int)) =
      (n * 2 ^ (52 - n.log2), -((52 - n.log2 : Nat) : Int)) := by
    have hshift : (0 - -((52 - n.log2 : Nat) : Int)).toNat = 52 - n.log2 := by omega
    rw [decreaseExponent, hshift, Nat.shiftLeft_eq, Int.zero_sub]
  have hround : roundWithAccuracy .binary64 .positive (n * 2 ^ (52 - n.log2))
      (-((52 - n.log2 : Nat) : Int)) .exact =
      .finite .positive (n * 2 ^ (52 - n.log2)) (-((52 - n.log2 : Nat) : Int)) hfull.pos := by
    simpa using roundWithAccuracy_exact hfull .positive (-((52 - n.log2 : Nat) : Int)) 0 (by omega)
  have hcompare : compare (n : Int) 0 = .gt := by
    rw [Int.compare_eq_gt]
    omega
  rw [UnpackedFloat.ofNat, UnpackedFloat.ofInt, UnpackedFloat.normalize, hcompare]
  simp only [Int.toNat_natCast, UnpackedFloat.round, htarget, hdecrease, hround]

/-- A number of at most fifty-three bits becomes a float without rounding. -/
theorem denotes_toFloat {n : UInt64} (hpos : 0 < n.toNat) (hn : n.toNat < 2 ^ 53) :
    Denotes n.toFloat (n.toNat * 2 ^ (52 - n.toNat.log2)) (-((52 - n.toNat.log2 : Nat) : Int)) := by
  obtain ⟨hlog, hfull⟩ := fullWidth_mul hpos hn
  have hmodel : n.toFloat =
    .ofModel (Float.Model.pack (UnpackedFloat.ofNat .binary64 n.toNat)) := rfl
  rw [hmodel, ofNat_exact hfull hlog]
  exact denotes_pack hfull (by omega) (by omega)

theorem denotes_two : Denotes 2 (2 ^ 52) (-51) :=
  ⟨⟨by decide, by decide⟩, by decide, by decide, rfl⟩

/-- Twice a float is a float: only the exponent changes. -/
theorem Denotes.mul_two {x : Float} {mantissa : Nat} {exponent : Int}
    (h : Denotes x mantissa exponent) (hhigh : exponent < 971) :
    Denotes (x * 2) mantissa (exponent + 1) := by
  have hlow := h.low
  have hround : UnpackedFloat.mul .binary64 x.toModel.unpack (2 : Float).toModel.unpack =
      .finite .positive mantissa (exponent + 1) h.fullWidth.pos := by
    have hexponent : exponent + 1 = exponent + -51 + (52 : Nat) := by omega
    rw [h.unpack_eq, denotes_two.unpack_eq]
    simp only [hexponent]
    exact roundWithAccuracy_exact h.fullWidth (.positive * .positive) (exponent + -51) 52 (by omega)
  have hmodel : x * 2 = .ofModel (Float.Model.pack
    (UnpackedFloat.mul .binary64 x.toModel.unpack (2 : Float).toModel.unpack)) := rfl
  rw [hmodel, hround]
  exact denotes_pack h.fullWidth (by omega) (by omega)

/-- A whole number is the same after its mantissa has been shifted back. -/
theorem roundToInt_shifted (n up down : Nat) :
    roundToInt .positive (n * 2 ^ down) ((up : Int) - down) = n * 2 ^ up := by
  suffices hmantissa : (shiftToExponent (decreaseExponent (n * 2 ^ down) ((up : Int) - down) 0).1
      (decreaseExponent (n * 2 ^ down) ((up : Int) - down) 0).2 .exact 0).1.mantissa =
      n * 2 ^ up by
    simp only [roundToInt, hmantissa]
    simp [Sign.apply]
  rcases Nat.le_total down up with hle | hle
  · have hdecrease : decreaseExponent (n * 2 ^ down) ((up : Int) - down) 0 = (n * 2 ^ up, 0) := by
      have hshift : ((up : Int) - down - 0).toNat = up - down := by omega
      have hzero : (up : Int) - down - (up - down : Nat) = 0 := by omega
      rw [decreaseExponent, hshift, Nat.shiftLeft_eq, Nat.mul_assoc, ← Nat.pow_add,
        Nat.add_sub_cancel' hle, hzero]
    have hsame : shiftToExponent (n * 2 ^ up) 0 .exact 0 = (⟨n * 2 ^ up, false, false⟩, 0) := by
      simpa using shiftToExponent_exact (n * 2 ^ up) 0 0
    rw [hdecrease, hsame]
  · have hdecrease : decreaseExponent (n * 2 ^ down) ((up : Int) - down) 0 =
        (n * 2 ^ up * 2 ^ (down - up), (up : Int) - down) := by
      have hshift : ((up : Int) - down - 0).toNat = 0 := by omega
      rw [decreaseExponent, hshift, Nat.mul_assoc, ← Nat.pow_add, Nat.add_sub_cancel' hle]
      simp
    have hback := shiftToExponent_exact (n * 2 ^ up) ((up : Int) - down) (down - up)
    have hzero : (up : Int) - down + (down - up : Nat) = 0 := by omega
    rw [hzero] at hback
    rw [hdecrease, hback]

theorem Denotes.toNat_toUInt64 {x : Float} {n up down : Nat}
    (h : Denotes x (n * 2 ^ down) ((up : Int) - down)) (hword : n * 2 ^ up < 2 ^ 64) :
    x.toUInt64.toNat = n * 2 ^ up := by
  have hmodel : x.toUInt64 = x.toModel.unpack.toUInt64 := rfl
  rw [hmodel, h.unpack_eq, UnpackedFloat.toUInt64, UnpackedFloat.toInt, roundToInt_shifted]
  have htoNat : ((n : Int) * 2 ^ up).toNat = n * 2 ^ up := by
    rw [← Int.toNat_natCast (n * 2 ^ up)]
    simp
  rw [htoNat, UInt64.ofNatClamp_eq_ofNat _ hword]
  exact UInt64.toNat_ofNat_of_lt' hword

/-! ## The standard policy -/

/-- Twice the capacity, as the float product computes it. -/
theorem GrowthPolicy.scaledCapacity_standard {capacity : Nat} (hpos : 0 < capacity)
    (hsmall : capacity < 2 ^ 53) : standard.scaledCapacity capacity = 2 * capacity := by
  have hword : capacity < 2 ^ 64 := hsmall.trans (by decide)
  have htoNat : capacity.toUInt64.toNat = capacity := UInt64.toNat_ofNat_of_lt' hword
  have hfloat := denotes_toFloat (n := capacity.toUInt64) (htoNat.symm ▸ hpos) (htoNat.symm ▸ hsmall)
  rw [htoNat] at hfloat
  have hproduct := hfloat.mul_two (by omega)
  have hexponent : -((52 - capacity.log2 : Nat) : Int) + 1 =
      ((1 : Nat) : Int) - (52 - capacity.log2 : Nat) := by omega
  rw [hexponent] at hproduct
  have hvalue := hproduct.toNat_toUInt64 (by omega)
  rw [Nat.pow_one, Nat.mul_comm] at hvalue
  exact hvalue

theorem GrowthPolicy.grownCapacity_standard {capacity : Nat} (hpos : 0 < capacity)
    (hsmall : capacity < 2 ^ 53) : standard.grownCapacity capacity = 2 * capacity := by
  rw [grownCapacity, if_neg (Nat.ne_of_gt hpos), scaledCapacity_standard hpos hsmall]
  omega

end LinearProbing
