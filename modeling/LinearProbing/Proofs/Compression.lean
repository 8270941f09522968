-- SUMMARY: The multiply-add step permutes the 64-bit words, so no slot is the home of more hashes than its share.
import LinearProbing.Compression
import Mathlib.Data.FinEnum
import Mathlib.Data.Int.CardIntervalMod

/-! # Compression favours no slot

The multiplier is odd, so it has an inverse modulo `2 ^ 64`, and multiplying and adding is a
permutation of the words. The hashes with a given home are therefore as many as the words with a given
remainder.
-/

namespace LinearProbing

namespace Compression

/-- The inverse of the multiplier modulo `2 ^ 64`. -/
def inverse : UInt64 := 3751880150584993549

/-- Takes the multiply-add step back. -/
def unmix (word : UInt64) : UInt64 := inverse * (word - summand)

theorem inverse_mul_multiplier : inverse * multiplier = 1 := by decide +kernel

theorem unmix_mix (hash : UInt64) : unmix (mix hash) = hash := by
  have hsub : summand + multiplier * hash - summand = multiplier * hash := by
    rw [UInt64.add_comm, UInt64.add_sub_cancel]
  rw [unmix, mix, hsub, ← UInt64.mul_assoc, inverse_mul_multiplier, UInt64.one_mul]

theorem mix_unmix (word : UInt64) : mix (unmix word) = word := by
  rw [mix, unmix, ← UInt64.mul_assoc, UInt64.mul_comm multiplier, inverse_mul_multiplier,
    UInt64.one_mul, UInt64.add_comm, UInt64.sub_add_cancel]

/-- The multiply-add step as a permutation of the words. -/
def mixing : Equiv.Perm UInt64 := ⟨mix, unmix, unmix_mix, mix_unmix⟩

/-- The primes are 59 and 83 less than `2 ^ 64`, so small hashes are counted down from there. -/
theorem toNat_mix_add {hash : UInt64} (h : 59 * hash.toNat + 83 ≤ 2 ^ 64) :
    (mix hash).toNat + (59 * hash.toNat + 83) = 2 ^ 64 := by
  have hmix : (mix hash).toNat =
      (18446744073709551533 + 18446744073709551557 * hash.toNat) % 2 ^ 64 := by
    rw [mix, UInt64.toNat_add, UInt64.toNat_mul, Nat.add_mod_mod]
    rfl
  omega

end Compression

/-- The words with a property of their value, counted by their values. -/
theorem card_filter_toNat (p : Nat → Prop) [DecidablePred p] :
    (Finset.univ.filter fun word : UInt64 => p word.toNat).card = Nat.count p (2 ^ 64) := by
  rw [Nat.count_eq_card_filter_range]
  refine Finset.card_bij' (fun word _ => word.toNat) (fun value _ => UInt64.ofNat value) ?_ ?_ ?_ ?_
  · intro word hword
    rw [Finset.mem_filter] at hword
    exact Finset.mem_filter.2 ⟨Finset.mem_range.2 word.toNat_lt, hword.2⟩
  · intro value hvalue
    obtain ⟨hlt, hp⟩ := Finset.mem_filter.1 hvalue
    refine Finset.mem_filter.2 ⟨Finset.mem_univ _, ?_⟩
    rwa [UInt64.toNat_ofNat_of_lt' (Finset.mem_range.1 hlt)]
  · intro word _
    exact UInt64.ofNat_toNat
  · intro value hvalue
    exact UInt64.toNat_ofNat_of_lt' (Finset.mem_range.1 (Finset.mem_filter.1 hvalue).1)

/-- Of the 64-bit hashes every slot is the home of an equal share; what is left over after the
division goes to the first slots, one hash each. -/
theorem card_hashes_scale_eq {size : Nat} (i : Fin size) :
    (Finset.univ.filter fun hash : UInt64 => scale hash size = i).card =
      2 ^ 64 / size + if i.val < 2 ^ 64 % size then 1 else 0 := by
  calc (Finset.univ.filter fun hash : UInt64 => scale hash size = i).card
      = (Finset.univ.filter fun word : UInt64 => word.toNat ≡ i [MOD size]).card := by
        refine Finset.card_equiv Compression.mixing fun hash => ?_
        have hmod : (Compression.mixing hash).toNat ≡ i [MOD size] ↔ scale hash size = i := by
          rw [Nat.ModEq, Nat.mod_eq_of_lt i.isLt]
          rfl
        simp only [Finset.mem_filter, Finset.mem_univ, true_and, hmod]
    _ = Nat.count (· ≡ i [MOD size]) (2 ^ 64) := card_filter_toNat (· ≡ i [MOD size])
    _ = 2 ^ 64 / size + if i.val < 2 ^ 64 % size then 1 else 0 := by
        rw [Nat.count_modEq_card _ i.pos, Nat.mod_eq_of_lt i.isLt]

end LinearProbing
