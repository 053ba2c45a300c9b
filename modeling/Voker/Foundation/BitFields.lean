import Mathlib.Data.Nat.Bitwise

/-!
# Bit fields packed into one machine word

A lock-free structure often packs a length, a flag and a version counter into
one word, so that a single atomic instruction can read or replace all three.
The code manipulates such a word with masks; a proof wants to speak about the
fields as numbers.  This module relates the two readings for a word of any
width: **a mask operation is a quotient or a remainder by a power of two**, and
the fields of a word determine it.

## Main results

* `toNat_and_lowMask`, `toNat_and_not_lowMask`: the low field and the rest.
* `toNat_and_not_bit`: clearing the leading bit.
* `toNat_or_of_dvd`: joining a high part with a low part is addition.
* `and_bit_eq_zero_iff`, `or_bit_and_bit_ne_zero`: reading and setting one flag.
-/

namespace Foundation.BitFields

variable {w : ℕ}

/-- The word whose lowest `k` bits are set. -/
def lowMask (w k : ℕ) : BitVec w := BitVec.ofNat w (2 ^ k - 1)

/-- The word in which only bit `k` is set. -/
def bit (w k : ℕ) : BitVec w := BitVec.ofNat w (2 ^ k)

variable {k : ℕ}

theorem toNat_lowMask (hf : k ≤ w) : (lowMask w k).toNat = 2 ^ k - 1 := by
  have hb : 2 ^ k ≤ 2 ^ w := Nat.pow_le_pow_right (by decide) hf
  have pos : 0 < 2 ^ k := Nat.two_pow_pos k
  rw [lowMask, BitVec.toNat_ofNat, Nat.mod_eq_of_lt (by omega)]

theorem toNat_bit (hf : k < w) : (bit w k).toNat = 2 ^ k := by
  have hb : 2 ^ k < 2 ^ w := Nat.pow_lt_pow_right (by decide) hf
  rw [bit, BitVec.toNat_ofNat, Nat.mod_eq_of_lt hb]

/-- A high part and a low part that share no bit are joined by addition. -/
theorem toNat_or_of_dvd (high low : BitVec w) (ha : 2 ^ k ∣ high.toNat)
    (hs : low.toNat < 2 ^ k) : (high ||| low).toNat = high.toNat + low.toNat := by
  obtain ⟨q, hm⟩ := ha
  rw [BitVec.toNat_or, hm, Nat.two_pow_add_eq_or_of_lt hs]

section

variable (x : BitVec w)

/-- Masking with the low mask reads the low field. -/
theorem toNat_and_lowMask (hf : k ≤ w) : (x &&& lowMask w k).toNat = x.toNat % 2 ^ k := by
  rw [BitVec.toNat_and, toNat_lowMask hf, Nat.and_two_pow_sub_one_eq_mod]

/-- Clearing the low field keeps exactly the multiple of `2 ^ k` below the word. -/
theorem toNat_and_not_lowMask (hf : k ≤ w) :
    (x &&& ~~~ lowMask w k).toNat = x.toNat / 2 ^ k * 2 ^ k := by
  apply Nat.eq_of_testBit_eq
  intro i
  have hin : x.toNat.testBit i = true → i < w := by
    intro set
    by_contra ho
    have hs : x.toNat < 2 ^ i :=
      lt_of_lt_of_le x.isLt (Nat.pow_le_pow_right (by decide) (by omega))
    rw [Nat.testBit_lt_two_pow hs] at set
    exact Bool.noConfusion set
  rw [Nat.testBit_mul_two_pow, Nat.testBit_div_two_pow, BitVec.testBit_toNat,
    BitVec.getLsbD_and, BitVec.getLsbD_not, ← BitVec.testBit_toNat (lowMask w k),
    toNat_lowMask hf, Nat.testBit_two_pow_sub_one, ← BitVec.testBit_toNat]
  by_cases low : k ≤ i
  · rw [Nat.sub_add_cancel low]
    cases set : x.toNat.testBit i with
    | false => simp
    | true => simp [hin set, low]
  · simp [low, Nat.lt_of_not_le low]

/-- Clearing the top bit of a word below `2 ^ (k + 1)` is the remainder by `2 ^ k`. -/
theorem toNat_and_not_bit (hf : k < w) (hs : x.toNat < 2 ^ (k + 1)) :
    (x &&& ~~~ bit w k).toNat = x.toNat % 2 ^ k := by
  apply Nat.eq_of_testBit_eq
  intro i
  rw [Nat.testBit_mod_two_pow, BitVec.testBit_toNat, BitVec.getLsbD_and,
    BitVec.getLsbD_not, ← BitVec.testBit_toNat (bit w k), toNat_bit hf,
    Nat.testBit_two_pow, ← BitVec.testBit_toNat]
  rcases Nat.lt_trichotomy i k with hb | rfl | ha
  · simp [hb, Nat.lt_trans hb hf, Nat.ne_of_gt hb]
  · simp
  · have hc : x.toNat.testBit i = false :=
      Nat.testBit_lt_two_pow (lt_of_lt_of_le hs (Nat.pow_le_pow_right (by decide) ha))
    simp [hc]

/-- Masking with one bit is zero exactly when that bit of the word is clear. -/
theorem and_bit_eq_zero_iff (hf : k < w) : x &&& bit w k = 0#w ↔ x.toNat.testBit k = false := by
  rw [← BitVec.toNat_inj, BitVec.toNat_and, toNat_bit hf, Nat.and_two_pow,
    BitVec.toNat_ofNat, Nat.zero_mod]
  cases x.toNat.testBit k with
  | false => simp
  | true => simp

/-- Setting a bit makes the mask test succeed. -/
theorem or_bit_and_bit_ne_zero (hf : k < w) : (x ||| bit w k) &&& bit w k ≠ 0#w := by
  rw [Ne, and_bit_eq_zero_iff _ hf, BitVec.toNat_or, toNat_bit hf, Nat.testBit_or,
    Nat.testBit_two_pow_self]
  simp

end

end Foundation.BitFields
