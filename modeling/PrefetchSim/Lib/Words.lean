import Mathlib.Algebra.Group.Int.Defs
import Mathlib.Algebra.Group.Nat.Defs
import Mathlib.Data.Nat.Basic

/- Machine words as addresses of blocks. A block size is a power of two, and an
   address is aligned if it is a multiple of it. Alignment survives the arithmetic
   of the words, also where a difference of addresses goes through a narrower,
   signed word and back, as long as the power of two divides the word's range;
   where it does not, nothing is left of a multiple but zero. -/
namespace Words

variable {v w k : Nat}

/-- The mask of the low `k` bits. -/
theorem lowMask_eq (hk : k < w) : BitVec.ofNat w (2 ^ k) - 1 = BitVec.ofNat w (2 ^ k - 1) := by
  have hpow : 2 ^ k < 2 ^ w := Nat.pow_lt_pow_right (by decide) hk
  have hone : 1 < 2 ^ w := Nat.lt_of_le_of_lt (Nat.one_le_two_pow) hpow
  have hpos : 0 < 2 ^ k := Nat.two_pow_pos k
  apply BitVec.eq_of_toNat_eq
  have h1 : (1 : BitVec w).toNat = 1 := by
    change (BitVec.ofNat w 1).toNat = 1
    rw [BitVec.toNat_ofNat, Nat.mod_eq_of_lt hone]
  rw [BitVec.toNat_sub, BitVec.toNat_ofNat, BitVec.toNat_ofNat, h1, Nat.mod_eq_of_lt hpow,
    Nat.mod_eq_of_lt (show 2 ^ k - 1 < 2 ^ w by omega),
    show 2 ^ w - 1 + 2 ^ k = 2 ^ k - 1 + 2 ^ w by omega, Nat.add_mod_right, Nat.mod_eq_of_lt (by omega)]

theorem lowMask_getLsbD {i : Nat} (hk : k < w) (hi : i < w) :
    (BitVec.ofNat w (2 ^ k) - 1).getLsbD i = decide (i < k) := by
  rw [lowMask_eq hk, BitVec.getLsbD_ofNat, Nat.testBit_two_pow_sub_one]
  simp [hi]

/-- Masking the low bits rounds down. -/
theorem toNat_align (hk : k < w) (a : BitVec w) :
    (a &&& ~~~(BitVec.ofNat w (2 ^ k) - 1)).toNat = a.toNat / 2 ^ k * 2 ^ k := by
  have hshift : a &&& ~~~(BitVec.ofNat w (2 ^ k) - 1) = (a >>> k) <<< k := by
    apply BitVec.eq_of_getLsbD_eq
    intro i hi
    rw [BitVec.getLsbD_and, BitVec.getLsbD_not, lowMask_getLsbD hk hi, BitVec.getLsbD_shiftLeft,
      BitVec.getLsbD_ushiftRight]
    by_cases h : i < k
    · simp [h]
    · have hback : k + (i - k) = i := by omega
      simp [h, hi, hback]
  rw [hshift, BitVec.toNat_shiftLeft, BitVec.toNat_ushiftRight, Nat.shiftRight_eq_div_pow, Nat.shiftLeft_eq,
    Nat.mod_eq_of_lt]
  exact Nat.lt_of_le_of_lt (Nat.div_mul_le_self ..) a.isLt

theorem align_eq_iff (hk : k < w) (a : BitVec w) :
    a &&& ~~~(BitVec.ofNat w (2 ^ k) - 1) = a ↔ 2 ^ k ∣ a.toNat := by
  rw [← BitVec.toNat_inj, toNat_align hk, Nat.dvd_iff_div_mul_eq]

/-! ## Multiples -/

theorem dvd_add (hk : k ≤ w) {a b : BitVec w} (ha : 2 ^ k ∣ a.toNat) (hb : 2 ^ k ∣ b.toNat) :
    2 ^ k ∣ (a + b).toNat := by
  rw [BitVec.toNat_add]
  exact (Nat.dvd_mod_iff (Nat.pow_dvd_pow 2 hk)).2 (Nat.dvd_add ha hb)

theorem dvd_sub (hk : k ≤ w) {a b : BitVec w} (ha : 2 ^ k ∣ a.toNat) (hb : 2 ^ k ∣ b.toNat) :
    2 ^ k ∣ (a - b).toNat := by
  have hrange : 2 ^ k ∣ 2 ^ w := Nat.pow_dvd_pow 2 hk
  rw [BitVec.toNat_sub]
  exact (Nat.dvd_mod_iff hrange).2 (Nat.dvd_add (Nat.dvd_sub hrange hb) ha)

theorem dvd_mul (hk : k ≤ w) (d : BitVec w) {a : BitVec w} (ha : 2 ^ k ∣ a.toNat) : 2 ^ k ∣ (d * a).toNat := by
  rw [BitVec.toNat_mul]
  exact (Nat.dvd_mod_iff (Nat.pow_dvd_pow 2 hk)).2 (Nat.dvd_trans ha (Nat.dvd_mul_left ..))

theorem dvd_truncate {a : BitVec v} (h : 2 ^ k ∣ a.toNat) : 2 ^ min k w ∣ (a.setWidth w).toNat := by
  rw [BitVec.toNat_setWidth]
  refine (Nat.dvd_mod_iff (Nat.pow_dvd_pow 2 (Nat.min_le_right ..))).2 ?_
  exact Nat.dvd_trans (Nat.pow_dvd_pow 2 (Nat.min_le_left ..)) h

theorem dvd_signExtend (hw : w ≤ v) {s : BitVec w} (h : 2 ^ min k w ∣ s.toNat) :
    2 ^ k ∣ (s.signExtend v).toNat := by
  by_cases hk : k < w
  · have hlt : s.toNat < 2 ^ v := Nat.lt_of_lt_of_le s.isLt (Nat.pow_le_pow_right (by decide) hw)
    rw [Nat.min_eq_left (Nat.le_of_lt hk)] at h
    rw [BitVec.toNat_signExtend, BitVec.toNat_setWidth, Nat.mod_eq_of_lt hlt]
    refine Nat.dvd_add h ?_
    split
    · exact Nat.dvd_sub (Nat.pow_dvd_pow 2 (by omega)) (Nat.pow_dvd_pow 2 (Nat.le_of_lt hk))
    · exact Nat.dvd_zero _
  · -- a multiple of the whole range is zero
    rw [Nat.min_eq_right (by omega)] at h
    have hzero : s = 0 := BitVec.eq_of_toNat_eq (Nat.eq_zero_of_dvd_of_lt h s.isLt)
    have hext : (s.signExtend v).toNat = 0 := by simp [hzero, BitVec.toNat_signExtend]
    rw [hext]
    exact Nat.dvd_zero _

end Words
