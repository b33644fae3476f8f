import Mathlib.Algebra.Group.Nat.Defs
import Mathlib.Data.Nat.Basic

/- Integer arithmetic of the simulator (`m5/src/base/intmath.hh`), on `unsigned`.

   Correspondence (C++ ↔ Lean):
     `leastSigBit`, `isPowerOf2`  ↔ `leastSigBit`, `isPowerOf2`
     `floorLog2(unsigned)`        ↔ `floorLog2` (`logStage` is one of its lines)

   The tag stores accept sizes that pass `isPowerOf2` and derive their shifts with
   `floorLog2`. Proved here: what passes is a power of two, and its logarithm is the
   exponent. -/
namespace PrefetchSim

def leastSigBit {w : Nat} (n : BitVec w) : BitVec w := n &&& ~~~(n - 1)

def isPowerOf2 {w : Nat} (n : BitVec w) : Bool := n != 0 && leastSigBit n == n

/-- `if (x & mask) { y += k; x >>= k; }`. -/
def logStage (k : Nat) (mask : BitVec 32) (s : Nat × BitVec 32) : Nat × BitVec 32 :=
  if s.2 &&& mask ≠ 0 then (s.1 + k, s.2 >>> k) else s

/-- `floorLog2`; the source asserts that `x` is not zero. -/
def floorLog2 (x : BitVec 32) : Nat :=
  let s := logStage 16 0xffff0000 (0, x)
  let s := logStage 8 0xff00 s
  let s := logStage 4 0xf0 s
  let s := logStage 2 0xc s
  if s.2 &&& 2 ≠ 0 then s.1 + 1 else s.1

theorem floorLog2_twoPow {k : Nat} (hk : k < 32) : floorLog2 (BitVec.twoPow 32 k) = k := by
  have h : ∀ i : Fin 32, floorLog2 (BitVec.twoPow 32 i) = i := by decide
  exact h ⟨k, hk⟩

theorem isPowerOf2_twoPow {k : Nat} (hk : k < 32) : isPowerOf2 (BitVec.twoPow 32 k) = true := by
  have h : ∀ i : Fin 32, isPowerOf2 (BitVec.twoPow 32 i) = true := by decide
  exact h ⟨k, hk⟩

theorem toNat_twoPow {k : Nat} (hk : k < 32) : (BitVec.twoPow 32 k).toNat = 2 ^ k := by
  rw [BitVec.toNat_twoPow, Nat.mod_eq_of_lt (Nat.pow_lt_pow_right (by decide) hk)]

/-- The least significant bit is the whole number if the number has no bit in common with its
predecessor. -/
theorem leastSigBit_eq_self {w : Nat} {n : BitVec w} (h : leastSigBit n = n) : n &&& (n - 1) = 0 := by
  unfold leastSigBit at h
  rw [← h, BitVec.and_assoc, h, BitVec.and_comm (~~~(n - 1)), BitVec.and_not_self]
  exact BitVec.and_zero

theorem exists_of_isPowerOf2 {n : BitVec 32} (h : isPowerOf2 n = true) : ∃ k < 32, n = BitVec.twoPow 32 k := by
  simp only [isPowerOf2, Bool.and_eq_true, bne_iff_ne, beq_iff_eq] at h
  obtain ⟨hne, hbit⟩ := h
  have hpos : n.toNat ≠ 0 := fun hz => hne (BitVec.eq_of_toNat_eq hz)
  have hpred : (n - 1).toNat = n.toNat - 1 := by bv_omega
  have hnat : n.toNat &&& (n.toNat - 1) = 0 := by
    have hand := congrArg BitVec.toNat (leastSigBit_eq_self hbit)
    rwa [BitVec.toNat_and, hpred] at hand
  obtain ⟨k, hk⟩ := (Nat.and_sub_one_eq_zero_iff_isPowerOfTwo hpos).1 hnat
  have hlt : 2 ^ k < 2 ^ 32 := hk ▸ n.isLt
  refine ⟨k, (Nat.pow_lt_pow_iff_right (by decide)).1 hlt, BitVec.eq_of_toNat_eq ?_⟩
  rw [BitVec.toNat_twoPow, hk, Nat.mod_eq_of_lt hlt]

end PrefetchSim
