import Mathlib.Data.List.GetD
import PrefetchSim.Lib.Words

/- Memories addressed by machine words. `read` takes a stretch of cells out of a memory and
   `write` puts one in. A block is `2 ^ k` cells from a multiple of `2 ^ k` on; a write that stays
   within a block is a splice of what is read of that block, and is not seen in any other. -/
namespace Bytes

variable {w k : Nat} {α : Type*}

/-- The `n` cells from `a` on. -/
def read (m : BitVec w → α) (a : BitVec w) (n : Nat) : List α :=
  (List.range n).map fun j => m (a + BitVec.ofNat w j)

/-- The memory with `cells` from `a` on. -/
def write (m : BitVec w → α) (a : BitVec w) (cells : List α) : BitVec w → α :=
  fun x => cells.getD (x - a).toNat (m x)

/-- `l` with `cells` in place of what stood from position `o` on. -/
def splice (l : List α) (o : Nat) (cells : List α) : List α := l.take o ++ cells ++ l.drop (o + cells.length)

@[simp] theorem length_read (m : BitVec w → α) (a : BitVec w) (n : Nat) : (read m a n).length = n := by
  simp [read]

theorem splice_whole {l cells : List α} (h : l.length = cells.length) : splice l 0 cells = cells := by
  simp [splice, h]

theorem length_splice {l cells : List α} {o : Nat} (h : o + cells.length ≤ l.length) :
    (splice l o cells).length = l.length := by
  simp only [splice, List.length_append, List.length_take, List.length_drop]
  omega

/-- A part of a stretch is a stretch. -/
theorem take_drop_read (m : BitVec w → α) (b : BitVec w) {o n size : Nat} (h : o + n ≤ size) :
    ((read m b size).drop o).take n = read m (b + BitVec.ofNat w o) n := by
  apply List.ext_getElem
  · simp only [List.length_take, List.length_drop, length_read]
    omega
  · intro j _ _
    simp only [read, List.getElem_take, List.getElem_drop, List.getElem_map, List.getElem_range]
    rw [BitVec.add_assoc, BitVec.ofNat_add]

/-! ## A write seen from a block -/

/-- How far cell `j` of a block is from the start of a stretch at offset `o`. -/
theorem toNat_distance (hk : k < w) (b : BitVec w) {o j : Nat} (ho : o ≤ 2 ^ k) (hj : j < 2 ^ k) :
    (b + BitVec.ofNat w j - (b + BitVec.ofNat w o)).toNat = if o ≤ j then j - o else 2 ^ w + j - o := by
  have hpow : 2 ^ k * 2 ≤ 2 ^ w := by
    rw [← Nat.pow_succ]
    exact Nat.pow_le_pow_right (by decide) hk
  have hpos : 0 < 2 ^ k := Nat.two_pow_pos k
  have hcancel : b + BitVec.ofNat w j - (b + BitVec.ofNat w o) = BitVec.ofNat w j - BitVec.ofNat w o := by
    grind
  rw [hcancel, BitVec.toNat_sub, BitVec.toNat_ofNat, BitVec.toNat_ofNat,
    Nat.mod_eq_of_lt (show o < 2 ^ w by omega), Nat.mod_eq_of_lt (show j < 2 ^ w by omega)]
  split
  · rw [show 2 ^ w - o + j = j - o + 2 ^ w by omega, Nat.add_mod_right, Nat.mod_eq_of_lt (by omega)]
  · rw [Nat.mod_eq_of_lt (by omega)]
    omega

/-- A write within a block splices the block. -/
theorem read_write (hk : k < w) (m : BitVec w → α) (b : BitVec w) {o : Nat} {cells : List α}
    (hfit : o + cells.length ≤ 2 ^ k) :
    read (write m (b + BitVec.ofNat w o) cells) b (2 ^ k) = splice (read m b (2 ^ k)) o cells := by
  have hpow : 2 ^ k * 2 ≤ 2 ^ w := by
    rw [← Nat.pow_succ]
    exact Nat.pow_le_pow_right (by decide) hk
  apply List.ext_getElem
  · rw [length_read, length_splice (by rwa [length_read]), length_read]
  · intro j hj _
    rw [length_read] at hj
    have hdist := toNat_distance hk b (o := o) (by omega) hj
    simp only [read, write, splice, List.getElem_map, List.getElem_range, List.getElem_append, List.length_append,
      List.length_take, List.length_map, List.length_range, List.getElem_take, List.getElem_drop, hdist]
    have hmin : min o (2 ^ k) = o := by omega
    simp only [hmin]
    -- in front of the stretch, in it, or behind it
    rcases Nat.lt_or_ge j o with hbefore | hafter
    · rw [if_neg (by omega), dif_pos (by omega), dif_pos hbefore, List.getD_eq_default _ _ (by omega)]
    · rw [if_pos hafter]
      rcases Nat.lt_or_ge (j - o) cells.length with hin | hbehind
      · rw [dif_pos (by omega), dif_neg (by omega), List.getD_eq_getElem _ _ hin]
      · rw [dif_neg (by omega), List.getD_eq_default _ _ hbehind]
        congr 3
        omega

/-- A write within one block is not seen in another. -/
theorem read_write_of_ne (hk : k < w) (m : BitVec w → α) {b c : BitVec w} (hb : 2 ^ k ∣ b.toNat)
    (hc : 2 ^ k ∣ c.toNat) (hne : c ≠ b) {o : Nat} {cells : List α} (hfit : o + cells.length ≤ 2 ^ k) :
    read (write m (b + BitVec.ofNat w o) cells) c (2 ^ k) = read m c (2 ^ k) := by
  have hpow : 2 ^ k ∣ 2 ^ w := Nat.pow_dvd_pow 2 (Nat.le_of_lt hk)
  have hlt : 2 ^ k < 2 ^ w := Nat.pow_lt_pow_right (by decide) hk
  -- a whole block fits in front of the end of the memory
  have room : ∀ d : BitVec w, 2 ^ k ∣ d.toNat → d.toNat + 2 ^ k ≤ 2 ^ w := by
    intro d hd
    have hend := d.isLt
    have hgap : 2 ^ k ≤ 2 ^ w - d.toNat := Nat.le_of_dvd (by omega) (Nat.dvd_sub hpow hd)
    omega
  unfold read
  apply List.map_congr_left
  intro j hj
  have hj := List.mem_range.1 hj
  have hbroom := room b hb
  have hcroom := room c hc
  apply List.getD_eq_default
  by_contra hin
  rw [not_le] at hin
  apply hne
  -- the same cell is at two offsets below `2 ^ k`
  have hcell : c + BitVec.ofNat w j =
      b + BitVec.ofNat w (o + (c + BitVec.ofNat w j - (b + BitVec.ofNat w o)).toNat) := by
    rw [BitVec.ofNat_add, BitVec.ofNat_toNat, BitVec.setWidth_eq, ← BitVec.add_assoc, BitVec.add_comm,
      BitVec.add_comm (b + _), BitVec.sub_add_cancel, BitVec.add_comm]
  generalize (c + BitVec.ofNat w j - (b + BitVec.ofNat w o)).toNat = t at hcell hin
  have hnat := congrArg BitVec.toNat hcell
  rw [BitVec.toNat_add, BitVec.toNat_add, BitVec.toNat_ofNat, BitVec.toNat_ofNat,
    Nat.mod_eq_of_lt (show j < 2 ^ w by omega), Nat.mod_eq_of_lt (show o + t < 2 ^ w by omega),
    Nat.mod_eq_of_lt (show c.toNat + j < 2 ^ w by omega),
    Nat.mod_eq_of_lt (show b.toNat + (o + t) < 2 ^ w by omega)] at hnat
  apply BitVec.eq_of_toNat_eq
  obtain ⟨x, hx⟩ := hc
  obtain ⟨y, hy⟩ := hb
  have hpos : 0 < 2 ^ k := Nat.two_pow_pos k
  have hxy : x = y := by
    have h1 : (c.toNat + j) / 2 ^ k = x := by
      rw [hx, Nat.mul_add_div hpos, Nat.div_eq_of_lt hj, Nat.add_zero]
    have h2 : (b.toNat + (o + t)) / 2 ^ k = y := by
      rw [hy, Nat.mul_add_div hpos, Nat.div_eq_of_lt (by omega), Nat.add_zero]
    rw [← h1, ← h2, hnat]
  rw [hx, hy, hxy]

/-! ## The block of an address -/

theorem toNat_offset (hk : k < w) (a : BitVec w) :
    (a &&& (BitVec.ofNat w (2 ^ k) - 1)).toNat = a.toNat % 2 ^ k := by
  have hlt : 2 ^ k < 2 ^ w := Nat.pow_lt_pow_right (by decide) hk
  have hpos : 0 < 2 ^ k := Nat.two_pow_pos k
  rw [Words.lowMask_eq hk, BitVec.toNat_and, BitVec.toNat_ofNat,
    Nat.mod_eq_of_lt (show 2 ^ k - 1 < 2 ^ w by omega), Nat.and_two_pow_sub_one_eq_mod]

/-- An address is the start of its block and an offset. -/
theorem align_add_offset (hk : k < w) (a : BitVec w) :
    (a &&& ~~~(BitVec.ofNat w (2 ^ k) - 1)) + BitVec.ofNat w (a &&& (BitVec.ofNat w (2 ^ k) - 1)).toNat = a := by
  apply BitVec.eq_of_toNat_eq
  have hsum := Nat.div_add_mod' a.toNat (2 ^ k)
  rw [BitVec.toNat_add, Words.toNat_align hk, toNat_offset hk, BitVec.toNat_ofNat, Nat.add_mod_mod, hsum,
    Nat.mod_eq_of_lt a.isLt]

end Bytes
