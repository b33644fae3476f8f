import PrefetchSim.Lib.Linked
import PrefetchSim.Lib.Runs
import PrefetchSim.Mem.Lru

/- The fully associative tag store (`m5/src/mem/cache/tags/fa_lru.{hh,cc}`).

   Correspondence (C++ ↔ Lean):
     `FALRU::FALRU` (its parameter checks)      ↔ `FaConfig`, `FaLru.initial`
     `FALRUBlk`                                 ↔ `FaBlk`
     `head`, `tail`, `prev`, `next`             ↔ `FaLru.order`, `FaLru.prev`
     `tagHash`, `hashLookup`                    ↔ `FaLru.tagHash`
     `moveToHead`                               ↔ `FaLru.moveToHead`
     `accessBlock`, `findBlock`, `findVictim`   ↔ `FaLru.accessBlock`, `.findBlock`, `.findVictim`
     `insertBlock`, `invalidateBlk`             ↔ `FaLru.insertBlock`, `.invalidateBlk`

   A frame is its index in `blks`; the linked list is `order`, from `head` to `tail`. The store
   keeps track of what smaller caches would hold: `inCache` is a mask with one bit for each of
   them, here a function, and `cacheBoundaries` points to the last frame in each. Statistics
   are left out.

   The cache looks a block up through `tagHash` and asserts that the frame found has the
   block's tag. Proved here: no call writes a tag, so all tags stay zero (`Sound`), and a fill
   does what it has to do exactly if it is of the block at address zero and no other block is
   mapped to the frame at the tail (`FaLru.filled_iff`). -/
namespace PrefetchSim

/-- The parameters with which the constructor gets through and has two frames or more: the size is a
power of two from 128K up, and `numCaches` smaller caches are tracked. That a size is an `unsigned`
does not come in. -/
structure FaConfig where
  blkBits : Nat
  numCaches : Nat
  blkBits_le : blkBits ≤ 16

namespace FaConfig

def blkSize (cfg : FaConfig) : Nat := 2 ^ cfg.blkBits

def numBlocks (cfg : FaConfig) : Nat := 2 ^ (17 - cfg.blkBits + cfg.numCaches)

/-- Where the frames of the tracked cache `j` end in the order. -/
def boundary (cfg : FaConfig) (j : Nat) : Nat := 2 ^ (17 - cfg.blkBits + j) - 1

def blkAlign (cfg : FaConfig) (addr : Addr) : Addr := addr &&& ~~~(BitVec.ofNat 64 cfg.blkSize - 1)

theorem boundary_pos (cfg : FaConfig) (j : Nat) : 0 < cfg.boundary j := by
  have hle := cfg.blkBits_le
  have hpow : 2 ^ 1 ≤ 2 ^ (17 - cfg.blkBits + j) := Nat.pow_le_pow_right (by decide) (by omega)
  unfold boundary
  omega

theorem boundary_lt (cfg : FaConfig) {j : Nat} (hj : j < cfg.numCaches) : cfg.boundary j < cfg.numBlocks - 1 := by
  have hpow : 2 ^ (17 - cfg.blkBits + j) < 2 ^ (17 - cfg.blkBits + cfg.numCaches) :=
    Nat.pow_lt_pow_right (by decide) (by omega)
  have hpos : 0 < 2 ^ (17 - cfg.blkBits + j) := Nat.two_pow_pos _
  unfold boundary numBlocks
  omega

end FaConfig

/-- Two frames of 64K. -/
def twoFrames : FaConfig where
  blkBits := 16
  numCaches := 0
  blkBits_le := by decide

structure FaBlk extends CacheBlk where
  inCache : Nat → Bool

structure FaLru where
  blks : Nat → FaBlk
  /-- from the most to the least recently used -/
  order : List Nat
  cacheBoundaries : Nat → Nat
  tagHash : Addr → Option Nat

namespace FaLru

variable {cfg : FaConfig} {t : FaLru}

/-- As the constructor leaves it. -/
def initial (cfg : FaConfig) : FaLru where
  blks k := { inCache := fun j => decide (j < cfg.numCaches) && decide (k ≤ cfg.boundary j) }
  order := List.range cfg.numBlocks
  cacheBoundaries := cfg.boundary
  tagHash _ := none

/-- A write through a frame pointer. -/
def modify (t : FaLru) (f : Nat) (g : FaBlk → FaBlk) : FaLru :=
  { t with blks := Function.update t.blks f (g (t.blks f)) }

@[simp] theorem modify_self (t : FaLru) (f : Nat) (g : FaBlk → FaBlk) : (t.modify f g).blks f = g (t.blks f) :=
  Function.update_self ..

theorem modify_of_ne (t : FaLru) {f k : Nat} (h : k ≠ f) (g : FaBlk → FaBlk) : (t.modify f g).blks k = t.blks k :=
  Function.update_of_ne h _ _

/-- The frame before `f` in the order. -/
def prev (t : FaLru) (f : Nat) : Nat := t.order.getD (t.order.idxOf f - 1) f

/-- Round `j` of the loop deals with the tracked cache `j` only, its boundary and its bit. -/
def moveToHead (cfg : FaConfig) (blk : Nat) (t : FaLru) : FaLru where
  blks f :=
    { t.blks f with
      inCache := fun j =>
        if f = blk then decide (j < cfg.numCaches)
        else if j < cfg.numCaches && !(t.blks blk).inCache j && f == t.cacheBoundaries j then false
        else (t.blks f).inCache j }
  cacheBoundaries j :=
    if !(t.blks blk).inCache j then t.prev (t.cacheBoundaries j)
    else if t.cacheBoundaries j = blk then t.prev blk
    else t.cacheBoundaries j
  order := blk :: t.order.erase blk
  tagHash := t.tagHash

def invalidateBlk (blk : Nat) (t : FaLru) : FaLru :=
  t.modify blk fun b => { b with status := {}, isTouched := false }

/-- `findBlock` without its assertion. -/
def findBlock (cfg : FaConfig) (t : FaLru) (addr : Addr) : Option Nat :=
  (t.tagHash (cfg.blkAlign addr)).filter fun f => (t.blks f).isValid

/-- The assertion of `findBlock` and `accessBlock`. -/
def TagAssert (cfg : FaConfig) (t : FaLru) (addr : Addr) : Prop :=
  ∀ f ∈ t.findBlock cfg addr, (t.blks f).tag = cfg.blkAlign addr

def accessBlock (cfg : FaConfig) (addr : Addr) (t : FaLru) : FaLru :=
  match t.findBlock cfg addr with
  | none => t
  | some f => if t.order.head? = some f then t else t.moveToHead cfg f

/-- The frame at the tail, if it is in none of the smaller caches as the source asserts. -/
def findVictim (cfg : FaConfig) (addr : Addr) (t : FaLru) : Option (FaLru × Nat) :=
  match t.order.getLast? with
  | none => none
  | some blk =>
    if (List.range cfg.numCaches).any (t.blks blk).inCache then none
    else
      let t := t.moveToHead cfg blk
      let tagHash := Function.update t.tagHash (t.blks blk).tag none
      let t := { t with tagHash := Function.update tagHash (cfg.blkAlign addr) (some blk) }
      some (if (t.blks blk).isValid then t else t.modify blk fun b => { b with isTouched := true }, blk)

/-- The body is empty. -/
def insertBlock (_addr : Addr) (_blk : Nat) (t : FaLru) : FaLru := t

/-- The cache writes the status of a block, which stays valid. -/
def setStatus (st : Status) (blk : Nat) (t : FaLru) : FaLru :=
  t.modify blk fun b => { b with status := { st with valid := true } }

/-- `allocateBlock` and `handleFill` of the cache: the frame is found, filled and made valid. -/
def fill (cfg : FaConfig) (addr : Addr) (t : FaLru) : Option (FaLru × Nat) := do
  let (t, blk) ← t.findVictim cfg addr
  return ((t.insertBlock addr blk).setStatus { readable := true } blk, blk)

/-- The calls of the cache. -/
inductive Call where
  | access (addr : Addr)
  | fill (addr : Addr)
  /-- `findVictim`, when the cache then keeps the victim: a request for it is outstanding -/
  | giveUp (addr : Addr)
  | setStatus (addr : Addr) (st : Status)
  | invalidate (addr : Addr)

def call (cfg : FaConfig) (t : FaLru) : Call → Option FaLru
  | .access addr => some (t.accessBlock cfg addr)
  | .fill addr => (t.fill cfg addr).map Prod.fst
  | .giveUp addr => (t.findVictim cfg addr).map Prod.fst
  | .setStatus addr st => some (((t.findBlock cfg addr).map fun f => t.setStatus st f).getD t)
  | .invalidate addr => some (((t.findBlock cfg addr).map fun f => t.invalidateBlk f).getD t)

/-- The tag stores the cache gets to. -/
def Reachable (cfg : FaConfig) (t : FaLru) : Prop := ∃ calls : List Call, calls.foldlM (call cfg) (initial cfg) = some t

/-- A fill of the block of `addr` does what it has to do. -/
def Filled (cfg : FaConfig) (t : FaLru) (addr : Addr) : Prop :=
  ∃ t' f, t.fill cfg addr = some (t', f) ∧
    -- it is found in the frame, which has its tag
    (∀ a, cfg.blkAlign a = cfg.blkAlign addr → t'.findBlock cfg a = some f ∧ t'.TagAssert cfg a) ∧
    -- what was in the frame is found no more, and otherwise nothing has changed
    ∀ a, cfg.blkAlign a ≠ cfg.blkAlign addr →
      t'.findBlock cfg a = if t.findBlock cfg a = some f then none else t.findBlock cfg a

/-! ## What the calls keep -/

/-- What holds of every store the cache gets to: no tag is ever written, and the boundaries and
masks are where `check` wants them. -/
structure Sound (cfg : FaConfig) (t : FaLru) : Prop where
  tags : ∀ f, (t.blks f).tag = 0
  perm : t.order.Perm (List.range cfg.numBlocks)
  mapped : ∀ a f, t.tagHash a = some f → f ∈ t.order
  bounds : ∀ j < cfg.numCaches, t.cacheBoundaries j ∈ t.order ∧ t.order.idxOf (t.cacheBoundaries j) = cfg.boundary j
  masks : ∀ f ∈ t.order, ∀ j < cfg.numCaches, (t.blks f).inCache j = decide (t.order.idxOf f ≤ cfg.boundary j)

theorem initial_sound (cfg : FaConfig) : (initial cfg).Sound cfg where
  tags _ := rfl
  perm := List.Perm.refl _
  mapped _ _ h := by cases h
  bounds j hj := by
    have hlt := cfg.boundary_lt hj
    exact Linked.at_range (show cfg.boundary j < cfg.numBlocks by omega)
  masks f hf j hj := by
    show (decide (j < cfg.numCaches) && decide (f ≤ cfg.boundary j)) =
      decide ((List.range cfg.numBlocks).idxOf f ≤ cfg.boundary j)
    rw [(Linked.at_range (List.mem_range.1 hf)).2]
    simp [hj]

theorem prev_spec {f : Nat} (hnodup : t.order.Nodup) (hf : f ∈ t.order) :
    t.prev f ∈ t.order ∧ t.order.idxOf (t.prev f) = t.order.idxOf f - 1 := by
  have hlt := List.idxOf_lt_length_iff.2 hf
  have hlt' : t.order.idxOf f - 1 < t.order.length := by omega
  have hprev : t.prev f = t.order[t.order.idxOf f - 1] := by
    rw [prev, List.getD_eq_getElem?_getD, List.getElem?_eq_getElem hlt', Option.getD_some]
  rw [hprev]
  exact ⟨List.getElem_mem hlt', hnodup.idxOf_getElem _ hlt'⟩

section

variable (h : t.Sound cfg) {blk j : Nat} (hblk : blk ∈ t.order) (hj : j < cfg.numCaches)

include h hblk hj

theorem Sound.movedBoundary :
    Linked.At (blk :: t.order.erase blk) (cfg.boundary j) ((t.moveToHead cfg blk).cacheBoundaries j) := by
  have hnodup : t.order.Nodup := h.perm.nodup_iff.2 List.nodup_range
  obtain ⟨k, hk⟩ : ∃ k, cfg.boundary j = k + 1 := Nat.exists_eq_succ_of_ne_zero (cfg.boundary_pos j).ne'
  have ha : Linked.At t.order (k + 1) (t.cacheBoundaries j) := hk ▸ h.bounds j hj
  have hb : Linked.At t.order k (t.prev (t.cacheBoundaries j)) := by
    obtain ⟨hmem, hidx⟩ := prev_spec hnodup ha.1
    exact ⟨hmem, by rw [hidx, ha.2, Nat.add_sub_cancel]⟩
  have hbit := h.masks blk hblk j hj
  dsimp only [FaLru.moveToHead]
  rw [hbit, hk]
  by_cases hbehind : k + 1 < t.order.idxOf blk
  · rw [if_pos (by simp [hbehind])]
    exact Linked.at_front hblk ha (fun _ => hb) (by omega)
  · rw [if_neg (by simpa using hbehind)]
    by_cases hat : t.order.idxOf blk = k + 1
    · obtain rfl : t.cacheBoundaries j = blk := ha.unique ⟨hblk, hat⟩
      rw [if_pos rfl]
      exact Linked.at_front hblk ha (fun _ => hb) (by omega)
    · have hne : t.cacheBoundaries j ≠ blk := by
        rintro rfl
        exact hat ha.2
      rw [if_neg hne]
      exact Linked.at_front hblk ha (by omega) fun _ => rfl

theorem Sound.movedMask {f : Nat} (hf : f ∈ t.order) :
    ((t.moveToHead cfg blk).blks f).inCache j = decide ((blk :: t.order.erase blk).idxOf f ≤ cfg.boundary j) := by
  have hat : f = t.cacheBoundaries j ↔ t.order.idxOf f = cfg.boundary j := by
    have ha : Linked.At t.order (cfg.boundary j) (t.cacheBoundaries j) := h.bounds j hj
    refine ⟨fun heq => heq ▸ ha.2, fun heq => ?_⟩
    exact Linked.At.unique ⟨hf, heq⟩ ha
  dsimp only [FaLru.moveToHead]
  by_cases hfb : f = blk
  · rw [if_pos hfb, hfb, List.idxOf_cons_self]
    simp [hj]
  · rw [if_neg hfb, h.masks f hf j hj, h.masks blk hblk j hj, Bool.eq_iff_iff]
    simp only [hj, decide_true, Bool.true_and, Bool.and_eq_true, Bool.not_eq_true', decide_eq_false_iff_not, beq_iff_eq,
      hat, decide_eq_true_eq]
    rw [Linked.within_front hblk hf hfb]
    split
    · rw [Bool.false_eq_true, false_iff]
      omega
    · rw [decide_eq_true_eq]
      omega

end

theorem Sound.moveToHead (h : t.Sound cfg) {blk : Nat} (hblk : blk ∈ t.order) : (t.moveToHead cfg blk).Sound cfg := by
  have hperm : (blk :: t.order.erase blk).Perm t.order := (List.perm_cons_erase hblk).symm
  exact ⟨h.tags, hperm.trans h.perm, fun a f hf => hperm.mem_iff.2 (h.mapped a f hf),
    fun j hj => h.movedBoundary hblk hj, fun f hf j hj => h.movedMask hblk hj (hperm.mem_iff.1 hf)⟩

/-- A write that leaves tag and mask as they are. -/
theorem Sound.modify (h : t.Sound cfg) (f : Nat) {g : FaBlk → FaBlk}
    (hg : ∀ b, (g b).tag = b.tag ∧ (g b).inCache = b.inCache) : (t.modify f g).Sound cfg := by
  have hsame : ∀ k, ((t.modify f g).blks k).tag = (t.blks k).tag ∧
      ((t.modify f g).blks k).inCache = (t.blks k).inCache := by
    intro k
    by_cases hk : k = f
    · subst hk
      rw [modify_self]
      exact hg _
    · rw [modify_of_ne t hk]
      exact ⟨rfl, rfl⟩
  refine ⟨fun k => ?_, h.perm, h.mapped, h.bounds, fun k hk j hj => ?_⟩
  · rw [(hsame k).1]
    exact h.tags k
  · rw [(hsame k).2]
    exact h.masks k hk j hj

theorem Sound.setStatus (h : t.Sound cfg) (st : Status) (f : Nat) : (t.setStatus st f).Sound cfg :=
  h.modify f fun _ => ⟨rfl, rfl⟩

theorem Sound.invalidateBlk (h : t.Sound cfg) (f : Nat) : (t.invalidateBlk f).Sound cfg :=
  h.modify f fun _ => ⟨rfl, rfl⟩

theorem Sound.rehash (h : t.Sound cfg) {tagHash : Addr → Option Nat}
    (hmapped : ∀ a f, tagHash a = some f → f ∈ t.order) : ({ t with tagHash := tagHash } : FaLru).Sound cfg :=
  ⟨h.tags, h.perm, hmapped, h.bounds, h.masks⟩

/-- One block is unmapped and another one mapped to `f`. -/
theorem mapped_remap {tagHash : Addr → Option Nat} {P : Nat → Prop} (h : ∀ a g, tagHash a = some g → P g) {f : Nat}
    (hf : P f) (unmapped mapped a : Addr) {g : Nat}
    (hg : Function.update (Function.update tagHash unmapped none) mapped (some f) a = some g) : P g := by
  by_cases ha : a = mapped
  · rw [ha, Function.update_self] at hg
    obtain rfl := Option.some.inj hg
    exact hf
  · rw [Function.update_of_ne ha] at hg
    by_cases hu : a = unmapped
    · rw [hu, Function.update_self] at hg
      cases hg
    · rw [Function.update_of_ne hu] at hg
      exact h a g hg

/-- The frame at the tail. -/
theorem Sound.tail (h : t.Sound cfg) : ∃ f, t.order.getLast? = some f ∧ f ∈ t.order ∧
    (List.range cfg.numCaches).any (t.blks f).inCache = false := by
  have hlen : t.order.length = cfg.numBlocks := by rw [h.perm.length_eq, List.length_range]
  have hpos : 0 < cfg.numBlocks := Nat.two_pow_pos _
  have hne : t.order ≠ [] := by
    intro hnil
    rw [hnil, List.length_nil] at hlen
    omega
  refine ⟨_, List.getLast?_eq_some_getLast hne, List.getLast_mem hne, ?_⟩
  rw [List.any_eq_false]
  intro j hj
  have hj := List.mem_range.1 hj
  have hidx : t.order.idxOf (t.order.getLast hne) = cfg.numBlocks - 1 := by
    have hnodup : t.order.Nodup := h.perm.nodup_iff.2 List.nodup_range
    rw [List.getLast_eq_getElem, hnodup.idxOf_getElem, hlen]
  rw [h.masks _ (List.getLast_mem hne) j hj, hidx]
  have hlt := cfg.boundary_lt hj
  simp
  omega

theorem Sound.findVictim (h : t.Sound cfg) (addr : Addr) : ∃ t' f, t.findVictim cfg addr = some (t', f) ∧
    t.order.getLast? = some f ∧ t'.Sound cfg ∧
    t'.tagHash = Function.update (Function.update t.tagHash 0 none) (cfg.blkAlign addr) (some f) ∧
    ∀ k, (t'.blks k).isValid = (t.blks k).isValid := by
  obtain ⟨f, hlast, hmem, hmask⟩ := h.tail
  have hmoved := h.moveToHead hmem
  have htag : ((t.moveToHead cfg f).blks f).tag = 0 := hmoved.tags f
  have hsound : ({ t.moveToHead cfg f with
      tagHash := Function.update (Function.update t.tagHash 0 none) (cfg.blkAlign addr) (some f) } : FaLru).Sound cfg :=
    hmoved.rehash fun a _ => mapped_remap hmoved.mapped List.mem_cons_self 0 (cfg.blkAlign addr) a
  unfold FaLru.findVictim
  rw [hlast]
  simp only [hmask, Bool.false_eq_true, if_false, htag]
  refine ⟨_, f, rfl, rfl, ?_⟩
  split
  · exact ⟨hsound, rfl, fun k => rfl⟩
  · refine ⟨hsound.modify f fun b => ⟨rfl, rfl⟩, rfl, fun k => ?_⟩
    by_cases hk : k = f
    · subst hk
      rw [modify_self]
      rfl
    · rw [modify_of_ne _ hk]
      rfl

theorem Sound.fill (h : t.Sound cfg) (addr : Addr) : ∃ t' f, t.fill cfg addr = some (t', f) ∧
    t.order.getLast? = some f ∧ t'.Sound cfg ∧
    t'.tagHash = Function.update (Function.update t.tagHash 0 none) (cfg.blkAlign addr) (some f) ∧
    ∀ k, (t'.blks k).isValid = if k = f then true else (t.blks k).isValid := by
  obtain ⟨t₁, f, hvictim, hlast, hsound, hhash, hvalid⟩ := h.findVictim addr
  refine ⟨t₁.setStatus { readable := true } f, f, ?_, hlast, hsound.setStatus _ f, hhash, fun k => ?_⟩
  · rw [FaLru.fill, hvictim]
    rfl
  · by_cases hk : k = f
    · rw [if_pos hk, hk, FaLru.setStatus, modify_self]
      rfl
    · rw [if_neg hk, ← hvalid k, FaLru.setStatus, modify_of_ne _ hk]

theorem Sound.call (h : t.Sound cfg) {c : Call} {t' : FaLru} (hc : t.call cfg c = some t') : t'.Sound cfg := by
  cases c with
  | access addr =>
    obtain rfl := Option.some.inj hc
    unfold accessBlock
    cases hf : t.findBlock cfg addr with
    | none => exact h
    | some f =>
      dsimp only
      split
      · exact h
      · exact h.moveToHead (h.mapped _ f (Option.filter_eq_some_iff.1 hf).1)
  | fill addr =>
    obtain ⟨t₁, f, hfill, -, hsound, -⟩ := h.fill addr
    rw [FaLru.call, hfill] at hc
    obtain rfl := Option.some.inj hc
    exact hsound
  | giveUp addr =>
    obtain ⟨t₁, f, hvictim, -, hsound, -⟩ := h.findVictim addr
    rw [FaLru.call, hvictim] at hc
    obtain rfl := Option.some.inj hc
    exact hsound
  | setStatus addr st =>
    obtain rfl := Option.some.inj hc
    cases t.findBlock cfg addr with
    | none => exact h
    | some f => exact h.setStatus st f
  | invalidate addr =>
    obtain rfl := Option.some.inj hc
    cases t.findBlock cfg addr with
    | none => exact h
    | some f => exact h.invalidateBlk f

theorem Reachable.sound (h : Reachable cfg t) : t.Sound cfg := by
  obtain ⟨calls, hrun⟩ := h
  exact Runs.foldlM_invariant (fun _ _ _ h₀ hc => h₀.call hc) calls _ _ (initial_sound cfg) hrun

/-! ## A fill -/

/-- Exactly the block at address zero gets the tag it has to have; and as that is also the tag
that is erased, nothing else may be mapped to the frame. -/
theorem filled_iff (h : Reachable cfg t) (addr : Addr) :
    Filled cfg t addr ↔ cfg.blkAlign addr = 0 ∧
      ∀ a, cfg.blkAlign a ≠ 0 → t.tagHash (cfg.blkAlign a) ≠ t.order.getLast? := by
  obtain ⟨t', f, hfill, hlast, hsound, hhash, hvalid⟩ := h.sound.fill addr
  have hself : t'.findBlock cfg addr = some f := by
    rw [findBlock, hhash, Function.update_self]
    simp [Option.filter, hvalid]
  -- the lookup of another block
  have hother : ∀ a, cfg.blkAlign a ≠ cfg.blkAlign addr → cfg.blkAlign a ≠ 0 → t'.findBlock cfg a =
      (t.tagHash (cfg.blkAlign a)).filter fun k => if k = f then true else (t.blks k).isValid := by
    intro a ha hz
    rw [findBlock, hhash, Function.update_of_ne ha, Function.update_of_ne hz]
    simp only [hvalid]
  constructor
  · rintro ⟨t'', f', hfill', hfound, hrest⟩
    obtain ⟨rfl, rfl⟩ := Prod.mk.inj (Option.some.inj (hfill.symm.trans hfill'))
    have hzero : cfg.blkAlign addr = 0 := ((hfound addr rfl).2 f hself).symm.trans (hsound.tags f)
    refine ⟨hzero, fun a ha hmap => ?_⟩
    have hne : cfg.blkAlign a ≠ cfg.blkAlign addr := by rwa [hzero]
    have hafter : t'.findBlock cfg a = some f := by
      rw [hother a hne ha, hmap, hlast]
      simp [Option.filter]
    have hbefore := hrest a hne
    rw [hafter, findBlock, hmap, hlast] at hbefore
    cases hv : (t.blks f).isValid <;> simp [Option.filter, hv] at hbefore
  · rintro ⟨hzero, hmap⟩
    refine ⟨t', f, hfill, fun a ha => ?_, fun a ha => ?_⟩
    · have hfind : t'.findBlock cfg a = some f := by
        rw [findBlock, ha]
        exact hself
      refine ⟨hfind, fun k hk => ?_⟩
      rw [hsound.tags k, ha, hzero]
    · have hz : cfg.blkAlign a ≠ 0 := by rwa [hzero] at ha
      have hm := hmap a hz
      rw [hlast] at hm
      rw [hother a ha hz, findBlock]
      cases hk : t.tagHash (cfg.blkAlign a) with
      | none => simp
      | some k =>
        have hne : k ≠ f := fun heq => hm (by rw [hk, heq])
        cases hv : (t.blks k).isValid <;> simp [Option.filter, hv, hne]

end FaLru

end PrefetchSim
