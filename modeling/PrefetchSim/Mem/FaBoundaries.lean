import PrefetchSim.Mem.FaLinks

/- The smaller caches the fully associative store keeps track of (`m5/src/mem/cache/tags/fa_lru.cc`).

   `Tracked` says what `check` is to find: the links go through all blocks, one after the other
   (the stack), `cacheBoundaries` points to the last block of each tracked cache, and a block has
   the bits of the caches it is in. `moveToHead` keeps it (`Tracked.moveToHead`): the boundaries
   and masks are brought up to date from the old links, before the block goes to the front. With
   it the block at the tail is in no tracked cache, which is what `findVictim` asserts.

   The constructor gets through with blocks of 64K at most (`construct_small`). With larger ones it
   does at most for one block of 128K, and nothing is tracked then (`construct_large`). It and
   `check` walk along the stack and meet the same boundaries (`Stage`).

   Main result: after any calls the stack is tracked and `check` holds (`boundaries_kept`). -/
namespace PrefetchSim

namespace FaParams

/-- How many blocks the tracked cache `i` has. -/
def capacity (p : FaParams) (i : Nat) : Nat := (2 ^ 17 <<< i) / p.blkSize.toNat

/-- The parameters the constructor accepts: `2 ^ c` blocks make 128K, and the boundaries are not at
the head. -/
structure Accepted (c : Nat) (p : FaParams) : Prop where
  blkSize : p.blkSize.toNat = 2 ^ (17 - c)
  le : c ≤ 17
  numCaches_le : p.numCaches ≤ 14
  numBlocks : p.numBlocks = 2 ^ (c + p.numCaches)
  tracks : p.numCaches ≠ 0 → 1 ≤ c
  cacheMask : ∀ i, p.cacheMask.getLsbD i = decide (i < p.numCaches)

variable {p : FaParams} {c i : Nat}

theorem Accepted.capacity_eq (hp : p.Accepted c) (i : Nat) : p.capacity i = 2 ^ (c + i) := by
  have hle := hp.le
  rw [capacity, hp.blkSize, Nat.shiftLeft_eq, ← Nat.pow_add, Nat.pow_div (by omega) (by decide)]
  congr 1
  omega

/-- The last position of a tracked cache is not the first one, and not the last of the stack. -/
theorem Accepted.last_pos (hp : p.Accepted c) (hi : i < p.numCaches) :
    ∃ k, p.capacity i - 1 = k + 1 ∧ k + 2 < p.numBlocks := by
  have hc : 1 ≤ c := hp.tracks (by omega)
  have htwo : 2 ^ 1 ≤ 2 ^ (c + i) := Nat.pow_le_pow_right (by decide) (by omega)
  have hlt : 2 ^ (c + i) < 2 ^ (c + p.numCaches) := Nat.pow_lt_pow_right (by decide) (by omega)
  refine ⟨2 ^ (c + i) - 2, ?_, ?_⟩
  · rw [hp.capacity_eq]
    omega
  · rw [hp.numBlocks]
    omega

/-- The last block is in none of the tracked caches. -/
theorem Accepted.last_outside (hp : p.Accepted c) : ¬(i < p.numCaches ∧ p.numBlocks - 1 ≤ p.capacity i - 1) := by
  rintro ⟨hi, hle⟩
  obtain ⟨k, hk, hlt⟩ := hp.last_pos hi
  omega

/-- The sizes do not wrap around. -/
theorem Accepted.at_boundary (hp : p.Accepted c) {k j : Nat} (hk : k ≤ p.numBlocks) (hj : j ≤ p.numCaches) :
    BitVec.ofNat 32 (k * 2 ^ (17 - c)) = BitVec.ofNat 32 (2 ^ (17 + j)) ↔ k = 2 ^ (c + j) := by
  have hc := hp.le
  have hn := hp.numCaches_le
  have hsize : ∀ i ≤ p.numCaches, 2 ^ (c + i) * 2 ^ (17 - c) = 2 ^ (17 + i) ∧ 2 ^ (17 + i) < 2 ^ 32 := by
    intro i hi
    refine ⟨?_, Nat.pow_lt_pow_right (by decide) (by omega)⟩
    rw [← Nat.pow_add]
    congr 1
    omega
  have hle : k * 2 ^ (17 - c) ≤ 2 ^ (c + p.numCaches) * 2 ^ (17 - c) := Nat.mul_le_mul_right _ (hp.numBlocks ▸ hk)
  obtain ⟨hall, hfits⟩ := hsize p.numCaches le_rfl
  obtain ⟨hone, hsmall⟩ := hsize j hj
  rw [← BitVec.toNat_inj, BitVec.toNat_ofNat, BitVec.toNat_ofNat, Nat.mod_eq_of_lt (by omega), Nat.mod_eq_of_lt hsmall,
    ← hone, Nat.mul_left_inj (Nat.two_pow_pos _).ne']

end FaParams

namespace FaStore

/-- The stack `l`, from the head to the tail, and what is kept about it. -/
structure Tracked (s : FaStore) (l : List Nat) : Prop where
  perm : l.Perm (List.range s.numBlocks)
  head : s.head = l.head?
  tail : s.tail = l.getLast?
  spells : Linked.Spells s.next s.prev l
  first : 2 ≤ l.length → ∀ f ∈ l.head?, s.prev f = none
  bounds : ∀ i < s.numCaches, ∃ f, s.cacheBoundaries i = some f ∧ Linked.At l (s.capacity i - 1) f
  masks : ∀ f ∈ l, ∀ i, (s.inCache f).getLsbD i = decide (i < s.numCaches ∧ l.idxOf f ≤ s.capacity i - 1)
  mapped : ∀ a f, s.tagHash a = some f → f < s.numBlocks

variable {s : FaStore} {l : List Nat} {c blk i f : Nat}

namespace Tracked

theorem nodup (h : s.Tracked l) : l.Nodup := h.perm.nodup_iff.2 List.nodup_range

theorem mem_iff (h : s.Tracked l) : f ∈ l ↔ f < s.numBlocks := h.perm.mem_iff.trans List.mem_range

theorem length (h : s.Tracked l) : l.length = s.numBlocks := by rw [h.perm.length_eq, List.length_range]

theorem boundary_iff (h : s.Tracked l) (hf : f ∈ l) (hi : i < s.numCaches) :
    s.cacheBoundaries i = some f ↔ l.idxOf f = s.capacity i - 1 := by
  obtain ⟨a, hbound, ha⟩ := h.bounds i hi
  rw [hbound, Option.some.injEq]
  constructor
  · rintro rfl
    exact ha.2
  · intro heq
    exact ha.unique ⟨hf, heq⟩

/-- A bit of the update mask says that the block comes from behind the boundary. -/
theorem updateMask (h : s.Tracked l) (hs : s.Accepted c) (hblk : blk ∈ l) (i : Nat) :
    (s.inCache blk ^^^ s.cacheMask).getLsbD i = decide (i < s.numCaches ∧ s.capacity i - 1 < l.idxOf blk) := by
  rw [BitVec.getLsbD_xor, h.masks blk hblk, hs.cacheMask]
  by_cases hi : i < s.numCaches
  · by_cases hle : l.idxOf blk ≤ s.capacity i - 1
    · simp [hi, hle]
    · simp [hi, hle, Nat.lt_of_not_le hle]
  · simp [hi]

theorem movedBoundary (h : s.Tracked l) (hs : s.Accepted c) (hblk : blk ∈ l) (hi : i < s.numCaches) :
    ∃ f, s.movedBoundary blk (s.inCache blk ^^^ s.cacheMask) i = some f ∧
      Linked.At (blk :: l.erase blk) (s.capacity i - 1) f := by
  obtain ⟨a, hbound, ha⟩ := h.bounds i hi
  obtain ⟨k, hk, -⟩ := hs.last_pos hi
  have hiff := h.boundary_iff hblk hi
  unfold FaStore.movedBoundary
  rw [h.updateMask hs hblk, hbound]
  rw [hbound] at hiff
  rw [hk] at ha hiff ⊢
  obtain ⟨b, hprev, hb⟩ := h.spells.prev_at h.nodup ha
  by_cases hbehind : k + 1 < l.idxOf blk
  · refine ⟨b, ?_, Linked.at_front hblk ha (fun _ => hb) (by omega)⟩
    simp [hi, hbehind, hprev]
  · simp only [hbehind, and_false, decide_false, Bool.false_eq_true, if_false]
    by_cases hat : l.idxOf blk = k + 1
    · obtain rfl := Option.some.inj (hiff.2 hat)
      exact ⟨b, by simp [hprev], Linked.at_front hblk ha (fun _ => hb) (by omega)⟩
    · refine ⟨a, by rw [if_neg (fun heq => hat (hiff.1 heq))], Linked.at_front hblk ha (by omega) fun _ => rfl⟩

theorem movedMask (h : s.Tracked l) (hs : s.Accepted c) (hblk : blk ∈ l) (hf : f ∈ l) (hne : f ≠ blk) (i : Nat) :
    ((s.inCache f).getLsbD i && !(decide (i < s.numCaches) && (s.inCache blk ^^^ s.cacheMask).getLsbD i &&
      decide (s.cacheBoundaries i = some f))) =
    decide (i < s.numCaches ∧ (blk :: l.erase blk).idxOf f ≤ s.capacity i - 1) := by
  rw [h.masks f hf, h.updateMask hs hblk]
  by_cases hi : i < s.numCaches
  · rw [Bool.eq_iff_iff]
    simp only [hi, true_and, decide_true, Bool.true_and, Bool.and_eq_true, decide_eq_true_eq, Bool.not_eq_true',
      Bool.and_eq_false_iff, decide_eq_false_iff_not]
    rw [h.boundary_iff hf hi, Linked.within_front hblk hf hne]
    tauto
  · simp [hi]

end Tracked

/-- Only the order is another one: links, masks and boundaries. -/
def Rearranged (s s' : FaStore) : Prop :=
  ∃ masks bounds next prev head tail, s' = (s.remasked masks bounds).relinked next prev head tail

section

variable {s' : FaStore} (h : s.Rearranged s')

include h

theorem Rearranged.params : s'.toFaParams = s.toFaParams := by
  obtain ⟨masks, bounds, next, prev, head, tail, rfl⟩ := h
  rfl

theorem Rearranged.tagHash : s'.tagHash = s.tagHash := by
  obtain ⟨masks, bounds, next, prev, head, tail, rfl⟩ := h
  rfl

theorem Rearranged.contents (f : Nat) : (s'.blks f).blk = (s.blks f).blk := by
  obtain ⟨masks, bounds, next, prev, head, tail, rfl⟩ := h
  rfl

end

theorem remap_params (s : FaStore) (addr : Addr) (blk : Nat) : (s.remap addr blk).toFaParams = s.toFaParams := by
  unfold remap
  dsimp only
  split <;> rfl

namespace Tracked

/-- The second half of `moveToHead`, which leaves the block at the head where it is. -/
theorem relinked (hspells : Linked.Spells s.next s.prev l) (hnodup : l.Nodup) (hlt : ∀ f ∈ l, f < s.numBlocks)
    (hhead : s.head = l.head?) (htail : s.tail = l.getLast?) (hfirst : 2 ≤ l.length → ∀ f ∈ l.head?, s.prev f = none)
    (hblk : blk ∈ l) :
    ∃ next prev, (if s.head = some blk then some s else (s.unlink blk).bind (linkFront blk)) =
        some (s.relinked next prev (some blk) (blk :: l.erase blk).getLast?) ∧
      Linked.Spells next prev (blk :: l.erase blk) ∧ (2 ≤ l.length → prev blk = none) := by
  by_cases hfront : s.head = some blk
  · have hat : l.head? = some blk := hhead.symm.trans hfront
    rw [if_pos hfront, Linked.cons_erase_of_head? hat]
    refine ⟨s.next, s.prev, ?_, hspells, fun hlen => hfirst hlen blk hat⟩
    rw [← hfront, ← htail, relinked_self]
  · rw [if_neg hfront]
    obtain ⟨next, prev, hrun, hspells', hprev⟩ := relink hspells hnodup hlt hhead htail hblk hfront
    exact ⟨next, prev, hrun, hspells', fun _ => hprev⟩

theorem moveToHead (h : s.Tracked l) (hs : s.Accepted c) (hblk : blk ∈ l) :
    ∃ s', s.moveToHead blk = some s' ∧ s'.Tracked (blk :: l.erase blk) ∧ s.Rearranged s' := by
  have hperm : (blk :: l.erase blk).Perm l := (List.perm_cons_erase hblk).symm
  have hpointers : ∀ i < s.numCaches, ∃ f < s.numBlocks, s.cacheBoundaries i = some f := by
    intro i hi
    obtain ⟨f, hbound, hf⟩ := h.bounds i hi
    exact ⟨f, h.mem_iff.1 hf.1, hbound⟩
  have hle := hs.numCaches_le
  obtain ⟨masks, bounds, hloop, hmasks, hbounds⟩ :=
    moveLoop (s.inCache blk ^^^ s.cacheMask) hpointers le_rfl (by omega)
  obtain ⟨next, prev, hlinks, hspells, hfirst⟩ :=
    relinked (s := s.remasked (Function.update masks blk s.cacheMask) bounds) h.spells h.nodup
      (fun f hf => h.mem_iff.1 hf) h.head h.tail h.first hblk
  refine ⟨(s.remasked (Function.update masks blk s.cacheMask) bounds).relinked next prev (some blk)
    (blk :: l.erase blk).getLast?, ?_, ?_, _, _, _, _, _, _, rfl⟩
  · rw [FaStore.moveToHead, hloop, ← hlinks, ← setInCache_remasked]
    rfl
  · refine ⟨hperm.trans h.perm, rfl, rfl, hspells, ?_, ?_, ?_, h.mapped⟩
    · intro hlen f hf
      obtain rfl := Option.some.inj hf
      exact hfirst (hperm.length_eq ▸ hlen)
    · intro i hi
      obtain ⟨f, hmoved, hf⟩ := h.movedBoundary hs hblk hi
      exact ⟨f, (hbounds i).trans ((if_pos hi).trans hmoved), hf⟩
    · intro f hf i
      show (Function.update masks blk s.cacheMask f).getLsbD i = _
      by_cases hne : f = blk
      · subst hne
        rw [Function.update_self, hs.cacheMask, List.idxOf_cons_self]
        exact decide_eq_decide.2 (and_iff_left (Nat.zero_le _)).symm
      · rw [Function.update_of_ne hne, hmasks, h.movedMask hs hblk (hperm.mem_iff.1 hf) hne]
        rfl

/-- What is in the blocks does not matter. -/
theorem setBlk (h : s.Tracked l) (f : Nat) (b : CacheBlk) : (s.setBlk f b).Tracked l where
  perm := h.perm
  head := h.head
  tail := h.tail
  spells := h.spells.congr (fun a _ => setBlk_next s f a b) fun a _ => setBlk_prev s f a b
  first hlen a ha := (setBlk_prev s f a b).trans (h.first hlen a ha)
  bounds := h.bounds
  masks a ha i := by
    rw [setBlk_inCache]
    exact h.masks a ha i
  mapped := h.mapped

theorem rehash (h : s.Tracked l) (tagHash : Addr → Option Nat)
    (hmapped : ∀ a f, tagHash a = some f → f < s.numBlocks) : { s with tagHash := tagHash }.Tracked l :=
  ⟨h.perm, h.head, h.tail, h.spells, h.first, h.bounds, h.masks, hmapped⟩

theorem remap (h : s.Tracked l) (hblk : blk ∈ l) (addr : Addr) : (s.remap addr blk).Tracked l := by
  have hrehashed := h.rehash
    (Function.update (Function.update s.tagHash (s.blks blk).blk.tag none) (s.blkAlign addr) (some blk))
    fun a _ => FaLru.mapped_remap h.mapped (h.mem_iff.1 hblk) _ _ a
  unfold FaStore.remap
  dsimp only
  split
  · exact hrehashed
  · exact hrehashed.setBlk blk _

/-- The block at the tail is in none of the tracked caches. -/
theorem victim (h : s.Tracked l) (hs : s.Accepted c) : ∃ blk ∈ l, l.getLast? = some blk ∧ s.inCache blk = 0 := by
  have hpos : 0 < s.numBlocks := by
    rw [hs.numBlocks]
    exact Nat.two_pow_pos _
  have hlen := h.length
  have hne : l ≠ [] := List.length_pos_iff.1 (by omega)
  have hidx : l.idxOf (l.getLast hne) = s.numBlocks - 1 := by
    rw [List.getLast_eq_getElem, h.nodup.idxOf_getElem, hlen]
  refine ⟨l.getLast hne, List.getLast_mem hne, List.getLast?_eq_some_getLast hne, ?_⟩
  apply BitVec.eq_of_getLsbD_eq
  intro i _
  rw [h.masks _ (List.getLast_mem hne), hidx]
  exact (decide_eq_false hs.last_outside).trans BitVec.getLsbD_zero.symm

end Tracked

/-- The block `accessBlock` comes back with. -/
def found (s : FaStore) (addr : Addr) : Option Nat :=
  (s.hashLookup (s.blkAlign addr)).filter fun f => (s.blks f).blk.isValid

/-- The stack after an access. -/
def afterAccess (l : List Nat) : Option Nat → List Nat
  | none => l
  | some f => f :: l.erase f

namespace Tracked

theorem accessBlock (h : s.Tracked l) (hs : s.Accepted c) (addr : Addr) :
    ∃ s', s.accessBlock addr = some (s', s.found addr, ((s.found addr).map s.inCache).getD 0, s.hitLatency) ∧
      s'.Tracked (afterAccess l (s.found addr)) ∧ s.Rearranged s' := by
  have hstay : s.Rearranged s := ⟨s.inCache, s.cacheBoundaries, s.next, s.prev, s.head, s.tail, rfl⟩
  unfold FaStore.accessBlock found
  cases hlook : s.hashLookup (s.blkAlign addr) with
  | none => exact ⟨s, rfl, h, hstay⟩
  | some f =>
    by_cases hvalid : (s.blks f).blk.isValid = true
    · simp only [Option.filter_some, hvalid, if_true]
      by_cases hfront : s.head = some f
      · simp only [hfront, if_true]
        refine ⟨s, rfl, ?_, hstay⟩
        rw [afterAccess, Linked.cons_erase_of_head? (h.head.symm.trans hfront)]
        exact h
      · simp only [hfront, if_false]
        have hmem : f ∈ l := h.mem_iff.2 (h.mapped _ f hlook)
        obtain ⟨s', hmove, htracked, hsame⟩ := h.moveToHead hs hmem
        exact ⟨s', by rw [hmove]; rfl, htracked, hsame⟩
    · simp only [Option.filter_some, hvalid]
      exact ⟨s, rfl, h, hstay⟩

theorem findVictim (h : s.Tracked l) (hs : s.Accepted c) (addr : Addr) :
    ∃ s₁ blk, s.findVictim addr = some (s₁.remap addr blk, blk) ∧ l.getLast? = some blk ∧
      (s₁.remap addr blk).Tracked (blk :: l.erase blk) ∧ s.Rearranged s₁ := by
  obtain ⟨blk, hmem, hlast, hmask⟩ := h.victim hs
  obtain ⟨s₁, hmove, htracked, hsame⟩ := h.moveToHead hs hmem
  have hderef : s.deref s.tail = some blk := by
    rw [h.tail, hlast]
    exact deref_of_lt (h.mem_iff.1 hmem)
  refine ⟨s₁, blk, ?_, hlast, htracked.remap List.mem_cons_self addr, hsame⟩
  unfold FaStore.findVictim
  simp only [hderef, Option.bind_eq_bind, Option.bind_some, hmask, ne_eq, not_true_eq_false, if_false, hmove]
  rfl

theorem call (h : s.Tracked l) (hs : s.Accepted c) (e : Call) :
    ∃ s' l', s.call e = some s' ∧ s'.Tracked l' ∧ s'.toFaParams = s.toFaParams := by
  cases e with
  | accessBlock addr =>
    obtain ⟨s', hrun, htracked, hsame⟩ := h.accessBlock hs addr
    exact ⟨s', _, by rw [FaStore.call, hrun, Option.map_some], htracked, hsame.params⟩
  | findVictim addr =>
    obtain ⟨s₁, blk, hrun, -, htracked, hsame⟩ := h.findVictim hs addr
    exact ⟨_, _, by rw [FaStore.call, hrun, Option.map_some], htracked, (remap_params ..).trans hsame.params⟩
  | write f b => exact ⟨_, l, rfl, h.setBlk f b, rfl⟩

theorem calls (h : s.Tracked l) (hs : s.Accepted c) (es : List Call) :
    ∃ s' l', es.foldlM FaStore.call s = some s' ∧ s'.Tracked l' ∧ s'.toFaParams = s.toFaParams := by
  induction es generalizing s l with
  | nil => exact ⟨s, l, rfl, h, rfl⟩
  | cons e es ih =>
    obtain ⟨s₁, l₁, hcall, h₁, hparams⟩ := h.call hs e
    rw [List.foldlM_cons, hcall, ← hparams]
    exact ih h₁ (hparams ▸ hs)

end Tracked

/-! ## Walking along the stack -/

/-- How far a walk along the stack has got after `p` blocks: the boundaries of the caches before `j`
are behind it, and the bits of the others are left in `flags`. The loops of the constructor and of
`check` are such walks. -/
structure Stage (c n p j : Nat) (flags : BitVec 32) : Prop where
  le : j ≤ n
  passed : ∀ i < n, i < j ↔ 2 ^ (c + i) ≤ p
  left : ∀ i, flags.getLsbD i = decide (j ≤ i ∧ i < n)

namespace Stage

variable {n p j : Nat} {flags : BitVec 32}

theorem start (hflags : ∀ i, flags.getLsbD i = decide (i < n)) : Stage c n 0 0 flags where
  le := Nat.zero_le n
  passed i _ := by
    have hpos : 0 < 2 ^ (c + i) := Nat.two_pow_pos _
    omega
  left i := by
    rw [hflags]
    simp

/-- The mask of the next block. -/
theorem flags_eq (h : Stage c n p j flags) (i : Nat) : flags.getLsbD i = decide (i < n ∧ p < 2 ^ (c + i)) := by
  rw [h.left, decide_eq_decide]
  have := h.passed i
  omega

/-- The next block is a boundary. -/
theorem pass (h : Stage c n p j flags) (hp : p + 1 = 2 ^ (c + j)) (hj : j < n) (hn : n ≤ 32) :
    Stage c n (p + 1) (j + 1) (flags &&& ~~~intBit j) where
  le := hj
  passed i _ := by
    rw [hp, Nat.pow_le_pow_iff_right (by decide)]
    omega
  left i := by
    rw [getLsbD_clear (by omega), h.left, ← Bool.decide_and, decide_eq_decide]
    omega

/-- The next block is no boundary. -/
theorem stay (h : Stage c n p j flags) (hp : ¬(p + 1 = 2 ^ (c + j) ∧ j < n)) : Stage c n (p + 1) j flags where
  le := h.le
  passed i hi := by
    rw [h.passed i hi]
    refine ⟨Nat.le_succ_of_le, fun hle => ?_⟩
    by_contra hlt
    have heq : 2 ^ (c + i) = p + 1 := by omega
    -- the first boundary that is not passed comes first
    have hji : j ≤ i := by
      have := h.passed i hi
      omega
    rcases Nat.eq_or_lt_of_le hji with rfl | hji
    · exact hp ⟨heq.symm, hi⟩
    · have hpow : 2 ^ (c + j) < 2 ^ (c + i) := Nat.pow_lt_pow_right (by decide) (by omega)
      have := h.passed j (by omega)
      omega
  left := h.left

end Stage

theorem twoPow_shiftLeft (k : Nat) : BitVec.ofNat 32 (2 ^ k) <<< 1 = BitVec.ofNat 32 (2 ^ (k + 1)) := by
  apply BitVec.eq_of_toNat_eq
  rw [BitVec.toNat_shiftLeft, BitVec.toNat_ofNat, BitVec.toNat_ofNat, Nat.shiftLeft_eq, Nat.mod_mul_mod, ← Nat.pow_add]

theorem Tracked.checkLoop (h : s.Tracked l) (hs : s.Accepted c) {pre rest : List Nat} (hl : l = pre ++ rest)
    {fuel : Nat} (hfuel : rest.length < fuel) {j : Nat} {flags : BitVec 32}
    (hstage : Stage c s.numCaches pre.length j flags) :
    s.checkLoop fuel rest.head? (BitVec.ofNat 32 (pre.length * 2 ^ (17 - c))) (BitVec.ofNat 32 (2 ^ (17 + j))) j flags =
      some true := by
  induction rest generalizing pre fuel j flags with
  | nil =>
    obtain ⟨fuel, rfl⟩ := Nat.exists_eq_succ_of_ne_zero (Nat.ne_of_gt hfuel)
    rfl
  | cons f rest ih =>
    obtain ⟨fuel, rfl⟩ := Nat.exists_eq_succ_of_ne_zero (show fuel ≠ 0 by omega)
    have hlen : (pre ++ [f]).length = pre.length + 1 := by simp
    have hf : f ∈ l := by simp [hl]
    have hidx : l.idxOf f = pre.length := by
      rw [hl]
      exact Linked.idxOf_append_cons (hl ▸ h.nodup)
    have hnext : s.next f = rest.head? := (hl ▸ h.spells).next_eq
    have hmask : s.inCache f = flags := by
      apply BitVec.eq_of_getLsbD_eq
      intro i _
      have hpos : 0 < 2 ^ (c + i) := Nat.two_pow_pos _
      rw [h.masks f hf, hidx, hs.capacity_eq, hstage.flags_eq, decide_eq_decide]
      omega
    have hsize : BitVec.ofNat 32 (pre.length * 2 ^ (17 - c)) + s.blkSize =
        BitVec.ofNat 32 ((pre ++ [f]).length * 2 ^ (17 - c)) := by
      rw [hlen, Nat.add_mul, Nat.one_mul, BitVec.ofNat_add, ← hs.blkSize, BitVec.ofNat_toNat, BitVec.setWidth_eq]
    have hnumBlocks : pre.length + 1 + rest.length = s.numBlocks := by
      rw [← h.length, hl]
      simp
      omega
    have htail : s.tail = some f ↔ pre.length + 1 = s.numBlocks := by
      rw [h.tail, hl, Linked.getLast?_eq_iff (hl ▸ h.nodup), ← List.length_eq_zero_iff]
      omega
    have htest : (BitVec.ofNat 32 ((pre ++ [f]).length * 2 ^ (17 - c)) = BitVec.ofNat 32 (2 ^ (17 + j)) ∧
        s.tail ≠ some f) ↔ pre.length + 1 = 2 ^ (c + j) ∧ j < s.numCaches := by
      rw [hlen, hs.at_boundary (by omega) hstage.le, ne_eq, htail]
      refine and_congr_right fun heq => ?_
      rw [heq, hs.numBlocks, Nat.pow_right_inj (by decide)]
      have := hstage.le
      omega
    have hgo := @ih (pre ++ [f]) (by simp [hl]) fuel (by simpa using hfuel)
    rw [List.head?_cons, FaStore.checkLoop, if_pos (h.mem_iff.1 hf)]
    simp only [hmask, ne_eq, not_true_eq_false, if_false, hsize, hnext]
    by_cases hboundary : pre.length + 1 = 2 ^ (c + j) ∧ j < s.numCaches
    · have hpointer : s.cacheBoundaries j = some f := by
        rw [h.boundary_iff hf hboundary.2, hidx, hs.capacity_eq]
        omega
      rw [if_pos (htest.2 hboundary), if_pos hboundary.2, if_neg (not_not.2 hpointer), twoPow_shiftLeft]
      have hn := hs.numCaches_le
      exact hgo (hlen ▸ hstage.pass hboundary.1 hboundary.2 (by omega))
    · rw [if_neg (htest.not.2 hboundary)]
      exact hgo (hlen ▸ hstage.stay hboundary)

theorem Tracked.check (h : s.Tracked l) (hs : s.Accepted c) {fuel : Nat} (hfuel : s.numBlocks < fuel) :
    s.check fuel = some true := by
  have hwalk := h.checkLoop hs (List.nil_append l).symm (h.length ▸ hfuel) (Stage.start hs.cacheMask)
  rw [List.length_nil, Nat.zero_mul, ← h.head] at hwalk
  exact hwalk

/-! ## Construction -/

/-- What is there when the loop has dealt with the blocks before `m`. -/
structure Built (c m : Nat) (k : Construction) : Prop where
  accepted : k.store.Accepted c
  head : k.store.head = some 0
  tail : k.store.tail = some (k.store.numBlocks - 1)
  tagHash : ∀ a, k.store.tagHash a = none
  stage : Stage c k.store.numCaches m k.j k.flags
  index : k.index = BitVec.ofNat 32 (2 ^ (c + k.j))
  bounds : ∀ i < k.j, k.store.cacheBoundaries i = some (2 ^ (c + i) - 1)
  masks : ∀ f < m, ∀ i, (k.store.inCache f).getLsbD i = decide (i < k.store.numCaches ∧ f < 2 ^ (c + i))
  next : ∀ f < m, k.store.next f = some (f + 1)
  prev : ∀ f < m, k.store.prev f = if f = 0 then none else some (f - 1)
  last : k.store.next (k.store.numBlocks - 1) = none ∧
    k.store.prev (k.store.numBlocks - 1) = some (k.store.numBlocks - 2) ∧ k.store.inCache (k.store.numBlocks - 1) = 0

/-- What a round writes into block `m`. -/
def laid (s : FaStore) (m : Nat) (flags : BitVec 32) : FaStore :=
  let s := ((s.setInCache m flags).setPrev m (some (m - 1))).setNext m (some (m + 1))
  s.setBlk m { (s.blks m).blk with isTouched := false }

section

variable {k : Construction} {m j : Nat} {flags index : BitVec 32} {bounds : Nat → Option Nat}

theorem Built.lay (h : Built c m k) (hpos : 0 < m) (hm : m + 1 < k.store.numBlocks)
    (hstage : Stage c k.store.numCaches (m + 1) j flags) (hindex : index = BitVec.ofNat 32 (2 ^ (c + j)))
    (hbounds : ∀ i < j, bounds i = some (2 ^ (c + i) - 1)) :
    Built c (m + 1) { store := { k.store.laid m k.flags with cacheBoundaries := bounds }
                      index := index, j := j, flags := flags } := by
  have hlast : k.store.numBlocks - 1 ≠ m := by omega
  have hinCache : ∀ f, (k.store.laid m k.flags).inCache f = if f = m then k.flags else k.store.inCache f := by
    intro f
    simp [laid]
  have hnext : ∀ f, (k.store.laid m k.flags).next f = if f = m then some (m + 1) else k.store.next f := by
    intro f
    simp [laid]
  have hprev : ∀ f, (k.store.laid m k.flags).prev f = if f = m then some (m - 1) else k.store.prev f := by
    intro f
    simp [laid]
  -- only the blocks have changed
  obtain ⟨blks, hblks⟩ : ∃ blks, k.store.laid m k.flags = { k.store with blks := blks } := ⟨_, rfl⟩
  rw [hblks] at hinCache hnext hprev ⊢
  refine ⟨h.accepted, h.head, h.tail, h.tagHash, hstage, hindex, hbounds, ?_, ?_, ?_, ?_⟩
  · intro f hf i
    refine (congrArg (·.getLsbD i) (hinCache f)).trans ?_
    by_cases hfm : f = m
    · rw [if_pos hfm, hfm]
      exact h.stage.flags_eq i
    · rw [if_neg hfm]
      exact h.masks f (by omega) i
  · intro f hf
    refine (hnext f).trans ?_
    by_cases hfm : f = m
    · rw [if_pos hfm, hfm]
    · rw [if_neg hfm]
      exact h.next f (by omega)
  · intro f hf
    refine (hprev f).trans ?_
    by_cases hfm : f = m
    · rw [if_pos hfm, hfm, if_neg (by omega)]
    · rw [if_neg hfm]
      exact h.prev f (by omega)
  · exact ⟨(hnext _).trans ((if_neg hlast).trans h.last.1), (hprev _).trans ((if_neg hlast).trans h.last.2.1),
      (hinCache _).trans ((if_neg hlast).trans h.last.2.2)⟩

theorem Built.round (h : Built c m k) (hpos : 0 < m) (hm : m + 1 < k.store.numBlocks) :
    ∃ k', constructRound k m = some k' ∧ Built c (m + 1) k' ∧ k'.store.toFaParams = k.store.toFaParams := by
  have hs := h.accepted
  have hn := hs.numCaches_le
  have hj := h.stage.le
  have hfits : 2 ^ (c + k.store.numCaches) < 2 ^ 32 := Nat.pow_lt_pow_right (by decide) (by have := hs.le; omega)
  have hpow : 2 ^ (c + k.j) ≤ 2 ^ (c + k.store.numCaches) := Nat.pow_le_pow_right (by decide) (by omega)
  have hnum := hs.numBlocks
  have htest : BitVec.ofNat 32 m = k.index - 1 ↔ m + 1 = 2 ^ (c + k.j) := by
    have hone : 0 < 2 ^ (c + k.j) := Nat.two_pow_pos _
    rw [h.index]
    generalize 2 ^ (c + k.j) = p at hone hpow
    bv_omega
  by_cases hboundary : m + 1 = 2 ^ (c + k.j)
  -- a boundary comes before the last block, so there is a cache it belongs to
  · have hlt : k.j < k.store.numCaches := by
      rw [hboundary, hs.numBlocks, Nat.pow_lt_pow_iff_right (by decide)] at hm
      omega
    have hindex : k.index <<< 1 = BitVec.ofNat 32 (2 ^ (c + (k.j + 1))) := h.index ▸ twoPow_shiftLeft _
    have hbounds : ∀ i < k.j + 1, Function.update k.store.cacheBoundaries k.j (some m) i = some (2 ^ (c + i) - 1) := by
      intro i hi
      by_cases hij : i = k.j
      · rw [hij, Function.update_self, ← hboundary, Nat.add_sub_cancel]
      · rw [Function.update_of_ne hij]
        exact h.bounds i (by omega)
    refine ⟨_, ?_, h.lay hpos hm (h.stage.pass hboundary hlt (by omega)) hindex hbounds, rfl⟩
    have hlt' : k.j < (k.store.setInCache m k.flags).numCaches := hlt
    rw [constructRound, if_pos (htest.2 hboundary), if_pos hlt']
    rfl
  · refine ⟨_, ?_, h.lay hpos hm (h.stage.stay fun hb => hboundary hb.1) h.index h.bounds, rfl⟩
    rw [constructRound, if_neg (htest.not.2 hboundary)]
    rfl

theorem Built.loop (h : Built c m k) (hpos : 0 < m) {n : Nat} (hn : m + n + 1 ≤ k.store.numBlocks) :
    ∃ k', (List.range' m n).foldlM constructRound k = some k' ∧ Built c (m + n) k' ∧
      k'.store.toFaParams = k.store.toFaParams := by
  induction n generalizing m k with
  | zero => exact ⟨k, rfl, h, rfl⟩
  | succ n ih =>
    obtain ⟨k₁, hround, h₁, hparams₁⟩ := h.round hpos (by omega)
    obtain ⟨k', hrun, h', hparams'⟩ := ih h₁ (by omega) (by rw [hparams₁]; omega)
    refine ⟨k', ?_, ?_, hparams'.trans hparams₁⟩
    · rw [List.range'_succ, List.foldlM_cons, hround]
      exact hrun
    · rwa [Nat.add_right_comm] at h'

/-- After the last round all boundaries are set. -/
theorem Built.j_eq (h : Built c (k.store.numBlocks - 1) k) : k.j = k.store.numCaches := by
  refine Nat.le_antisymm h.stage.le (Nat.le_of_not_lt fun hlt => ?_)
  have hpow : 2 ^ (c + k.j) < 2 ^ (c + k.store.numCaches) := Nat.pow_lt_pow_right (by decide) (by omega)
  have hnum := h.accepted.numBlocks
  have := h.stage.passed k.j hlt
  omega

/-- The stack the constructor leaves. -/
theorem Built.tracked (h : Built c (k.store.numBlocks - 1) k) (htwo : 2 ≤ k.store.numBlocks) :
    k.store.Tracked (List.range k.store.numBlocks) where
  perm := List.Perm.refl _
  head := by
    rw [h.head, List.head?_range, if_neg (by omega)]
  tail := by
    rw [h.tail, List.getLast?_range, if_neg (by omega)]
  spells := by
    constructor
    · rw [List.isChain_iff_getElem]
      intro i hi
      rw [List.length_range] at hi
      rw [List.getElem_range, List.getElem_range]
      refine ⟨h.next i (by omega), ?_⟩
      by_cases hlast : i + 1 = k.store.numBlocks - 1
      · rw [hlast, h.last.2.1]
        congr 1
        omega
      · rw [h.prev (i + 1) (by omega), if_neg (by omega), Nat.add_sub_cancel]
    · intro a ha
      rw [List.getLast?_range, if_neg (by omega)] at ha
      obtain rfl := Option.some.inj ha
      exact h.last.1
  first _ f hf := by
    rw [List.head?_range, if_neg (by omega)] at hf
    obtain rfl := Option.some.inj hf
    exact h.prev 0 (by omega)
  bounds i hi := by
    obtain ⟨q, hq, hlt⟩ := h.accepted.last_pos hi
    refine ⟨2 ^ (c + i) - 1, h.bounds i (h.j_eq ▸ hi), ?_⟩
    rw [h.accepted.capacity_eq] at hq ⊢
    exact Linked.at_range (by omega)
  masks f hf i := by
    have hlt := List.mem_range.1 hf
    rw [(Linked.at_range hlt).2]
    by_cases hlast : f = k.store.numBlocks - 1
    · rw [hlast, h.last.2.2]
      exact BitVec.getLsbD_zero.trans (decide_eq_false h.accepted.last_outside).symm
    · have hpos : 0 < 2 ^ (c + i) := Nat.two_pow_pos _
      rw [h.masks f (by omega), h.accepted.capacity_eq, decide_eq_decide]
      omega
  mapped a f hf := by
    rw [h.tagHash] at hf
    cases hf

end

section

variable (raw : FaStore) {blkSize numCaches cacheMask numBlocks : BitVec 32} (hitLatency : BitVec 32)

theorem withEnds_next (f : Nat) : (withEnds raw blkSize hitLatency numCaches cacheMask numBlocks).next f =
    if f = (numBlocks - 1).toNat then none else if f = 0 then some 1 else raw.next f := by
  simp only [withEnds, setInCache_next, setNext_next, setPrev_next]
  rfl

theorem withEnds_prev (f : Nat) : (withEnds raw blkSize hitLatency numCaches cacheMask numBlocks).prev f =
    if f = (numBlocks - 1).toNat then some (numBlocks - 2).toNat else if f = 0 then none else raw.prev f := by
  simp only [withEnds, setInCache_prev, setNext_prev, setPrev_prev]
  rfl

theorem withEnds_inCache (f : Nat) : (withEnds raw blkSize hitLatency numCaches cacheMask numBlocks).inCache f =
    if f = (numBlocks - 1).toNat then 0 else if f = 0 then cacheMask else raw.inCache f := by
  simp only [withEnds, setInCache_inCache, setNext_inCache, setPrev_inCache]
  rfl

/-- Before the first round. -/
theorem built_withEnds (hsize : blkSize.toNat = 2 ^ (17 - c)) (hc : c ≤ 17) (hpos : 1 ≤ c) (hn : numCaches.toNat ≤ 14)
    (hnum : numBlocks.toNat = 2 ^ (c + numCaches.toNat))
    (hmask : ∀ i, cacheMask.getLsbD i = decide (i < numCaches.toNat)) :
    Built c 1 { store := withEnds raw blkSize hitLatency numCaches cacheMask numBlocks
                index := BitVec.ofNat 32 (2 ^ c), j := 0, flags := cacheMask } := by
  have htwo : 2 ≤ numBlocks.toNat := hnum ▸ Nat.pow_le_pow_right (show 0 < 2 by decide) (show 1 ≤ c + _ by omega)
  have htail : (numBlocks - 1).toNat = numBlocks.toNat - 1 := by bv_omega
  have hprev : (numBlocks - 2).toNat = numBlocks.toNat - 2 := by bv_omega
  have hne : 0 ≠ numBlocks.toNat - 1 := by omega
  have hstage : Stage c numCaches.toNat 0 0 cacheMask := .start hmask
  have htest : ¬(0 + 1 = 2 ^ (c + 0) ∧ 0 < numCaches.toNat) := by
    have : 2 ^ 1 ≤ 2 ^ (c + 0) := Nat.pow_le_pow_right (by decide) hpos
    omega
  refine ⟨⟨hsize, hc, hn, hnum, fun _ => hpos, hmask⟩, rfl, congrArg some htail, fun _ => rfl, hstage.stay htest, rfl,
    fun i hi => absurd hi (Nat.not_lt_zero i), ?_, ?_, ?_, ?_⟩
  · intro f hf i
    obtain rfl : f = 0 := by omega
    dsimp only
    rw [withEnds_inCache, htail, if_neg hne, if_pos rfl, hmask]
    exact decide_eq_decide.2 (and_iff_left (Nat.two_pow_pos _)).symm
  · intro f hf
    obtain rfl : f = 0 := by omega
    dsimp only
    rw [withEnds_next, htail, if_neg hne, if_pos rfl]
  · intro f hf
    obtain rfl : f = 0 := by omega
    dsimp only
    rw [withEnds_prev, htail, if_neg hne, if_pos rfl, if_pos rfl]
  · show (withEnds ..).next (numBlocks.toNat - 1) = none ∧
      (withEnds ..).prev (numBlocks.toNat - 1) = some (numBlocks.toNat - 2) ∧
      (withEnds ..).inCache (numBlocks.toNat - 1) = 0
    rw [withEnds_next, withEnds_prev, withEnds_inCache, htail, if_pos rfl, if_pos rfl, if_pos rfl, hprev]
    exact ⟨rfl, rfl, rfl⟩

end

section

variable {raw : FaStore} {blkSize numCaches cacheMask hitLatency : BitVec 32} (hn : numCaches.toNat = 0)

include hn

theorem accepted_one (hblk : blkSize.toNat = 2 ^ 17) (hmask : ∀ i, cacheMask.getLsbD i = decide (i < numCaches.toNat)) :
    (withEnds raw blkSize hitLatency numCaches cacheMask 1).Accepted 0 where
  blkSize := hblk
  le := Nat.zero_le 17
  numCaches_le := hn.trans_le (Nat.zero_le 14)
  numBlocks := by
    show 1 = 2 ^ (0 + numCaches.toNat)
    simp [hn]
  tracks hne := absurd hn hne
  cacheMask := hmask

/-- One block is the head and the tail. -/
theorem tracked_one : (withEnds raw blkSize hitLatency numCaches cacheMask 1).Tracked [0] where
  perm := List.Perm.refl _
  head := rfl
  tail := rfl
  spells := by
    refine ⟨.singleton 0, fun a ha => ?_⟩
    obtain rfl := Option.some.inj ha
    exact withEnds_next raw hitLatency 0
  first hlen := absurd hlen (by decide)
  bounds i hi := absurd (hn ▸ hi) (Nat.not_lt_zero i)
  masks f hf i := by
    obtain rfl := List.mem_singleton.1 hf
    rw [withEnds_inCache, if_pos (show 0 = (1 - 1 : BitVec 32).toNat from rfl)]
    exact BitVec.getLsbD_zero.trans (decide_eq_false fun hi => Nat.not_lt_zero i (hn ▸ hi.1)).symm
  mapped _ _ h := by cases h

end

/-- The mask has a bit for each tracked cache. -/
theorem cacheMask_bit {n : BitVec 32} (hn : n.toNat ≤ 14) (i : Nat) :
    (if 0 < n then intBit n.toNat - 1 else 0).getLsbD i = decide (i < n.toNat) := by
  by_cases hpos : 0 < n
  · have hlt : 2 ^ n.toNat < 2 ^ 32 := Nat.pow_lt_pow_right (by decide) (by omega)
    have hone : 0 < 2 ^ n.toNat := Nat.two_pow_pos _
    have hbit : (intBit n.toNat).toNat = 2 ^ n.toNat := by
      rw [intBit, BitVec.toNat_shiftLeft, Nat.shiftLeft_eq]
      exact (congrArg (· % 2 ^ 32) (Nat.one_mul _)).trans (Nat.mod_eq_of_lt hlt)
    have hmask : (intBit n.toNat - 1).toNat = 2 ^ n.toNat - 1 := by bv_omega
    rw [if_pos hpos, BitVec.getLsbD, hmask, Nat.testBit_two_pow_sub_one]
  · have hzero : n.toNat = 0 := by bv_omega
    rw [if_neg hpos, hzero]
    simp

section

variable {raw : FaStore} {hitLatency : BitVec 32} {b z : Nat}

/-- The constructor in numbers. -/
theorem construct_eq (raw : FaStore) (hb : b < 32) (hz17 : 17 ≤ z) (hz : z < 32) (hlat : 0 < hitLatency) :
    ∃ numCaches cacheMask numBlocks : BitVec 32, numCaches.toNat = z - 17 ∧
      (∀ i, cacheMask.getLsbD i = decide (i < numCaches.toNat)) ∧
      numBlocks = BitVec.twoPow 32 z / BitVec.twoPow 32 b ∧ numBlocks.toNat = 2 ^ z / 2 ^ b ∧
      construct raw (BitVec.twoPow 32 b) (BitVec.twoPow 32 z) hitLatency =
        if numBlocks = 0 then none
        else ((List.range' 1 ((numBlocks - 1).toNat - 1)).foldlM constructRound
          { store := withEnds raw (BitVec.twoPow 32 b) hitLatency numCaches cacheMask numBlocks
            index := BitVec.ofNat 32 (2 ^ 17 / 2 ^ b), j := 0, flags := cacheMask }).bind fun k =>
          if k.j = numCaches.toNat && k.index == numBlocks then some k.store else none := by
  have hcaches : (BitVec.ofNat 32 z - 17).toNat = z - 17 := by bv_omega
  have hindex : intBit 17 / BitVec.twoPow 32 b = BitVec.ofNat 32 (2 ^ 17 / 2 ^ b) := by
    have hlt : 2 ^ 17 / 2 ^ b < 2 ^ 32 := Nat.lt_of_le_of_lt (Nat.div_le_self _ _) (by decide)
    apply BitVec.eq_of_toNat_eq
    rw [BitVec.toNat_udiv, toNat_twoPow hb, BitVec.toNat_ofNat, Nat.mod_eq_of_lt hlt]
    rfl
  refine ⟨_, _, _, hcaches, cacheMask_bit (by omega), rfl, ?_, ?_⟩
  · rw [BitVec.toNat_udiv, toNat_twoPow hz, toNat_twoPow hb]
  · rw [construct, isPowerOf2_twoPow hb, isPowerOf2_twoPow hz, decide_eq_true hlat, floorLog2_twoPow hz, hindex]
    rfl

/-- With blocks of 64K at most the constructor gets through. -/
theorem construct_small (raw : FaStore) (hb : b ≤ 16) (hz17 : 17 ≤ z) (hz : z < 32) (hlat : 0 < hitLatency) :
    ∃ k, construct raw (BitVec.twoPow 32 b) (BitVec.twoPow 32 z) hitLatency = some k.store ∧
      Built (17 - b) (k.store.numBlocks - 1) k ∧ 2 ≤ k.store.numBlocks ∧
      k.store.blkSize = BitVec.twoPow 32 b ∧
      k.store.numBlocks = (BitVec.twoPow 32 z / BitVec.twoPow 32 b).toNat ∧ k.store.numCaches = z - 17 := by
  obtain ⟨numCaches, cacheMask, numBlocks, hcaches, hmask, hdiv, hnum, hrun⟩ :=
    construct_eq raw (show b < 32 by omega) hz17 hz hlat
  have hblk : (BitVec.twoPow 32 b).toNat = 2 ^ (17 - (17 - b)) := by
    rw [toNat_twoPow (by omega)]
    congr 1
    omega
  have hnum' : numBlocks.toNat = 2 ^ (17 - b + numCaches.toNat) := by
    rw [hnum, Nat.pow_div (by omega) (by decide)]
    congr 1
    omega
  have htwo : 2 ^ 1 ≤ numBlocks.toNat := hnum' ▸ Nat.pow_le_pow_right (by decide) (by omega)
  have hbuilt := built_withEnds raw hitLatency hblk (by omega) (by omega) (by omega) hnum' hmask
  have hrounds : 1 + ((numBlocks - 1).toNat - 1) + 1 ≤ numBlocks.toNat := by bv_omega
  obtain ⟨k, hloop, hdone, hparams⟩ := hbuilt.loop Nat.one_pos hrounds
  have hblocks : k.store.numBlocks = numBlocks.toNat := congrArg FaParams.numBlocks hparams
  have hcaches' : k.store.numCaches = numCaches.toNat := congrArg FaParams.numCaches hparams
  have hend : 1 + ((numBlocks - 1).toNat - 1) = k.store.numBlocks - 1 := by bv_omega
  rw [hend] at hdone
  refine ⟨k, ?_, hdone, by omega, congrArg FaParams.blkSize hparams, hdiv ▸ hblocks, hcaches'.trans hcaches⟩
  -- both assertions hold
  have hindex : k.index = numBlocks := by
    apply BitVec.eq_of_toNat_eq
    rw [hdone.index, hdone.j_eq, hcaches', ← hnum', BitVec.ofNat_toNat, BitVec.setWidth_eq]
  have hne : numBlocks ≠ 0 := by bv_omega
  rw [hrun, if_neg hne, Nat.pow_div (by omega) (by decide), hloop, Option.bind_some, hdone.j_eq, hcaches', hindex]
  simp

/-- A round that is at no boundary. -/
theorem constructRound_idle {k k' : Construction} {i : Nat} (h : constructRound k i = some k')
    (hne : BitVec.ofNat 32 i ≠ k.index - 1) : k'.j = k.j ∧ k'.index = k.index := by
  rw [constructRound, if_neg hne] at h
  obtain rfl := Option.some.inj h
  exact ⟨rfl, rfl⟩

theorem constructLoop_idle {k k' : Construction} {is : List Nat} (h : is.foldlM constructRound k = some k')
    (hne : ∀ i ∈ is, BitVec.ofNat 32 i ≠ k.index - 1) : k'.j = k.j := by
  induction is generalizing k with
  | nil =>
    obtain rfl := Option.some.inj h
    rfl
  | cons i is ih =>
    rw [List.foldlM_cons] at h
    obtain ⟨k₁, hround, hrest⟩ := Option.bind_eq_some_iff.1 h
    obtain ⟨hj, hindex⟩ := constructRound_idle hround (hne i List.mem_cons_self)
    rw [← hj]
    exact ih hrest fun i' hi' => hindex ▸ hne i' (List.mem_cons_of_mem i hi')

/-- A larger block is never at a boundary, so the constructor gets through only if no cache is
tracked, with one block of 128K. -/
theorem construct_large (hb17 : 17 ≤ b) (hb : b < 32) (hz17 : 17 ≤ z) (hz : z < 32) (hlat : 0 < hitLatency)
    (h : construct raw (BitVec.twoPow 32 b) (BitVec.twoPow 32 z) hitLatency = some s) :
    s.Accepted 0 ∧ s.Tracked [0] ∧ s.blkSize = BitVec.twoPow 32 b ∧
      s.numBlocks = (BitVec.twoPow 32 z / BitVec.twoPow 32 b).toNat ∧ s.numCaches = z - 17 := by
  obtain ⟨numCaches, cacheMask, numBlocks, hcaches, hmask, hdiv, hnum, hrun⟩ :=
    construct_eq raw hb hz17 hz hlat
  rw [hrun] at h
  split at h
  · cases h
  rename_i hne
  obtain ⟨k, hloop, hend⟩ := Option.bind_eq_some_iff.1 h
  have hindex : 2 ^ 17 / 2 ^ b ≤ 1 := by
    have hle : 2 ^ 17 ≤ 2 ^ b := Nat.pow_le_pow_right (by decide) hb17
    exact (Nat.div_le_div_left hle (by decide)).trans_eq (Nat.div_self (by decide))
  have hidle : k.j = 0 := by
    refine constructLoop_idle hloop fun i hi => ?_
    have := List.mem_range'_1.1 hi
    dsimp only
    generalize 2 ^ 17 / 2 ^ b = x at hindex
    bv_omega
  split at hend
  · rename_i hassert
    rw [Bool.and_eq_true, decide_eq_true_eq, hidle] at hassert
    obtain rfl : z = 17 := by omega
    obtain rfl : numBlocks = 1 := by bv_omega
    have hblk : b = 17 := by
      by_contra hne17
      rw [Nat.div_eq_of_lt (Nat.pow_lt_pow_right (by decide) (by omega))] at hnum
      cases hnum
    obtain rfl := Option.some.inj hloop
    obtain rfl := Option.some.inj hend
    have hsize : (BitVec.twoPow 32 b).toNat = 2 ^ 17 := by rw [hblk, toNat_twoPow (by decide)]
    exact ⟨accepted_one hassert.1.symm hsize hmask, tracked_one hassert.1.symm, rfl, congrArg BitVec.toNat hdiv,
      hcaches⟩
  · cases hend

/-- What the constructor leaves. -/
theorem construct_tracked {blkSize size : BitVec 32} (h : construct raw blkSize size hitLatency = some s)
    (hsize : 2 ^ 17 ≤ size.toNat) : ∃ c l, s.Accepted c ∧ s.Tracked l ∧ s.blkSize = blkSize ∧
      s.numBlocks = (size / blkSize).toNat ∧ s.numCaches = floorLog2 size - 17 := by
  have hparams : isPowerOf2 blkSize = true ∧ 0 < hitLatency ∧ isPowerOf2 size = true := by
    by_contra hnot
    have hbad : (!isPowerOf2 blkSize || !decide (0 < hitLatency) || !isPowerOf2 size) = true := by grind
    rw [construct, if_pos hbad] at h
    cases h
  obtain ⟨hblk, hlat, hpow⟩ := hparams
  obtain ⟨b, hb, rfl⟩ := exists_of_isPowerOf2 hblk
  obtain ⟨z, hz, rfl⟩ := exists_of_isPowerOf2 hpow
  have hz17 : 17 ≤ z := by
    rwa [toNat_twoPow hz, Nat.pow_le_pow_iff_right (by decide)] at hsize
  rw [floorLog2_twoPow hz]
  by_cases hsmall : b ≤ 16
  · obtain ⟨k, hrun, hbuilt, htwo, hrest⟩ := construct_small raw hsmall hz17 hz hlat
    obtain rfl := Option.some.inj (hrun.symm.trans h)
    exact ⟨_, _, hbuilt.accepted, hbuilt.tracked htwo, hrest⟩
  · exact ⟨0, [0], construct_large (by omega) hb hz17 hz hlat h⟩

end

/-- After any calls the stack is tracked: the links go through all blocks, and masks and boundaries
are where they have to be. So `check` finds nothing, and a block at the tail may be replaced. -/
theorem boundaries_kept (raw : FaStore) {blkSize size hitLatency : BitVec 32} {s₀ : FaStore}
    (hsize : 2 ^ 17 ≤ size.toNat) (h₀ : construct raw blkSize size hitLatency = some s₀) (calls : List Call) :
    ∃ s l, calls.foldlM call s₀ = some s ∧
      s.blkSize = blkSize ∧ s.numBlocks = (size / blkSize).toNat ∧ s.numCaches = floorLog2 size - 17 ∧
      s.Tracked l ∧ (∀ fuel, s.numBlocks < fuel → s.check fuel = some true) ∧
      ∃ blk, s.tail = some blk ∧ s.inCache blk = 0 := by
  obtain ⟨c, l₀, hs₀, htracked₀, hblk, hblocks, hcaches⟩ := construct_tracked h₀ hsize
  obtain ⟨s, l, hrun, htracked, hparams⟩ := htracked₀.calls hs₀ calls
  have hs : s.Accepted c := hparams ▸ hs₀
  obtain ⟨blk, -, hlast, hmask⟩ := htracked.victim hs
  rw [← hparams] at hblk hblocks hcaches
  exact ⟨s, l, hrun, hblk, hblocks, hcaches, htracked, fun fuel hfuel => htracked.check hs hfuel, blk,
    htracked.tail.trans hlast, hmask⟩

/-- Memory that holds zeros. -/
def blank : FaStore where
  blkSize := 0
  hitLatency := 0
  cacheMask := 0
  numCaches := 0
  numBlocks := 0
  cacheBoundaries _ := none
  blks _ := { prev := none, next := none, inCache := 0, blk := {} }
  head := none
  tail := none

/-- Four blocks, of which the first two make a tracked cache. -/
theorem boundaries_kept_four : ∃ s₀, construct blank 65536 262144 1 = some s₀ ∧
    ∃ s l, [.findVictim 65536, .write 3 { tag := 65536, status := { valid := true } }, .findVictim 0,
        .accessBlock 65540].foldlM call s₀ = some s ∧
      s.blkSize = 65536 ∧ s.numBlocks = (262144 / 65536 : BitVec 32).toNat ∧ s.numCaches = floorLog2 262144 - 17 ∧
      s.Tracked l ∧ (∀ fuel, s.numBlocks < fuel → s.check fuel = some true) ∧
      ∃ blk, s.tail = some blk ∧ s.inCache blk = 0 := by
  have haccepted : (construct blank 65536 262144 1).isSome = true := by decide +kernel
  obtain ⟨s₀, h₀⟩ := Option.isSome_iff_exists.1 haccepted
  exact ⟨s₀, h₀, boundaries_kept blank (by decide) h₀ _⟩

end FaStore

end PrefetchSim
