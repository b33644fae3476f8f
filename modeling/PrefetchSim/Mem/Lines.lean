import PrefetchSim.Mem.Access

/- The tag store as a map from blocks to their contents.

   An address names a block by its set and its tag, and the block's own address
   can be had back from them (`regenerate_extract`). So a frame holds at most one
   block, and what the cache does to a frame is said as an update of `Tags.line`
   at one block: a writeback from above updates its block, a fill its own, and
   either may first take a block away to make room (`MakesRoom`). -/
namespace PrefetchSim

namespace Geometry

variable (g : Geometry)

/-! ## Blocks and their addresses -/

theorem blockAlign_blockAlign (a : Addr) : g.blockAlign (g.blockAlign a) = g.blockAlign a := by
  rw [blockAlign, blockAlign, BitVec.and_assoc, BitVec.and_self]

/-- The tag and the set of an address, put together again, are its block. -/
theorem regenerate_extract (a : Addr) :
    g.regenerateBlkAddr (g.extractTag a) (g.extractSet a) = g.blockAlign a := by
  apply BitVec.eq_of_getLsbD_eq
  intro i hi
  have hfits := g.fits
  have hset : ∀ j, j < 64 → (BitVec.ofNat 64 (g.extractSet a)).getLsbD j =
      (a.getLsbD (g.blkBits + j) && decide (j < g.setBits)) := by
    intro j hj
    rw [extractSet, BitVec.ofNat_toNat, BitVec.setWidth_eq, BitVec.getLsbD_and, BitVec.getLsbD_ushiftRight]
    rw [numSets, Words.lowMask_getLsbD (by omega) hj]
  rw [getLsbD_blockAlign g a hi, regenerateBlkAddr, BitVec.getLsbD_or, BitVec.getLsbD_shiftLeft,
    BitVec.getLsbD_shiftLeft, extractTag, BitVec.getLsbD_ushiftRight]
  by_cases hlow : i < g.blkBits
  · have htag : i < g.tagShift := by
      unfold tagShift
      omega
    simp [hlow, htag]
  · rw [hset (i - g.blkBits) (by omega)]
    have hback : g.blkBits + (i - g.blkBits) = i := by omega
    rw [hback]
    by_cases htag : i < g.tagShift
    · have hin : i - g.blkBits < g.setBits := by
        unfold tagShift at htag
        omega
      simp [hi, hlow, htag, hin, Nat.le_of_not_lt hlow]
    · have hback' : g.tagShift + (i - g.tagShift) = i := by omega
      have hout : ¬i - g.blkBits < g.setBits := by
        unfold tagShift at htag
        omega
      simp [hi, hlow, htag, hout, hback', Nat.le_of_not_lt hlow]

theorem extractTag_blockAlign (a : Addr) : g.extractTag (g.blockAlign a) = g.extractTag a := by
  apply BitVec.eq_of_getLsbD_eq
  intro i hi
  rw [extractTag, extractTag, BitVec.getLsbD_ushiftRight, BitVec.getLsbD_ushiftRight]
  by_cases h : g.tagShift + i < 64
  · have hbits : g.blkBits ≤ g.tagShift + i := by
      unfold tagShift
      omega
    rw [getLsbD_blockAlign g a h, decide_eq_true hbits, Bool.and_true]
  · rw [BitVec.getLsbD_of_ge _ _ (Nat.le_of_not_lt h), BitVec.getLsbD_of_ge _ _ (Nat.le_of_not_lt h)]

theorem extractSet_blockAlign (a : Addr) : g.extractSet (g.blockAlign a) = g.extractSet a := by
  unfold extractSet
  congr 2
  apply BitVec.eq_of_getLsbD_eq
  intro i hi
  rw [BitVec.getLsbD_ushiftRight, BitVec.getLsbD_ushiftRight]
  by_cases h : g.blkBits + i < 64
  · rw [getLsbD_blockAlign g a h, decide_eq_true (Nat.le_add_right ..), Bool.and_true]
  · rw [BitVec.getLsbD_of_ge _ _ (Nat.le_of_not_lt h), BitVec.getLsbD_of_ge _ _ (Nat.le_of_not_lt h)]

/-- A block, named by its address. -/
abbrev Block := { a : Addr // g.blockAlign a = a }

/-- The block an address lies in. -/
def block (a : Addr) : g.Block := ⟨g.blockAlign a, g.blockAlign_blockAlign a⟩

variable {g}

theorem block_val (b : g.Block) : g.block b.1 = b := Subtype.ext b.2

theorem block_eq_iff {a : Addr} {b : g.Block} :
    b = g.block a ↔ g.extractSet b.1 = g.extractSet a ∧ g.extractTag b.1 = g.extractTag a := by
  constructor
  · rintro rfl
    exact ⟨g.extractSet_blockAlign a, g.extractTag_blockAlign a⟩
  · rintro ⟨hset, htag⟩
    apply Subtype.ext
    rw [← b.2, ← g.regenerate_extract b.1, hset, htag, g.regenerate_extract]
    rfl

end Geometry

namespace Tags

variable {g : Geometry} {t t' : Tags}

/-! ## The contents of a block -/

/-- The data of a block that is in the cache, and whether it is dirty. -/
def line (g : Geometry) (t : Tags) (b : g.Block) : Option (List UInt8 × Bool) :=
  (t.findBlock g b.1).map fun p => ((t.blks p).data, (t.blks p).isDirty)

/-- A valid frame holds a block, that is, its tag is the tag of an address of its set. -/
def Housed (g : Geometry) (t : Tags) : Prop :=
  ∀ set w, (t.blks (.frame set w)).isValid = true →
    ∃ a, (t.blks (.frame set w)).tag = g.extractTag a ∧ set = g.extractSet a

theorem initial_housed (g : Geometry) : (initial g).Housed g := by
  intro set w h
  simp [initial, CacheBlk.isValid] at h

theorem initial_findBlock (g : Geometry) (a : Addr) : (initial g).findBlock g a = none := by
  cases h : (initial g).findBlock g a with
  | none => rfl
  | some p =>
    obtain ⟨w, -, -, hw⟩ := mem_of_findBlk h
    simp [holds, initial, CacheBlk.isValid] at hw

/-- A frame answers for one block. -/
theorem findBlock_inj {b : g.Block} {a : Addr} {p : BlkPtr} (hb : t.findBlock g b.1 = some p)
    (ha : t.findBlock g a = some p) : b = g.block a := by
  obtain ⟨w, -, rfl, hw⟩ := mem_of_findBlk hb
  obtain ⟨w', -, hp, hw'⟩ := mem_of_findBlk ha
  simp only [BlkPtr.frame.injEq] at hp
  obtain ⟨hset, rfl⟩ := hp
  simp only [holds, Bool.and_eq_true, decide_eq_true_eq] at hw hw'
  rw [← hset] at hw'
  exact Geometry.block_eq_iff.2 ⟨hset, hw.1.symm.trans hw'.1⟩

theorem findBlock_block (t : Tags) (a : Addr) : t.findBlock g (g.block a).1 = t.findBlock g a := by
  show t.findBlk (g.extractSet (g.blockAlign a)) (g.extractTag (g.blockAlign a)) = _
  rw [g.extractSet_blockAlign, g.extractTag_blockAlign]
  rfl

theorem line_eq_none {b : g.Block} : t.line g b = none ↔ t.findBlock g b.1 = none := Option.map_eq_none_iff

theorem findBlock_ne_temp {a : Addr} : t.findBlock g a ≠ some .temp := by
  intro h
  obtain ⟨w, -, hp, -⟩ := mem_of_findBlk h
  cases hp

/-- A write through the pointer of a block that is in the cache. -/
theorem line_modify {b : g.Block} {p : BlkPtr} {f : CacheBlk → CacheBlk} (hf : t.Inert p f)
    (hb : t.findBlock g b.1 = some p) : (t.modify p f).line g =
      Function.update (t.line g) b (some ((f (t.blks p)).data, (f (t.blks p)).isDirty)) := by
  funext b'
  unfold line
  rw [findBlock_modify hf]
  by_cases h : b' = b
  · subst h
    rw [hb, Function.update_self, Option.map_some, modify_self]
  · rw [Function.update_of_ne h]
    cases hb' : t.findBlock g b'.1 with
    | none => rfl
    | some p' =>
      have hne : p' ≠ p := by
        rintro rfl
        exact h ((findBlock_inj hb' hb).trans (Geometry.block_val b))
      rw [Option.map_some, Option.map_some, modify_of_ne t hne]

/-- A write that changes neither the data nor the dirty bit. -/
theorem line_modify_same {p : BlkPtr} {f : CacheBlk → CacheBlk} (hf : t.Inert p f)
    (hdata : p ≠ .temp → (f (t.blks p)).data = (t.blks p).data ∧
      (f (t.blks p)).isDirty = (t.blks p).isDirty) : (t.modify p f).line g = t.line g := by
  funext b
  unfold line
  rw [findBlock_modify hf]
  cases hb : t.findBlock g b.1 with
  | none => rfl
  | some p' =>
    by_cases h : p' = p
    · subst h
      obtain ⟨hd, hdirty⟩ := hdata fun e => findBlock_ne_temp (e ▸ hb)
      rw [Option.map_some, Option.map_some, modify_self, hd, hdirty]
    · rw [Option.map_some, Option.map_some, modify_of_ne t h]

theorem Quiet.line (h : Quiet t t') (ht : t.WellFormed g) : t'.line g = t.line g := by
  funext b
  unfold Tags.line findBlock
  rw [h.findBlk ht]
  simp only [h.data, CacheBlk.isDirty, h.status]

theorem line_invalidate_temp (ht : t.WellFormed g) : (t.invalidateBlk g .temp).line g = t.line g := by
  funext b
  unfold line
  have hfind : (t.invalidateBlk g .temp).findBlock g b.1 = t.findBlock g b.1 := by
    refine (ht.findBlk_invalidateBlk .temp _ _).trans (if_neg ?_)
    exact findBlock_ne_temp
  rw [hfind]
  cases hb : t.findBlock g b.1 with
  | none => rfl
  | some p =>
    have hp : p ≠ .temp := fun e => findBlock_ne_temp (e ▸ hb)
    simp [invalidateBlk_blks, hp]

/-! ## Frames that hold blocks -/

theorem Housed.modify (h : t.Housed g) {p : BlkPtr} {f : CacheBlk → CacheBlk} (hf : t.Inert p f) :
    (t.modify p f).Housed g := by
  intro set w hv
  by_cases hp : BlkPtr.frame set w = p
  · subst hp
    obtain ⟨htag, -, hvalid⟩ := hf.resolve_left (by simp)
    rw [modify_self] at hv ⊢
    rw [htag]
    exact h set w (hvalid ▸ hv)
  · rw [modify_of_ne t hp] at hv ⊢
    exact h set w hv

theorem Quiet.housed (hq : Quiet t t') (h : t.Housed g) : t'.Housed g := by
  intro set w hv
  rw [hq.tag]
  apply h set w
  simpa only [CacheBlk.isValid, hq.status] using hv

theorem Housed.invalidateBlk (h : t.Housed g) (p : BlkPtr) : (t.invalidateBlk g p).Housed g := by
  intro set w hv
  rw [invalidateBlk_blks] at hv ⊢
  by_cases hp : BlkPtr.frame set w = p
  · subst hp
    rw [Function.update_self] at hv
    exact absurd hv Bool.false_ne_true
  · rw [Function.update_of_ne hp] at hv ⊢
    exact h set w hv

theorem Installs.housed {addr : Addr} {w : Nat} (h : t.Housed g)
    (inst : Installs t t' (g.extractSet addr) w (g.extractTag addr)) : t'.Housed g := by
  intro set v hv
  by_cases hp : BlkPtr.frame set v = .frame (g.extractSet addr) w
  · simp only [BlkPtr.frame.injEq] at hp
    obtain ⟨rfl, rfl⟩ := hp
    exact ⟨addr, inst.tag_eq, rfl⟩
  · rw [inst.other set v hp] at hv ⊢
    exact h set v hv

/-- The block a valid frame holds, by the address it is written back to. -/
theorem Housed.found (h : t.Housed g) (ht : t.WellFormed g) {set w : Nat} (hw : w ∈ t.ways set)
    (hvalid : (t.blks (.frame set w)).isValid = true) :
    ∃ b : g.Block, t.findBlock g b.1 = some (.frame set w) ∧
      g.regenerateBlkAddr (t.blks (.frame set w)).tag (t.blks (.frame set w)).set = b.1 := by
  obtain ⟨a, htag, hset⟩ := h set w hvalid
  have hholds : t.holds set (g.extractTag a) w = true := by simp [holds, htag, hvalid]
  refine ⟨g.block a, ?_, ?_⟩
  · rw [findBlock_block, findBlock, ← hset, ht.findBlk_eq_some hw hholds]
  · rw [ht.set_eq, htag, hset, g.regenerate_extract]
    rfl

/-- After an insertion, in terms of blocks: the new one is found, and what the frame held is not. -/
theorem Installs.findBlock {addr : Addr} {w : Nat}
    (inst : Installs t t' (g.extractSet addr) w (g.extractTag addr)) (ht : t.WellFormed g)
    (hnone : t.findBlock g addr = none) (hw : w ∈ t.ways (g.extractSet addr)) (b : g.Block) :
    t'.findBlock g b.1 =
      if b = g.block addr then some (.frame (g.extractSet addr) w)
      else if t.findBlock g b.1 = some (.frame (g.extractSet addr) w) then none else t.findBlock g b.1 := by
  unfold Tags.findBlock
  rw [inst.findBlk ht hnone hw]
  by_cases h : b = g.block addr
  · rw [if_pos (Geometry.block_eq_iff.1 h), if_pos h]
  · rw [if_neg (fun e => h (Geometry.block_eq_iff.2 e)), if_neg h]

theorem Installs.blks_of_ne {set w : Nat} {tag a : Addr} {p : BlkPtr} (inst : Installs t t' set w tag)
    (hp : t.findBlock g a = some p) (hne : p ≠ .frame set w) : t'.blks p = t.blks p := by
  obtain ⟨v, -, rfl, -⟩ := mem_of_findBlk hp
  exact inst.other _ _ hne

end Tags

/-! ## Making room -/

/-- `pkt` takes the data `v` of block `b` to the next level. -/
structure GivesBack (g : Geometry) (b : g.Block) (v : List UInt8) (pkt : Packet) : Prop where
  cmd : pkt.cmd = .writeback
  addr : pkt.addr = b.1
  size : pkt.size = g.blkSize
  data : pkt.data = v

/-- The block in the frame that is chosen, if there is one, has no outstanding
miss; it is taken away, and written back if it is dirty. -/
inductive MakesRoom (g : Geometry) (q : MshrQueue) (line : g.Block → Option (List UInt8 × Bool)) :
    (g.Block → Option (List UInt8 × Bool)) → List Packet → Prop where
  | free : MakesRoom g q line line []
  | clean (b : g.Block) (v : List UInt8) (held : line b = some (v, false))
      (idle : q.findMatch b.1 = none) : MakesRoom g q line (Function.update line b none) []
  | dirty (b : g.Block) (v : List UInt8) (pkt : Packet) (held : line b = some (v, true))
      (idle : q.findMatch b.1 = none) (gives : GivesBack g b v pkt) :
      MakesRoom g q line (Function.update line b none) [pkt]

/-- A new block in a frame, after what the frame held has been taken away. -/
theorem Tags.Installs.line {g : Geometry} {t t' : Tags} {q : MshrQueue} {addr : Addr} {w : Nat}
    (ht : t.WellFormed g) (hh : t.Housed g) (hnone : t.findBlock g addr = none)
    (hw : w ∈ t.ways (g.extractSet addr))
    (inst : Installs t t' (g.extractSet addr) w (g.extractTag addr))
    (idle : (t.blks (.frame (g.extractSet addr) w)).isValid = true →
      q.findMatch (g.regenerateBlkAddr (t.blks (.frame (g.extractSet addr) w)).tag
        (t.blks (.frame (g.extractSet addr) w)).set) = none) (now : Tick) :
    ∃ line', MakesRoom g q (t.line g) line'
        (if (t.blks (.frame (g.extractSet addr) w)).isValid &&
            (t.blks (.frame (g.extractSet addr) w)).isDirty then
          [writebackPacket g now (t.blks (.frame (g.extractSet addr) w))] else []) ∧
      t'.line g = Function.update line' (g.block addr)
        (some ((t'.blks (.frame (g.extractSet addr) w)).data,
          (t'.blks (.frame (g.extractSet addr) w)).isDirty)) := by
  have hfind := inst.findBlock ht hnone hw
  have hother : ∀ (b : g.Block) p', t.findBlock g b.1 = some p' → p' ≠ .frame (g.extractSet addr) w →
      t'.blks p' = t.blks p' := fun b p' hb hne => inst.blks_of_ne hb hne
  have hvictim := hh.found ht hw
  generalize BlkPtr.frame (g.extractSet addr) w = p at idle hfind hother hvictim ⊢
  -- what is found afterwards
  have hafter : ∀ b : g.Block, t'.line g b = if b = g.block addr then
      some ((t'.blks p).data, (t'.blks p).isDirty)
      else if t.findBlock g b.1 = some p then none else t.line g b := by
    intro b
    unfold Tags.line
    rw [hfind]
    split
    · rfl
    split
    · rfl
    · rename_i hne
      cases hb : t.findBlock g b.1 with
      | none => rfl
      | some p' =>
        rw [Option.map_some, Option.map_some, hother b p' hb fun e => hne (e ▸ hb)]
  by_cases hvalid : (t.blks p).isValid = true
  · -- the frame held block `b'`
    obtain ⟨b', hfound, hblk⟩ := hvictim hvalid
    have hheld : t.line g b' = some ((t.blks p).data, (t.blks p).isDirty) := by
      rw [Tags.line, hfound]
      rfl
    have hidle : q.findMatch b'.1 = none := hblk ▸ idle hvalid
    refine ⟨Function.update (t.line g) b' none, ?_, ?_⟩
    · cases hd : (t.blks p).isDirty with
      | false =>
        rw [hd] at hheld
        simp only [hvalid, Bool.and_false, Bool.false_eq_true, if_false]
        exact .clean _ _ hheld hidle
      | true =>
        rw [hd] at hheld
        simp only [hvalid, Bool.and_true, if_true]
        exact .dirty _ _ _ hheld hidle ⟨rfl, hblk, rfl, rfl⟩
    · funext b
      rw [hafter]
      by_cases h : b = g.block addr
      · subst h
        rw [if_pos rfl, Function.update_self]
      · rw [if_neg h, Function.update_of_ne h]
        by_cases h' : b = b'
        · subst h'
          rw [if_pos hfound, Function.update_self]
        · rw [Function.update_of_ne h', if_neg]
          intro hb
          exact h' ((findBlock_inj hb hfound).trans (Geometry.block_val _))
  · refine ⟨t.line g, ?_, ?_⟩
    · simp only [hvalid, Bool.false_and, Bool.false_eq_true, if_false]
      exact .free
    · funext b
      rw [hafter]
      by_cases h : b = g.block addr
      · subst h
        rw [if_pos rfl, Function.update_self]
      · rw [if_neg h, Function.update_of_ne h, if_neg]
        intro hb
        exact hvalid (findBlock_valid hb)

/-! ## A writeback from above -/

/-- There is no frame for a new block: the victim of its set has an outstanding miss. -/
def noFrame (g : Geometry) (t : Tags) (q : MshrQueue) (addr : Addr) : Bool :=
  let v := t.findVictim g addr
  let blk := v.1.blks v.2
  blk.isValid && (q.findMatch (g.regenerateBlkAddr blk.tag blk.set)).isSome

theorem allocateBlock_none {g : Geometry} {t : Tags} {q : MshrQueue} {now : Tick} {addr : Addr}
    (h : (allocateBlock g t q now addr).2.1 = none) : noFrame g t q addr = true := by
  unfold allocateBlock at h
  unfold noFrame
  dsimp only at h ⊢
  split at h
  · rename_i hvalid
    split at h
    · rename_i hmatch
      rw [hvalid, hmatch, Bool.and_self]
    · split at h <;> cases h
  · cases h

theorem memcpyAt_whole {dst src : List UInt8} (h : dst.length = src.length) : memcpyAt dst 0 src = src := by
  simp [memcpyAt, h]

section

variable {g : Geometry} {t : Tags} {pkt : Packet} {b : g.Block} {v : List UInt8}

theorem GivesBack.offset (h : GivesBack g b v pkt) : pkt.getOffset g.blkSize = 0 := by
  have haddr : pkt.addr &&& (BitVec.ofNat 64 g.blkSize - 1) = 0 := by
    rw [h.addr, ← b.2, Geometry.blockAlign, BitVec.and_assoc, BitVec.and_comm (~~~_), BitVec.and_not_self]
    exact BitVec.and_zero
  rw [Packet.getOffset, haddr]
  rfl

/-- The writeback of a block that is in the cache goes to the block. -/
theorem GivesBack.satisfy (h : GivesBack g b v pkt) (hv : v.length = g.blkSize) {p : BlkPtr}
    (hp : t.findBlock g b.1 = some p) (hsize : (t.blks p).data.length = g.blkSize) :
    (satisfyCpuSideRequest g t p pkt).2 = pkt ∧
      (satisfyCpuSideRequest g t p pkt).1.line g = Function.update (t.line g) b (some (v, true)) := by
  have hdata : pkt.writeDataToBlock (t.blks p).data g.blkSize = v := by
    rw [Packet.writeDataToBlock, h.offset, h.size, h.data, List.take_of_length_le (le_of_eq hv),
      memcpyAt_whole (hsize.trans hv.symm)]
  have hwrite : pkt.cmd.isWrite = true := by
    rw [h.cmd]
    rfl
  have hllsc : pkt.cmd.isLLSC = false := by
    rw [h.cmd]
    rfl
  have hsat : satisfyCpuSideRequest g t p pkt = (t.modify p fun _ => { t.blks p with
      lockList := [], data := v, status := { (t.blks p).status with dirty := true } }, pkt) := by
    have hswap : pkt.cmd ≠ .swapReq := by
      rw [h.cmd]
      decide
    simp [satisfyCpuSideRequest, hswap, hwrite, CacheBlk.checkWrite, hllsc, hdata]
  rw [hsat]
  refine ⟨rfl, ?_⟩
  rw [Tags.line_modify (.inr ⟨rfl, rfl, rfl⟩) hp]
  rfl

end

/-- A writeback goes to its block, for which room is made if it is not in the
cache; or there is no frame for it, and the cache stays as it is. -/
theorem access_writeback {g : Geometry} {t : Tags} (ht : t.WellFormed g) (hh : t.Housed g)
    (hsize : ∀ b c, t.line g b = some c → c.1.length = g.blkSize) (q : MshrQueue) (now : Tick)
    {pkt : Packet} {b : g.Block} {v : List UInt8} (h : GivesBack g b v pkt) (hv : v.length = g.blkSize) :
    let r := access g t q now pkt
    r.pkt = pkt ∧ r.tags.Housed g ∧
      ((r.satisfied = true ∧ ∃ line', MakesRoom g q (t.line g) line' r.writebacks ∧
          r.tags.line g = Function.update line' b (some (v, true))) ∨
        (r.satisfied = false ∧ t.line g b = none ∧ noFrame g t q pkt.addr = true ∧ r.writebacks = [] ∧
          r.tags.line g = t.line g)) := by
  have hb : g.block pkt.addr = b := by rw [h.addr, Geometry.block_val]
  cases hfound : t.findBlock g pkt.addr with
  | some p =>
    have hacc := t.accessBlock_found g now pkt.addr
    have quiet := t.accessBlock_quiet g now pkt.addr
    unfold access
    generalize t.accessBlock g now pkt.addr = acc at hacc quiet ⊢
    obtain ⟨t₁, lat, blk⟩ := acc
    dsimp only at hacc quiet ⊢
    rw [hfound] at hacc
    subst hacc
    have hp : t₁.findBlock g b.1 = some p := by
      rw [← h.addr]
      exact (quiet.findBlk ht _ _).trans hfound
    have hline := quiet.line ht
    have hlength : (t₁.blks p).data.length = g.blkSize := by
      have hb' : t₁.line g b = some ((t₁.blks p).data, (t₁.blks p).isDirty) := by
        rw [Tags.line, hp]
        rfl
      exact hsize b _ (hline ▸ hb')
    dsimp only
    split
    · obtain ⟨hpkt, hafter⟩ := h.satisfy hv hp hlength
      obtain ⟨f, hf, htags⟩ := satisfy_tags g t₁ p pkt
      have hkeep : givesUp g pkt = false := by
        rw [givesUp, h.cmd]
        rfl
      rw [hkeep] at htags
      dsimp only
      refine ⟨hpkt, ?_, .inl ⟨rfl, t.line g, .free, by rw [hafter, hline]⟩⟩
      rw [htags]
      exact (quiet.housed hh).modify (hf.inert t₁ p)
    · rw [if_pos h.cmd]
      refine ⟨rfl, (quiet.housed hh).modify (inert_writeback pkt t₁ p), .inl ⟨rfl, t.line g, .free, ?_⟩⟩
      dsimp only
      rw [acceptWriteback, Tags.line_modify (inert_writeback pkt t₁ p) hp, hline, h.data]
      rfl
  | none =>
    have hnone : t.line g b = none := Tags.line_eq_none.2 (h.addr ▸ hfound)
    have hacc : t.accessBlock g now pkt.addr = (t, g.hitLatency, none) := by
      rw [Tags.accessBlock, hfound]
    have hrefused := @allocateBlock_none g t q now pkt.addr
    obtain ⟨w, hw, halloc⟩ := allocateBlock_allocation ht q now pkt.addr
    unfold access
    rw [hacc]
    dsimp only
    rw [if_pos h.cmd]
    generalize allocateBlock g t q now pkt.addr = a at halloc hrefused ⊢
    cases halloc with
    | refused hq _ _ =>
      exact ⟨rfl, hq.housed hh, .inr ⟨rfl, hnone, hrefused rfl, rfl, hq.line ht⟩⟩
    | granted hways other hset idle =>
      have inst := (@Tags.installs_of_insert g t _ pkt.addr w pkt.req.contextId
        (fun b => { b with status := { valid := true, readable := true } }) hw hways other
        (hset.trans (ht.set_eq _ _)) (fun _ => rfl) (fun _ => rfl) (fun _ => rfl)).modify
          (inert_writeback pkt _ _)
      obtain ⟨line', hroom, hline⟩ := inst.line ht hh hfound hw idle now
      refine ⟨rfl, inst.housed hh, .inl ⟨rfl, line', hroom, ?_⟩⟩
      refine hline.trans ?_
      rw [hb, Tags.modify_self, ← h.data]
      rfl

/-! ## A fill -/

namespace Tags

variable {g : Geometry} {t t' t'' : Tags}

/-- The blocks in the cache are the same; the temporary block may differ. -/
structure SameBlocks (g : Geometry) (t t' : Tags) : Prop where
  find : ∀ a, t'.findBlock g a = t.findBlock g a
  data : ∀ a p, t.findBlock g a = some p → (t'.blks p).data = (t.blks p).data
  status : ∀ a p, t.findBlock g a = some p → (t'.blks p).status = (t.blks p).status
  housed : t.Housed g → t'.Housed g

theorem Quiet.sameBlocks (h : Quiet t t') (ht : t.WellFormed g) : SameBlocks g t t' :=
  ⟨fun _ => h.findBlk ht _ _, fun _ p _ => h.data p, fun _ p _ => h.status p, h.housed⟩

theorem SameBlocks.trans (h : SameBlocks g t t') (h' : SameBlocks g t' t'') : SameBlocks g t t'' where
  find a := (h'.find a).trans (h.find a)
  data a p hp := (h'.data a p ((h.find a).trans hp)).trans (h.data a p hp)
  status a p hp := (h'.status a p ((h.find a).trans hp)).trans (h.status a p hp)
  housed hh := h'.housed (h.housed hh)

theorem sameBlocks_temp (g : Geometry) (t : Tags) (f : CacheBlk → CacheBlk) :
    SameBlocks g t (t.modify .temp f) := by
  have hinert : t.Inert .temp f := .inl rfl
  have hblks : ∀ a p, t.findBlock g a = some p → (t.modify .temp f).blks p = t.blks p := by
    intro a p hp
    exact modify_of_ne t (fun e => findBlock_ne_temp (e ▸ hp)) f
  exact ⟨fun a => findBlock_modify hinert g a, fun a p hp => by rw [hblks a p hp],
    fun a p hp => by rw [hblks a p hp], fun hh => hh.modify hinert⟩

theorem sameBlocks_invalidate (ht : t.WellFormed g) : SameBlocks g t (t.invalidateBlk g .temp) := by
  have hblks : ∀ a p, t.findBlock g a = some p → (t.invalidateBlk g .temp).blks p = t.blks p := by
    intro a p hp
    have hne : p ≠ .temp := fun e => findBlock_ne_temp (e ▸ hp)
    simp [invalidateBlk_blks, hne]
  refine ⟨fun a => ?_, fun a p hp => by rw [hblks a p hp], fun a p hp => by rw [hblks a p hp],
    fun hh => hh.invalidateBlk .temp⟩
  refine (ht.findBlk_invalidateBlk .temp _ _).trans (if_neg ?_)
  exact findBlock_ne_temp

theorem SameBlocks.line (h : SameBlocks g t t') : t'.line g = t.line g := by
  funext b
  unfold Tags.line
  rw [h.find]
  cases hb : t.findBlock g b.1 with
  | none => rfl
  | some p => simp only [Option.map_some, h.data _ _ hb, CacheBlk.isDirty, h.status _ _ hb]

/-- The block `b` is in the frame `ptr` now, with what the response `pkt` says; the other
blocks are as they were, or gone. -/
structure Receives (g : Geometry) (b : g.Block) (pkt : Packet) (ptr : BlkPtr) (t t' : Tags) : Prop where
  here : t'.findBlock g b.1 = some ptr
  status : (t'.blks ptr).status = fillStatus pkt
  rest : ∀ b', b' ≠ b → ∀ p, t'.findBlock g b'.1 = some p →
    t.findBlock g b'.1 = some p ∧ (t'.blks p).status = (t.blks p).status

end Tags

/-- A block that is not in the cache is filled into a frame, for which room is
made, or into the temporary block. -/
theorem handleFill_absent {g : Geometry} {t : Tags} (ht : t.WellFormed g) (hh : t.Housed g) (q : MshrQueue)
    (now : Tick) {pkt : Packet} (habsent : t.findBlock g pkt.addr = none) (hread : pkt.cmd.isRead = true) :
    let f := handleFill g t q now pkt none
    f.1.Housed g ∧
      ((∃ line', MakesRoom g q (t.line g) line' f.2.2 ∧ f.2.1 ≠ .temp ∧
          f.1.line g = Function.update line' (g.block pkt.addr) (some (pkt.data, (fillStatus pkt).dirty)) ∧
          Tags.Receives g (g.block pkt.addr) pkt f.2.1 t f.1 ∧ (f.1.blks f.2.1).data = pkt.data) ∨
        (f.2.1 = .temp ∧ f.2.2 = [] ∧ f.1.line g = t.line g ∧ (f.1.blks .temp).status = fillStatus pkt ∧
          Tags.SameBlocks g t f.1 ∧ (f.1.blks .temp).data = pkt.data ∧
          g.regenerateBlkAddr (f.1.blks .temp).tag (f.1.blks .temp).set = g.blockAlign pkt.addr)) := by
  obtain ⟨w, hw, halloc⟩ := allocateBlock_allocation ht q now pkt.addr
  unfold handleFill
  dsimp only
  generalize allocateBlock g t q now pkt.addr = a at halloc ⊢
  cases halloc with
  | @refused t₁ hq _ _ =>
    dsimp only
    have hsame : ∀ f f', Tags.SameBlocks g t ((t₁.modify .temp f).modify .temp f') := fun f f' =>
      ((hq.sameBlocks ht).trans (Tags.sameBlocks_temp g t₁ f)).trans (Tags.sameBlocks_temp g _ f')
    refine ⟨(hsame _ _).housed hh, .inr ⟨rfl, rfl, (hsame _ _).line, ?_, hsame _ _, ?_, ?_⟩⟩
    · rw [Tags.modify_self]
    · rw [Tags.modify_self, hread, if_pos rfl]
    · rw [Tags.modify_self, Tags.modify_self]
      exact g.regenerate_extract pkt.addr
  | granted hways other hset idle =>
    have inst := @Tags.installs_of_insert g t _ pkt.addr w pkt.req.contextId
      (fun b => { b with
        status := fillStatus pkt
        data := if pkt.cmd.isRead then pkt.data else b.data
        whenReady := pkt.finishTime }) hw hways other
      (hset.trans (ht.set_eq _ _)) (fun _ => rfl) (fun _ => rfl) (fun _ => rfl)
    obtain ⟨line', hroom, hline⟩ := inst.line ht hh habsent hw idle now
    have hfind := inst.findBlock ht habsent hw
    refine ⟨inst.housed hh, .inl ⟨line', hroom, by simp, ?_, ⟨?_, ?_, ?_⟩, ?_⟩⟩
    · refine hline.trans ?_
      rw [Tags.modify_self, hread]
      rfl
    · rw [hfind, if_pos rfl]
    · rw [Tags.modify_self]
    · intro b' hb' p hp
      rw [hfind, if_neg hb'] at hp
      split at hp
      · cases hp
      · rename_i hne
        refine ⟨hp, ?_⟩
        rw [inst.blks_of_ne hp fun e => hne (e ▸ hp)]
    · rw [Tags.modify_self, hread, if_pos rfl]

/-- A block that is in the cache already gets new permissions. -/
theorem handleFill_present {g : Geometry} {t : Tags} (hh : t.Housed g) (q : MshrQueue) (now : Tick) {pkt : Packet}
    {b : g.Block} {ptr : BlkPtr} (hfound : t.findBlock g b.1 = some ptr) (hread : pkt.cmd.isRead = false) :
    let f := handleFill g t q now pkt (some ptr)
    f.1.Housed g ∧ f.2 = (ptr, []) ∧ Tags.Receives g b pkt ptr t f.1 ∧ (f.1.blks ptr).data = (t.blks ptr).data ∧
      f.1.line g = Function.update (t.line g) b (some ((t.blks ptr).data, (fillStatus pkt).dirty)) := by
  intro f
  have hvalid : (t.blks ptr).isValid = true := Tags.findBlock_valid hfound
  have hf : f = (t.modify ptr fun blk => { blk with
      status := fillStatus pkt, whenReady := pkt.finishTime }, ptr, []) := by
    simp only [f, handleFill, hread, Bool.false_eq_true, if_false]
  have hinert : t.Inert ptr fun blk => { blk with status := fillStatus pkt, whenReady := pkt.finishTime } :=
    .inr ⟨rfl, rfl, hvalid.symm⟩
  rw [hf]
  refine ⟨hh.modify hinert, rfl, ⟨?_, ?_, ?_⟩, ?_, ?_⟩
  · rw [Tags.findBlock_modify hinert, hfound]
  · rw [Tags.modify_self]
  · intro b' hb' p hp
    rw [Tags.findBlock_modify hinert] at hp
    have hne : p ≠ ptr := by
      rintro rfl
      exact hb' ((Tags.findBlock_inj hp hfound).trans (Geometry.block_val b))
    exact ⟨hp, by rw [Tags.modify_of_ne t hne]⟩
  · rw [Tags.modify_self]
  · exact Tags.line_modify hinert hfound

end PrefetchSim
