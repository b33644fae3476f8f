import PrefetchSim.Base.IntMath
import PrefetchSim.Mem.Lines
import PrefetchSim.Mem.LoadLocked

/- Addresses in the LRU tag store, from the constructor's own fields
   (`m5/src/mem/cache/tags/lru.{hh,cc}`).

   Correspondence (C++ ↔ Lean):
     `LRU::LRU` (its checks, shifts and masks)        ↔ `LruLayout.create`
     `extractTag`, `extractSet`, `blkAlign`           ↔ `LruLayout.extractTag`, `.extractSet`, `.blkAlign`
     `regenerateBlkAddr`                              ↔ `LruLayout.regenerateBlkAddr`

   The sizes, the masks and the index of a set are 32 bits wide here as in the source, and the
   shifts come from `floorLog2`. A layout the constructor accepts is a `Geometry`
   (`LruLayout.create_describes`), and on 64-bit addresses its functions are those of the
   geometry. So an address is taken apart into a tag and a set without loss
   (`LruLayout.decomposes`): whatever is done to the blocks, the address that a frame's tag and
   set are put together to is that of the block it was given to. -/
namespace PrefetchSim

/-! ## The constructor -/

structure LruLayout where
  numSets : BitVec 32
  blkSize : BitVec 32
  assoc : BitVec 32
  hitLatency : BitVec 32
  blkMask : BitVec 32
  setShift : Nat
  setMask : BitVec 32
  tagShift : Nat
  deriving DecidableEq, Repr

namespace LruLayout

/-- `LRU::LRU`: `none` where it calls `fatal`. -/
def create (numSets blkSize assoc hitLatency : BitVec 32) : Option LruLayout :=
  if blkSize < 4 || !isPowerOf2 blkSize then none
  else if numSets ≤ 0 || !isPowerOf2 numSets then none
  else if assoc ≤ 0 then none
  else if hitLatency ≤ 0 then none
  else
    let setShift := floorLog2 blkSize
    some { numSets, blkSize, assoc, hitLatency, setShift
           blkMask := blkSize - 1
           setMask := numSets - 1
           tagShift := setShift + floorLog2 numSets }

def extractTag (l : LruLayout) (addr : Addr) : Addr := addr >>> l.tagShift

/-- The index of the set, an `int`. -/
def extractSet (l : LruLayout) (addr : Addr) : BitVec 32 :=
  ((addr >>> l.setShift) &&& l.setMask.setWidth 64).setWidth 32

def blkAlign (l : LruLayout) (addr : Addr) : Addr := addr &&& ~~~l.blkMask.setWidth 64

def regenerateBlkAddr (l : LruLayout) (tag : Addr) (set : BitVec 32) : Addr :=
  (tag <<< l.tagShift) ||| (set.setWidth 64 <<< l.setShift)

/-- The layout is that of the geometry. -/
structure Describes (l : LruLayout) (g : Geometry) : Prop where
  blkBits : g.blkBits < 32
  setBits : g.setBits < 32
  blkMask : l.blkMask.setWidth 64 = BitVec.ofNat 64 g.blkSize - 1
  setMask : l.setMask.setWidth 64 = BitVec.ofNat 64 g.numSets - 1
  setShift : l.setShift = g.blkBits
  tagShift : l.tagShift = g.tagShift

theorem setWidth_mask {k : Nat} (hk : k < 32) :
    (BitVec.twoPow 32 k - 1).setWidth 64 = BitVec.ofNat 64 (2 ^ k) - 1 := by
  have h : ∀ i : Fin 32, (BitVec.twoPow 32 i - 1).setWidth 64 = BitVec.ofNat 64 (2 ^ (i : Nat)) - 1 := by decide
  exact h ⟨k, hk⟩

variable {numSets blkSize assoc hitLatency : BitVec 32} {l : LruLayout} {g : Geometry}

/-- What the constructor accepts, and what it makes of it. -/
theorem create_eq_some (h : create numSets blkSize assoc hitLatency = some l) :
    ∃ b s, b < 32 ∧ s < 32 ∧ 2 ≤ b ∧ blkSize = BitVec.twoPow 32 b ∧ numSets = BitVec.twoPow 32 s ∧
      0 < assoc.toNat ∧ 0 < hitLatency.toNat ∧
      l = { numSets, blkSize, assoc, hitLatency, blkMask := blkSize - 1, setShift := b, setMask := numSets - 1,
            tagShift := b + s } := by
  unfold create at h
  split at h
  · cases h
  rename_i hblk
  split at h
  · cases h
  rename_i hsets
  split at h
  · cases h
  rename_i hassoc
  split at h
  · cases h
  rename_i hlat
  simp only [Bool.or_eq_true, not_or, Bool.not_eq_true', Bool.not_eq_false, decide_eq_true_eq] at hblk hsets
  obtain ⟨b, hb, rfl⟩ := exists_of_isPowerOf2 hblk.2
  obtain ⟨s, hs, rfl⟩ := exists_of_isPowerOf2 hsets.2
  have hfour : 2 ^ 2 ≤ 2 ^ b := by
    have hle := hblk.1
    rw [BitVec.lt_def, toNat_twoPow hb] at hle
    exact Nat.le_of_not_lt hle
  refine ⟨b, s, hb, hs, (Nat.pow_le_pow_iff_right (by decide)).1 hfour, rfl, rfl, ?_, ?_, ?_⟩
  · bv_omega
  · bv_omega
  · rw [← Option.some.inj h, floorLog2_twoPow hb, floorLog2_twoPow hs]

/-- A geometry of the sizes has the layout. -/
theorem create_describes (h : create numSets blkSize assoc hitLatency = some l)
    (hblk : g.blkSize = blkSize.toNat) (hsets : g.numSets = numSets.toNat) : l.Describes g := by
  obtain ⟨b, s, hb, hs, -, rfl, rfl, -, -, rfl⟩ := create_eq_some h
  rw [toNat_twoPow hb] at hblk
  rw [toNat_twoPow hs] at hsets
  obtain rfl : g.blkBits = b := Nat.pow_right_injective (le_refl 2) hblk
  obtain rfl : g.setBits = s := Nat.pow_right_injective (le_refl 2) hsets
  exact ⟨hb, hs, setWidth_mask hb, setWidth_mask hs, rfl, rfl⟩

/-- And there is one. -/
theorem create_geometry (h : create numSets blkSize assoc hitLatency = some l) :
    ∃ g : Geometry, g.blkSize = blkSize.toNat ∧ g.numSets = numSets.toNat := by
  obtain ⟨b, s, hb, hs, htwo, rfl, rfl, hassoc, hlat, -⟩ := create_eq_some h
  exact ⟨{ blkBits := b, setBits := s, assoc := assoc.toNat, hitLatency := hitLatency.toNat, numCpus := 1
           two_le_blkBits := htwo, fits := by omega, assoc_pos := hassoc, hitLatency_pos := hlat },
    (toNat_twoPow hb).symm, (toNat_twoPow hs).symm⟩

/-! ## The functions of the geometry -/

namespace Describes

variable (h : l.Describes g)
include h

theorem extractTag (a : Addr) : l.extractTag a = g.extractTag a := by
  rw [LruLayout.extractTag, h.tagShift]
  rfl

theorem blkAlign (a : Addr) : l.blkAlign a = g.blockAlign a := by
  rw [LruLayout.blkAlign, h.blkMask]
  rfl

/-- The index of a set fits an `int`. -/
theorem toNat_extractSet (a : Addr) : (l.extractSet a).toNat = g.extractSet a := by
  have hset : l.extractSet a = BitVec.ofNat 32 (g.extractSet a) := by
    rw [LruLayout.extractSet, h.setShift, h.setMask]
    rfl
  have hle : g.numSets ≤ 2 ^ 31 := Nat.pow_le_pow_right (by decide) (by have := h.setBits; omega)
  have hlt := g.extractSet_lt a
  rw [hset, BitVec.toNat_ofNat, Nat.mod_eq_of_lt (by omega)]

theorem extractSet_inj {a b : Addr} : l.extractSet a = l.extractSet b ↔ g.extractSet a = g.extractSet b := by
  rw [← BitVec.toNat_inj, h.toNat_extractSet, h.toNat_extractSet]

theorem regenerateBlkAddr (tag : Addr) (set : BitVec 32) :
    l.regenerateBlkAddr tag set = g.regenerateBlkAddr tag set.toNat := by
  rw [LruLayout.regenerateBlkAddr, h.tagShift, h.setShift, Geometry.regenerateBlkAddr, BitVec.ofNat_toNat]

end Describes

end LruLayout

/-! ## Which block a frame was given to -/

/-- For each frame, the address it was last given away for. -/
abbrev Origins := BlkPtr → Option Addr

namespace BlkOp

/-- The frame that is given to another block, with the address of that block. -/
def places (g : Geometry) (t : Tags) : BlkOp → Option (BlkPtr × Addr)
  | .access q now pkt => ((BlkOp.access q now pkt).taken g t).map (·, pkt.addr)
  | .fill q now pkt => ((BlkOp.fill q now pkt).taken g t).map (·, pkt.addr)
  | _ => none

/-- The blocks that are written back to make room. -/
def writebacks (g : Geometry) (t : Tags) : BlkOp → List Packet
  | .access q now pkt => (PrefetchSim.access g t q now pkt).writebacks
  | .fill q now pkt => (handleFill g t q now pkt (t.findBlock g pkt.addr)).2.2
  | _ => []

/-- The blocks, with the origins of the frames next to them. -/
def place (cfg : Config) (s : Tags × Origins) (op : BlkOp) : Tags × Origins :=
  (op.apply cfg s.1, match op.places cfg.geom s.1 with
    | some (ptr, addr) => Function.update s.2 ptr (some addr)
    | none => s.2)

end BlkOp

/-- The block in the frame is the one it was, or it is gone. -/
structure SameBlock (b b' : CacheBlk) : Prop where
  tag : b'.tag = b.tag
  set : b'.set = b.set
  valid : b'.isValid = true → b.isValid = true

namespace SameBlock

theorem refl (b : CacheBlk) : SameBlock b b := ⟨rfl, rfl, id⟩

theorem trans {a b c : CacheBlk} (h : SameBlock a b) (h' : SameBlock b c) : SameBlock a c :=
  ⟨h'.tag.trans h.tag, h'.set.trans h.set, h.valid ∘ h'.valid⟩

variable {g : Geometry} {t t' : Tags}

theorem modify (t : Tags) {ptr : BlkPtr} {f : CacheBlk → CacheBlk} (hf : SameBlock (t.blks ptr) (f (t.blks ptr)))
    (p : BlkPtr) : SameBlock (t.blks p) ((t.modify ptr f).blks p) := by
  by_cases hp : p = ptr
  · subst hp
    rw [Tags.modify_self]
    exact hf
  · rw [Tags.modify_of_ne t hp]
    exact .refl _

theorem quiet (h : Tags.Quiet t t') (p : BlkPtr) : SameBlock (t.blks p) (t'.blks p) :=
  ⟨h.tag p, h.set p, fun hv => by rwa [CacheBlk.isValid, ← h.status p]⟩

theorem invalidateBlk (g : Geometry) (t : Tags) (ptr p : BlkPtr) :
    SameBlock (t.blks p) ((t.invalidateBlk g ptr).blks p) := by
  rw [Tags.invalidateBlk_blks]
  by_cases hp : p = ptr
  · subst hp
    rw [Function.update_self]
    exact ⟨rfl, rfl, fun hv => absurd hv Bool.false_ne_true⟩
  · rw [Function.update_of_ne hp]
    exact .refl _

theorem satisfied (g : Geometry) (pkt : Packet) (b : CacheBlk) : SameBlock b (satisfiedBlk g pkt b) := by
  have hgone : SameBlock b { b with status := {}, isTouched := false, lockList := [], contextSrc := none } :=
    ⟨rfl, rfl, fun hv => absurd hv Bool.false_ne_true⟩
  have htrack : SameBlock b (if pkt.cmd.isLLSC then b.trackLoadLocked pkt else b) := by
    split
    · exact ⟨rfl, rfl, id⟩
    · exact .refl b
  unfold satisfiedBlk
  dsimp only
  split
  · split
    · exact ⟨rfl, rfl, id⟩
    · exact .refl b
  split
  · split <;> exact ⟨rfl, rfl, id⟩
  split
  · split
    · split
      · exact hgone
      · exact htrack.trans ⟨rfl, rfl, id⟩
    · exact htrack
  · exact hgone

theorem satisfy (g : Geometry) (t : Tags) (ptr : BlkPtr) (pkt : Packet) (p : BlkPtr) :
    SameBlock (t.blks p) ((satisfyCpuSideRequest g t ptr pkt).1.blks p) := by
  rw [satisfy_blks]
  by_cases hp : p = ptr
  · subst hp
    rw [Function.update_self]
    exact satisfied g pkt _
  · rw [Function.update_of_ne hp]
    exact .refl _

theorem snoop (cfg : Config) (t : Tags) (ptr : BlkPtr) (pkt : Packet) (p : BlkPtr) :
    SameBlock (t.blks p) ((handleSnoop cfg t {} 0 {} pkt (some ptr) false false).1.blks p) := by
  refine handleSnoop_keeps (Q := fun t₁ => SameBlock (t.blks p) (t₁.blks p)) (.refl _) (fun ptr => ?_)
    (fun t₁ ptr h => ?_) ..
  · exact modify t ⟨rfl, rfl, id⟩ p
  · exact h.trans (invalidateBlk cfg.geom t₁ ptr p)

end SameBlock

/-- The frames keep their blocks, but for the one that is given to the block of `a`. -/
inductive Places (g : Geometry) (t t' : Tags) : Option (BlkPtr × Addr) → Prop where
  | kept (same : ∀ p, SameBlock (t.blks p) (t'.blks p)) : Places g t t' none
  | given (ptr : BlkPtr) (a : Addr) (same : ∀ p, p ≠ ptr → SameBlock (t.blks p) (t'.blks p))
      (tag : (t'.blks ptr).tag = g.extractTag a) (set : (t'.blks ptr).set = g.extractSet a) :
      Places g t t' (some (ptr, a))

section

variable {cfg : Config} {g : Geometry} {t t₁ t' : Tags}

theorem Places.after (h : Tags.Quiet t t₁) {given : Option (BlkPtr × Addr)} (hp : Places g t₁ t' given) :
    Places g t t' given := by
  cases hp with
  | kept same => exact .kept fun p => (SameBlock.quiet h p).trans (same p)
  | given ptr a same tag set => exact .given ptr a (fun p hp => (SameBlock.quiet h p).trans (same p hp)) tag set

theorem Places.modify {ptr : BlkPtr} {a : Addr} (h : Places g t t' (some (ptr, a))) {f : CacheBlk → CacheBlk}
    (hf : ∀ b, (f b).tag = b.tag ∧ (f b).set = b.set) : Places g t (t'.modify ptr f) (some (ptr, a)) := by
  cases h with
  | given _ _ same tag set =>
    refine .given ptr a (fun p hp => ?_) ?_ ?_
    · rw [Tags.modify_of_ne t' hp]
      exact same p hp
    · rw [Tags.modify_self, (hf _).1, tag]
    · rw [Tags.modify_self, (hf _).2, set]

/-- A frame of the set of `addr` is given to its block. -/
theorem places_insertBlock {addr : Addr} {w : Nat} (src : Option Nat)
    (other : ∀ p, p ≠ .frame (g.extractSet addr) w → t₁.blks p = t.blks p)
    (hset : (t₁.blks (.frame (g.extractSet addr) w)).set = g.extractSet addr) :
    Places g t (t₁.insertBlock g addr (.frame (g.extractSet addr) w) src)
      (some (.frame (g.extractSet addr) w, addr)) := by
  refine .given _ _ (fun p hp => ?_) ?_ ?_
  · rw [Tags.insertBlock_blks, Function.update_of_ne hp, other p hp]
    exact .refl _
  · rw [Tags.insertBlock_blks, Function.update_self]
  · rw [Tags.insertBlock_blks, Function.update_self]
    exact hset

theorem handleFill_places (ht : t.WellFormed g) (q : MshrQueue) (now : Tick) (pkt : Packet) :
    Places g t (handleFill g t q now pkt none).1
      (some ((allocateBlock g t q now pkt.addr).2.1.getD .temp, pkt.addr)) := by
  obtain ⟨w, -, halloc⟩ := allocateBlock_allocation ht q now pkt.addr
  unfold handleFill
  generalize allocateBlock g t q now pkt.addr = r at halloc ⊢
  cases halloc with
  | refused quiet =>
    dsimp only [Option.getD_none]
    apply Places.modify
    · refine .given .temp pkt.addr (fun p hp => ?_) ?_ ?_
      · rw [Tags.modify_of_ne _ hp]
        exact .quiet quiet p
      · rw [Tags.modify_self]
      · rw [Tags.modify_self]
    · exact fun _ => ⟨rfl, rfl⟩
  | granted ways other set_eq idle =>
    dsimp only [Option.getD_some]
    apply Places.modify
    · exact places_insertBlock _ other (set_eq.trans (ht.set_eq _ _))
    · exact fun _ => ⟨rfl, rfl⟩

theorem access_places (ht : t.WellFormed g) (q : MshrQueue) (now : Tick) (pkt : Packet) :
    Places g t (access g t q now pkt).tags ((BlkOp.access q now pkt).places g t) := by
  have hfound := t.accessBlock_found g now pkt.addr
  have quiet := t.accessBlock_quiet g now pkt.addr
  unfold BlkOp.places BlkOp.taken access
  dsimp only
  rw [← hfound]
  generalize t.accessBlock g now pkt.addr = acc at quiet ⊢
  obtain ⟨t₁, lat, _ | ptr⟩ := acc
  · have ht₁ := quiet.wellFormed ht
    by_cases hcmd : pkt.cmd = .writeback
    · obtain ⟨w, -, halloc⟩ := allocateBlock_allocation ht₁ q now pkt.addr
      simp only [hcmd, Option.isNone_none, beq_self_eq_true, Bool.and_self, if_true]
      generalize allocateBlock g t₁ q now pkt.addr = r at halloc ⊢
      cases halloc with
      | refused quiet₁ => exact Places.after quiet (.kept (SameBlock.quiet quiet₁))
      | granted ways other set_eq idle =>
        apply Places.after quiet
        dsimp only [acceptWriteback, Option.map_some]
        apply Places.modify
        · apply Places.modify
          · exact places_insertBlock pkt.req.contextId other (set_eq.trans (ht₁.set_eq _ _))
          · exact fun _ => ⟨rfl, rfl⟩
        · exact fun _ => ⟨rfl, rfl⟩
    · simp only [hcmd, Option.isNone_none, beq_eq_false_iff_ne.2 hcmd, Bool.and_false, Bool.false_eq_true, if_false]
      split <;> exact .kept (SameBlock.quiet quiet)
  · simp only [Option.isNone_some, Bool.false_and, Bool.false_eq_true, if_false]
    refine Places.after quiet (.kept fun p => ?_)
    split
    · exact SameBlock.satisfy g t₁ ptr pkt p
    split
    · dsimp only [acceptWriteback]
      apply SameBlock.modify
      exact ⟨rfl, rfl, id⟩
    · exact .refl _

theorem BlkOp.apply_places (ht : t.WellFormed cfg.geom) (op : BlkOp) :
    Places cfg.geom t (op.apply cfg t) (op.places cfg.geom t) := by
  cases op with
  | access q now pkt => exact access_places ht q now pkt
  | fill q now pkt =>
    unfold BlkOp.apply BlkOp.places BlkOp.taken
    dsimp only
    cases hfind : t.findBlock cfg.geom pkt.addr with
    | some ptr =>
      refine .kept fun p => ?_
      unfold handleFill
      dsimp only
      apply SameBlock.modify
      exact ⟨rfl, rfl, fun _ => Tags.findBlock_valid hfind⟩
    | none => exact handleFill_places ht q now pkt
  | serve ptr pkt => exact .kept (SameBlock.satisfy cfg.geom t ptr pkt)
  | snoop ptr pkt => exact .kept (SameBlock.snoop cfg t ptr pkt)
  | invalidate ptr => exact .kept (SameBlock.invalidateBlk cfg.geom t ptr)
  | setStatus ptr status =>
    refine .kept fun p => ?_
    dsimp only [BlkOp.apply]
    apply SameBlock.modify
    exact ⟨rfl, rfl, id⟩

theorem BlkOp.apply_wellFormed (ht : t.WellFormed cfg.geom) (op : BlkOp) : (op.apply cfg t).WellFormed cfg.geom := by
  cases op with
  | access q now pkt => exact ht.access q now pkt
  | fill q now pkt => exact ht.handleFill q now rfl
  | serve ptr pkt => exact ht.satisfy ptr pkt
  | snoop ptr pkt => exact handleSnoop_wellFormed ht ..
  | invalidate ptr => exact ht.invalidateBlk ptr
  | setStatus ptr status =>
    dsimp only [BlkOp.apply]
    apply ht.modify
    exact .inr ⟨rfl, rfl, rfl⟩

/-- The victim of an allocation is written back to the address its tag and set make. -/
theorem allocateBlock_writtenBack (ht : t.WellFormed g) (q : MshrQueue) (now : Tick) (addr : Addr) :
    ∀ p ∈ (allocateBlock g t q now addr).2.2, ∃ ptr, (allocateBlock g t q now addr).2.1 = some ptr ∧
      (t.blks ptr).isValid = true ∧ p.addr = (t.blks ptr).addr g := by
  obtain ⟨w, -, halloc⟩ := allocateBlock_allocation ht q now addr
  generalize allocateBlock g t q now addr = r at halloc ⊢
  intro p hp
  cases halloc with
  | refused => cases hp
  | granted =>
    dsimp only at hp
    split at hp
    · rename_i hdirty
      obtain rfl := List.mem_singleton.1 hp
      exact ⟨_, rfl, (Bool.and_eq_true_iff.1 hdirty).1, rfl⟩
    · cases hp

theorem BlkOp.writtenBack (ht : t.WellFormed g) (op : BlkOp) : ∀ p ∈ op.writebacks g t,
    ∃ ptr a, op.places g t = some (ptr, a) ∧ (t.blks ptr).isValid = true ∧ p.addr = (t.blks ptr).addr g := by
  intro p hp
  cases op with
  | fill q now pkt =>
    unfold BlkOp.writebacks handleFill at hp
    dsimp only at hp
    cases hfind : t.findBlock g pkt.addr with
    | some ptr =>
      rw [hfind] at hp
      cases hp
    | none =>
      have hback := allocateBlock_writtenBack ht q now pkt.addr p
      unfold BlkOp.places BlkOp.taken
      dsimp only
      rw [hfind] at hp ⊢
      dsimp only [Option.isNone_none] at hp ⊢
      generalize allocateBlock g t q now pkt.addr = r at hback hp ⊢
      obtain ⟨t₁, _ | ptr, wbs⟩ := r
      · obtain ⟨ptr, hptr, -⟩ := hback hp
        cases hptr
      · obtain ⟨ptr', hptr, hrest⟩ := hback hp
        obtain rfl := Option.some.inj hptr
        exact ⟨ptr, pkt.addr, rfl, hrest⟩
  | access q now pkt =>
    have hfound := t.accessBlock_found g now pkt.addr
    have quiet := t.accessBlock_quiet g now pkt.addr
    unfold BlkOp.writebacks PrefetchSim.access at hp
    unfold BlkOp.places BlkOp.taken
    dsimp only at hp ⊢
    rw [← hfound]
    generalize t.accessBlock g now pkt.addr = acc at quiet hp ⊢
    obtain ⟨t₁, lat, _ | ptr⟩ := acc
    · have hback := allocateBlock_writtenBack (quiet.wellFormed ht) q now pkt.addr p
      dsimp only at hp hback quiet ⊢
      split at hp
      · rename_i hcmd
        rw [if_pos (by simp [hcmd])]
        generalize allocateBlock g t₁ q now pkt.addr = r at hback hp ⊢
        obtain ⟨t₂, _ | ptr, wbs⟩ := r
        · obtain ⟨ptr, hptr, -⟩ := hback hp
          cases hptr
        · obtain ⟨ptr', hptr, hvalid, haddr⟩ := hback hp
          obtain rfl := Option.some.inj hptr
          refine ⟨ptr, pkt.addr, rfl, (SameBlock.quiet quiet ptr).valid hvalid, ?_⟩
          rw [haddr, CacheBlk.addr, quiet.tag, quiet.set, CacheBlk.addr]
      · split at hp <;> cases hp
    · dsimp only at hp
      split at hp
      · cases hp
      · split at hp <;> cases hp
  | _ => cases hp

/-- Every block in the cache has an origin, and a frame has the tag and the set of its origin. -/
structure Originated (g : Geometry) (t : Tags) (O : Origins) : Prop where
  wellFormed : t.WellFormed g
  known : ∀ ptr, (t.blks ptr).isValid = true → O ptr ≠ none
  tag : ∀ ptr a, O ptr = some a → (t.blks ptr).tag = g.extractTag a
  set : ∀ ptr a, O ptr = some a → (t.blks ptr).set = g.extractSet a

theorem initial_originated (g : Geometry) : Originated g (Tags.initial g) fun _ => none where
  wellFormed := Tags.initial_wellFormed g
  known ptr h := by cases ptr <;> cases h
  tag _ _ h := by cases h
  set _ _ h := by cases h

/-- One operation. -/
theorem Originated.place {s : Tags × Origins} (h : Originated cfg.geom s.1 s.2) (op : BlkOp) :
    Originated cfg.geom (op.place cfg s).1 (op.place cfg s).2 := by
  have hplaces := op.apply_places h.wellFormed
  have hwf := op.apply_wellFormed h.wellFormed
  unfold BlkOp.place
  generalize op.places cfg.geom s.1 = given at hplaces ⊢
  cases hplaces with
  | kept same =>
    refine ⟨hwf, fun ptr hv => h.known ptr ((same ptr).valid hv), fun ptr a ha => ?_, fun ptr a ha => ?_⟩
    · rw [(same ptr).tag, h.tag ptr a ha]
    · rw [(same ptr).set, h.set ptr a ha]
  | given ptr a same tag set =>
    dsimp only
    refine ⟨hwf, fun p hv => ?_, fun p b hb => ?_, fun p b hb => ?_⟩ <;> by_cases hp : p = ptr
    · rw [hp, Function.update_self]
      exact Option.some_ne_none a
    · rw [Function.update_of_ne hp]
      exact h.known p ((same p hp).valid hv)
    · rw [hp, Function.update_self] at hb
      rw [hp, tag, Option.some.inj hb]
    · rw [Function.update_of_ne hp] at hb
      rw [(same p hp).tag, h.tag p b hb]
    · rw [hp, Function.update_self] at hb
      rw [hp, set, Option.some.inj hb]
    · rw [Function.update_of_ne hp] at hb
      rw [(same p hp).set, h.set p b hb]

theorem Originated.exec (ops : List BlkOp) {s : Tags × Origins} (h : Originated cfg.geom s.1 s.2) :
    Originated cfg.geom (Runs.exec (BlkOp.place cfg) s ops).1 (Runs.exec (BlkOp.place cfg) s ops).2 := by
  induction ops generalizing s with
  | nil => exact h
  | cons op ops ih => exact ih (h.place op)

/-- The address a frame is written back to is that of the block it was given to. -/
theorem Originated.addr {O : Origins} (h : Originated g t O) {ptr : BlkPtr} {a : Addr} (ha : O ptr = some a) :
    (t.blks ptr).addr g = g.blockAlign a := by
  rw [CacheBlk.addr, h.tag ptr a ha, h.set ptr a ha, g.regenerate_extract]

end

/-! ## Addresses in a run -/

namespace LruLayout

variable {numSets blkSize assoc hitLatency : BitVec 32} {l : LruLayout}

/-- Tag and set of a 64-bit address, put together again, are its block; the set is one of the cache; and they tell
blocks apart. So whatever is done to the blocks of a cache with this layout, a block that is in it can only be written
back to where it came from, and every block that has to make room is. -/
theorem decomposes (h : create numSets blkSize assoc hitLatency = some l) :
    (∀ a, l.regenerateBlkAddr (l.extractTag a) (l.extractSet a) = l.blkAlign a) ∧
      (∀ a, 0 ≤ (l.extractSet a).toInt ∧ (l.extractSet a).toInt < numSets.toNat) ∧
      (∀ a b, (l.extractTag a, l.extractSet a) = (l.extractTag b, l.extractSet b) ↔ l.blkAlign a = l.blkAlign b) ∧
      ∀ cfg : Config, cfg.geom.blkSize = blkSize.toNat → cfg.geom.numSets = numSets.toNat → ∀ ops : List BlkOp,
        let s := Runs.exec (BlkOp.place cfg) (Tags.initial cfg.geom, fun _ => none) ops
        (∀ ptr, (s.1.blks ptr).isValid = true → s.2 ptr ≠ none) ∧
          (∀ ptr a now, s.2 ptr = some a → (writebackBlk cfg.geom s.1 now ptr).2.addr = l.blkAlign a) ∧
          ∀ (op : BlkOp) (p : Packet), p ∈ op.writebacks cfg.geom s.1 →
            ∃ ptr a b, op.places cfg.geom s.1 = some (ptr, b) ∧ s.2 ptr = some a ∧ p.addr = l.blkAlign a := by
  obtain ⟨g, hblk, hsets⟩ := create_geometry h
  have hg := create_describes h hblk hsets
  refine ⟨fun a => ?_, fun a => ?_, fun a b => ?_, fun cfg hblk' hsets' ops => ?_⟩
  · rw [hg.regenerateBlkAddr, hg.toNat_extractSet, hg.extractTag, g.regenerate_extract, hg.blkAlign]
  · have hlt := g.extractSet_lt a
    have hle : g.numSets ≤ 2 ^ 31 := Nat.pow_le_pow_right (by decide) (by have := hg.setBits; omega)
    rw [← hg.toNat_extractSet] at hlt
    rw [BitVec.toInt_eq_toNat_of_lt (by omega)]
    omega
  · rw [Prod.mk.injEq, hg.extractTag, hg.extractTag, hg.extractSet_inj, hg.blkAlign, hg.blkAlign]
    constructor
    · rintro ⟨htag, hset⟩
      rw [← g.regenerate_extract a, ← g.regenerate_extract b, htag, hset]
    · intro heq
      rw [← g.extractTag_blockAlign a, ← g.extractSet_blockAlign a, heq, g.extractTag_blockAlign,
        g.extractSet_blockAlign]
      exact ⟨rfl, rfl⟩
  · have hcfg := create_describes h hblk' hsets'
    have hs := Originated.exec ops (s := (Tags.initial cfg.geom, fun _ => none)) (initial_originated cfg.geom)
    refine ⟨hs.known, fun ptr a now ha => ?_, fun op p hp => ?_⟩
    · rw [hcfg.blkAlign]
      exact hs.addr ha
    · obtain ⟨ptr, b, hplaces, hvalid, haddr⟩ := op.writtenBack hs.wellFormed p hp
      obtain ⟨a, ha⟩ := Option.ne_none_iff_exists'.1 (hs.known ptr hvalid)
      exact ⟨ptr, a, b, hplaces, ha, by rw [haddr, hs.addr ha, hcfg.blkAlign]⟩

/-- The layout of `smallGeometry`. -/
def small : LruLayout where
  numSets := 2
  blkSize := 64
  assoc := 2
  hitLatency := 1
  blkMask := 63
  setShift := 6
  setMask := 1
  tagShift := 7

/-- An address near the end of the range, and a block that is written back after it has arrived. -/
theorem decomposes_small :
    create 2 64 2 1 = some small ∧
      small.regenerateBlkAddr (small.extractTag 0xfedcba9876543270) (small.extractSet 0xfedcba9876543270) =
        0xfedcba9876543240 ∧
      (writebackBlk smallGeometry (Runs.exec (BlkOp.place (smallConfig 2)) (Tags.initial smallGeometry, fun _ => none)
        [blockArrives 4104]).1 7 (.frame 0 1)).2.addr = 4096 := by
  have hcreate : create 2 64 2 1 = some small := by decide
  obtain ⟨hback, -, -, hrun⟩ := decomposes hcreate
  refine ⟨hcreate, hback _, ?_⟩
  exact ((hrun (smallConfig 2) rfl rfl [blockArrives 4104]).2.1 (.frame 0 1) 4104 7 rfl).trans rfl

end LruLayout

end PrefetchSim
