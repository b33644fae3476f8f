import Mathlib.Data.List.Nodup
import Mathlib.Data.List.Perm.Basic
import Mathlib.Logic.Function.Basic
import PrefetchSim.Mem.Packet

/- The LRU tag store (`m5/src/mem/cache/tags/lru.{hh,cc}`, `cacheset.cc`) and
   the cache block (`blk.hh`).

   Correspondence (C++ ↔ Lean):
     `LRU::LRU` (its parameter checks)        ↔ `Geometry`
     `extractTag`, `extractSet`, `blkAlign`   ↔ `Geometry.extractTag`, `.extractSet`, `.blockAlign`
     `CacheBlk`, `status`                     ↔ `CacheBlk`, `Status`
     `checkWrite`, `trackLoadLocked`          ↔ `CacheBlk.checkWrite`, `CacheBlk.trackLoadLocked`
     `CacheSet::findBlk`, `moveToHead`        ↔ `Tags.findBlk`, `moveToHead` (`moveLoop`)
     `accessBlock`, `findBlock`, `findVictim` ↔ `Tags.accessBlock`, `.findBlock`, `.findVictim`
     `insertBlock`, `invalidateBlk`           ↔ `Tags.insertBlock`, `Tags.invalidateBlk`

   A `BlkType*` is a `BlkPtr`: a frame, named by its set and its way in the
   array `blks`, or the cache's `tempBlock`. A set keeps its ways from most to
   least recently used, as `CacheSet::blks` keeps its pointers. -/
namespace PrefetchSim

/-! ## Address decomposition -/

/-- The parameters an `LRU` is built with. The constructor accepts powers of
two only, so the block size and the number of sets are given by their logs. -/
structure Geometry where
  blkBits : Nat
  setBits : Nat
  assoc : Nat
  hitLatency : Nat
  numCpus : Nat
  two_le_blkBits : 2 ≤ blkBits
  fits : blkBits + setBits < 64
  assoc_pos : 0 < assoc
  hitLatency_pos : 0 < hitLatency

namespace Geometry

def blkSize (g : Geometry) : Nat := 2 ^ g.blkBits
def numSets (g : Geometry) : Nat := 2 ^ g.setBits
def tagShift (g : Geometry) : Nat := g.blkBits + g.setBits

/-- `blockAlign` of the cache and `blkAlign` of the tags. -/
def blockAlign (g : Geometry) (addr : Addr) : Addr := addr &&& ~~~(BitVec.ofNat 64 g.blkSize - 1)

def extractTag (g : Geometry) (addr : Addr) : Addr := addr >>> g.tagShift

def extractSet (g : Geometry) (addr : Addr) : Nat :=
  ((addr >>> g.blkBits) &&& (BitVec.ofNat 64 g.numSets - 1)).toNat

def extractBlkOffset (g : Geometry) (addr : Addr) : Nat :=
  (addr &&& (BitVec.ofNat 64 g.blkSize - 1)).toNat

def regenerateBlkAddr (g : Geometry) (tag : Addr) (set : Nat) : Addr :=
  (tag <<< g.tagShift) ||| (BitVec.ofNat 64 set <<< g.blkBits)

theorem getLsbD_blockAlign (g : Geometry) (a : Addr) {i : Nat} (hi : i < 64) :
    (g.blockAlign a).getLsbD i = (a.getLsbD i && decide (g.blkBits ≤ i)) := by
  have hmask : (BitVec.ofNat 64 g.blkSize - 1).getLsbD i = decide (i < g.blkBits) :=
    Words.lowMask_getLsbD (by have := g.fits; omega) hi
  rw [blockAlign, BitVec.getLsbD_and, BitVec.getLsbD_not, hmask]
  by_cases h : i < g.blkBits
  · simp [h]
  · simp [h, hi, Nat.le_of_not_lt h]

theorem extractSet_lt (g : Geometry) (a : Addr) : g.extractSet a < g.numSets := by
  have hbits : g.setBits < 64 := by
    have hfits := g.fits
    omega
  have hmask : (BitVec.ofNat 64 g.numSets - 1).toNat = 2 ^ g.setBits - 1 := by
    have hlt : 2 ^ g.setBits < 2 ^ 64 := Nat.pow_lt_pow_right (by decide) hbits
    rw [numSets, Words.lowMask_eq hbits, BitVec.toNat_ofNat, Nat.mod_eq_of_lt (by omega)]
  rw [extractSet, BitVec.toNat_and, hmask, Nat.and_two_pow_sub_one_eq_mod]
  exact Nat.mod_lt _ (Nat.two_pow_pos _)

end Geometry

/-! ## Blocks -/

/-- The bits of `CacheBlk::status`; `{}` is status 0. -/
structure Status where
  valid : Bool := false
  writable : Bool := false
  readable : Bool := false
  dirty : Bool := false
  hwPrefetched : Bool := false
  deriving DecidableEq, Repr

structure CacheBlk where
  tag : Addr := 0
  set : Nat := 0
  data : List UInt8 := []
  status : Status := {}
  whenReady : Tick := 0
  isTouched : Bool := false
  refCount : Nat := 0
  /-- `none` is `contextSrc == -1`. -/
  contextSrc : Option Nat := none
  /-- The contexts that hold a load-lock on the block. -/
  lockList : List Nat := []
  deriving DecidableEq, Repr

namespace CacheBlk

def isValid (b : CacheBlk) : Bool := b.status.valid
def isDirty (b : CacheBlk) : Bool := b.status.dirty
def isWritable (b : CacheBlk) : Bool := b.status.writable && b.status.valid
def isReadable (b : CacheBlk) : Bool := b.status.readable && b.status.valid
def wasPrefetched (b : CacheBlk) : Bool := b.status.hwPrefetched

/-- A load-lock by a request without a context is not recorded: the source
asserts that there is one. -/
def trackLoadLocked (b : CacheBlk) (pkt : Packet) : CacheBlk :=
  { b with lockList := pkt.req.contextId.toList ++ b.lockList }

/-- Whether a write may go ahead, with the locks cleared and, for a store
conditional, the outcome left in the request. -/
def checkWrite (b : CacheBlk) (pkt : Packet) : CacheBlk × Packet × Bool :=
  if pkt.cmd.isLLSC then
    let success := b.lockList.any fun c => pkt.req.contextId == some c
    ({ b with lockList := [] }, pkt.setExtraData (if success then 1 else 0), success)
  else ({ b with lockList := [] }, pkt, true)

end CacheBlk

inductive BlkPtr where
  | frame (set way : Nat)
  | temp
  deriving DecidableEq, Repr

/-! ## The tag store -/

/-- The frames with their contents, the order of each set, and the two counters
the source keeps as statistics. -/
structure Tags where
  blks : BlkPtr → CacheBlk
  ways : Nat → List Nat
  tagsInUse : Int := 0
  occupancies : Nat → Int := fun _ => 0

/-- The do-while loop of `moveToHead`: `next` is written into the current
position, and what stood there moves on until it is `blk` itself. -/
def moveLoop (blk : Nat) : Nat → List Nat → List Nat
  | _, [] => []
  | next, w :: ws => next :: if w = blk then ws else moveLoop blk w ws

def moveToHead (blk : Nat) (ws : List Nat) : List Nat :=
  if ws.head? = some blk then ws else moveLoop blk blk ws

namespace Tags

/-- A tag store as the constructor leaves it. -/
def initial (g : Geometry) : Tags where
  blks
    | .frame set way => { tag := BitVec.ofNat 64 way, set := set }
    | .temp => {}
  ways _ := List.range g.assoc

/-- A write through a block pointer. -/
def modify (t : Tags) (ptr : BlkPtr) (f : CacheBlk → CacheBlk) : Tags :=
  { t with blks := Function.update t.blks ptr (f (t.blks ptr)) }

/-- Whether way `w` of a set holds the block with this tag. -/
def holds (t : Tags) (set : Nat) (tag : Addr) (w : Nat) : Bool :=
  decide ((t.blks (.frame set w)).tag = tag) && (t.blks (.frame set w)).isValid

def findBlk (t : Tags) (set : Nat) (tag : Addr) : Option BlkPtr :=
  ((t.ways set).find? (t.holds set tag)).map (.frame set)

def findBlock (g : Geometry) (t : Tags) (addr : Addr) : Option BlkPtr :=
  t.findBlk (g.extractSet addr) (g.extractTag addr)

/-- `sets[set].moveToHead(blk)`; the temporary block is in no set. -/
def promote (t : Tags) : BlkPtr → Tags
  | .frame set way => { t with ways := Function.update t.ways set (moveToHead way (t.ways set)) }
  | .temp => t

/-- The bucket of `occupancies` a block is counted in. -/
def bucket (g : Geometry) : Option Nat → Nat
  | some c => c % g.numCpus
  | none => g.numCpus

def occupy (g : Geometry) (t : Tags) (src : Option Nat) (d : Int) : Tags :=
  { t with occupancies :=
      Function.update t.occupancies (bucket g src) (t.occupancies (bucket g src) + d) }

/-- `accessBlock`: the block, if there is one, becomes the most recently used;
the second component is the latency. -/
def accessBlock (g : Geometry) (t : Tags) (now : Tick) (addr : Addr) :
    Tags × Nat × Option BlkPtr :=
  match findBlock g t addr with
  | none => (t, g.hitLatency, none)
  | some ptr =>
    let blk := t.blks ptr
    let lat := if now < blk.whenReady ∧ g.hitLatency < blk.whenReady - now
      then blk.whenReady - now else g.hitLatency
    ((t.promote ptr).modify ptr fun b => { b with refCount := b.refCount + 1 }, lat, some ptr)

/-- `findVictim`: the least recently used frame of the set. A valid victim is
taken out of the occupancy accounting at once. -/
def findVictim (g : Geometry) (t : Tags) (addr : Addr) : Tags × BlkPtr :=
  let set := g.extractSet addr
  let ptr := BlkPtr.frame set (((t.ways set).getLast?).getD 0)
  if (t.blks ptr).isValid then
    ((occupy g t (t.blks ptr).contextSrc (-1)).modify ptr fun b =>
      { b with refCount := 0, contextSrc := none }, ptr)
  else (t, ptr)

/-- `insertBlock`: tag, accounting and order; the caller sets the status. -/
def insertBlock (g : Geometry) (t : Tags) (addr : Addr) (ptr : BlkPtr) (src : Option Nat) : Tags :=
  let t1 := if (t.blks ptr).isTouched then t else { t with tagsInUse := t.tagsInUse + 1 }
  ((occupy g t1 src 1).modify ptr fun b =>
    { b with isTouched := true, tag := g.extractTag addr, contextSrc := src }).promote ptr

def invalidateBlk (g : Geometry) (t : Tags) (ptr : BlkPtr) : Tags :=
  (occupy g { t with tagsInUse := t.tagsInUse - 1 } (t.blks ptr).contextSrc (-1)).modify ptr fun b =>
    { b with status := {}, isTouched := false, lockList := [], contextSrc := none }

end Tags

/-! ## Order of a set -/

theorem moveLoop_eq {blk : Nat} {ws : List Nat} (h : blk ∈ ws) (next : Nat) :
    moveLoop blk next ws = next :: ws.erase blk := by
  induction ws generalizing next with
  | nil => cases h
  | cons w ws ih =>
    by_cases hw : w = blk
    · simp [moveLoop, hw]
    · have hmem : blk ∈ ws := (List.mem_cons.1 h).resolve_left (Ne.symm hw)
      simp [moveLoop, hw, ih hmem w, List.erase_cons_tail]

/-- `moveToHead` takes the way out of the order and puts it first. -/
theorem moveToHead_eq {blk : Nat} {ws : List Nat} (h : blk ∈ ws) :
    moveToHead blk ws = blk :: ws.erase blk := by
  unfold moveToHead
  split
  · rename_i hd
    obtain ⟨rest, rfl⟩ := List.head?_eq_some_iff.1 hd
    simp
  · exact moveLoop_eq h blk

theorem moveToHead_perm {blk : Nat} {ws : List Nat} (h : blk ∈ ws) :
    (moveToHead blk ws).Perm ws := by
  rw [moveToHead_eq h]
  exact (List.perm_cons_erase h).symm

namespace Tags

/-! ## Lookup -/

/-- What every tag store of a run satisfies: a set orders all its ways, no two
of them hold the same block, and a frame knows its set. -/
structure WellFormed (g : Geometry) (t : Tags) : Prop where
  perm : ∀ set, (t.ways set).Perm (List.range g.assoc)
  unique : ∀ set tag w w', w ∈ t.ways set → w' ∈ t.ways set →
    t.holds set tag w = true → t.holds set tag w' = true → w = w'
  set_eq : ∀ set w, (t.blks (.frame set w)).set = set

theorem initial_wellFormed (g : Geometry) : (initial g).WellFormed g where
  perm _ := List.Perm.refl _
  unique _ _ _ _ _ _ h := by simp [holds, initial, CacheBlk.isValid] at h
  set_eq _ _ := rfl

theorem mem_of_findBlk {t : Tags} {set : Nat} {tag : Addr} {ptr : BlkPtr}
    (h : t.findBlk set tag = some ptr) :
    ∃ w ∈ t.ways set, ptr = .frame set w ∧ t.holds set tag w = true := by
  obtain ⟨w, hw, rfl⟩ := Option.map_eq_some_iff.1 h
  exact ⟨w, List.mem_of_find?_eq_some hw, rfl, List.find?_some hw⟩

theorem findBlock_valid {g : Geometry} {t : Tags} {a : Addr} {p : BlkPtr} (h : t.findBlock g a = some p) :
    (t.blks p).isValid = true := by
  obtain ⟨w, -, rfl, hw⟩ := mem_of_findBlk h
  simp only [holds, Bool.and_eq_true] at hw
  exact hw.2

theorem findBlk_isSome_iff {t : Tags} {set : Nat} {tag : Addr} :
    (t.findBlk set tag).isSome ↔ ∃ w ∈ t.ways set, t.holds set tag w = true := by
  simp [findBlk, List.find?_isSome]

/-- In a well-formed store the lookup finds whatever way holds the block. -/
theorem WellFormed.findBlk_eq_some {g : Geometry} {t : Tags} (ht : t.WellFormed g) {set w : Nat}
    {tag : Addr} (hw : w ∈ t.ways set) (hh : t.holds set tag w = true) :
    t.findBlk set tag = some (.frame set w) := by
  obtain ⟨ptr, hp⟩ := Option.isSome_iff_exists.1 (findBlk_isSome_iff.2 ⟨w, hw, hh⟩)
  obtain ⟨w', hw', rfl, hh'⟩ := mem_of_findBlk hp
  rw [hp, ht.unique set tag w' w hw' hw hh' hh]

/-- A lookup depends on which ways a set has and which of them hold the block,
not on their order. -/
theorem findBlk_congr {g : Geometry} {t t' : Tags} (ht : t.WellFormed g) {set : Nat} {tag : Addr}
    (hw : ∀ w, w ∈ t'.ways set ↔ w ∈ t.ways set)
    (hh : ∀ w ∈ t.ways set, t'.holds set tag w = t.holds set tag w) :
    t'.findBlk set tag = t.findBlk set tag := by
  cases h : t'.findBlk set tag with
  | some ptr =>
    obtain ⟨w, hmem, rfl, hold⟩ := mem_of_findBlk h
    have hmem' := (hw w).1 hmem
    exact (ht.findBlk_eq_some hmem' (by rw [← hh w hmem', hold])).symm
  | none =>
    cases h' : t.findBlk set tag with
    | none => rfl
    | some ptr =>
      obtain ⟨w, hmem, rfl, hold⟩ := mem_of_findBlk h'
      have : (t'.findBlk set tag).isSome :=
        findBlk_isSome_iff.2 ⟨w, (hw w).2 hmem, by rw [hh w hmem, hold]⟩
      simp [h] at this

@[simp] theorem modify_ways (t : Tags) (ptr : BlkPtr) (f : CacheBlk → CacheBlk) :
    (t.modify ptr f).ways = t.ways := rfl

@[simp] theorem modify_self (t : Tags) (ptr : BlkPtr) (f : CacheBlk → CacheBlk) :
    (t.modify ptr f).blks ptr = f (t.blks ptr) := by
  simp [modify]

theorem modify_of_ne (t : Tags) {ptr ptr' : BlkPtr} (h : ptr' ≠ ptr) (f : CacheBlk → CacheBlk) :
    (t.modify ptr f).blks ptr' = t.blks ptr' := by
  simp [modify, h]

/-- A write through `ptr` that leaves the block's tag, set and validity as they
are. To the temporary block, which no lookup sees, any write is inert. -/
def Inert (t : Tags) (ptr : BlkPtr) (f : CacheBlk → CacheBlk) : Prop :=
  ptr = .temp ∨ ((f (t.blks ptr)).tag = (t.blks ptr).tag ∧ (f (t.blks ptr)).set = (t.blks ptr).set ∧
    (f (t.blks ptr)).isValid = (t.blks ptr).isValid)

/-- A write that leaves what the store itself reads of a block as it is: what it is found by, and
what it is counted by. -/
structure Plain (f : CacheBlk → CacheBlk) : Prop where
  tag : ∀ b, (f b).tag = b.tag
  set : ∀ b, (f b).set = b.set
  valid : ∀ b, (f b).isValid = b.isValid
  touched : ∀ b, (f b).isTouched = b.isTouched
  source : ∀ b, (f b).contextSrc = b.contextSrc

theorem Plain.inert {f : CacheBlk → CacheBlk} (h : Plain f) (t : Tags) (ptr : BlkPtr) : Inert t ptr f :=
  .inr ⟨h.tag _, h.set _, h.valid _⟩

theorem holds_modify {t : Tags} {ptr : BlkPtr} {f : CacheBlk → CacheBlk} (hf : Inert t ptr f)
    (set : Nat) (tag : Addr) (w : Nat) : (t.modify ptr f).holds set tag w = t.holds set tag w := by
  unfold holds
  by_cases h : BlkPtr.frame set w = ptr
  · subst h
    obtain ⟨htag, -, hvalid⟩ := hf.resolve_left (by simp)
    rw [modify_self, htag, hvalid]
  · rw [modify_of_ne t h]

theorem WellFormed.modify {g : Geometry} {t : Tags} (ht : t.WellFormed g) {ptr : BlkPtr}
    {f : CacheBlk → CacheBlk} (hf : Inert t ptr f) : (t.modify ptr f).WellFormed g where
  perm := ht.perm
  unique set tag w w' hw hw' h h' := by
    rw [holds_modify hf] at h h'
    exact ht.unique set tag w w' hw hw' h h'
  set_eq set w := by
    by_cases h : BlkPtr.frame set w = ptr
    · subst h
      obtain ⟨-, hset, -⟩ := hf.resolve_left (by simp)
      rw [modify_self, hset, ht.set_eq]
    · rw [modify_of_ne t h, ht.set_eq]

theorem findBlk_modify {t : Tags} {ptr : BlkPtr} {f : CacheBlk → CacheBlk} (hf : Inert t ptr f)
    (set : Nat) (tag : Addr) : (t.modify ptr f).findBlk set tag = t.findBlk set tag := by
  unfold findBlk
  have : (t.modify ptr f).holds set tag = t.holds set tag := funext (holds_modify hf set tag)
  rw [this, modify_ways]

theorem findBlock_modify {t : Tags} {ptr : BlkPtr} {f : CacheBlk → CacheBlk} (hf : Inert t ptr f)
    (g : Geometry) (addr : Addr) : (t.modify ptr f).findBlock g addr = t.findBlock g addr :=
  findBlk_modify hf _ _

@[simp] theorem promote_blks (t : Tags) (ptr : BlkPtr) : (t.promote ptr).blks = t.blks := by
  cases ptr <;> rfl

theorem promote_perm {t : Tags} {ptr : BlkPtr} (hp : ∀ set w, ptr = .frame set w → w ∈ t.ways set) (set : Nat) :
    ((t.promote ptr).ways set).Perm (t.ways set) := by
  cases ptr with
  | temp => exact .refl _
  | frame set' way =>
    by_cases h : set = set'
    · subst h
      simpa [promote] using moveToHead_perm (hp set way rfl)
    · simp [promote, h]

theorem WellFormed.findBlk_iff {g : Geometry} {t : Tags} (ht : t.WellFormed g) {set : Nat}
    {tag : Addr} {ptr : BlkPtr} : t.findBlk set tag = some ptr ↔
      ∃ w ∈ t.ways set, ptr = .frame set w ∧ t.holds set tag w = true := by
  refine ⟨mem_of_findBlk, ?_⟩
  intro ⟨w, hw, hp, hh⟩
  rw [hp]
  exact ht.findBlk_eq_some hw hh

/-! ## Invalidation and insertion -/

theorem invalidateBlk_blks (g : Geometry) (t : Tags) (ptr : BlkPtr) :
    (t.invalidateBlk g ptr).blks = Function.update t.blks ptr
      { t.blks ptr with status := {}, isTouched := false, lockList := [], contextSrc := none } := rfl

theorem holds_invalidateBlk (g : Geometry) (t : Tags) (ptr : BlkPtr) (set : Nat) (tag : Addr)
    (w : Nat) : (t.invalidateBlk g ptr).holds set tag w =
      (t.holds set tag w && decide (BlkPtr.frame set w ≠ ptr)) := by
  unfold holds
  rw [invalidateBlk_blks]
  by_cases h : BlkPtr.frame set w = ptr
  · subst h
    simp [CacheBlk.isValid]
  · simp [h]

theorem WellFormed.invalidateBlk {g : Geometry} {t : Tags} (ht : t.WellFormed g) (ptr : BlkPtr) :
    (t.invalidateBlk g ptr).WellFormed g where
  perm := ht.perm
  unique set tag w w' hw hw' h h' := by
    rw [holds_invalidateBlk, Bool.and_eq_true] at h h'
    exact ht.unique set tag w w' hw hw' h.1 h'.1
  set_eq set w := by
    rw [invalidateBlk_blks]
    by_cases h : BlkPtr.frame set w = ptr
    · subst h
      simp [ht.set_eq]
    · simp [h, ht.set_eq]

/-- Invalidating a frame takes away the block it holds and no other. -/
theorem WellFormed.findBlk_invalidateBlk {g : Geometry} {t : Tags} (ht : t.WellFormed g)
    (ptr : BlkPtr) (set : Nat) (tag : Addr) : (t.invalidateBlk g ptr).findBlk set tag =
      if t.findBlk set tag = some ptr then none else t.findBlk set tag := by
  have hwf := ht.invalidateBlk ptr
  apply Option.ext
  intro p
  rw [hwf.findBlk_iff]
  split
  · rename_i h
    obtain ⟨w, hw, rfl, hh⟩ := mem_of_findBlk h
    simp only [holds_invalidateBlk, reduceCtorEq, iff_false]
    intro ⟨w', hw', _, hh'⟩
    rw [Bool.and_eq_true, decide_eq_true_eq] at hh'
    exact hh'.2 (by rw [ht.unique set tag w' w hw' hw hh'.1 hh])
  · rename_i h
    rw [ht.findBlk_iff]
    refine exists_congr fun w => and_congr_right fun hw => and_congr_right fun hp => ?_
    rw [holds_invalidateBlk, Bool.and_eq_true, decide_eq_true_eq]
    refine ⟨And.left, fun hh => ⟨hh, ?_⟩⟩
    intro hptr
    exact h (by rw [← hptr]; exact ht.findBlk_eq_some hw hh)

/-- `t'` is `t` with a new valid block put into way `w` of a set. -/
structure Installs (t t' : Tags) (set w : Nat) (tag : Addr) : Prop where
  ways : ∀ i, (t'.ways i).Perm (t.ways i)
  other : ∀ i v, BlkPtr.frame i v ≠ .frame set w → t'.blks (.frame i v) = t.blks (.frame i v)
  tag_eq : (t'.blks (.frame set w)).tag = tag
  set_eq : (t'.blks (.frame set w)).set = set
  valid : (t'.blks (.frame set w)).isValid = true

theorem Installs.holds {t t' : Tags} {set w : Nat} {tag : Addr} (h : Installs t t' set w tag)
    (i : Nat) (tag' : Addr) (v : Nat) : t'.holds i tag' v =
      if BlkPtr.frame i v = .frame set w then decide (tag = tag') else t.holds i tag' v := by
  unfold Tags.holds
  split
  · rename_i heq
    rw [heq, h.tag_eq, h.valid, Bool.and_true]
  · rename_i hne
    rw [h.other i v hne]

section

variable {g : Geometry} {t t' : Tags} {set w : Nat} {tag : Addr}

theorem Installs.modify (h : Installs t t' set w tag) {f : CacheBlk → CacheBlk}
    (hf : Inert t' (.frame set w) f) : Installs t (t'.modify (.frame set w) f) set w tag := by
  obtain ⟨htag, hset, hvalid⟩ := hf.resolve_left (by simp)
  refine ⟨h.ways, ?_, ?_, ?_, ?_⟩
  · intro i v hv
    rw [modify_of_ne _ hv, h.other i v hv]
  · rw [modify_self, htag, h.tag_eq]
  · rw [modify_self, hset, h.set_eq]
  · rw [modify_self, hvalid, h.valid]

theorem Installs.wellFormed (h : Installs t t' set w tag) (ht : t.WellFormed g)
    (hnone : t.findBlk set tag = none) : t'.WellFormed g where
  perm i := (h.ways i).trans (ht.perm i)
  unique i tag' v v' hv hv' hh hh' := by
    -- a way of the set that held the new block before contradicts `hnone`
    have absent : ∀ u ∈ t.ways set, t.holds set tag u = true → False := by
      intro u hu hold
      have := findBlk_isSome_iff.2 ⟨u, hu, hold⟩
      simp [hnone] at this
    rw [(h.ways i).mem_iff] at hv hv'
    rw [h.holds] at hh hh'
    by_cases hv1 : BlkPtr.frame i v = .frame set w <;> by_cases hv2 : BlkPtr.frame i v' = .frame set w
    · simp only [BlkPtr.frame.injEq] at hv1 hv2
      rw [hv1.2, hv2.2]
    · simp only [BlkPtr.frame.injEq] at hv1
      obtain ⟨rfl, rfl⟩ := hv1
      simp only [if_true, decide_eq_true_eq, if_neg hv2] at hh hh'
      exact (absent v' hv' (hh ▸ hh')).elim
    · simp only [BlkPtr.frame.injEq] at hv2
      obtain ⟨rfl, rfl⟩ := hv2
      simp only [if_true, decide_eq_true_eq, if_neg hv1] at hh hh'
      exact (absent v hv (hh' ▸ hh)).elim
    · rw [if_neg hv1] at hh
      rw [if_neg hv2] at hh'
      exact ht.unique i tag' v v' hv hv' hh hh'
  set_eq i v := by
    by_cases hv : BlkPtr.frame i v = .frame set w
    · rw [hv, h.set_eq]
      exact ((BlkPtr.frame.injEq ..).mp hv).1.symm
    · rw [h.other i v hv, ht.set_eq]

/-- After an insertion the new block is found, what the frame held is not, and
every other lookup is as before. -/
theorem Installs.findBlk (h : Installs t t' set w tag) (ht : t.WellFormed g)
    (hnone : t.findBlk set tag = none) (hw : w ∈ t.ways set) (i : Nat) (tag' : Addr) :
    t'.findBlk i tag' =
      if i = set ∧ tag' = tag then some (.frame set w)
      else if t.findBlk i tag' = some (.frame set w) then none else t.findBlk i tag' := by
  have ht' := h.wellFormed ht hnone
  split
  · rename_i heq
    obtain ⟨rfl, rfl⟩ := heq
    exact ht'.findBlk_eq_some ((h.ways i).mem_iff.2 hw) (by simp [h.holds])
  · rename_i hne
    apply Option.ext
    intro p
    rw [ht'.findBlk_iff]
    -- the way that was filled holds only the new block, so it answers no other lookup
    have key : (∃ v ∈ t'.ways i, p = .frame i v ∧ t'.holds i tag' v = true) ↔
        p ≠ .frame set w ∧ t.findBlk i tag' = some p := by
      rw [ht.findBlk_iff]
      refine ⟨?_, ?_⟩
      · intro ⟨v, hv, hp, hh⟩
        rw [h.holds] at hh
        split at hh
        · rename_i heq
          simp only [BlkPtr.frame.injEq, decide_eq_true_eq] at heq hh
          exact absurd ⟨heq.1, hh.symm⟩ hne
        · rename_i hfr
          exact ⟨hp ▸ hfr, v, (h.ways i).mem_iff.1 hv, hp, hh⟩
      · intro ⟨hp', v, hv, hp, hh⟩
        refine ⟨v, (h.ways i).mem_iff.2 hv, hp, ?_⟩
        rw [h.holds, if_neg (hp ▸ hp'), hh]
    rw [key]
    split
    · rename_i heq
      simp only [heq, Option.some.injEq, reduceCtorEq, iff_false]
      exact fun hc => hc.1 hc.2.symm
    · rename_i hne'
      refine ⟨And.right, fun hp => ⟨?_, hp⟩⟩
      intro hp'
      exact hne' (hp' ▸ hp)

/-! ## Accesses and victims -/

/-- `t'` differs from `t` at most in the order of its sets and in what is
counted: no lookup and no content changes. -/
structure Quiet (t t' : Tags) : Prop where
  ways : ∀ i, (t'.ways i).Perm (t.ways i)
  tag : ∀ p, (t'.blks p).tag = (t.blks p).tag
  set : ∀ p, (t'.blks p).set = (t.blks p).set
  status : ∀ p, (t'.blks p).status = (t.blks p).status
  data : ∀ p, (t'.blks p).data = (t.blks p).data

theorem Quiet.refl (t : Tags) : Quiet t t :=
  ⟨fun _ => List.Perm.refl _, fun _ => rfl, fun _ => rfl, fun _ => rfl, fun _ => rfl⟩

theorem Quiet.holds (h : Quiet t t') (i : Nat) (tag' : Addr) : t'.holds i tag' = t.holds i tag' := by
  funext v
  simp only [Tags.holds, CacheBlk.isValid, h.tag, h.status]

theorem Quiet.wellFormed (h : Quiet t t') (ht : t.WellFormed g) : t'.WellFormed g where
  perm i := (h.ways i).trans (ht.perm i)
  unique i tag' v v' hv hv' := by
    rw [h.holds]
    exact ht.unique i tag' v v' ((h.ways i).mem_iff.1 hv) ((h.ways i).mem_iff.1 hv')
  set_eq i v := by rw [h.set, ht.set_eq]

theorem Quiet.findBlk (h : Quiet t t') (ht : t.WellFormed g) (i : Nat) (tag' : Addr) :
    t'.findBlk i tag' = t.findBlk i tag' :=
  findBlk_congr ht (fun _ => (h.ways i).mem_iff) fun v _ => congrFun (h.holds i tag') v

theorem accessBlock_found (g : Geometry) (t : Tags) (now : Tick) (addr : Addr) :
    (accessBlock g t now addr).2.2 = findBlock g t addr := by
  unfold accessBlock
  split
  · rename_i h; exact h.symm
  · rename_i h; exact h.symm

theorem accessBlock_quiet (g : Geometry) (t : Tags) (now : Tick) (addr : Addr) :
    Quiet t (accessBlock g t now addr).1 := by
  unfold accessBlock
  split
  · exact Quiet.refl t
  · rename_i ptr hfound
    obtain ⟨v, hv, rfl, _⟩ := mem_of_findBlk hfound
    have same : ∀ p, (((t.promote (.frame (g.extractSet addr) v)).modify
        (.frame (g.extractSet addr) v) fun b => { b with refCount := b.refCount + 1 }).blks p) =
        { t.blks p with refCount := (t.blks p).refCount +
            if p = .frame (g.extractSet addr) v then 1 else 0 } := by
      intro p
      by_cases hp : p = .frame (g.extractSet addr) v
      · subst hp; simp
      · rw [modify_of_ne _ hp]; simp [hp]
    refine ⟨?_, ?_, ?_, ?_, ?_⟩
    · intro i
      by_cases hi : i = g.extractSet addr
      · subst hi
        simpa [promote] using moveToHead_perm hv
      · simp [promote, hi]
    all_goals intro p; rw [same]

/-- The victim is a way of the set, and choosing it changes nothing a lookup sees. -/
theorem WellFormed.ways_ne_nil {g : Geometry} {t : Tags} (ht : t.WellFormed g) (i : Nat) : t.ways i ≠ [] := by
  intro h
  have hlength := (ht.perm i).length_eq
  rw [h, List.length_range] at hlength
  exact absurd hlength.symm (Nat.ne_of_gt g.assoc_pos)

theorem WellFormed.findVictim {g : Geometry} {t : Tags} (ht : t.WellFormed g) (addr : Addr) :
    ∃ v ∈ t.ways (g.extractSet addr),
      (t.findVictim g addr).2 = .frame (g.extractSet addr) v ∧
      (t.findVictim g addr).1.ways = t.ways ∧
      ∀ p, (t.findVictim g addr).1.blks p = t.blks p ∨
        p = .frame (g.extractSet addr) v ∧
        (t.findVictim g addr).1.blks p = { t.blks p with refCount := 0, contextSrc := none } := by
  have hne := ht.ways_ne_nil (g.extractSet addr)
  refine ⟨(t.ways (g.extractSet addr)).getLast hne, List.getLast_mem hne, ?_⟩
  unfold Tags.findVictim
  simp only [List.getLast?_eq_some_getLast hne, Option.getD_some]
  split
  · refine ⟨rfl, rfl, ?_⟩
    intro p
    by_cases hp : p = .frame (g.extractSet addr) ((t.ways (g.extractSet addr)).getLast hne)
    · subst hp
      right
      simp [occupy]
    · left
      rw [modify_of_ne _ hp]
      rfl
  · exact ⟨rfl, rfl, fun _ => .inl rfl⟩

theorem insertBlock_blks (g : Geometry) (t : Tags) (addr : Addr) (ptr : BlkPtr) (src : Option Nat) :
    (t.insertBlock g addr ptr src).blks = Function.update t.blks ptr
      { t.blks ptr with isTouched := true, tag := g.extractTag addr, contextSrc := src } := by
  unfold insertBlock
  dsimp only
  rw [promote_blks]
  split <;> rfl

/-- `insertBlock` and a write that makes the block valid install it. -/
theorem installs_of_insert {g : Geometry} {t t₁ : Tags} {addr : Addr} {w : Nat} {src : Option Nat}
    {F : CacheBlk → CacheBlk} (hw : w ∈ t.ways (g.extractSet addr)) (hways : t₁.ways = t.ways)
    (other : ∀ p, p ≠ .frame (g.extractSet addr) w → t₁.blks p = t.blks p)
    (hset : (t₁.blks (.frame (g.extractSet addr) w)).set = g.extractSet addr)
    (hFtag : ∀ b, (F b).tag = b.tag) (hFset : ∀ b, (F b).set = b.set)
    (hFvalid : ∀ b, (F b).isValid = true) :
    Installs t ((t₁.insertBlock g addr (.frame (g.extractSet addr) w) src).modify
      (.frame (g.extractSet addr) w) F) (g.extractSet addr) w (g.extractTag addr) := by
  refine ⟨?_, ?_, ?_, ?_, ?_⟩
  · intro i
    by_cases hi : i = g.extractSet addr
    · subst hi
      unfold insertBlock
      split <;> simpa [promote, occupy, Tags.modify, hways] using moveToHead_perm hw
    · unfold insertBlock
      split <;> simp [promote, occupy, Tags.modify, hways, hi]
  · intro i v hv
    rw [modify_of_ne _ hv, insertBlock_blks, Function.update_of_ne hv, other _ hv]
  · rw [modify_self, hFtag, insertBlock_blks, Function.update_self]
  · rw [modify_self, hFset, insertBlock_blks, Function.update_self]
    exact hset
  · rw [modify_self, hFvalid]

end

end Tags
end PrefetchSim
