import PrefetchSim.Base.IntMath
import PrefetchSim.Lib.Linked
import PrefetchSim.Mem.FaLru

/- The linked list of the fully associative store (`m5/src/mem/cache/tags/fa_lru.{hh,cc}`), with
   its pointers, masks and machine integers.

   Correspondence (C++ ↔ Lean):
     `FALRUBlk`                             ↔ `FaNode`
     `FALRU`                                ↔ `FaStore` (`FaParams`)
     `FALRU::FALRU`                         ↔ `FaStore.construct` (`withEnds`, `constructRound`)
     `moveToHead`                           ↔ `FaStore.moveToHead` (`moveRound`, `unlink`, `linkFront`)
     `accessBlock`, `findVictim`, `check`   ↔ `FaStore.accessBlock`, `.findVictim` (`remap`), `.check`

   A pointer is the index of a block in `blks`, or `NULL`; an index outside the array is a pointer
   that may be held but leads nowhere. `none` as a result says that the code fails an assertion,
   does not accept its parameters, or reads or writes outside its arrays. The assertion of
   `accessBlock` on the tag is no branch: what the cache writes into its blocks does not matter
   here. `int` wraps around as the machine's does. Statistics are left out.

   Proved here is what `moveToHead` writes: its loop deals with each tracked cache on its own
   (`moveLoop`), and then the links spell the list with the block in front (`relink`). -/
namespace PrefetchSim

/-- `1 << i`. -/
def intBit (i : Nat) : BitVec 32 := 1#32 <<< i

structure FaNode where
  prev : Option Nat
  next : Option Nat
  inCache : BitVec 32
  blk : CacheBlk

/-- What the constructor sets once and for all. -/
structure FaParams where
  blkSize : BitVec 32
  hitLatency : BitVec 32
  cacheMask : BitVec 32
  numCaches : Nat
  numBlocks : Nat

structure FaStore extends FaParams where
  cacheBoundaries : Nat → Option Nat
  blks : Nat → FaNode
  head : Option Nat
  tail : Option Nat
  tagHash : Addr → Option Nat := fun _ => none

namespace FaStore

def prev (s : FaStore) (f : Nat) : Option Nat := (s.blks f).prev
def next (s : FaStore) (f : Nat) : Option Nat := (s.blks f).next
def inCache (s : FaStore) (f : Nat) : BitVec 32 := (s.blks f).inCache

/-- The block a pointer leads to. -/
def deref (s : FaStore) (p : Option Nat) : Option Nat := p.filter (· < s.numBlocks)

def modify (s : FaStore) (f : Nat) (g : FaNode → FaNode) : FaStore :=
  { s with blks := Function.update s.blks f (g (s.blks f)) }

def setPrev (s : FaStore) (f : Nat) (p : Option Nat) : FaStore := s.modify f fun b => { b with prev := p }
def setNext (s : FaStore) (f : Nat) (p : Option Nat) : FaStore := s.modify f fun b => { b with next := p }
def setInCache (s : FaStore) (f : Nat) (m : BitVec 32) : FaStore := s.modify f fun b => { b with inCache := m }
def setBlk (s : FaStore) (f : Nat) (b : CacheBlk) : FaStore := s.modify f fun n => { n with blk := b }
def setBoundary (s : FaStore) (i : Nat) (p : Option Nat) : FaStore :=
  { s with cacheBoundaries := Function.update s.cacheBoundaries i p }

/-! ## Construction -/

/-- What the loop of the constructor works on. -/
structure Construction where
  store : FaStore
  index : BitVec 32
  j : Nat
  flags : BitVec 32

/-- One round of the loop. A boundary outside the array is written nowhere. -/
def constructRound (c : Construction) (i : Nat) : Option Construction := do
  let store := c.store.setInCache i c.flags
  let c ←
    if BitVec.ofNat 32 i = c.index - 1 then
      if c.j < store.numCaches then
        some { store := store.setBoundary c.j (some i), flags := c.flags &&& ~~~intBit c.j, j := c.j + 1
               index := c.index <<< 1 }
      else none
    else some { c with store }
  let store := (c.store.setPrev i (some (i - 1))).setNext i (some (i + 1))
  return { c with store := store.setBlk i { (store.blks i).blk with isTouched := false } }

/-- The fields, and the first and the last block. `raw` is what the memory of the new arrays holds. -/
def withEnds (raw : FaStore) (blkSize hitLatency numCaches cacheMask numBlocks : BitVec 32) : FaStore :=
  let tail := (numBlocks - 1).toNat
  let s : FaStore := { raw with
    blkSize, hitLatency, cacheMask, numCaches := numCaches.toNat, numBlocks := numBlocks.toNat
    head := some 0, tail := some tail, tagHash := fun _ => none }
  let s := ((s.setPrev 0 none).setNext 0 (some 1)).setInCache 0 cacheMask
  ((s.setPrev tail (some (numBlocks - 2).toNat)).setNext tail none).setInCache tail 0

def construct (raw : FaStore) (blkSize size hitLatency : BitVec 32) : Option FaStore := do
  if !isPowerOf2 blkSize || !decide (0 < hitLatency) || !isPowerOf2 size then none
  else
    let numCaches := BitVec.ofNat 32 (floorLog2 size) - 17
    let cacheMask := if 0 < numCaches then intBit numCaches.toNat - 1 else 0
    let numBlocks := size / blkSize
    -- without a block there is no head to be written
    if numBlocks = 0 then none
    else
      let c ← (List.range' 1 ((numBlocks - 1).toNat - 1)).foldlM constructRound
        { store := withEnds raw blkSize hitLatency numCaches cacheMask numBlocks
          index := intBit 17 / blkSize, j := 0, flags := cacheMask }
      if c.j = numCaches.toNat && c.index == numBlocks then some c.store else none

/-! ## Moving to the head -/

/-- One round of the loop over the tracked caches. -/
def moveRound (blk : Nat) (updateMask : BitVec 32) (s : FaStore) (i : Nat) : Option FaStore :=
  if intBit i &&& updateMask ≠ 0 then do
    let b ← s.deref (s.cacheBoundaries i)
    let s := s.setInCache b (s.inCache b &&& ~~~intBit i)
    return s.setBoundary i (s.prev b)
  else if s.cacheBoundaries i = some blk then some (s.setBoundary i (s.prev blk))
  else some s

/-- A block that is not at the head is taken out of the list. -/
def unlink (blk : Nat) (s : FaStore) : Option FaStore :=
  if s.tail = some blk then
    if s.next blk = none then do
      let t ← s.deref (s.prev blk)
      return { s with tail := some t }.setNext t none
    else none
  else do
    let p ← s.deref (s.prev blk)
    let s := s.setNext p (s.next blk)
    let n ← s.deref (s.next blk)
    return s.setPrev n (s.prev blk)

/-- It is put in front. -/
def linkFront (blk : Nat) (s : FaStore) : Option FaStore := do
  let s := (s.setNext blk s.head).setPrev blk none
  let h ← s.deref s.head
  return { s.setPrev h (some blk) with head := some blk }

def moveToHead (blk : Nat) (s : FaStore) : Option FaStore := do
  let updateMask := s.inCache blk ^^^ s.cacheMask
  let s ← (List.range s.numCaches).foldlM (moveRound blk updateMask) s
  let s := s.setInCache blk s.cacheMask
  if s.head = some blk then return s
  (← s.unlink blk).linkFront blk

/-! ## Calls -/

def blkAlign (s : FaStore) (addr : Addr) : Addr := addr &&& ~~~((s.blkSize - 1).zeroExtend 64)

def hashLookup (s : FaStore) (addr : Addr) : Option Nat := s.tagHash addr

/-- The store, the block, its mask, and the latency. -/
def accessBlock (addr : Addr) (s : FaStore) : Option (FaStore × Option Nat × BitVec 32 × BitVec 32) :=
  match s.hashLookup (s.blkAlign addr) with
  | none => some (s, none, 0, s.hitLatency)
  | some f =>
    if (s.blks f).blk.isValid then
      (if s.head = some f then some s else s.moveToHead f).map (·, some f, s.inCache f, s.hitLatency)
    else some (s, none, 0, s.hitLatency)

/-- The victim is unmapped, and mapped for the new block. -/
def remap (addr : Addr) (blk : Nat) (s : FaStore) : FaStore :=
  let tagHash := Function.update s.tagHash (s.blks blk).blk.tag none
  let s := { s with tagHash := Function.update tagHash (s.blkAlign addr) (some blk) }
  if (s.blks blk).blk.isValid then s else s.setBlk blk { (s.blks blk).blk with isTouched := true }

def findVictim (addr : Addr) (s : FaStore) : Option (FaStore × Nat) := do
  let blk ← s.deref s.tail
  if s.inCache blk ≠ 0 then none
  else
    let s ← s.moveToHead blk
    return (s.remap addr blk, blk)

/-- The loop of `check`, with fuel for one round each. -/
def checkLoop (s : FaStore) : Nat → Option Nat → BitVec 32 → BitVec 32 → Nat → BitVec 32 → Option Bool
  | 0, _, _, _, _, _ => none
  | _ + 1, none, _, _, _, _ => some true
  | fuel + 1, some f, size, boundary, j, flags =>
    if f < s.numBlocks then
      let size := size + s.blkSize
      if s.inCache f ≠ flags then some false
      else if size = boundary ∧ s.tail ≠ some f then
        if j < s.numCaches then
          if s.cacheBoundaries j ≠ some f then some false
          else s.checkLoop fuel (s.next f) size (boundary <<< 1) (j + 1) (flags &&& ~~~intBit j)
        else none
      else s.checkLoop fuel (s.next f) size boundary j flags
    else none

def check (fuel : Nat) (s : FaStore) : Option Bool := s.checkLoop fuel s.head 0 (intBit 17) 0 s.cacheMask

/-- The calls of the cache, and what it writes into its blocks in between. -/
inductive Call where
  | accessBlock (addr : Addr)
  | findVictim (addr : Addr)
  | write (f : Nat) (b : CacheBlk)

def call (s : FaStore) : Call → Option FaStore
  | .accessBlock addr => (s.accessBlock addr).map (·.1)
  | .findVictim addr => (s.findVictim addr).map (·.1)
  | .write f b => some (s.setBlk f b)

/-! ## What is read after a write -/

section

variable (s : FaStore) (f k : Nat)

theorem modify_read {α : Type} (read : FaNode → α) (g : FaNode → FaNode) :
    read ((s.modify f g).blks k) = if k = f then read (g (s.blks f)) else read (s.blks k) := by
  by_cases hk : k = f
  · subst hk
    simp [modify]
  · simp [modify, hk]

theorem modify_kept {α : Type} {read : FaNode → α} {g : FaNode → FaNode} (hg : ∀ b, read (g b) = read b) :
    read ((s.modify f g).blks k) = read (s.blks k) := by
  rw [modify_read s f k read]
  split
  · rename_i hk
    rw [hg, hk]
  · rfl

@[simp] theorem setPrev_prev (p : Option Nat) : (s.setPrev f p).prev k = if k = f then p else s.prev k :=
  s.modify_read f k FaNode.prev _

@[simp] theorem setPrev_next (p : Option Nat) : (s.setPrev f p).next k = s.next k := s.modify_kept f k fun _ => rfl

@[simp] theorem setPrev_inCache (p : Option Nat) : (s.setPrev f p).inCache k = s.inCache k :=
  s.modify_kept f k fun _ => rfl

@[simp] theorem setNext_prev (p : Option Nat) : (s.setNext f p).prev k = s.prev k := s.modify_kept f k fun _ => rfl

@[simp] theorem setNext_next (p : Option Nat) : (s.setNext f p).next k = if k = f then p else s.next k :=
  s.modify_read f k FaNode.next _

@[simp] theorem setNext_inCache (p : Option Nat) : (s.setNext f p).inCache k = s.inCache k :=
  s.modify_kept f k fun _ => rfl

@[simp] theorem setInCache_prev (m : BitVec 32) : (s.setInCache f m).prev k = s.prev k :=
  s.modify_kept f k fun _ => rfl

@[simp] theorem setInCache_next (m : BitVec 32) : (s.setInCache f m).next k = s.next k :=
  s.modify_kept f k fun _ => rfl

@[simp] theorem setInCache_inCache (m : BitVec 32) :
    (s.setInCache f m).inCache k = if k = f then m else s.inCache k :=
  s.modify_read f k FaNode.inCache _

@[simp] theorem setBlk_prev (b : CacheBlk) : (s.setBlk f b).prev k = s.prev k := s.modify_kept f k fun _ => rfl

@[simp] theorem setBlk_next (b : CacheBlk) : (s.setBlk f b).next k = s.next k := s.modify_kept f k fun _ => rfl

@[simp] theorem setPrev_blk (p : Option Nat) : ((s.setPrev f p).blks k).blk = (s.blks k).blk :=
  s.modify_kept f k fun _ => rfl

@[simp] theorem setNext_blk (p : Option Nat) : ((s.setNext f p).blks k).blk = (s.blks k).blk :=
  s.modify_kept f k fun _ => rfl

@[simp] theorem setInCache_blk (m : BitVec 32) : ((s.setInCache f m).blks k).blk = (s.blks k).blk :=
  s.modify_kept f k fun _ => rfl

@[simp] theorem setBlk_blk (b : CacheBlk) : ((s.setBlk f b).blks k).blk = if k = f then b else (s.blks k).blk :=
  s.modify_read f k FaNode.blk _

@[simp] theorem setBlk_inCache (b : CacheBlk) : (s.setBlk f b).inCache k = s.inCache k :=
  s.modify_kept f k fun _ => rfl

end

/-! ## Masks -/

theorem getLsbD_intBit {i : Nat} (hi : i < 32) (k : Nat) : (intBit i).getLsbD k = decide (k = i) := by
  rw [intBit, BitVec.getLsbD_shiftLeft]
  by_cases hk : k = i
  · subst hk
    simp [hi]
  · by_cases hlt : k < i
    · simp [hlt, hk]
    · have hsub : k - i ≠ 0 := by omega
      simp [hk, hsub]

theorem intBit_and_ne_zero {i : Nat} (hi : i < 32) (m : BitVec 32) : intBit i &&& m ≠ 0 ↔ m.getLsbD i = true := by
  constructor
  · intro hne
    by_contra hbit
    rw [Bool.not_eq_true] at hbit
    apply hne
    apply BitVec.eq_of_getLsbD_eq
    intro k hk
    rw [BitVec.getLsbD_and, getLsbD_intBit hi]
    by_cases heq : k = i
    · simp [heq, hbit]
    · simp [heq]
  · intro hbit hzero
    have hk := congrArg (·.getLsbD i) hzero
    simp [getLsbD_intBit hi, hbit] at hk

theorem getLsbD_clear {i : Nat} (hi : i < 32) (m : BitVec 32) (k : Nat) :
    (m &&& ~~~intBit i).getLsbD k = (m.getLsbD k && decide (k ≠ i)) := by
  rw [BitVec.getLsbD_and, BitVec.getLsbD_not, getLsbD_intBit hi]
  by_cases hk : k < 32
  · by_cases heq : k = i <;> simp [hk, heq]
  · simp [BitVec.getLsbD_of_ge m k (by omega)]

/-! ## What the two halves of `moveToHead` write -/

/-- Other masks and boundaries. -/
def remasked (s : FaStore) (masks : Nat → BitVec 32) (bounds : Nat → Option Nat) : FaStore :=
  { s with blks := fun f => { s.blks f with inCache := masks f }, cacheBoundaries := bounds }

/-- Other links. -/
def relinked (s : FaStore) (next prev : Nat → Option Nat) (head tail : Option Nat) : FaStore :=
  { s with blks := fun f => { s.blks f with next := next f, prev := prev f }, head, tail }

section

variable (s : FaStore) (f : Nat)

theorem setInCache_remasked (masks : Nat → BitVec 32) (bounds : Nat → Option Nat) (m : BitVec 32) :
    (s.remasked masks bounds).setInCache f m = s.remasked (Function.update masks f m) bounds := by
  unfold remasked setInCache modify
  congr 1
  exact (funext (Function.apply_update (fun k m => { s.blks k with inCache := m }) masks f m)).symm

theorem setNext_relinked (next prev : Nat → Option Nat) (head tail p : Option Nat) :
    (s.relinked next prev head tail).setNext f p = s.relinked (Function.update next f p) prev head tail := by
  unfold relinked setNext modify
  congr 1
  exact (funext (Function.apply_update (fun k p => { s.blks k with next := p, prev := prev k }) next f p)).symm

theorem setPrev_relinked (next prev : Nat → Option Nat) (head tail p : Option Nat) :
    (s.relinked next prev head tail).setPrev f p = s.relinked next (Function.update prev f p) head tail := by
  unfold relinked setPrev modify
  congr 1
  exact (funext (Function.apply_update (fun k p => { s.blks k with next := next k, prev := p }) prev f p)).symm

end

variable {s : FaStore} {blk : Nat} {l : List Nat}

theorem deref_of_lt {f : Nat} (hf : f < s.numBlocks) : s.deref (some f) = some f := by
  simp [deref, Option.filter, hf]

/-- One round, when the boundary is a block. -/
theorem moveRound_remasked {updateMask : BitVec 32} {masks : Nat → BitVec 32} {bounds : Nat → Option Nat} {i b : Nat}
    (hi : i < 32) (hb : b < s.numBlocks) (hbound : bounds i = some b) :
    moveRound blk updateMask (s.remasked masks bounds) i = some (s.remasked
      (if updateMask.getLsbD i then Function.update masks b (masks b &&& ~~~intBit i) else masks)
      (Function.update bounds i
        (if updateMask.getLsbD i then s.prev b else if b = blk then s.prev blk else some b))) := by
  have hpointer : (s.remasked masks bounds).cacheBoundaries i = some b := hbound
  unfold moveRound
  simp only [intBit_and_ne_zero hi, hpointer]
  by_cases hbit : updateMask.getLsbD i = true
  · have hderef : (s.remasked masks bounds).deref (some b) = some b := deref_of_lt hb
    simp only [hbit, if_true, hderef, setInCache_remasked]
    rfl
  · simp only [hbit, Bool.false_eq_true, if_false, Option.some.injEq]
    by_cases heq : b = blk
    · subst heq
      simp only [if_true]
      rfl
    · simp only [heq, if_false]
      rw [← hbound, Function.update_eq_self]

/-- The boundary of a tracked cache after the loop. -/
def movedBoundary (s : FaStore) (blk : Nat) (updateMask : BitVec 32) (i : Nat) : Option Nat :=
  if updateMask.getLsbD i then (s.cacheBoundaries i).bind s.prev
  else if s.cacheBoundaries i = some blk then s.prev blk
  else s.cacheBoundaries i

/-- The loop gets through if the boundaries it reads are blocks. Round `i` deals with the boundary
of one tracked cache and with its bit. -/
theorem moveLoop (updateMask : BitVec 32)
    (hbounds : ∀ i < s.numCaches, ∃ f < s.numBlocks, s.cacheBoundaries i = some f) {n : Nat} (hn : n ≤ s.numCaches)
    (h32 : n ≤ 32) : ∃ masks bounds,
      (List.range n).foldlM (moveRound blk updateMask) s = some (s.remasked masks bounds) ∧
      (∀ f k, (masks f).getLsbD k = ((s.inCache f).getLsbD k &&
        !(decide (k < n) && updateMask.getLsbD k && decide (s.cacheBoundaries k = some f)))) ∧
      ∀ i, bounds i = if i < n then s.movedBoundary blk updateMask i else s.cacheBoundaries i := by
  induction n with
  | zero => exact ⟨s.inCache, s.cacheBoundaries, rfl, by simp, by simp⟩
  | succ n ih =>
    obtain ⟨masks, bounds, hrun, hmasks, hnew⟩ := ih (by omega) (by omega)
    obtain ⟨b, hb, hbound⟩ := hbounds n (by omega)
    have hold : bounds n = some b := by rw [hnew, if_neg (by omega), hbound]
    rw [List.range_succ, List.foldlM_append, hrun]
    refine ⟨_, _, (bind_pure _).trans (moveRound_remasked (by omega) hb hold), ?_, ?_⟩
    -- only bit `n` of the masks has changed, and position `n` of the boundaries
    · intro f k
      by_cases hk : k = n
      · subst hk
        by_cases hbit : updateMask.getLsbD k = true
        · by_cases hf : f = b
          · subst hf
            simp [hbit, hbound, getLsbD_clear (show k < 32 by omega)]
          · simp [hbit, hbound, hf, Ne.symm hf, hmasks]
        · simp [hbit, hmasks]
      · have hlt : k < n + 1 ↔ k < n := by omega
        rw [decide_eq_decide.2 hlt, ← hmasks f k]
        split
        · by_cases hf : f = b
          · subst hf
            simp [hk, getLsbD_clear (show n < 32 by omega)]
          · rw [Function.update_of_ne hf]
        · rfl
    · intro i
      by_cases hi : i = n
      · subst hi
        rw [Function.update_self, if_pos (Nat.lt_succ_self i), movedBoundary, hbound]
        simp only [Option.some.injEq, Option.bind_some]
      · have hlt : i < n + 1 ↔ i < n := by omega
        rw [Function.update_of_ne hi, hnew]
        simp only [hlt]

theorem relinked_self (s : FaStore) : s.relinked s.next s.prev s.head s.tail = s := rfl

theorem unlink_middle {a b : Nat} (htail : s.tail ≠ some blk) (hprev : s.prev blk = some a)
    (hnext : s.next blk = some b) (ha : a < s.numBlocks) (hb : b < s.numBlocks) : s.unlink blk = some (s.relinked
      (Function.update s.next a (some b)) (Function.update s.prev b (some a)) s.head s.tail) := by
  have hread : (s.setNext a (some b)).next blk = some b := by
    rw [setNext_next, hnext, ite_self]
  have hback : (s.setNext a (some b)).prev blk = some a := by
    rw [setNext_prev, hprev]
  have hderef : (s.setNext a (some b)).deref (some b) = some b := deref_of_lt hb
  unfold unlink
  simp only [if_neg htail, hprev, hnext, deref_of_lt ha, Option.bind_eq_bind, Option.bind_some, hread, hback, hderef]
  rw [← setPrev_relinked, ← setNext_relinked, relinked_self]
  rfl

theorem unlink_tail {a : Nat} (htail : s.tail = some blk) (hprev : s.prev blk = some a) (hnext : s.next blk = none)
    (ha : a < s.numBlocks) :
    s.unlink blk = some (s.relinked (Function.update s.next a none) s.prev s.head (some a)) := by
  unfold unlink
  simp only [if_pos htail, if_pos hnext, hprev, deref_of_lt ha, Option.bind_eq_bind, Option.bind_some]
  rw [← setNext_relinked]
  rfl

theorem linkFront_eq {a : Nat} (hhead : s.head = some a) (ha : a < s.numBlocks) : s.linkFront blk = some (s.relinked
    (Function.update s.next blk (some a)) (Function.update (Function.update s.prev blk none) a (some blk))
    (some blk) s.tail) := by
  have hset : (s.setNext blk s.head).setPrev blk none =
      s.relinked (Function.update s.next blk s.head) (Function.update s.prev blk none) s.head s.tail := by
    rw [← setPrev_relinked, ← setNext_relinked, relinked_self]
  have hderef : (s.relinked (Function.update s.next blk s.head) (Function.update s.prev blk none) s.head
      s.tail).deref (some a) = some a := deref_of_lt ha
  unfold linkFront
  simp only [hset]
  show (deref _ s.head).bind _ = _
  rw [hhead] at hderef ⊢
  rw [hderef, Option.bind_some, setPrev_relinked]
  rfl

section

variable (hspells : Linked.Spells s.next s.prev l) (hnodup : l.Nodup) (hlt : ∀ f ∈ l, f < s.numBlocks)
  (hhead : s.head = l.head?) (htail : s.tail = l.getLast?) (hblk : blk ∈ l) (hne : s.head ≠ some blk)

include hspells hnodup hlt hhead htail hblk hne

/-- The links spell the list without the block. -/
theorem unlink_spells : ∃ next prev, s.unlink blk = some (s.relinked next prev s.head (l.erase blk).getLast?) ∧
    Linked.Spells next prev (l.erase blk) := by
  obtain ⟨us, ys, rfl⟩ := List.append_of_mem hblk
  have hfront : blk ∉ us := by grind
  have herase : (us ++ blk :: ys).erase blk = us ++ ys := by
    rw [List.erase_append_right _ hfront, List.erase_cons_head]
  rw [herase]
  -- there is a block in front of it, and its links depend on what is behind
  rcases List.eq_nil_or_concat us with rfl | ⟨xs, a, rfl⟩
  · exact absurd hhead hne
  have hsplit : ∀ zs, xs.concat a ++ zs = xs ++ a :: zs := by simp
  rw [hsplit] at hspells hnodup hlt htail
  rw [hsplit]
  have ha : a < s.numBlocks := hlt a (by simp)
  cases ys with
  | nil =>
    have hlast : s.tail = some blk := by simpa using htail
    refine ⟨_, _, ?_, hspells.unlink_last hnodup⟩
    rw [unlink_tail hlast hspells.pair.2 (hspells.last blk (by simp)) ha]
    simp
  | cons b ys =>
    have hlast : s.tail ≠ some blk := by
      rw [htail, List.append_cons]
      rw [List.append_cons] at hnodup
      exact (Linked.getLast?_eq_iff hnodup).not.2 (List.cons_ne_nil b ys)
    have hnext : s.next blk = some b := by
      rw [List.append_cons] at hspells
      exact hspells.next_eq
    refine ⟨_, _, ?_, hspells.unlink hnodup⟩
    rw [unlink_middle hlast hspells.pair.2 hnext ha (hlt b (by simp)), htail]
    simp [List.getLast?_append]

/-- The links spell the list with the block in front. -/
theorem relink : ∃ next prev, (s.unlink blk).bind (linkFront blk) =
      some (s.relinked next prev (some blk) (blk :: l.erase blk).getLast?) ∧
    Linked.Spells next prev (blk :: l.erase blk) ∧ prev blk = none := by
  obtain ⟨next, prev, hunlink, hrest⟩ := unlink_spells hspells hnodup hlt hhead htail hblk hne
  have hnotin : blk ∉ l.erase blk := hnodup.not_mem_erase
  have hrestNodup : (l.erase blk).Nodup := hnodup.erase blk
  cases l with
  | nil => cases hblk
  | cons a l =>
    have hne' : a ≠ blk := by
      rintro rfl
      exact hne hhead
    rw [List.erase_cons_tail (by simpa using hne')] at hunlink hrest hnotin hrestNodup ⊢
    have hfront : (s.relinked next prev s.head (a :: l.erase blk).getLast?).linkFront blk = some _ :=
      linkFront_eq hhead (hlt a List.mem_cons_self)
    refine ⟨_, _, ?_, hrest.push hnotin (List.nodup_cons.1 hrestNodup).1 none, ?_⟩
    · rw [hunlink, Option.bind_some, hfront]
      simp only [List.getLast?_cons_cons]
      rfl
    · rw [Function.update_of_ne hne'.symm, Function.update_self]

end

end FaStore

end PrefetchSim
