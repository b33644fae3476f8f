import PrefetchSim.Mem.Lru

/- The indirect-index tag store (`m5/src/mem/cache/tags/iic.{hh,cc}`).

   Correspondence (C++ ↔ Lean):
     `IIC::IIC` (its parameter checks)            ↔ `IicConfig`, `Iic.initial`
     `IICTag`, its `operator=`                    ↔ `IicTag`, `IicTag.assign`
     `IICSet`                                     ↔ `IicSet`
     `Repl`                                       ↔ `Repl`
     `hash`, `extractTag`                         ↔ `IicConfig.hash`, `.extractTag`
     `findTag`, `findFree`, `secondaryChain`      ↔ `Iic.findTag`, `.findFree`, `.secondaryChain`
     `moveToHead`, `moveToTail`                   ↔ `Iic.moveToHead`, `.moveToTail`
     `tagSwap`, `freeTag`, `freeDataBlock`        ↔ `Iic.tagSwap`, `.freeTag`, `.freeDataBlock`
     `freeReplacementBlock`, `getFreeDataBlock`   ↔ `Iic.freeReplacementBlock`, `.getFreeDataBlock`
     `getFreeTag`, `findVictim`, `insertBlock`    ↔ `Iic.getFreeTag`, `.findVictim`, `.insertBlock`
     `accessBlock`, `findBlock`, `invalidateBlk`  ↔ `Iic.accessBlock`, `.findBlock`, `.invalidateBlk`

   A tag pointer is an index into `tagStore`; the first ones are the tags of the sets, the
   others, the secondary ones, are on the chain of a set or on `freelist`, and `tagNull` ends a
   chain. A data block is the index of its reference count. The functions return `none` where
   the source fails an assertion, reads outside an array or loops forever; a loop over a chain
   has one unit of fuel per tag.

   The replacement policy is a parameter, so that what is proved holds of all. Data and
   statistics are left out, and so is the mark for a referenced block, which only policies
   read. -/
namespace PrefetchSim

/-- The parameters with which the constructor gets through; sizes are counted in sub-blocks.
`hashShift` is the logarithm that `hash` computes. -/
structure IicConfig where
  blkBits : Nat
  setBits : Nat
  hashShift : Nat
  assoc : Nat
  numSub : Nat
  numBlocks : Nat
  setBits_lt : setBits < 64
  assoc_pos : 0 < assoc
  numSub_pos : 0 < numSub
  fits : numSub ≤ numBlocks

namespace IicConfig

def hashSets (cfg : IicConfig) : Nat := 2 ^ cfg.setBits

/-- `params.size / blkSize` -/
def numSecondary (cfg : IicConfig) : Nat := cfg.numBlocks / cfg.numSub

def primaryBound (cfg : IicConfig) : Nat := cfg.hashSets * cfg.assoc

def numTags (cfg : IicConfig) : Nat := cfg.primaryBound + cfg.numSecondary - 1

def tagNull (cfg : IicConfig) : Nat := cfg.numTags

def extractTag (cfg : IicConfig) (addr : Addr) : Addr := addr >>> cfg.blkBits

def hash (cfg : IicConfig) (addr : Addr) : Nat :=
  let tag := cfg.extractTag addr
  let mask := BitVec.ofNat 64 cfg.hashSets - 1
  ((tag &&& mask) ^^^ ((tag >>> cfg.hashShift) &&& mask)).toNat

end IicConfig

/-- A replacement policy with its state and its entries. -/
structure Repl (σ ρ : Type) where
  getRepl : σ → Nat × σ
  doAdvance : σ → σ
  add : Nat → σ → ρ × σ
  fixTag : Option ρ → Nat → Nat → σ → σ
  removeEntry : Option ρ → σ → σ

structure IicTag (ρ : Type) extends CacheBlk where
  chainPtr : Nat
  dataPtr : List Nat := []
  numData : Nat := 0
  re : Option ρ := none

/-- `operator=`: as many data pointers are copied as the tag has data. -/
def IicTag.assign {ρ : Type} (dst src : IicTag ρ) : IicTag ρ :=
  { dst with
    tag := src.tag, data := src.data, status := src.status, whenReady := src.whenReady, set := src.set
    refCount := src.refCount, chainPtr := src.chainPtr, re := src.re, numData := src.numData
    dataPtr := src.dataPtr.take src.numData }

structure IicSet where
  chainPtr : Nat
  /-- the tags of the set, the most recently used first -/
  tags : List Nat

structure Iic (σ ρ : Type) where
  tagStore : Nat → IicTag ρ
  sets : Nat → IicSet
  freelist : Nat
  blkFreelist : List Nat
  dataReferenceCount : Nat → Int
  repl : σ

namespace Iic

variable {σ ρ : Type}

/-- As the constructor leaves it, with a policy in state `r`. -/
def initial (cfg : IicConfig) (r : σ) : Iic σ ρ where
  tagStore i :=
    if i < cfg.primaryBound then { chainPtr := cfg.tagNull, set := i / cfg.assoc } else { chainPtr := i + 1 }
  sets s := { chainPtr := cfg.tagNull, tags := List.range' (s * cfg.assoc) cfg.assoc }
  freelist := cfg.primaryBound
  blkFreelist := (List.range cfg.numBlocks).reverse
  dataReferenceCount _ := 0
  repl := r

def assert (c : Bool) : Option Unit := if c then some () else none

def setTag (i : Nat) (e : IicTag ρ) (t : Iic σ ρ) : Iic σ ρ :=
  { t with tagStore := Function.update t.tagStore i e }

def setSet (s : Nat) (e : IicSet) (t : Iic σ ρ) : Iic σ ρ :=
  { t with sets := Function.update t.sets s e }

/-! ### Lookup -/

/-- Whether a tag is valid and the one looked for. -/
def matchesTag (t : Iic σ ρ) (tag : Addr) (i : Nat) : Bool :=
  decide ((t.tagStore i).tag = tag) && (t.tagStore i).isValid

def findTag (t : Iic σ ρ) (set : Nat) (tag : Addr) : Option Nat := (t.sets set).tags.find? (t.matchesTag tag)

def findFree (t : Iic σ ρ) (set : Nat) : Option Nat := (t.sets set).tags.find? fun i => !(t.tagStore i).isValid

def secondaryChain (cfg : IicConfig) (t : Iic σ ρ) (tag : Addr) : Nat → Nat → Option (Option Nat)
  | 0, _ => none
  | fuel + 1, i =>
    if i = cfg.tagNull then some none
    else if t.matchesTag tag i then some (some i)
    else t.secondaryChain cfg tag fuel (t.tagStore i).chainPtr

def findBlock (cfg : IicConfig) (t : Iic σ ρ) (addr : Addr) : Option (Option Nat) :=
  match t.findTag (cfg.hash addr) (cfg.extractTag addr) with
  | some i => some (some i)
  | none => t.secondaryChain cfg (cfg.extractTag addr) (cfg.numTags + 1) (t.sets (cfg.hash addr)).chainPtr

/-! ### The order of a set -/

/-- The loop asserts that it finds the tag. -/
def moveToHead (set i : Nat) (t : Iic σ ρ) : Option (Iic σ ρ) := do
  assert (decide (i ∈ (t.sets set).tags))
  return t.setSet set { t.sets set with tags := PrefetchSim.moveToHead i (t.sets set).tags }

/-- The same from the other end. -/
def moveToTail (set i : Nat) (t : Iic σ ρ) : Option (Iic σ ρ) := do
  assert (decide (i ∈ (t.sets set).tags))
  return t.setSet set
    { t.sets set with tags := (PrefetchSim.moveToHead i (t.sets set).tags.reverse).reverse }

/-! ### Tags -/

def tagSwap (R : Repl σ ρ) (i j : Nat) (t : Iic σ ρ) : Iic σ ρ :=
  let tmp := IicTag.assign { chainPtr := 0 } (t.tagStore i)
  let t := t.setTag i ((t.tagStore i).assign (t.tagStore j))
  let t := t.setTag j ((t.tagStore j).assign tmp)
  let fix (t : Iic σ ρ) (old new : Nat) : Iic σ ρ :=
    if (t.tagStore new).isValid then { t with repl := R.fixTag (t.tagStore new).re old new t.repl } else t
  fix (fix t j i) i j

/-- The loop that looks for the tag before `i` on a chain. -/
def findPrev (cfg : IicConfig) (t : Iic σ ρ) (i : Nat) : Nat → Nat → Option Nat
  | 0, _ => none
  | fuel + 1, tmp =>
    if tmp = cfg.tagNull then none
    else if (t.tagStore tmp).chainPtr = i then some tmp
    else t.findPrev cfg i fuel (t.tagStore tmp).chainPtr

/-- A secondary tag goes to the free list. -/
def pushFree (i : Nat) (t : Iic σ ρ) : Iic σ ρ :=
  { t.setTag i { t.tagStore i with chainPtr := t.freelist } with freelist := i }

/-- The end of a chain is freed: the one before it, or the set, becomes the end. -/
def cutChain (cfg : IicConfig) (i set : Nat) (t : Iic σ ρ) : Option (Iic σ ρ) :=
  if (t.sets set).chainPtr = i then some (t.setSet set { t.sets set with chainPtr := cfg.tagNull })
  else do
    let tmp ← t.findPrev cfg i (cfg.numTags + 1) (t.sets set).chainPtr
    return t.setTag tmp { t.tagStore tmp with chainPtr := cfg.tagNull }

def freeTag (cfg : IicConfig) (R : Repl σ ρ) (i : Nat) (t : Iic σ ρ) : Option (Iic σ ρ) :=
  let t := t.setTag i { t.tagStore i with status := {}, numData := 0, re := none }
  let set := cfg.hash ((t.tagStore i).tag <<< cfg.blkBits)
  if cfg.primaryBound ≤ i then do
    assert (decide (i < cfg.tagNull))
    if (t.tagStore i).chainPtr = cfg.tagNull then
      let t ← t.cutChain cfg i set
      return t.pushFree i
    else
      -- copy next chained entry to this tag location
      let tmp := (t.tagStore i).chainPtr
      return (t.tagSwap R tmp i).pushFree tmp
  else if (t.sets set).chainPtr = cfg.tagNull then some t
  else
    -- collapse chain
    let tmp := (t.sets set).chainPtr
    let t := (t.tagSwap R i tmp).pushFree tmp
    let t := t.setSet set { t.sets set with chainPtr := (t.tagStore i).chainPtr }
    t.moveToTail set i

/-! ### Data blocks -/

def freeDataBlock (d : Nat) (t : Iic σ ρ) : Option (Iic σ ρ) := do
  assert (t.dataReferenceCount d == 0)
  return { t with blkFreelist := d :: t.blkFreelist }

/-- One reference less. -/
def unreference (d : Nat) (t : Iic σ ρ) : Option (Iic σ ρ) :=
  let t := { t with dataReferenceCount := Function.update t.dataReferenceCount d (t.dataReferenceCount d - 1) }
  if t.dataReferenceCount d = 0 then t.freeDataBlock d else some t

/-- The references of a tag; the tag's data are `dataPtr[0 .. numData - 1]`. -/
def dataOf (t : Iic σ ρ) (i : Nat) : List Nat := (t.tagStore i).dataPtr.take (t.tagStore i).numData

/-- The victim is freed; it is returned as it was, since a dirty one is written back. -/
def freeReplacementBlock (cfg : IicConfig) (R : Repl σ ρ) (t : Iic σ ρ) : Option (Iic σ ρ × IicTag ρ) := do
  let (i, r) := R.getRepl t.repl
  let t := { t with repl := r }
  let victim := t.tagStore i
  assert (decide (i < cfg.numTags) && victim.isValid)
  let t := t.setTag i { victim with refCount := 0 }
  let t ← (t.dataOf i).foldlM
    (fun t d => do
      assert (decide (t.dataReferenceCount d > 0))
      t.unreference d) t
  let t ← t.freeTag cfg R i
  return (t, victim)

/-- The loop `while (blkFreelist.empty())`, and the block taken; `ev` collects the victims. -/
def getFreeDataBlock (cfg : IicConfig) (R : Repl σ ρ) :
    Nat → Iic σ ρ → List (IicTag ρ) → Option (Iic σ ρ × Nat × List (IicTag ρ))
  | 0, _, _ => none
  | fuel + 1, t, ev =>
    match t.blkFreelist with
    | d :: ds => some ({ t with blkFreelist := ds }, d, ev)
    | [] => do
      let (t, victim) ← t.freeReplacementBlock cfg R
      getFreeDataBlock cfg R fuel t (ev ++ [victim])

/-- `n` data blocks for a tag. -/
def getData (cfg : IicConfig) (R : Repl σ ρ) :
    Nat → Iic σ ρ → List Nat → List (IicTag ρ) → Option (Iic σ ρ × List Nat × List (IicTag ρ))
  | 0, t, ds, ev => some (t, ds, ev)
  | n + 1, t, ds, ev => do
    let (t, d, ev) ← getFreeDataBlock cfg R (cfg.numTags + 1) t ev
    assert (t.dataReferenceCount d == 0)
    getData cfg R n t (ds ++ [d]) ev

/-- The loop `while (freelist == tagNull)`. -/
def freeSecondary (cfg : IicConfig) (R : Repl σ ρ) :
    Nat → Iic σ ρ → List (IicTag ρ) → Option (Iic σ ρ × List (IicTag ρ))
  | 0, _, _ => none
  | fuel + 1, t, ev =>
    if t.freelist = cfg.tagNull then do
      let (t, victim) ← t.freeReplacementBlock cfg R
      freeSecondary cfg R fuel t (ev ++ [victim])
    else some (t, ev)

/-- The last tag of the set goes to the tag `i`, the first on the free list. -/
def spill (R : Repl σ ρ) (set i last : Nat) (t : Iic σ ρ) : Iic σ ρ :=
  let t := { t with freelist := (t.tagStore i).chainPtr }.tagSwap R i last
  let t := t.setTag i { t.tagStore i with chainPtr := (t.sets set).chainPtr }
  t.setSet set { t.sets set with chainPtr := i }

def getFreeTag (cfg : IicConfig) (R : Repl σ ρ) (set : Nat) (t : Iic σ ρ) (ev : List (IicTag ρ)) :
    Option (Iic σ ρ × Nat × List (IicTag ρ)) :=
  match t.findFree set with
  | some i => some (t, i, ev)
  | none => do
    -- need to spill a tag into secondary storage
    let (t, ev) ← freeSecondary cfg R (cfg.numTags + 1) t ev
    let last ← (t.sets set).tags.getLast?
    let t := t.spill R set t.freelist last
    let last ← (t.sets set).tags.getLast?
    return (t, last, ev)

/-! ### The interface -/

/-- One reference more, for each data block of a tag. -/
def reference (ds : List Nat) (t : Iic σ ρ) : Iic σ ρ :=
  ds.foldl (fun t d =>
    { t with dataReferenceCount := Function.update t.dataReferenceCount d (t.dataReferenceCount d + 1) }) t

/-- The tag found gets its data, goes to the head of its set, and the policy is told. -/
def place (cfg : IicConfig) (R : Repl σ ρ) (set i : Nat) (ds : List Nat) (t : Iic σ ρ) : Option (Iic σ ρ) := do
  let t := (t.setTag i { t.tagStore i with set := set, dataPtr := ds, numData := cfg.numSub }).reference ds
  assert (decide (i < cfg.primaryBound))
  let t := t.setTag i { t.tagStore i with chainPtr := cfg.tagNull }
  let t ← t.moveToHead set i
  let (re, r) := R.add i (R.doAdvance t.repl)
  return { t.setTag i { t.tagStore i with re := some re } with repl := r }

def findVictim (cfg : IicConfig) (R : Repl σ ρ) (addr : Addr) (t : Iic σ ρ) :
    Option (Iic σ ρ × Nat × List (IicTag ρ)) := do
  let set := cfg.hash addr
  let (t, ds, ev) ← getData cfg R cfg.numSub t [] []
  let (t, i, ev) ← t.getFreeTag cfg R set ev
  let t ← t.place cfg R set i ds
  return (t, i, ev)

/-- The body is empty. -/
def insertBlock (_addr : Addr) (_i : Nat) (t : Iic σ ρ) : Iic σ ρ := t

/-- A hit in the secondary store moves the tag into the set. -/
def promote (R : Repl σ ρ) (set : Nat) (tag : Addr) (i : Nat) (t : Iic σ ρ) :
    Option (Iic σ ρ × Nat) := do
  let last ← (t.sets set).tags.getLast?
  let t := t.setTag last { t.tagStore last with chainPtr := (t.tagStore i).chainPtr }
  let t := t.tagSwap R i last
  let i ← t.findTag set tag
  return (t, i)

/-- The move to the head of the set, and the count. -/
def hit (set i : Nat) (t : Iic σ ρ) : Option (Iic σ ρ) := do
  let t ← t.moveToHead set i
  return t.setTag i { t.tagStore i with refCount := (t.tagStore i).refCount + 1 }

def accessBlock (cfg : IicConfig) (R : Repl σ ρ) (addr : Addr) (t : Iic σ ρ) : Option (Iic σ ρ) :=
  let set := cfg.hash addr
  let tag := cfg.extractTag addr
  match t.findTag set tag with
  | some i => t.hit set i
  | none => do
    match ← t.secondaryChain cfg tag (cfg.numTags + 1) (t.sets set).chainPtr with
    | none => return t
    | some i =>
      let (t, i) ← t.promote R set tag i
      t.hit set i

def invalidateBlk (cfg : IicConfig) (R : Repl σ ρ) (i : Nat) (t : Iic σ ρ) : Option (Iic σ ρ) := do
  let t ← (t.dataOf i).foldlM (fun t d => t.unreference d) t
  let t := { t with repl := R.removeEntry (t.tagStore i).re t.repl }
  t.freeTag cfg R i

/-- The cache writes the status of a block, which stays valid. -/
def setStatus (st : Status) (i : Nat) (t : Iic σ ρ) : Iic σ ρ :=
  t.setTag i { t.tagStore i with status := { st with valid := true } }

/-- `allocateBlock` and `handleFill` of the cache: the tag is found, filled and made valid. -/
def fill (cfg : IicConfig) (R : Repl σ ρ) (addr : Addr) (t : Iic σ ρ) :
    Option (Iic σ ρ × Nat × List (IicTag ρ)) := do
  let (t, i, ev) ← t.findVictim cfg R addr
  return ((t.insertBlock addr i).setStatus { readable := true } i, i, ev)

/-- The calls of the cache. The victim that `findVictim` returns is never valid, so the cache
always takes it. -/
inductive Call where
  | access (addr : Addr)
  | fill (addr : Addr)
  | setStatus (addr : Addr) (st : Status)
  | invalidate (addr : Addr)

def call (cfg : IicConfig) (R : Repl σ ρ) (t : Iic σ ρ) : Call → Option (Iic σ ρ)
  | .access addr => t.accessBlock cfg R addr
  | .fill addr => (t.fill cfg R addr).map Prod.fst
  | .setStatus addr st => (t.findBlock cfg addr).map fun r => (r.map fun i => t.setStatus st i).getD t
  | .invalidate addr => do
    match ← t.findBlock cfg addr with
    | none => return t
    | some i => t.invalidateBlk cfg R i

/-- The tag stores the cache gets to, with a policy that starts in some state. -/
def Reachable (cfg : IicConfig) (R : Repl σ ρ) (t : Iic σ ρ) : Prop :=
  ∃ (r : σ) (calls : List Call), calls.foldlM (call cfg R) (initial cfg r) = some t

/-- A fill of the block of `addr` does what it has to do. -/
def Filled (cfg : IicConfig) (R : Repl σ ρ) (t : Iic σ ρ) (addr : Addr) : Prop :=
  ∃ t' i ev, t.fill cfg R addr = some (t', i, ev) ∧
    -- it is found
    (∀ a, cfg.extractTag a = cfg.extractTag addr → t'.findBlock cfg a = some (some i)) ∧
    ∀ a, cfg.extractTag a ≠ cfg.extractTag addr →
      -- what was there is found no more
      (t.findBlock cfg a = some (some i) → t'.findBlock cfg a = some none) ∧
      -- and apart from the victims nothing has changed
      (t.findBlock cfg a ≠ some (some i) → (∀ v ∈ ev, v.tag ≠ cfg.extractTag a) →
        t'.findBlock cfg a = t.findBlock cfg a)

end Iic

end PrefetchSim
