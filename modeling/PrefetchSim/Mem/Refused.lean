import PrefetchSim.Mem.FaLru
import PrefetchSim.Mem.MissFlag
import PrefetchSim.Mem.Sound

/- What a refused allocation leaves behind.

   `allocateBlock` asks the tag store for a victim, and gives up if a request for the victim is
   outstanding. But `findVictim` has committed the replacement by then: LRU has taken the victim
   out of its accounting, FALRU has moved it to the head and mapped the new block to it, and
   nothing undoes this. So the two stores are as before exactly if the allocation is not refused
   (`refused_untouched_iff`). -/
namespace PrefetchSim

/-! ## LRU -/

namespace Tags

/-- Nothing a caller can see has changed. -/
structure Untouched (g : Geometry) (t t' : Tags) : Prop where
  found : ∀ addr, t'.findBlock g addr = t.findBlock g addr
  order : t'.ways = t.ways
  source : ∀ ptr, (t'.blks ptr).contextSrc = (t.blks ptr).contextSrc
  refs : ∀ ptr, (t'.blks ptr).refCount = (t.blks ptr).refCount
  occupancies : t'.occupancies = t.occupancies

/-- The frame that is to be given up for a new block. -/
def leastRecent (g : Geometry) (t : Tags) (addr : Addr) : BlkPtr :=
  .frame (g.extractSet addr) ((t.ways (g.extractSet addr)).getLast?.getD 0)

/-- That frame holds a block with an outstanding request. -/
def VictimBusy (g : Geometry) (t : Tags) (q : MshrQueue) (addr : Addr) : Prop :=
  (t.blks (t.leastRecent g addr)).isValid = true ∧
    (q.findMatch (g.regenerateBlkAddr (t.blks (t.leastRecent g addr)).tag
      (t.blks (t.leastRecent g addr)).set)).isSome = true

instance (g : Geometry) (t : Tags) (q : MshrQueue) (addr : Addr) : Decidable (t.VictimBusy g q addr) :=
  inferInstanceAs (Decidable (_ ∧ _))

/-- A refused allocation leaves the store as it was, and writes nothing back. -/
def KeepsRefused (g : Geometry) (t : Tags) (q : MshrQueue) (now : Tick) (addr : Addr) : Prop :=
  (allocateBlock g t q now addr).2.1 = none →
    t.Untouched g (allocateBlock g t q now addr).1 ∧ (allocateBlock g t q now addr).2.2 = []

theorem occupy_occupancies_ne (g : Geometry) (t : Tags) (src : Option Nat) :
    (occupy g t src (-1)).occupancies ≠ t.occupancies := by
  intro heq
  have hbucket := congrFun heq (bucket g src)
  simp only [occupy, Function.update_self] at hbucket
  omega

/-- What the cache reads of the victim is as it was; but a valid one is counted no more. -/
theorem findVictim_spec (g : Geometry) (t : Tags) (addr : Addr) :
    let v := t.findVictim g addr
    v.2 = t.leastRecent g addr ∧ (v.1.blks v.2).isValid = (t.blks (t.leastRecent g addr)).isValid ∧
      (v.1.blks v.2).tag = (t.blks (t.leastRecent g addr)).tag ∧
      (v.1.blks v.2).set = (t.blks (t.leastRecent g addr)).set ∧
      ((t.blks (t.leastRecent g addr)).isValid = true → v.1.occupancies ≠ t.occupancies) := by
  intro v
  have hv : v = if (t.blks (t.leastRecent g addr)).isValid then
      ((occupy g t (t.blks (t.leastRecent g addr)).contextSrc (-1)).modify (t.leastRecent g addr) fun b =>
        { b with refCount := 0, contextSrc := none }, t.leastRecent g addr)
      else (t, t.leastRecent g addr) := rfl
  split at hv
  · rw [hv]
    dsimp only
    rw [modify_self]
    exact ⟨rfl, rfl, rfl, rfl, fun _ => occupy_occupancies_ne g t _⟩
  · rename_i hinvalid
    rw [hv]
    exact ⟨rfl, rfl, rfl, rfl, fun hvalid => absurd hvalid hinvalid⟩

theorem allocateBlock_of_busy {g : Geometry} {t : Tags} {q : MshrQueue} {addr : Addr}
    (h : t.VictimBusy g q addr) (now : Tick) :
    allocateBlock g t q now addr = ((t.findVictim g addr).1, none, []) := by
  obtain ⟨-, hvalid, htag, hset, -⟩ := t.findVictim_spec g addr
  simp only [allocateBlock, hvalid, htag, hset, h.1, h.2, if_true]

theorem granted_of_not_busy {g : Geometry} {t : Tags} {q : MshrQueue} {addr : Addr}
    (h : ¬ t.VictimBusy g q addr) (now : Tick) : (allocateBlock g t q now addr).2.1 ≠ none := by
  obtain ⟨-, hvalid, htag, hset, -⟩ := t.findVictim_spec g addr
  simp only [allocateBlock, hvalid, htag, hset]
  split
  · rename_i hv
    split
    · rename_i hmatch
      exact absurd ⟨hv, hmatch⟩ h
    · split <;> simp
  · simp

theorem keepsRefused_iff (g : Geometry) (t : Tags) (q : MshrQueue) (now : Tick) (addr : Addr) :
    t.KeepsRefused g q now addr ↔ ¬ t.VictimBusy g q addr := by
  constructor
  · intro hkeeps hbusy
    have halloc := allocateBlock_of_busy hbusy now
    obtain ⟨huntouched, -⟩ := hkeeps (by rw [halloc])
    obtain ⟨-, -, -, -, hcounted⟩ := t.findVictim_spec g addr
    apply hcounted hbusy.1
    rw [← huntouched.occupancies, halloc]
  · intro hidle hnone
    exact absurd hnone (granted_of_not_busy hidle now)

end Tags

/-! ## FALRU -/

namespace FaLru

variable {cfg : FaConfig} {t : FaLru}

/-- `regenerateBlkAddr` of the store. -/
def regenerateBlkAddr (tag : Addr) (_set : Nat) : Addr := tag

/-- `writebackBlk` of the cache. -/
def writebackBlk (cfg : FaConfig) (t : FaLru) (now : Tick) (blk : Nat) : FaLru × Packet :=
  (t.modify blk fun b => { b with status := { b.status with dirty := false } },
    { Packet.ofRequest { paddr := regenerateBlkAddr (t.blks blk).tag (t.blks blk).set, size := cfg.blkSize }
        .writeback now with data := (t.blks blk).data })

/-- `allocateBlock` of the cache over this store. -/
def allocateBlock (cfg : FaConfig) (t : FaLru) (mshrQueue : MshrQueue) (now : Tick) (addr : Addr) :
    Option (FaLru × Option Nat × List Packet) := do
  let (t, blk) ← t.findVictim cfg addr
  if (t.blks blk).isValid then
    if (mshrQueue.findMatch (regenerateBlkAddr (t.blks blk).tag (t.blks blk).set)).isSome then
      return (t, none, [])
    else if (t.blks blk).isDirty then
      let w := writebackBlk cfg t now blk
      return (w.1, some blk, [w.2])
    else return (t, some blk, [])
  else return (t, some blk, [])

structure Untouched (cfg : FaConfig) (t t' : FaLru) : Prop where
  found : ∀ addr, t'.findBlock cfg addr = t.findBlock cfg addr
  order : t'.order = t.order
  source : ∀ f, (t'.blks f).contextSrc = (t.blks f).contextSrc
  refs : ∀ f, (t'.blks f).refCount = (t.blks f).refCount

/-- The frame at the tail holds a block with an outstanding request. -/
def VictimBusy (t : FaLru) (q : MshrQueue) : Prop :=
  ∃ f ∈ t.order.getLast?, (t.blks f).isValid = true ∧
    (q.findMatch (regenerateBlkAddr (t.blks f).tag (t.blks f).set)).isSome = true

def KeepsRefused (cfg : FaConfig) (t : FaLru) (q : MshrQueue) (now : Tick) (addr : Addr) : Prop :=
  ∀ t' wbs, t.allocateBlock cfg q now addr = some (t', none, wbs) → t.Untouched cfg t' ∧ wbs = []

/-- What `findVictim` does to the order, and what the cache then reads of the frame. -/
theorem Sound.findVictim_moved (h : t.Sound cfg) (addr : Addr) : ∃ t' f, t.findVictim cfg addr = some (t', f) ∧
    t.order.getLast? = some f ∧ t'.order = f :: t.order.erase f ∧ (t'.blks f).isValid = (t.blks f).isValid ∧
    (t'.blks f).tag = (t.blks f).tag ∧ (t'.blks f).set = (t.blks f).set := by
  obtain ⟨f, hlast, -, hmask⟩ := h.tail
  unfold FaLru.findVictim
  rw [hlast]
  simp only [hmask, Bool.false_eq_true, if_false]
  refine ⟨_, f, rfl, rfl, ?_⟩
  split
  · exact ⟨rfl, rfl, rfl, rfl⟩
  · rw [modify_self]
    exact ⟨rfl, rfl, rfl, rfl⟩

/-- With two frames or more, the tail is not the head, and moving it shows. -/
theorem Sound.move_ne (h : t.Sound cfg) {f : Nat} (hlast : t.order.getLast? = some f) :
    f :: t.order.erase f ≠ t.order := by
  intro heq
  have hlen : t.order.length = cfg.numBlocks := by rw [h.perm.length_eq, List.length_range]
  have htwo : 2 ≤ cfg.numBlocks := by
    have hle := cfg.blkBits_le
    have hpow : 2 ^ 1 ≤ 2 ^ (17 - cfg.blkBits + cfg.numCaches) := Nat.pow_le_pow_right (by decide) (by omega)
    exact hpow
  have hnodup : t.order.Nodup := h.perm.nodup_iff.2 List.nodup_range
  cases horder : t.order with
  | nil =>
    rw [horder] at hlen
    simp only [List.length_nil] at hlen
    omega
  | cons x rest =>
    rw [horder] at heq hlen hnodup hlast
    obtain ⟨rfl, -⟩ := List.cons.inj heq
    have hrest : rest ≠ [] := by
      rintro rfl
      simp only [List.length_cons, List.length_nil] at hlen
      omega
    rw [List.getLast?_cons_of_ne_nil hrest] at hlast
    exact (List.nodup_cons.1 hnodup).1 (List.mem_of_getLast? hlast)

theorem keepsRefused_iff (h : t.Sound cfg) (q : MshrQueue) (now : Tick) (addr : Addr) :
    t.KeepsRefused cfg q now addr ↔ ¬ t.VictimBusy q := by
  obtain ⟨t', f, hvictim, hlast, horder, hvalid, htag, hset⟩ := h.findVictim_moved addr
  constructor
  · rintro hkeeps ⟨f', hf', hbusy, hmatch⟩
    obtain rfl := Option.some.inj (hlast.symm.trans hf')
    have halloc : t.allocateBlock cfg q now addr = some (t', none, []) := by
      rw [allocateBlock, hvictim]
      simp [hvalid, htag, hset, hbusy, hmatch]
    obtain ⟨huntouched, -⟩ := hkeeps t' [] halloc
    exact h.move_ne hlast (horder.symm.trans huntouched.order)
  · intro hidle t'' wbs halloc
    exfalso
    rw [allocateBlock, hvictim] at halloc
    simp only [Option.bind_eq_bind, Option.bind_some, hvalid, htag, hset] at halloc
    split at halloc
    · rename_i hbusy
      split at halloc
      · rename_i hmatch
        exact hidle ⟨f, hlast, hbusy, hmatch⟩
      · split at halloc <;> simp at halloc
    · simp at halloc

end FaLru

/-! ## Both -/

theorem refused_untouched_iff (q : MshrQueue) (now : Tick) (addr : Addr) :
    (∀ (g : Geometry) (t : Tags), t.KeepsRefused g q now addr ↔ ¬ t.VictimBusy g q addr) ∧
      ∀ (cfg : FaConfig) (t : FaLru), FaLru.Reachable cfg t →
        (t.KeepsRefused cfg q now addr ↔ ¬ t.VictimBusy q) :=
  ⟨fun g t => t.keepsRefused_iff g q now addr, fun _ _ h => FaLru.keepsRefused_iff h.sound q now addr⟩

/-- A block is read as a shared copy and then stored to, which takes an upgrade; while that is
outstanding another block of the set is read, and a third one is asked for. -/
def upgradedRun : List Action :=
  sharedRun ++ [.cpuPacket (store 2 4096), .cpuPacket (load 1 4224), .tick 1, .sendPacket true noSnoops,
    .sendPacket true noSnoops, .response (.mshrs, 1) { Packet.ofRequest { paddr := 4224, size := 64 } .readResp 1 with
      data := List.replicate 64 0, shared := true } noSnoops,
    .cpuPacket (load 1 4352), .tick 1, .sendPacket true noSnoops]

/-- Two blocks are filled, and an upgrade for the first one is outstanding. -/
def twoFills : List FaLru.Call := [.fill 0, .fill 0x10000]

def twoFilled : FaLru := (twoFills.foldlM (FaLru.call twoFrames) (FaLru.initial twoFrames)).getD (.initial twoFrames)

theorem reachable_twoFilled : FaLru.Reachable twoFrames twoFilled := by
  have hsome : (twoFills.foldlM (FaLru.call twoFrames) (FaLru.initial twoFrames)).isSome = true := by
    decide +kernel
  obtain ⟨t, ht⟩ := Option.isSome_iff_exists.1 hsome
  exact ⟨twoFills, by rw [twoFilled, ht, Option.getD_some]⟩

def upgradeQueue : MshrQueue :=
  ((MshrQueue.create 4 4).allocate 0 0x10000 (store 2 0) 1 0).1

/-- When the third block comes there is no frame for it. LRU has counted the victim out by then,
and FALRU finds the new block in the frame that still holds the first one. -/
theorem refused_touched :
    (let cfg := smallConfig 6
      let s₀ := Cache.initial cfg Dcpt.initial
      let s := Runs.exec (Cache.step cfg (proxy 0 dcpt)) s₀ upgradedRun
      Runs.Guarded (Cache.step cfg (proxy 0 dcpt)) (Cache.Enabled cfg) s₀ upgradedRun ∧
        (allocateBlock cfg.geom s.tags s.mshrQueue s.curTick 4352).2.1 = none ∧
        ¬ s.tags.KeepsRefused cfg.geom s.mshrQueue s.curTick 4352) ∧
      FaLru.Reachable twoFrames twoFilled ∧ twoFilled.findBlock twoFrames 0x20000 = none ∧
        (twoFilled.allocateBlock twoFrames upgradeQueue 1 0x20000).map
          (fun r => (r.1.findBlock twoFrames 0x20000, r.2)) = some (some 1, none, []) ∧
        ¬ twoFilled.KeepsRefused twoFrames upgradeQueue 1 0x20000 := by
  constructor
  · refine ⟨by decide +kernel, by decide +kernel, ?_⟩
    rw [Tags.keepsRefused_iff, not_not]
    decide +kernel
  · have hbefore : twoFilled.findBlock twoFrames 0x20000 = none := by decide +kernel
    have hrefused : (twoFilled.allocateBlock twoFrames upgradeQueue 1 0x20000).map
        (fun r => (r.1.findBlock twoFrames 0x20000, r.2)) = some (some 1, none, []) := by decide +kernel
    refine ⟨reachable_twoFilled, hbefore, hrefused, ?_⟩
    intro hkeeps
    obtain ⟨r, halloc, heq⟩ := Option.map_eq_some_iff.1 hrefused
    obtain ⟨hafter, hr⟩ := Prod.mk.inj heq
    have hsame := (hkeeps r.1 [] (by rw [halloc, ← hr])).1.found 0x20000
    rw [hbefore, hafter] at hsame
    cases hsame

/-- Two blocks are read into one set, and a block of the other one is asked for. -/
def otherMissRun : List Action :=
  sharedRun ++ [.cpuPacket (load 1 4224), .tick 1, .sendPacket true noSnoops,
    .response (.mshrs, 0) { Packet.ofRequest { paddr := 4224, size := 64 } .readResp 1 with
      data := List.replicate 64 0, shared := true } noSnoops, .cpuPacket (load 1 4160)]

def otherMiss : Cache Dcpt.State :=
  Runs.exec (Cache.step (smallConfig 6) (proxy 0 dcpt)) (Cache.initial (smallConfig 6) Dcpt.initial) otherMissRun

/-- The frames are taken and a miss is outstanding, but not for a victim: nothing is refused. -/
theorem refused_untouched_otherMiss :
    Runs.Guarded (Cache.step (smallConfig 6) (proxy 0 dcpt)) (Cache.Enabled (smallConfig 6))
        (Cache.initial (smallConfig 6) Dcpt.initial) otherMissRun ∧
      (otherMiss.mshrQueue.allocatedList ≠ [] ∧ (otherMiss.tags.findBlock smallGeometry 4096).isSome = true ∧
        (otherMiss.tags.findBlock smallGeometry 4224).isSome = true) ∧
      otherMiss.tags.KeepsRefused smallGeometry otherMiss.mshrQueue otherMiss.curTick 0x20000 ∧
      FaLru.Reachable twoFrames twoFilled ∧
      twoFilled.KeepsRefused twoFrames otherMiss.mshrQueue otherMiss.curTick 0x20000 := by
  obtain ⟨hlru, hfalru⟩ := refused_untouched_iff otherMiss.mshrQueue otherMiss.curTick 0x20000
  -- all tags of the fully associative store are zero, and there is no miss for address zero
  have hzero : (otherMiss.mshrQueue.findMatch 0).isSome = false := by decide +kernel
  refine ⟨by decide +kernel, by decide +kernel, (hlru smallGeometry otherMiss.tags).2 (by decide +kernel),
    reachable_twoFilled, (hfalru twoFrames twoFilled reachable_twoFilled).2 ?_⟩
  rintro ⟨f, -, -, hmatch⟩
  rw [FaLru.regenerateBlkAddr, reachable_twoFilled.sound.tags f, hzero] at hmatch
  cases hmatch

end PrefetchSim
