import PrefetchSim.Lib.Snooping
import PrefetchSim.Mem.Atomic
import PrefetchSim.Mem.Lines

/- The copies a tag store holds.

   To the protocol between caches a tag store is a map from addresses to copies: the data of the
   block that holds the address, and whether it is writable and dirty. Here is what each thing
   the cache does in atomic mode does to that map: a snoop takes rights or the copy away, a fill
   puts a copy in and may take another one out, a request writes to the copy or leaves it. -/
namespace PrefetchSim

open Snooping (Copy)

def CacheBlk.copy (b : CacheBlk) : Copy (List UInt8) := ⟨b.data, b.isWritable, b.isDirty⟩

namespace Tags

variable {g : Geometry} {t t' : Tags} {a x : Addr} {p : BlkPtr}

def copy (g : Geometry) (t : Tags) (a : Addr) : Option (Copy (List UInt8)) :=
  (t.findBlock g a).map fun p => (t.blks p).copy

/-- A tag store between two accesses of atomic mode: no block is waiting for a right to read. -/
structure Steady (g : Geometry) (t : Tags) : Prop where
  wf : t.WellFormed g
  housed : t.Housed g
  readable : ∀ p, (t.blks p).isValid = true → (t.blks p).status.readable = true

theorem initial_steady (g : Geometry) : (initial g).Steady g where
  wf := initial_wellFormed g
  housed := initial_housed g
  readable p h := by cases p <;> cases h

theorem initial_copy (g : Geometry) (a : Addr) : (initial g).copy g a = none := by
  rw [copy, initial_findBlock]
  rfl

/-! ## Addresses of one block -/

theorem findBlock_align (h : g.blockAlign x = g.blockAlign a) : t.findBlock g x = t.findBlock g a := by
  calc t.findBlock g x = t.findBlock g (g.block x).1 := (findBlock_block t x).symm
    _ = t.findBlock g (g.block a).1 := congrArg (t.findBlock g) h
    _ = t.findBlock g a := findBlock_block t a

theorem copy_align (h : g.blockAlign x = g.blockAlign a) : t.copy g x = t.copy g a := by
  rw [copy, findBlock_align h, copy]

theorem align_of_findBlock (hx : t.findBlock g x = some p) (ha : t.findBlock g a = some p) :
    g.blockAlign x = g.blockAlign a := by
  have hblock : t.findBlock g (g.block x).1 = some p := by rw [findBlock_block, hx]
  exact congrArg Subtype.val (findBlock_inj hblock ha)

theorem copy_of_findBlock (h : t.findBlock g a = some p) : t.copy g a = some (t.blks p).copy := by
  rw [copy, h, Option.map_some]

theorem copy_eq_none : t.copy g a = none ↔ t.findBlock g a = none := Option.map_eq_none_iff

/-! ## Writes to a block -/

/-- One block is rewritten, and every lookup finds what it found. -/
theorem copy_update {b : CacheBlk} (hfind : ∀ x, t'.findBlock g x = t.findBlock g x)
    (hblks : t'.blks = Function.update t.blks p b) (hp : t.findBlock g a = some p) (x : Addr) :
    t'.copy g x = if g.blockAlign x = g.blockAlign a then some b.copy else t.copy g x := by
  unfold copy
  rw [hfind, hblks]
  split
  · rename_i h
    rw [findBlock_align h, hp, Option.map_some, Function.update_self]
  · rename_i h
    cases hx : t.findBlock g x with
    | none => rfl
    | some p' =>
      have hne : p' ≠ p := fun e => h (align_of_findBlock (e ▸ hx) hp)
      rw [Option.map_some, Option.map_some, Function.update_of_ne hne]

theorem copy_modify {f : CacheBlk → CacheBlk} (hf : t.Inert p f) (hp : t.findBlock g a = some p) (x : Addr) :
    (t.modify p f).copy g x = if g.blockAlign x = g.blockAlign a then some (f (t.blks p)).copy else t.copy g x :=
  copy_update (fun x => findBlock_modify hf g x) rfl hp x

theorem copy_invalidateBlk (ht : t.WellFormed g) (hp : t.findBlock g a = some p) (x : Addr) :
    (t.invalidateBlk g p).copy g x = if g.blockAlign x = g.blockAlign a then none else t.copy g x := by
  have hfind : (t.invalidateBlk g p).findBlock g x =
      if t.findBlock g x = some p then none else t.findBlock g x := ht.findBlk_invalidateBlk p _ _
  unfold copy
  rw [hfind]
  by_cases h : g.blockAlign x = g.blockAlign a
  · rw [findBlock_align h, if_pos hp, if_pos h, Option.map_none]
  · rw [if_neg h]
    have hne : t.findBlock g x ≠ some p := fun e => h (align_of_findBlock e hp)
    rw [if_neg hne]
    cases hx : t.findBlock g x with
    | none => rfl
    | some p' =>
      have hp' : p' ≠ p := fun e => hne (e ▸ hx)
      rw [Option.map_some, Option.map_some, invalidateBlk_blks, Function.update_of_ne hp']

theorem Quiet.copy (h : Quiet t t') (ht : t.WellFormed g) (x : Addr) : t'.copy g x = t.copy g x := by
  unfold Tags.copy findBlock
  rw [h.findBlk ht]
  simp only [CacheBlk.copy, CacheBlk.isWritable, CacheBlk.isDirty, h.data, h.status]

theorem Quiet.steady (h : Quiet t t') (ht : t.Steady g) : t'.Steady g where
  wf := h.wellFormed ht.wf
  housed := h.housed ht.housed
  readable p := by
    rw [CacheBlk.isValid, h.status]
    exact ht.readable p

theorem accessBlock_lockList (g : Geometry) (t : Tags) (now : Tick) (a : Addr) (p : BlkPtr) :
    ((t.accessBlock g now a).1.blks p).lockList = (t.blks p).lockList := by
  unfold accessBlock
  split
  · rfl
  · rename_i q _
    by_cases hp : p = q
    · rw [hp, modify_self, promote_blks]
    · rw [modify_of_ne _ hp, promote_blks]

theorem Steady.modify (ht : t.Steady g) {f : CacheBlk → CacheBlk} (hf : t.Inert p f)
    (hread : (f (t.blks p)).isValid = true → (f (t.blks p)).status.readable = true) : (t.modify p f).Steady g where
  wf := ht.wf.modify hf
  housed := ht.housed.modify hf
  readable q := by
    by_cases hq : q = p
    · rw [hq, modify_self]
      exact hread
    · rw [modify_of_ne t hq]
      exact ht.readable q

theorem Steady.invalidateBlk (ht : t.Steady g) (p : BlkPtr) : (t.invalidateBlk g p).Steady g where
  wf := ht.wf.invalidateBlk p
  housed := ht.housed.invalidateBlk p
  readable q := by
    rw [invalidateBlk_blks]
    by_cases hq : q = p
    · rw [hq, Function.update_self]
      intro hv
      cases hv
    · rw [Function.update_of_ne hq]
      exact ht.readable q

end Tags

/-! ## Snoops -/

/-- The commands a cache sends on the bus for a block it misses or may not write. -/
inductive BusRequest : MemCmd → Prop where
  | read : BusRequest .readReq
  | readEx : BusRequest .readExReq
  | upgrade : BusRequest .upgradeReq
  | scUpgrade : BusRequest .scUpgradeReq

/-- Each of them is a request for which a response is made, and makes no other demands than to
read or to invalidate. -/
theorem BusRequest.attributes {c : MemCmd} (h : BusRequest c) :
    c.isRequest = true ∧ c.needsResponse = true ∧ (c == .writeback) = false ∧
      (c.isRead && !c.isInvalidate && c.needsExclusive) = false ∧ (c.isRead || c.isInvalidate) = true := by
  cases h <;> decide

/-- What a snoop leaves of a copy. -/
def snoopedCopy (cmd : MemCmd) (c : Copy (List UInt8)) : Option (Copy (List UInt8)) :=
  if cmd.isInvalidate then none else some { c with writable := false }

/-- The packet after the snoop of a cache with this copy. -/
def snoopedPacket (g : Geometry) (pkt : Packet) : Option (Copy (List UInt8)) → Packet
  | none => pkt
  | some c =>
    let answer := { pkt with shared := pkt.shared || (pkt.cmd.isRead && !pkt.cmd.isInvalidate) }
    if c.dirty then
      ({ answer with
        memInhibit := true
        supplyExclusive := answer.supplyExclusive || c.writable }.makeAtomicResponse).setDataFromBlock
          c.value g.blkSize
    else answer

section

variable {g : Geometry} {t : Tags} {pkt : Packet}

/-- A snoop does not fail unless a second cache would have to respond. -/
theorem snoopAtomic_spec (ht : t.Steady g) (hcmd : BusRequest pkt.cmd) (hcacheable : pkt.req.uncacheable = false)
    (hone : ∀ c, t.copy g pkt.addr = some c → c.dirty = true → pkt.memInhibit = false) :
    ∃ t', snoopAtomic g t pkt = some (t', snoopedPacket g pkt (t.copy g pkt.addr), g.hitLatency) ∧ t'.Steady g ∧
      ∀ x, t'.copy g x =
        if g.blockAlign x = g.blockAlign pkt.addr then (t.copy g x).bind (snoopedCopy pkt.cmd) else t.copy g x := by
  obtain ⟨hreq, hresp, hwb, hexcl, hkind⟩ := hcmd.attributes
  rw [snoopAtomic, hcacheable, hwb]
  simp only [Bool.or_false, Bool.false_eq_true, if_false, handleSnoopAtomic, hreq, Bool.not_true]
  cases hp : t.findBlock g pkt.addr with
  | none =>
    have hnone : t.copy g pkt.addr = none := Tags.copy_eq_none.2 hp
    rw [hnone]
    refine ⟨t, rfl, ht, ?_⟩
    intro x
    split
    · rename_i h
      rw [Tags.copy_align h, hnone]
      rfl
    · rfl
  | some p =>
    have hvalid := Tags.findBlock_valid hp
    have hcopy := Tags.copy_of_findBlock hp
    have hbusy : ((t.blks p).isDirty && pkt.memInhibit) = false := by
      cases hd : (t.blks p).isDirty with
      | false => rfl
      | true => rw [hone _ hcopy hd, Bool.and_false]
    rw [hcopy]
    simp only [hvalid, hresp, Bool.and_true, hbusy, hexcl, Bool.or_self, Bool.false_eq_true, if_false, Bool.not_true]
    refine ⟨_, rfl, ?_⟩
    cases hinv : pkt.cmd.isInvalidate with
    | true =>
      simp only [Bool.not_true, Bool.and_false, Bool.false_eq_true, if_false, if_true]
      refine ⟨ht.invalidateBlk p, ?_⟩
      intro x
      rw [Tags.copy_invalidateBlk ht.wf hp]
      split
      · rename_i h
        rw [Tags.copy_align h, hcopy, Option.bind_some, snoopedCopy, if_pos hinv]
      · rfl
    | false =>
      have hread : pkt.cmd.isRead = true := by simpa [hinv] using hkind
      have hf : t.Inert p fun b => { b with status := { b.status with writable := false } } := .inr ⟨rfl, rfl, rfl⟩
      simp only [hread, Bool.not_false, Bool.and_self, if_true, Bool.false_eq_true, if_false]
      refine ⟨ht.modify hf fun hv => ht.readable p hv, ?_⟩
      intro x
      rw [Tags.copy_modify hf hp]
      split
      · rename_i h
        rw [Tags.copy_align h, hcopy, Option.bind_some, snoopedCopy, hinv]
        rfl
      · rfl

end

/-! ## Fills -/

/-- The copy a response makes of the data `value`. -/
def filledCopy (pkt : Packet) (value : List UInt8) : Copy (List UInt8) :=
  ⟨value, !pkt.shared, !pkt.shared && pkt.memInhibit⟩

/-- What a tag store loses, besides what happens to the block of `a`: nothing, or one other
copy, which is written back if it is dirty. -/
inductive Displaces (g : Geometry) (t t' : Tags) (a : Addr) : List Packet → Prop where
  | none (kept : ∀ x, g.blockAlign x ≠ g.blockAlign a → t'.copy g x = t.copy g x) : Displaces g t t' a []
  | clean (v : Addr) (c : Copy (List UInt8)) (held : t.copy g v = some c) (other : g.blockAlign v ≠ g.blockAlign a)
      (kept : ∀ x, g.blockAlign x ≠ g.blockAlign a →
        t'.copy g x = if g.blockAlign x = g.blockAlign v then Option.none else t.copy g x)
      (isClean : c.dirty = false) : Displaces g t t' a []
  | dirty (v : Addr) (c : Copy (List UInt8)) (held : t.copy g v = some c) (other : g.blockAlign v ≠ g.blockAlign a)
      (kept : ∀ x, g.blockAlign x ≠ g.blockAlign a →
        t'.copy g x = if g.blockAlign x = g.blockAlign v then Option.none else t.copy g x)
      (isDirty : c.dirty = true) (pkt : Packet) (gives : GivesBack g (g.block v) c.value pkt)
      (fresh : pkt.memInhibit = false) : Displaces g t t' a [pkt]

theorem Displaces.align {g : Geometry} {t t' : Tags} {a a' : Addr} {wbs : List Packet}
    (h : Displaces g t t' a wbs) (ha : g.blockAlign a = g.blockAlign a') : Displaces g t t' a' wbs := by
  cases h with
  | none kept => exact .none (ha ▸ kept)
  | clean v c held other kept isClean => exact .clean v c held (ha ▸ other) (ha ▸ kept) isClean
  | dirty v c held other kept isDirty pkt gives fresh =>
    exact .dirty v c held (ha ▸ other) (ha ▸ kept) isDirty pkt gives fresh

section

variable {g : Geometry} {t t' : Tags} {pkt : Packet} {p : BlkPtr}

theorem Tags.Installs.displaces {a : Addr} {w : Nat} (inst : Installs t t' (g.extractSet a) w (g.extractTag a))
    (ht : t.Steady g) (habsent : t.findBlock g a = none) (hw : w ∈ t.ways (g.extractSet a)) (now : Tick) :
    t'.findBlock g a = some (.frame (g.extractSet a) w) ∧
      Displaces g t t' a (if (t.blks (.frame (g.extractSet a) w)).isValid &&
          (t.blks (.frame (g.extractSet a) w)).isDirty then
        [writebackPacket g now (t.blks (.frame (g.extractSet a) w))] else []) := by
  have hfind : ∀ x, t'.findBlock g x =
      if g.blockAlign x = g.blockAlign a then some (.frame (g.extractSet a) w)
      else if t.findBlock g x = some (.frame (g.extractSet a) w) then none else t.findBlock g x := by
    intro x
    have hx := inst.findBlock ht.wf habsent hw (g.block x)
    have hblock : g.block x = g.block a ↔ g.blockAlign x = g.blockAlign a := Subtype.ext_iff
    rw [findBlock_block, findBlock_block] at hx
    simpa only [hblock] using hx
  have hother : ∀ x q, t.findBlock g x = some q → q ≠ .frame (g.extractSet a) w → t'.blks q = t.blks q :=
    fun x q hx hne => inst.blks_of_ne hx hne
  have hvictim := ht.housed.found ht.wf hw
  refine ⟨by rw [hfind, if_pos rfl], ?_⟩
  generalize BlkPtr.frame (g.extractSet a) w = p at hfind hother hvictim ⊢
  have hafter : ∀ x, g.blockAlign x ≠ g.blockAlign a →
      t'.copy g x = if t.findBlock g x = some p then none else t.copy g x := by
    intro x hx
    unfold copy
    rw [hfind, if_neg hx]
    split
    · rfl
    · rename_i hne
      cases hq : t.findBlock g x with
      | none => rfl
      | some q => rw [Option.map_some, Option.map_some, hother x q hq fun e => hne (e ▸ hq)]
  cases hvalid : (t.blks p).isValid with
  | false =>
    refine .none fun x hx => ?_
    rw [hafter x hx, if_neg]
    intro hp
    rw [findBlock_valid hp] at hvalid
    cases hvalid
  | true =>
    -- the frame held the block of `v`
    obtain ⟨v, hfound, hblk⟩ := hvictim hvalid
    have hne : g.blockAlign v.1 ≠ g.blockAlign a := by
      intro e
      rw [findBlock_align e, habsent] at hfound
      cases hfound
    have hkept : ∀ x, g.blockAlign x ≠ g.blockAlign a →
        t'.copy g x = if g.blockAlign x = g.blockAlign v.1 then none else t.copy g x := by
      intro x hx
      rw [hafter x hx]
      by_cases h : g.blockAlign x = g.blockAlign v.1
      · rw [if_pos h, findBlock_align h, if_pos hfound]
      · rw [if_neg h, if_neg fun hp => h (align_of_findBlock hp hfound)]
    cases hd : (t.blks p).isDirty with
    | false => exact .clean v.1 _ (copy_of_findBlock hfound) hne hkept hd
    | true =>
      refine .dirty v.1 _ (copy_of_findBlock hfound) hne hkept hd _ ⟨rfl, ?_, rfl, rfl⟩ rfl
      rw [Geometry.block_val]
      exact hblk

/-- A response for a block that is not there: a frame is found for it. -/
theorem handleFill_new (ht : t.Steady g) (habsent : t.findBlock g pkt.addr = none) (hread : pkt.cmd.isRead = true)
    (now : Tick) :
    let f := handleFill g t noMisses now pkt none
    f.1.Steady g ∧ f.1.findBlock g pkt.addr = some f.2.1 ∧ (f.1.blks f.2.1).copy = filledCopy pkt pkt.data ∧
      Displaces g t f.1 pkt.addr f.2.2 := by
  have hwf := ht.wf.handleFill noMisses now habsent
  obtain ⟨w, hw, halloc⟩ := allocateBlock_allocation ht.wf noMisses now pkt.addr
  unfold handleFill at hwf ⊢
  dsimp only at hwf ⊢
  generalize allocateBlock g t noMisses now pkt.addr = r at halloc hwf ⊢
  cases halloc with
  | refused _ _ busy => cases busy
  | granted hways other hset _ =>
    have inst := @Tags.installs_of_insert g t _ pkt.addr w pkt.req.contextId
      (fun b => { b with
        status := fillStatus pkt
        data := if pkt.cmd.isRead then pkt.data else b.data
        whenReady := pkt.finishTime }) hw hways other
      (hset.trans (ht.wf.set_eq _ _)) (fun _ => rfl) (fun _ => rfl) (fun _ => rfl)
    obtain ⟨hfound, hroom⟩ := inst.displaces ht habsent hw now
    refine ⟨⟨hwf, inst.housed ht.housed, ?_⟩, hfound, ?_, hroom⟩
    · intro q
      by_cases hq : q = .frame (g.extractSet pkt.addr) w
      · rw [hq, Tags.modify_self]
        intro _
        rfl
      · rw [Tags.modify_of_ne _ hq, Tags.insertBlock_blks, Function.update_of_ne hq, other q hq]
        exact ht.readable q
    · rw [Tags.modify_self, hread]
      simp [CacheBlk.copy, CacheBlk.isWritable, CacheBlk.isDirty, fillStatus, filledCopy]

/-- A response for a block that is there, without data: it gets new rights. -/
theorem handleFill_upgrade (ht : t.Steady g) (hp : t.findBlock g pkt.addr = some p)
    (hread : pkt.cmd.isRead = false) (now : Tick) :
    let f := handleFill g t noMisses now pkt (some p)
    f.1.Steady g ∧ f.1.findBlock g pkt.addr = some p ∧ f.2.1 = p ∧ f.2.2 = [] ∧
      f.1.blks p = { t.blks p with status := fillStatus pkt, whenReady := pkt.finishTime } ∧
      ∀ x, f.1.copy g x =
        if g.blockAlign x = g.blockAlign pkt.addr then some (filledCopy pkt (t.blks p).data) else t.copy g x := by
  have hvalid := Tags.findBlock_valid hp
  unfold handleFill
  dsimp only
  rw [hread]
  simp only [Bool.false_eq_true, if_false]
  have hf : t.Inert p fun b => { b with status := fillStatus pkt, whenReady := pkt.finishTime } :=
    .inr ⟨rfl, rfl, hvalid.symm⟩
  refine ⟨ht.modify hf fun _ => rfl, ?_, trivial, trivial, Tags.modify_self .., ?_⟩
  · rw [Tags.findBlock_modify hf, hp]
  · intro x
    rw [Tags.copy_modify hf hp]
    simp [CacheBlk.copy, CacheBlk.isWritable, CacheBlk.isDirty, fillStatus, filledCopy]

end

/-! ## Requests of a CPU -/

/-- Whether a request writes to the block it is satisfied from. -/
def writesTo (g : Geometry) (b : CacheBlk) (pkt : Packet) : Bool :=
  if pkt.cmd = .swapReq then
    !pkt.req.condSwap ||
      decide ((b.data.drop (g.extractBlkOffset pkt.addr)).take pkt.size = littleEndian pkt.size pkt.req.extraData)
  else pkt.cmd.isWrite && (b.checkWrite pkt).2.2

/-- Only the data of the block and its locks matter. -/
theorem writesTo_congr (g : Geometry) {b b' : CacheBlk} (hdata : b'.data = b.data) (hlocks : b'.lockList = b.lockList)
    (pkt : Packet) : writesTo g b' pkt = writesTo g b pkt := by
  have hcheck : (b'.checkWrite pkt).2.2 = (b.checkWrite pkt).2.2 := by
    unfold CacheBlk.checkWrite
    rw [hlocks]
    split <;> rfl
  rw [writesTo, hdata, hcheck, writesTo]

/-- The copy a request leaves. -/
def servedCopy (g : Geometry) (b : CacheBlk) (pkt : Packet) : Copy (List UInt8) :=
  if writesTo g b pkt then
    { b.copy with
      value := Bytes.splice b.data (pkt.getOffset g.blkSize) (pkt.data.take pkt.size)
      dirty := true }
  else b.copy

section

variable {g : Geometry} {t : Tags} {pkt : Packet} {p : BlkPtr} {c : CpuCmd}

theorem satisfiedBlk_served (hcmd : pkt.cmd = c.memCmd) (hsize : pkt.size ≠ g.blkSize) (b : CacheBlk) :
    (satisfiedBlk g pkt b).copy = servedCopy g b pkt ∧ (satisfiedBlk g pkt b).isValid = b.isValid ∧
      (satisfiedBlk g pkt b).status.readable = b.status.readable := by
  unfold satisfiedBlk servedCopy writesTo
  simp only [hcmd, CpuCmd.memCmd_swap, CpuCmd.memCmd_isWrite, CpuCmd.memCmd_isRead, CpuCmd.memCmd_isLLSC, hsize,
    if_false]
  cases c with
  | swap =>
    simp only [if_true]
    split <;> exact ⟨rfl, rfl, rfl⟩
  | store | storeCond =>
    simp only [reduceCtorEq, if_false, CpuCmd.mayWrite, if_true, Bool.true_and]
    split <;> exact ⟨rfl, rfl, rfl⟩
  | load | loadLocked => exact ⟨rfl, rfl, rfl⟩

theorem givesUp_cpu (hcmd : pkt.cmd = c.memCmd) : givesUp g pkt = false := by
  rw [givesUp, hcmd]
  cases c <;> simp [CpuCmd.mayWrite, CpuCmd.returnsData]

/-- A request is satisfied from a block of the cache. -/
theorem satisfy_served (ht : t.Steady g) (hp : t.findBlock g pkt.addr = some p) (hcmd : pkt.cmd = c.memCmd)
    (hsize : pkt.size ≠ g.blkSize) :
    let r := satisfyCpuSideRequest g t p pkt
    r.1.Steady g ∧ ∀ x, r.1.copy g x =
      if g.blockAlign x = g.blockAlign pkt.addr then some (servedCopy g (t.blks p) pkt) else t.copy g x := by
  obtain ⟨hserved, hvalid, hread⟩ := satisfiedBlk_served hcmd hsize (t.blks p)
  obtain ⟨f, hf, htags⟩ := satisfy_tags g t p pkt
  rw [givesUp_cpu hcmd] at htags
  have hblks := satisfy_blks g t p pkt
  refine ⟨⟨ht.wf.satisfy p pkt, ?_, ?_⟩, ?_⟩
  · rw [htags]
    exact ht.housed.modify (hf.inert t p)
  · intro q
    rw [hblks]
    by_cases hq : q = p
    · rw [hq, Function.update_self, hvalid, hread]
      exact ht.readable p
    · rw [Function.update_of_ne hq]
      exact ht.readable q
  · intro x
    rw [← hserved]
    refine Tags.copy_update (fun x => ?_) hblks hp x
    rw [htags]
    exact Tags.findBlock_modify (hf.inert t p) g x

/-- What the CPU is told: the bytes that were there, or whether a store-conditional was done. -/
theorem satisfy_reply (g : Geometry) (t : Tags) (p : BlkPtr) (hcmd : pkt.cmd = c.memCmd)
    (hsize : pkt.size ≠ g.blkSize) :
    let r := satisfyCpuSideRequest g t p pkt
    r.2.cmd = pkt.cmd ∧
      (c.returnsData = true → r.2.data = ((t.blks p).data.drop (pkt.getOffset g.blkSize)).take pkt.size) ∧
      (c = .storeCond → (r.2.req.extraData = 1 ↔ writesTo g (t.blks p) pkt = true)) := by
  dsimp only
  refine ⟨(satisfy_pkt g t p pkt).1, ?_, ?_⟩
  · intro hdata
    unfold satisfyCpuSideRequest
    simp only [hcmd, CpuCmd.memCmd_swap, CpuCmd.memCmd_isWrite, CpuCmd.memCmd_isRead, CpuCmd.memCmd_isLLSC]
    cases c with
    | store | storeCond => cases hdata
    | swap => rfl
    | load => simp [CpuCmd.mayWrite, CpuCmd.returnsData, Packet.setDataFromBlock, Packet.setData, hsize]
    | loadLocked =>
      simp [CpuCmd.mayWrite, CpuCmd.returnsData, Packet.setDataFromBlock, Packet.setData, hsize,
        CacheBlk.trackLoadLocked]
  · rintro rfl
    have hllsc : pkt.cmd.isLLSC = true := by rw [hcmd]; rfl
    have hwrite : pkt.cmd.isWrite = true := by rw [hcmd]; rfl
    have hswap : pkt.cmd ≠ .swapReq := by rw [hcmd]; decide
    unfold satisfyCpuSideRequest writesTo CacheBlk.checkWrite
    simp only [hswap, hwrite, hllsc, if_true, if_false, Bool.true_and]
    split <;> rename_i hok <;> simp [hok, Packet.setExtraData]

theorem mayWrite_of_writesTo {b : CacheBlk} (hcmd : pkt.cmd = c.memCmd) (h : writesTo g b pkt = true) :
    c.mayWrite = true := by
  unfold writesTo at h
  rw [hcmd, CpuCmd.memCmd_isWrite] at h
  cases c with
  | load | loadLocked => exact absurd h (by simp [CpuCmd.mayWrite])
  | store | storeCond | swap => rfl

/-- What becomes of a request of a CPU when the block is looked up. -/
inductive Lookup (g : Geometry) (t : Tags) (pkt : Packet) (c : CpuCmd) : AccessResult → Prop where
  /-- a store-conditional gives up without a block -/
  | failed (lat : Nat) (absent : t.findBlock g pkt.addr = none) (cond : c = .storeCond) :
      Lookup g t pkt c { tags := t, pkt := pkt.setExtraData 0, blk := none, lat, satisfied := true }
  | missed (lat : Nat) (absent : t.findBlock g pkt.addr = none) (other : c ≠ .storeCond) :
      Lookup g t pkt c { tags := t, pkt, blk := none, lat, satisfied := false }
  | hit (lat : Nat) (t₁ : Tags) (p : BlkPtr) (quiet : t.Quiet t₁) (found : t₁.findBlock g pkt.addr = some p)
      (rights : c.mayWrite = true → (t₁.blks p).isWritable = true) :
      Lookup g t pkt c { tags := (satisfyCpuSideRequest g t₁ p pkt).1, pkt := (satisfyCpuSideRequest g t₁ p pkt).2
                         blk := some p, lat, satisfied := true }
  | denied (lat : Nat) (t₁ : Tags) (p : BlkPtr) (quiet : t.Quiet t₁) (found : t₁.findBlock g pkt.addr = some p)
      (wants : c.mayWrite = true) (rights : (t₁.blks p).isWritable = false)
      (same : writesTo g (t₁.blks p) pkt = writesTo g (t.blks p) pkt) :
      Lookup g t pkt c { tags := t₁, pkt, blk := some p, lat, satisfied := false }

theorem accessAtomic_lookup (ht : t.Steady g) (now : Tick) (hcmd : pkt.cmd = c.memCmd)
    (hcacheable : pkt.req.uncacheable = false) :
    Lookup g t pkt c (AtomicSystem.accessAtomic g t now pkt) := by
  have hfound := t.accessBlock_found g now pkt.addr
  have quiet := t.accessBlock_quiet g now pkt.addr
  have locks := t.accessBlock_lockList g now pkt.addr
  rw [AtomicSystem.accessAtomic, hcacheable]
  simp only [Bool.false_eq_true, if_false]
  cases hp : t.findBlock g pkt.addr with
  | none =>
    have hacc : t.accessBlock g now pkt.addr = (t, g.hitLatency, none) := by rw [Tags.accessBlock, hp]
    rw [access, hacc]
    have hcond : (decide (c = .loadLocked ∨ c = .storeCond) && c.mayWrite) = decide (c = .storeCond) := by
      cases c <;> rfl
    simp only [hcmd, c.memCmd_ne_writeback, if_false, CpuCmd.memCmd_isLLSC, CpuCmd.memCmd_isWrite, hcond,
      decide_eq_true_eq]
    split
    · rename_i h
      exact .failed _ hp h
    · rename_i h
      exact .missed _ hp h
  | some p =>
    unfold access
    generalize t.accessBlock g now pkt.addr = acc at hfound quiet locks ⊢
    obtain ⟨t₁, lat, blk⟩ := acc
    dsimp only at hfound quiet locks ⊢
    rw [hp] at hfound
    subst hfound
    have hp₁ : t₁.findBlock g pkt.addr = some p := (quiet.findBlk ht.wf _ _).trans hp
    have hvalid := Tags.findBlock_valid hp₁
    have hread : (t₁.blks p).isReadable = true := by
      rw [CacheBlk.isReadable, (quiet.steady ht).readable p hvalid]
      exact hvalid
    simp only [permits, hcmd, CpuCmd.memCmd_needsExclusive, hread]
    cases hwants : c.mayWrite with
    | false => exact .hit lat t₁ p quiet hp₁ (by simp [hwants])
    | true =>
      cases hrights : (t₁.blks p).isWritable with
      | true => exact .hit lat t₁ p quiet hp₁ fun _ => hrights
      | false =>
        simp only [if_true, Bool.false_eq_true, if_false, c.memCmd_ne_writeback]
        exact .denied lat t₁ p quiet hp₁ hwants hrights (writesTo_congr g (quiet.data p) (locks p) pkt)

end

end PrefetchSim
