import PrefetchSim.Mem.Copies

/- What a request on the bus comes back with.

   The bus shows a request to all caches but the sender, one after the other. Each may add to
   the packet that the block is shared; one may answer it, and then the bus takes the command
   back to what it was for those that follow. `Rounds` is what holds after some of the ports;
   from it comes what the sender gets in the end (`recvAtomic_granted`): the command of the
   response, whether the block is shared, whether it comes from an owner, and its data. Nothing
   fails on the way if at most one of the other caches is an owner. -/
namespace PrefetchSim

open Snooping (Copy Line)

variable {ι : Type}

namespace Bus

def blkSize (B : Bus ι) : Nat := 2 ^ B.blkBits

def blockAlign (B : Bus ι) (a : Addr) : Addr := a &&& ~~~(BitVec.ofNat 64 B.blkSize - 1)

theorem geom_blkSize (B : Bus ι) (i : ι) : (B.geom i).blkSize = B.blkSize := by
  rw [Geometry.blkSize, B.blkBits_eq, blkSize]

theorem geom_blockAlign (B : Bus ι) (i : ι) (a : Addr) : (B.geom i).blockAlign a = B.blockAlign a := by
  rw [Geometry.blockAlign, geom_blkSize, blockAlign]

theorem blockAlign_blockAlign (B : Bus ι) (a : Addr) : B.blockAlign (B.blockAlign a) = B.blockAlign a := by
  rw [blockAlign, blockAlign, BitVec.and_assoc, BitVec.and_self]

end Bus

namespace AtomicSystem

/-- The block of an address, with its copies and its place in memory. -/
def line (B : Bus ι) (s : AtomicSystem ι) (a : Addr) : Line ι (List UInt8) where
  copies i := (s.caches i).copy (B.geom i) a
  memory := Bytes.read s.memory.pmem (B.blockAlign a) B.blkSize

def Steady (B : Bus ι) (s : AtomicSystem ι) : Prop := ∀ i, (s.caches i).Steady (B.geom i)

end AtomicSystem

/-- A packet with which a cache asks for a block. -/
structure Asks (B : Bus ι) (pkt : Packet) : Prop where
  cmd : BusRequest pkt.cmd
  cacheable : pkt.req.uncacheable = false
  aligned : B.blockAlign pkt.addr = pkt.addr
  size : pkt.size = B.blkSize
  memInhibit : pkt.memInhibit = false
  shared : pkt.shared = false

/-- What a cache has of the block of `pkt` after the snoop, and of the others. -/
def SnoopedBy (g : Geometry) (pkt : Packet) (t t' : Tags) : Prop :=
  t'.Steady g ∧ ∀ x, t'.copy g x =
    if g.blockAlign x = g.blockAlign pkt.addr then (t.copy g x).bind (snoopedCopy pkt.cmd) else t.copy g x

/-- The snooper may keep a copy to read. -/
def MemCmd.shares (c : MemCmd) : Bool := c.isRead && !c.isInvalidate

section

variable {B : Bus ι} {s : AtomicSystem ι} {src : ι} {pkt : Packet}

/-- A whole block at its own address. -/
theorem setDataFromBlock_whole {q : Packet} {v : List UInt8} (haligned : B.blockAlign q.addr = q.addr)
    (hsize : q.size = B.blkSize) (hv : v.length = B.blkSize) :
    q.setDataFromBlock v B.blkSize = { q with data := v } := by
  have hoff : q.getOffset B.blkSize = 0 := by
    have hzero : q.addr &&& (BitVec.ofNat 64 B.blkSize - 1) = 0 := by
      rw [← haligned, Bus.blockAlign, BitVec.and_assoc, BitVec.and_comm (~~~_), BitVec.and_not_self]
      exact BitVec.and_zero
    rw [Packet.getOffset, hzero]
    rfl
  rw [Packet.setDataFromBlock, Packet.setData, hoff, List.drop_zero, hsize, List.take_of_length_le (le_of_eq hv)]

/-- The packet a cache sends for a request. -/
theorem getBusPacket_asks (B : Bus ι) (i : ι) {c : CpuCmd} (hcmd : pkt.cmd = c.memCmd)
    (hcacheable : pkt.req.uncacheable = false) {blk : Option CacheBlk}
    (hvalid : ∀ b, blk = some b → b.isValid = true) (now : Tick) :
    ∃ busPkt, getBusPacket (B.geom i) now pkt blk pkt.cmd.needsExclusive = some busPkt ∧ Asks B busPkt ∧
      B.blockAlign busPkt.addr = B.blockAlign pkt.req.paddr ∧
      (blk = none → busPkt.cmd = if c.mayWrite then .readExReq else .readReq) ∧
      (∀ b, blk = some b → busPkt.cmd = .upgradeReq ∨ busPkt.cmd = .scUpgradeReq) := by
  have hforward : (pkt.cmd == .writeback || pkt.cmd.isUpgrade) = false := by
    rw [hcmd, c.memCmd_not_upgrade, Bool.or_false]
    exact beq_eq_false_iff_ne.2 c.memCmd_ne_writeback
  have haligned : B.blockAlign (B.blockAlign pkt.req.paddr) = B.blockAlign pkt.req.paddr := B.blockAlign_blockAlign _
  unfold getBusPacket
  rw [hcacheable, hforward, B.geom_blockAlign, B.geom_blkSize, hcmd, CpuCmd.memCmd_needsExclusive]
  cases blk with
  | none =>
    refine ⟨_, rfl, ⟨?_, hcacheable, haligned, rfl, rfl, rfl⟩, haligned, fun _ => rfl, nofun⟩
    cases c.mayWrite
    · exact .read
    · exact .readEx
  | some b =>
    have hv : (some b).any CacheBlk.isValid = true := hvalid b rfl
    simp only [hv]
    refine ⟨_, rfl, ⟨?_, hcacheable, haligned, rfl, rfl, rfl⟩, haligned, nofun, fun _ _ => ?_⟩
    · cases c.memCmd.isLLSC
      · exact .upgrade
      · exact .scUpgrade
    · cases c.memCmd.isLLSC
      · exact Or.inl rfl
      · exact Or.inr rfl

theorem BusRequest.responds {c : MemCmd} (h : BusRequest c) :
    c.isResponse = false ∧ c.responseCommand.isResponse = true ∧ c.responseCommand ≠ c := by
  cases h <;> decide

/-- The response is one that `atomicAccess` fills a block from. -/
theorem BusRequest.fills {c : MemCmd} (h : BusRequest c) :
    c.responseCommand ≠ .networkNackError ∧ c.responseCommand.isError = false ∧
      (c.responseCommand.isRead || c.responseCommand == .upgradeResp) = true := by
  cases h <;> decide

/-- After the ports `done`. -/
structure Rounds (B : Bus ι) (s : AtomicSystem ι) (src : ι) (pkt : Packet) (done : List ι) (r : Snoops ι) : Prop where
  own : r.caches src = s.caches src
  ahead : ∀ j, j ∉ done → r.caches j = s.caches j
  snooped : ∀ j ∈ done, j ≠ src → SnoopedBy (B.geom j) pkt (s.caches j) (r.caches j)
  cmd : r.pkt.cmd = pkt.cmd
  req : r.pkt.req = pkt.req
  addr : r.pkt.addr = pkt.addr
  size : r.pkt.size = pkt.size
  shared : r.pkt.shared = true ↔
    pkt.cmd.shares = true ∧ ∃ j ∈ done, j ≠ src ∧ (s.line B pkt.addr).copies j ≠ none
  memInhibit : r.pkt.memInhibit = true ↔
    ∃ j ∈ done, j ≠ src ∧ ∃ c, (s.line B pkt.addr).copies j = some c ∧ c.dirty = true
  response : r.response = if r.pkt.memInhibit then some pkt.cmd.responseCommand else none
  data : ∀ j ∈ done, j ≠ src → ∀ c, (s.line B pkt.addr).copies j = some c → c.dirty = true → r.pkt.data = c.value

theorem rounds_nil (h : Asks B pkt) : Rounds B s src pkt [] { caches := s.caches, pkt } where
  own := rfl
  ahead _ _ := rfl
  snooped _ hj := by cases hj
  cmd := rfl
  req := rfl
  addr := rfl
  size := rfl
  shared := by simp [h.shared]
  memInhibit := by simp [h.memInhibit]
  response := by simp [h.memInhibit]
  data _ hj := by cases hj

/-- At most one cache owns the block. -/
def OneOwner (l : Line ι (List UInt8)) : Prop :=
  ∀ i c j d, l.copies i = some c → l.copies j = some d → c.dirty = true → d.dirty = true → i = j

theorem exists_mem_snoc {α : Type} {l : List α} {a : α} {P : α → Prop} :
    (∃ b ∈ l ++ [a], P b) ↔ (∃ b ∈ l, P b) ∨ P a := by
  simp [or_and_right, exists_or]

/-- The port of the sender is passed over. -/
theorem Rounds.skip {done : List ι} {r : Snoops ι} (h : Rounds B s src pkt done r) :
    Rounds B s src pkt (done ++ [src]) r where
  own := h.own
  ahead j hj := h.ahead j fun hmem => hj (List.mem_append_left _ hmem)
  snooped j hj hne := h.snooped j ((List.mem_append.1 hj).resolve_right fun e => hne (List.mem_singleton.1 e)) hne
  cmd := h.cmd
  req := h.req
  addr := h.addr
  size := h.size
  shared := by rw [h.shared, exists_mem_snoc]; simp
  memInhibit := by rw [h.memInhibit, exists_mem_snoc]; simp
  response := h.response
  data j hj hne := h.data j ((List.mem_append.1 hj).resolve_right fun e => hne (List.mem_singleton.1 e)) hne

/-- Another port has been snooped; `c` is the copy it had. -/
theorem Rounds.snoc [DecidableEq ι] {done : List ι} {r r' : Snoops ι} (h : Rounds B s src pkt done r)
    (hone : OneOwner (s.line B pkt.addr)) {i : ι} (hi : i ∉ done) (hsrc : i ≠ src) {t : Tags}
    (hcaches : r'.caches = Function.update r.caches i t) (ht : SnoopedBy (B.geom i) pkt (s.caches i) t)
    (hcmd : r'.pkt.cmd = pkt.cmd) (hreq : r'.pkt.req = r.pkt.req) (haddr : r'.pkt.addr = r.pkt.addr)
    (hsize : r'.pkt.size = r.pkt.size) {c : Option (Copy (List UInt8))} (hc : (s.line B pkt.addr).copies i = c)
    (hshared : r'.pkt.shared = (r.pkt.shared || (pkt.cmd.shares && c.isSome)))
    (hinhibit : r'.pkt.memInhibit = (r.pkt.memInhibit || c.any (·.dirty)))
    (hresponse : r'.response = if r'.pkt.memInhibit then some pkt.cmd.responseCommand else none)
    (hdata : ∀ d, c = some d → d.dirty = true → r'.pkt.data = d.value)
    (hdata' : c.any (·.dirty) = false → r'.pkt.data = r.pkt.data) :
    Rounds B s src pkt (done ++ [i]) r' where
  own := by rw [hcaches, Function.update_of_ne (Ne.symm hsrc), h.own]
  ahead j hj := by
    have hji : j ≠ i := fun e => hj (List.mem_append_right _ (List.mem_singleton.2 e))
    rw [hcaches, Function.update_of_ne hji, h.ahead j fun hmem => hj (List.mem_append_left _ hmem)]
  snooped j hj hne := by
    rw [hcaches]
    by_cases hji : j = i
    · subst hji
      rw [Function.update_self]
      exact ht
    · rw [Function.update_of_ne hji]
      exact h.snooped j ((List.mem_append.1 hj).resolve_right fun e => hji (List.mem_singleton.1 e)) hne
  cmd := hcmd
  req := hreq.trans h.req
  addr := haddr.trans h.addr
  size := hsize.trans h.size
  shared := by
    rw [hshared, exists_mem_snoc, Bool.or_eq_true, h.shared, Bool.and_eq_true, and_or_left, hc]
    simp [hsrc, Option.isSome_iff_ne_none]
  memInhibit := by
    rw [hinhibit, exists_mem_snoc, Bool.or_eq_true, h.memInhibit, hc]
    cases c <;> simp [hsrc]
  response := hresponse
  data j hj hne d hd hdirty := by
    rcases List.mem_append.1 hj with hmem | hji
    · -- an owner that was snooped before is the only one
      have hold : c.any (·.dirty) = false := by
        cases hany : c.any (·.dirty) with
        | false => rfl
        | true =>
          cases c with
          | none => cases hany
          | some e => exact absurd (hone j d i e hd hc hdirty hany ▸ hmem) hi
      rw [hdata' hold]
      exact h.data j hmem hne d hd hdirty
    · obtain rfl := List.mem_singleton.1 hji
      exact hdata d (hc.symm.trans hd) hdirty

variable [DecidableEq ι]

/-- One more port. -/
theorem Rounds.next {done : List ι} {r : Snoops ι} (h : Rounds B s src pkt done r) (hask : Asks B pkt)
    (hs : s.Steady B) (hsize : ∀ j c, (s.line B pkt.addr).copies j = some c → c.value.length = B.blkSize)
    (hone : OneOwner (s.line B pkt.addr)) {i : ι} (hi : i ∉ done) :
    ∃ r', B.snoop src pkt.cmd r i = some r' ∧ Rounds B s src pkt (done ++ [i]) r' := by
  unfold Bus.snoop
  by_cases hsrc : i = src
  · rw [if_pos hsrc]
    subst hsrc
    exact ⟨r, rfl, h.skip⟩
  · rw [if_neg hsrc, h.ahead i hi]
    have hfree : ∀ c, (s.caches i).copy (B.geom i) r.pkt.addr = some c → c.dirty = true → r.pkt.memInhibit = false := by
      intro c hc hd
      rw [h.addr] at hc
      cases hinhibit : r.pkt.memInhibit with
      | false => rfl
      | true =>
        obtain ⟨j, hj, -, d, hd', hdd⟩ := h.memInhibit.1 hinhibit
        exact absurd (hone j d i c hd' hc hdd hd ▸ hj) hi
    have hcmd : BusRequest r.pkt.cmd := h.cmd ▸ hask.cmd
    have hcacheable : r.pkt.req.uncacheable = false := h.req ▸ hask.cacheable
    obtain ⟨t, hsnoop, hsteady, hcopies⟩ := snoopAtomic_spec (hs i) hcmd hcacheable hfree
    have ht : SnoopedBy (B.geom i) pkt (s.caches i) t := by
      refine ⟨hsteady, ?_⟩
      rw [← h.cmd, ← h.addr]
      exact hcopies
    obtain ⟨hnotresp, hresp, hne⟩ := hask.cmd.responds
    rw [hsnoop, h.addr]
    dsimp only
    have hci : (s.line B pkt.addr).copies i = (s.caches i).copy (B.geom i) pkt.addr := rfl
    rw [h.addr] at hfree
    cases hc : (s.caches i).copy (B.geom i) pkt.addr with
    | none =>
      rw [snoopedPacket, h.cmd, hnotresp]
      simp only [Bool.false_eq_true, if_false]
      refine ⟨_, rfl, ?_⟩
      exact h.snoc hone hi hsrc rfl ht h.cmd rfl rfl rfl (hci.trans hc) (by simp) (by simp) h.response nofun
        fun _ => rfl
    | some c =>
      cases hd : c.dirty with
      | false =>
        simp only [snoopedPacket, hd, h.cmd, hnotresp, Bool.false_eq_true, if_false]
        refine ⟨_, rfl, ?_⟩
        refine h.snoc hone hi hsrc rfl ht rfl rfl rfl rfl (hci.trans hc) (by simp [MemCmd.shares]) (by simp [hd])
          h.response ?_ fun _ => rfl
        intro d hcd hdd
        obtain rfl := Option.some.inj hcd
        rw [hd] at hdd
        cases hdd
      | true =>
        -- the owner answers, and the command is taken back
        have hinhibit := hfree c hc hd
        have hnone : r.response = none := by rw [h.response, hinhibit]; rfl
        have hwhole : ∀ q : Packet, q.addr = pkt.addr → q.size = pkt.size →
            q.setDataFromBlock c.value (B.geom i).blkSize = { q with data := c.value } := by
          intro q haddr hqsize
          rw [B.geom_blkSize]
          refine setDataFromBlock_whole ?_ (hqsize.trans hask.size) (hsize i c hc)
          rw [haddr]
          exact hask.aligned
        simp only [snoopedPacket, hd, Packet.makeAtomicResponse, Packet.makeTimingResponse, hwhole, h.addr, h.size,
          h.cmd, hresp, if_true, ne_eq, hne, not_false_eq_true, hnone, and_self]
        refine ⟨_, rfl, ?_⟩
        refine h.snoc hone hi hsrc rfl ht rfl rfl h.addr.symm h.size.symm (hci.trans hc) (by simp [MemCmd.shares])
          (by simp [hd]) rfl ?_ ?_
        · intro d hcd _
          obtain rfl := Option.some.inj hcd
          rfl
        · intro hclean
          simp [hd] at hclean

/-- All the ports. -/
theorem Rounds.all (src : ι) (hask : Asks B pkt) (hs : s.Steady B)
    (hsize : ∀ j c, (s.line B pkt.addr).copies j = some c → c.value.length = B.blkSize)
    (hone : OneOwner (s.line B pkt.addr)) :
    ∀ (todo done : List ι) (r : Snoops ι), Rounds B s src pkt done r → (done ++ todo).Nodup →
      ∃ r', todo.foldlM (B.snoop src pkt.cmd) r = some r' ∧ Rounds B s src pkt (done ++ todo) r'
  | [], done, r, h, _ => ⟨r, rfl, by rwa [List.append_nil]⟩
  | i :: todo, done, r, h, hnd => by
    have hi : i ∉ done := fun hmem =>
      (List.nodup_append.1 hnd).2.2 i hmem i List.mem_cons_self rfl
    obtain ⟨r₁, hstep, h₁⟩ := h.next hask hs hsize hone hi
    obtain ⟨r', hrest, h'⟩ := Rounds.all src hask hs hsize hone todo (done ++ [i]) r₁ h₁ (by simpa using hnd)
    refine ⟨r', ?_, by simpa using h'⟩
    rw [List.foldlM_cons, hstep]
    exact hrest

end

/-! ## The response -/

section

variable {B : Bus ι} {s : AtomicSystem ι} {src : ι} {pkt : Packet}

/-- What the sender gets, and what is left with the others. -/
structure Grants (B : Bus ι) (src : ι) (s s' : AtomicSystem ι) (pkt pkt' : Packet) : Prop where
  memory : s'.memory = s.memory
  own : s'.caches src = s.caches src
  others : ∀ j, j ≠ src → SnoopedBy (B.geom j) pkt (s.caches j) (s'.caches j)
  cmd : pkt'.cmd = pkt.cmd.responseCommand
  addr : pkt'.addr = pkt.addr
  shared : pkt'.shared = true ↔
    pkt.cmd.shares = true ∧ ∃ j, j ≠ src ∧ (s.line B pkt.addr).copies j ≠ none
  memInhibit : pkt'.memInhibit = true ↔ (s.line B pkt.addr).OwnedBeside src
  data : pkt.cmd.isRead = true → (s.line B pkt.addr).Supplied src pkt'.data

theorem Grants.copies {s' : AtomicSystem ι} {pkt' : Packet} (h : Grants B src s s' pkt pkt') {j : ι} (hj : j ≠ src)
    (x : Addr) :
    (s'.caches j).copy (B.geom j) x =
      if B.blockAlign x = B.blockAlign pkt.addr then
        ((s.caches j).copy (B.geom j) x).bind (snoopedCopy pkt.cmd)
      else (s.caches j).copy (B.geom j) x := by
  have hx := (h.others j hj).2 x
  rwa [B.geom_blockAlign, B.geom_blockAlign] at hx

theorem Grants.steady {s' : AtomicSystem ι} {pkt' : Packet} (h : Grants B src s s' pkt pkt') (hs : s.Steady B) :
    s'.Steady B := by
  intro j
  by_cases hj : j = src
  · subst hj
    rw [h.own]
    exact hs j
  · exact (h.others j hj).1

variable [DecidableEq ι]

/-- Memory answers a request for a block, unless that has been done. -/
theorem doAtomicAccess_request {q : Packet} (hcmd : BusRequest q.cmd) (m : PhysicalMemory) (latency : Tick)
    (hopen : q.memInhibit = false) :
    m.doAtomicAccess latency q = some (m, { q with
      cmd := q.cmd.responseCommand, expressSnoop := false
      data := if q.cmd.isRead then (Bytes.read m.pmem q.addr q.size).take q.size else q.data }, latency) := by
  obtain ⟨cmd, req, addr, size⟩ := q
  dsimp only at hcmd hopen
  subst hopen
  cases hcmd <;> rfl

theorem recvAtomic_granted (src : ι) (hask : Asks B pkt) (hs : s.Steady B)
    (hsize : ∀ j c, (s.line B pkt.addr).copies j = some c → c.value.length = B.blkSize)
    (hone : OneOwner (s.line B pkt.addr)) (now memLatency : Tick) :
    ∃ s' pkt' lat, B.recvAtomic s src now memLatency pkt = some (s', pkt', lat) ∧ Grants B src s s' pkt pkt' := by
  obtain ⟨r, hrun, h⟩ := Rounds.all src hask hs hsize hone B.snoopPorts [] _ (rounds_nil hask) B.nodup
  rw [List.nil_append] at h
  obtain ⟨hreq, -⟩ := hask.cmd.attributes
  obtain ⟨hnotresp, -, -⟩ := hask.cmd.responds
  have hmem := B.all_snoop
  have hshared : r.pkt.shared = true ↔
      pkt.cmd.shares = true ∧ ∃ j, j ≠ src ∧ (s.line B pkt.addr).copies j ≠ none := by
    rw [h.shared]
    simp [hmem]
  have hinhibit : r.pkt.memInhibit = true ↔ (s.line B pkt.addr).OwnedBeside src := by
    rw [h.memInhibit]
    simp [hmem, Line.OwnedBeside]
  rw [Bus.recvAtomic, hreq, hrun]
  simp only [Bool.not_true, Bool.false_eq_true, if_false, Option.bind_eq_bind, Option.bind_some]
  cases hin : r.pkt.memInhibit with
  | true =>
    -- memory stays out of it, and the response of the owner is restored
    have hresponse : r.response = some pkt.cmd.responseCommand := by rw [h.response, hin]; rfl
    rw [PhysicalMemory.doAtomicAccess, hin]
    simp only [if_true, Option.bind_some, Bus.finish, hresponse, h.cmd, hnotresp, bne_self_eq_false, Bool.or_self,
      Bool.false_eq_true, if_false]
    refine ⟨_, _, _, rfl, ⟨rfl, h.own, fun j hj => h.snooped j (hmem j) hj, rfl, h.addr, hshared, hinhibit, ?_⟩⟩
    intro _
    obtain ⟨j, hj, c, hc, hd⟩ := hinhibit.1 hin
    exact Or.inl ⟨j, hj, c, hc, hd, h.data j (hmem j) hj c hc hd⟩
  | false =>
    have hresponse : r.response = none := by rw [h.response, hin]; rfl
    rw [doAtomicAccess_request (h.cmd ▸ hask.cmd) s.memory memLatency hin]
    simp only [Option.bind_some, Bus.finish, hresponse]
    refine ⟨_, _, _, rfl,
      ⟨rfl, h.own, fun j hj => h.snooped j (hmem j) hj, by rw [h.cmd], h.addr, hshared, hinhibit, ?_⟩⟩
    intro hread
    refine Or.inr ⟨fun hown => ?_, ?_⟩
    · rw [hinhibit.2 hown] at hin
      cases hin
    · simp only [h.cmd, hread, if_true, h.addr, h.size, hask.size]
      rw [List.take_of_length_le (by rw [Bytes.length_read])]
      rw [AtomicSystem.line, hask.aligned]

/-- A writeback goes to memory and nowhere else. -/
theorem recvAtomic_writeback (hcmd : pkt.cmd = .writeback) (hdata : pkt.data.length = pkt.size)
    (hopen : pkt.memInhibit = false) (src : ι) (s : AtomicSystem ι) (now memLatency : Tick) :
    ∃ pkt' lat m, B.recvAtomic s src now memLatency pkt = some (⟨s.caches, m⟩, pkt', lat) ∧
      m.pmem = Bytes.write s.memory.pmem pkt.addr pkt.data := by
  have hround : ∀ i, B.snoop src pkt.cmd { caches := s.caches, pkt } i = some { caches := s.caches, pkt } := by
    intro i
    unfold Bus.snoop snoopAtomic
    rw [hcmd]
    split
    · rfl
    · simp only [beq_self_eq_true, Bool.or_true, if_true, Function.update_eq_self, hcmd]
      rfl
  have hrun : ∀ ports : List ι, ports.foldlM (B.snoop src pkt.cmd) { caches := s.caches, pkt } =
      some { caches := s.caches, pkt } := by
    intro ports
    induction ports with
    | nil => rfl
    | cons i ports ih =>
      rw [List.foldlM_cons, hround]
      exact ih
  have hllsc : pkt.cmd.isLLSC = false := by rw [hcmd]; rfl
  have hok : ∃ m, s.memory.writeOK pkt = (m, pkt, true) ∧ m.pmem = s.memory.pmem := by
    unfold PhysicalMemory.writeOK PhysicalMemory.checkLockedAddrList
    rw [hllsc]
    split <;> exact ⟨_, rfl, rfl⟩
  obtain ⟨m, hwrite, hpmem⟩ := hok
  have haccess : s.memory.doAtomicAccess memLatency pkt =
      some ({ m with pmem := Bytes.write s.memory.pmem pkt.addr pkt.data }, pkt, memLatency) := by
    have hserve : s.memory.serve pkt = some ({ m with pmem := Bytes.write s.memory.pmem pkt.addr pkt.data }, pkt) := by
      unfold PhysicalMemory.serve
      rw [hwrite, hcmd, ← hdata, List.take_length, ← hpmem]
      rfl
    rw [PhysicalMemory.doAtomicAccess, hopen, hserve, Option.map_some, hcmd]
    rfl
  rw [Bus.recvAtomic, hrun]
  simp only [Option.bind_eq_bind, Option.bind_some, haccess, Bus.finish]
  rw [hcmd]
  exact ⟨_, _, _, rfl, rfl⟩

end

end PrefetchSim
