import PrefetchSim.Mem.BusSnoop

/- One access in atomic mode, as moves on the lines.

   An access is a lookup, a request on the bus if the block is not there or may not be written,
   a fill, the access itself, and the writeback of what the fill has displaced. On the line of
   its block that is one of the moves of `Snooping` by which a party gets a copy, and perhaps a
   write; on every other line nothing, or a copy is given up. -/
namespace PrefetchSim

open Snooping (Copy Line)

variable {ι : Type}

/-! ## Bytes of a block -/

namespace Bus

variable {B : Bus ι}

theorem blkBits_lt (B : Bus ι) (i : ι) : B.blkBits < 64 := by
  have hfits := (B.geom i).fits
  rw [B.blkBits_eq] at hfits
  omega

theorem dvd_blockAlign (hk : B.blkBits < 64) (a : Addr) : 2 ^ B.blkBits ∣ (B.blockAlign a).toNat :=
  (Words.align_eq_iff hk _).1 (B.blockAlign_blockAlign a)

/-- A whole block is written. -/
theorem read_write_block (hk : B.blkBits < 64) (m : Addr → UInt8) (v x : Addr) {bytes : List UInt8}
    (hbytes : bytes.length = B.blkSize) :
    Bytes.read (Bytes.write m (B.blockAlign v) bytes) (B.blockAlign x) B.blkSize =
      if B.blockAlign x = B.blockAlign v then bytes else Bytes.read m (B.blockAlign x) B.blkSize := by
  have hfit : 0 + bytes.length ≤ 2 ^ B.blkBits := by
    rw [hbytes, Nat.zero_add]
    exact le_refl _
  have hstart : B.blockAlign v + BitVec.ofNat 64 0 = B.blockAlign v := BitVec.add_zero _
  split
  · rename_i h
    have hspliced := Bytes.read_write hk m (B.blockAlign v) hfit
    rw [hstart, Bytes.splice_whole (by rw [Bytes.length_read, hbytes]; rfl)] at hspliced
    rw [h]
    exact hspliced
  · rename_i h
    have hsame := Bytes.read_write_of_ne hk m (dvd_blockAlign hk v) (dvd_blockAlign hk x) h hfit
    rwa [hstart] at hsame

end Bus

/-! ## The lines of a system -/

namespace AtomicSystem

variable {B : Bus ι} {s s' : AtomicSystem ι} {i : ι} {a x : Addr}

theorem line_align (h : B.blockAlign x = B.blockAlign a) : s.line B x = s.line B a := by
  have hcopies : ∀ j, (s.caches j).copy (B.geom j) x = (s.caches j).copy (B.geom j) a := fun j =>
    Tags.copy_align (by rw [B.geom_blockAlign, B.geom_blockAlign, h])
  simp only [line, hcopies, h]

/-- Systems with the same copies and the same bytes have the same line. -/
theorem line_congr (hcopies : ∀ j, (s'.caches j).copy (B.geom j) x = (s.caches j).copy (B.geom j) x)
    (hmemory : Bytes.read s'.memory.pmem (B.blockAlign x) B.blkSize =
      Bytes.read s.memory.pmem (B.blockAlign x) B.blkSize) : s'.line B x = s.line B x := by
  simp only [line, hcopies, hmemory]

variable [DecidableEq ι]

@[simp] theorem setTags_self (s : AtomicSystem ι) (i : ι) (t : Tags) : (s.setTags i t).caches i = t :=
  Function.update_self ..

theorem setTags_of_ne (s : AtomicSystem ι) {i j : ι} (h : j ≠ i) (t : Tags) : (s.setTags i t).caches j = s.caches j :=
  Function.update_of_ne h ..

theorem setTags_setTags (s : AtomicSystem ι) (i : ι) (t t' : Tags) : (s.setTags i t).setTags i t' = s.setTags i t' := by
  simp [setTags]

theorem Steady.setTags (hs : s.Steady B) {t : Tags} (ht : t.Steady (B.geom i)) : (s.setTags i t).Steady B := by
  intro j
  by_cases hj : j = i
  · subst hj
    rwa [setTags_self]
  · rw [setTags_of_ne s hj]
    exact hs j

/-- A change of the tags of one cache that is not seen in a line. -/
theorem line_setTags {t : Tags} (h : t.copy (B.geom i) x = (s.caches i).copy (B.geom i) x) :
    (s.setTags i t).line B x = s.line B x := by
  refine line_congr (fun j => ?_) rfl
  by_cases hj : j = i
  · subst hj
    rw [setTags_self, h]
  · rw [setTags_of_ne s hj]

/-! ## The access itself -/

variable {pkt : Packet} {c : CpuCmd} {p : BlkPtr}

/-- The request is satisfied: what the block was, and what it is now. -/
theorem serve_lines (hs : s.Steady B) (hp : (s.caches i).findBlock (B.geom i) pkt.addr = some p)
    (hcmd : pkt.cmd = c.memCmd) (hsize : pkt.size ≠ B.blkSize) :
    let b := (s.caches i).blks p
    let s' := s.setTags i (satisfyCpuSideRequest (B.geom i) (s.caches i) p pkt).1
    s'.Steady B ∧ (∀ x, B.blockAlign x ≠ B.blockAlign pkt.addr → s'.line B x = s.line B x) ∧
      (writesTo (B.geom i) b pkt = false → s'.line B pkt.addr = s.line B pkt.addr) ∧
      (writesTo (B.geom i) b pkt = true → b.isWritable = true →
        Line.Writes i (Bytes.splice b.data (pkt.getOffset B.blkSize) (pkt.data.take pkt.size))
          (s.line B pkt.addr) (s'.line B pkt.addr)) := by
  intro b s'
  have hsize' : pkt.size ≠ (B.geom i).blkSize := by rwa [B.geom_blkSize]
  obtain ⟨hsteady, hcopies⟩ := satisfy_served (hs i) hp hcmd hsize'
  simp only [B.geom_blockAlign] at hcopies
  have hown : (s.caches i).copy (B.geom i) pkt.addr = some b.copy := Tags.copy_of_findBlock hp
  refine ⟨hs.setTags hsteady, ?_, ?_, ?_⟩
  · intro x hx
    apply line_setTags
    rw [hcopies, if_neg hx]
  · intro hkeeps
    apply line_setTags
    rw [hcopies, if_pos rfl, servedCopy, hkeeps, hown]
    rfl
  · intro hwrites hrights
    refine ⟨⟨b.copy, hown, hrights, ?_⟩, ?_, rfl⟩
    · show (s'.caches i).copy (B.geom i) pkt.addr = _
      rw [setTags_self, hcopies, if_pos rfl, servedCopy, if_pos hwrites, B.geom_blkSize]
    · intro j hj
      show (s'.caches j).copy (B.geom j) pkt.addr = _
      rw [setTags_of_ne s hj]
      rfl

/-! ## The writebacks -/

/-- One copy is given up, and its data goes to memory if it is dirty. -/
theorem lines_of_drop {s'' : AtomicSystem ι} {v : Addr} {c : Copy (List UInt8)}
    (held : (s.caches i).copy (B.geom i) v = some c)
    (hmemory : ∀ x, Bytes.read s''.memory.pmem (B.blockAlign x) B.blkSize =
      if c.dirty = true ∧ B.blockAlign x = B.blockAlign v then c.value
      else Bytes.read s.memory.pmem (B.blockAlign x) B.blkSize)
    (hown : (s''.caches i).copy (B.geom i) x =
      if B.blockAlign x = B.blockAlign v then none else (s.caches i).copy (B.geom i) x)
    (hothers : ∀ j, j ≠ i → (s''.caches j).copy (B.geom j) x = (s.caches j).copy (B.geom j) x) :
    s''.line B x = s.line B x ∨ Line.Drops i (s.line B x) (s''.line B x) := by
  by_cases hx : B.blockAlign x = B.blockAlign v
  · right
    rw [line_align (s := s) hx]
    refine ⟨⟨c, held, ?_⟩, ?_, ?_⟩
    · show Bytes.read s''.memory.pmem (B.blockAlign x) B.blkSize = _
      rw [hmemory, hx]
      simp [line]
    · show (s''.caches i).copy (B.geom i) x = none
      rw [hown, if_pos hx]
    · intro j hj
      show (s''.caches j).copy (B.geom j) x = _
      rw [hothers j hj]
      exact congrFun (congrArg Line.copies (line_align hx)) j
  · left
    refine line_congr (fun j => ?_) ?_
    · by_cases hj : j = i
      · subst hj
        rw [hown, if_neg hx]
      · exact hothers j hj
    · rw [hmemory, if_neg fun h => hx h.2]

/-- What the fill has displaced goes to memory: each line but that of `a` is as it was, or cache
`i` has given up its copy. -/
theorem sendWritebacks_lines (s' : AtomicSystem ι) {t' : Tags} {wbs : List Packet}
    (hd : Displaces (B.geom i) (s.caches i) t' a wbs)
    (hsize : ∀ x c, (s.line B x).copies i = some c → c.value.length = B.blkSize) (hmemory : s'.memory = s.memory)
    (hown : ∀ x, B.blockAlign x ≠ B.blockAlign a → (s'.caches i).copy (B.geom i) x = t'.copy (B.geom i) x)
    (hothers : ∀ j, j ≠ i → ∀ x, B.blockAlign x ≠ B.blockAlign a →
      (s'.caches j).copy (B.geom j) x = (s.caches j).copy (B.geom j) x) (now memLatency : Tick) :
    ∃ s'' : AtomicSystem ι, s'.sendWritebacks B i now memLatency wbs = some s'' ∧ s''.caches = s'.caches ∧
      s''.line B a = s'.line B a ∧
      ∀ x, B.blockAlign x ≠ B.blockAlign a → s''.line B x = s.line B x ∨ Line.Drops i (s.line B x) (s''.line B x) := by
  have hk := B.blkBits_lt i
  cases hd with
  | none kept =>
    simp only [B.geom_blockAlign] at kept
    refine ⟨s', rfl, rfl, rfl, fun x hx => Or.inl ?_⟩
    refine line_congr (fun j => ?_) (by rw [hmemory])
    by_cases hj : j = i
    · subst hj
      rw [hown x hx, kept x hx]
    · exact hothers j hj x hx
  | clean v c held other kept isClean =>
    simp only [B.geom_blockAlign] at kept
    refine ⟨s', rfl, rfl, rfl, fun x hx => ?_⟩
    refine lines_of_drop held (fun y => ?_) ((hown x hx).trans (kept x hx)) fun j hj => hothers j hj x hx
    rw [hmemory, isClean]
    simp
  | dirty v c held other kept isDirty wb gives fresh =>
    simp only [B.geom_blockAlign] at kept other
    have hdata : wb.data.length = wb.size := by
      rw [gives.data, gives.size, B.geom_blkSize]
      exact hsize v c held
    have haddr : wb.addr = B.blockAlign v := gives.addr.trans (B.geom_blockAlign i v)
    obtain ⟨reply, lat, m, hsend, hpmem⟩ := recvAtomic_writeback (B := B) gives.cmd hdata fresh i s' now memLatency
    rw [haddr, gives.data, hmemory] at hpmem
    have hread := fun y => Bus.read_write_block hk s.memory.pmem v y (hsize v c held)
    refine ⟨⟨s'.caches, m⟩, ?_, rfl, ?_, fun x hx => ?_⟩
    · rw [sendWritebacks, List.foldlM_cons, hsend]
      rfl
    · refine line_congr (fun _ => rfl) ?_
      rw [hpmem, hread, if_neg (Ne.symm other), hmemory]
    · refine lines_of_drop held (fun y => ?_) ((hown x hx).trans (kept x hx)) fun j hj => hothers j hj x hx
      rw [hpmem, hread]
      simp [isDirty]

/-! ## The request on the bus and the fill -/

/-- What an access relies on in the state it starts from. -/
structure Ready (B : Bus ι) (s : AtomicSystem ι) : Prop where
  steady : s.Steady B
  whole : ∀ x j c, (s.line B x).copies j = some c → c.value.length = B.blkSize
  owner : ∀ x, OneOwner (s.line B x)

/-- Cache `i` has got the block of `a` for `c`, in block `p`, and displaced `wbs`. -/
structure Obtains (B : Bus ι) (i : ι) (c : CpuCmd) (a : Addr) (s s' : AtomicSystem ι) (p : BlkPtr)
    (wbs : List Packet) : Prop where
  steady : s'.Steady B
  found : (s'.caches i).findBlock (B.geom i) a = some p
  gets : Line.Gets i c.mayWrite (s.line B a) (s'.line B a)
  memory : s'.memory = s.memory
  others : ∀ j, j ≠ i → ∀ x, B.blockAlign x ≠ B.blockAlign a →
    (s'.caches j).copy (B.geom j) x = (s.caches j).copy (B.geom j) x
  displaced : Displaces (B.geom i) (s.caches i) (s'.caches i) a wbs

section

variable {s₁ : AtomicSystem ι} {busPkt reply : Packet}

/-- Cache `i` takes the response `reply` in; `v` is what its copy then holds. -/
theorem gets_of_fill (h : Grants B i s s₁ busPkt reply) (haddr : B.blockAlign busPkt.addr = B.blockAlign a)
    {t : Tags} {v : List UInt8} (hcopy : t.copy (B.geom i) a = some (filledCopy reply v))
    (hexcl : busPkt.cmd.isInvalidate = c.mayWrite) (hread : c.mayWrite = false → busPkt.cmd.isRead = true)
    (hlacks : ∀ d, (s.line B a).copies i = some d → d.writable = false)
    (habsent : c.mayWrite = false → (s.line B a).copies i = none)
    (hvalue : (∃ d, (s.line B a).copies i = some d ∧ v = d.value) ∨
      (s.line B a).copies i = none ∧ (s.line B a).Supplied i v) :
    Line.Gets i c.mayWrite (s.line B a) ((s₁.setTags i t).line B a) := by
  have hline : s.line B busPkt.addr = s.line B a := line_align haddr
  have hown : ((s₁.setTags i t).line B a).copies i = some (filledCopy reply v) := by
    show ((s₁.setTags i t).caches i).copy (B.geom i) a = _
    rw [setTags_self, hcopy]
  have hothers : ∀ j, j ≠ i → ((s₁.setTags i t).line B a).copies j =
      ((s.line B a).copies j).bind (snoopedCopy busPkt.cmd) := by
    intro j hj
    show ((s₁.setTags i t).caches j).copy (B.geom j) a = _
    rw [setTags_of_ne s₁ hj, h.copies hj, if_pos haddr.symm]
    rfl
  have hmemory : ((s₁.setTags i t).line B a).memory = (s.line B a).memory := by
    show Bytes.read s₁.memory.pmem _ _ = _
    rw [h.memory]
    rfl
  have hshared := h.shared
  have hinhibit := h.memInhibit
  rw [hline] at hshared hinhibit
  unfold MemCmd.shares at hshared
  cases hwants : c.mayWrite with
  | false =>
    rw [hwants] at hexcl
    refine .reads ⟨habsent hwants, ⟨_, hown, ?_, ?_, ?_⟩, ?_, hmemory⟩
    · rcases hvalue with ⟨d, hd, -⟩ | ⟨-, hsupplied⟩
      · rw [habsent hwants] at hd
        cases hd
      · exact hsupplied
    · -- an owner has a copy, so the block is shared
      show (!reply.shared && reply.memInhibit) = false
      cases hin : reply.memInhibit with
      | false => exact Bool.and_false _
      | true =>
        obtain ⟨j, hj, d, hd, -⟩ := hinhibit.1 hin
        have hhas : (s.line B a).copies j ≠ none := by rw [hd]; exact Option.some_ne_none d
        rw [hshared.2 ⟨by rw [hread hwants, hexcl]; rfl, j, hj, hhas⟩]
        rfl
    · intro hsole j hj
      by_contra hhas
      have := hshared.2 ⟨by rw [hread hwants, hexcl]; rfl, j, hj, hhas⟩
      simp [filledCopy, this] at hsole
    · intro j hj
      rw [hothers j hj]
      cases (s.line B a).copies j with
      | none => rfl
      | some d => rw [Option.bind_some, snoopedCopy, hexcl]; rfl
  | true =>
    rw [hwants] at hexcl
    have hnot : reply.shared = false := by
      cases hsh : reply.shared with
      | false => rfl
      | true => simp [hsh, hexcl] at hshared
    refine .takes hlacks
      ⟨⟨_, hown, by simp [filledCopy, hnot], by simp [filledCopy, hnot, hinhibit], hvalue⟩, ?_, hmemory⟩
    intro j hj
    rw [hothers j hj]
    cases (s.line B a).copies j with
    | none => rfl
    | some d => rw [Option.bind_some, snoopedCopy, hexcl]; rfl

/-- The response for a block that was not there. -/
theorem obtains_new (hs : s.Steady B) (h : Grants B i s s₁ busPkt reply)
    (haddr : B.blockAlign busPkt.addr = B.blockAlign a)
    (hcmd : busPkt.cmd = if c.mayWrite then .readExReq else .readReq)
    (habsent : (s.caches i).findBlock (B.geom i) a = none) (now : Tick) :
    let f := handleFill (B.geom i) (s₁.caches i) noMisses now reply none
    Obtains B i c a s (s₁.setTags i f.1) f.2.1 f.2.2 := by
  have halign : (B.geom i).blockAlign reply.addr = (B.geom i).blockAlign a := by
    rw [B.geom_blockAlign, B.geom_blockAlign, h.addr, haddr]
  have habsent' : (s.caches i).findBlock (B.geom i) reply.addr = none := by
    rw [Tags.findBlock_align halign, habsent]
  have hnone : (s.line B a).copies i = none := Tags.copy_eq_none.2 habsent
  have hread : reply.cmd.isRead = true := by
    rw [h.cmd, hcmd]
    split <;> rfl
  have hask : busPkt.cmd.isRead = true ∧ busPkt.cmd.isInvalidate = c.mayWrite := by
    rw [hcmd]
    cases c.mayWrite <;> exact ⟨rfl, rfl⟩
  obtain ⟨hsteady, hfound, hcopy, hroom⟩ := handleFill_new (hs i) habsent' hread now
  rw [h.own]
  intro f
  have hfound' : f.1.findBlock (B.geom i) a = some f.2.1 := (Tags.findBlock_align halign).symm.trans hfound
  refine ⟨(h.steady hs).setTags hsteady, ?_, ?_, h.memory, ?_, ?_⟩
  · rw [setTags_self]
    exact hfound'
  · have hsupplied := h.data hask.1
    rw [line_align haddr] at hsupplied
    refine gets_of_fill h haddr ((Tags.copy_of_findBlock hfound').trans (congrArg some hcopy)) hask.2
      (fun _ => hask.1) ?_ (fun _ => hnone) (Or.inr ⟨hnone, hsupplied⟩)
    intro d hd
    rw [hnone] at hd
    cases hd
  · intro j hj x hx
    rw [setTags_of_ne s₁ hj, h.copies hj, if_neg (haddr ▸ hx)]
  · rw [setTags_self]
    exact hroom.align halign

/-- The response to an upgrade. -/
theorem obtains_upgrade (hs : s.Steady B) (h : Grants B i s s₁ busPkt reply)
    (haddr : B.blockAlign busPkt.addr = B.blockAlign a) (hcmd : busPkt.cmd = .upgradeReq ∨ busPkt.cmd = .scUpgradeReq)
    (hp : (s.caches i).findBlock (B.geom i) a = some p) (hwants : c.mayWrite = true)
    (hlacks : ((s.caches i).blks p).isWritable = false) (now : Tick) (pkt : Packet) :
    let f := handleFill (B.geom i) (s₁.caches i) noMisses now reply (some p)
    Obtains B i c a s (s₁.setTags i f.1) f.2.1 f.2.2 ∧
      writesTo (B.geom i) (f.1.blks f.2.1) pkt = writesTo (B.geom i) ((s.caches i).blks p) pkt := by
  have halign : (B.geom i).blockAlign reply.addr = (B.geom i).blockAlign a := by
    rw [B.geom_blockAlign, B.geom_blockAlign, h.addr, haddr]
  have hp' : (s.caches i).findBlock (B.geom i) reply.addr = some p := (Tags.findBlock_align halign).trans hp
  have hown : (s.line B a).copies i = some ((s.caches i).blks p).copy := Tags.copy_of_findBlock hp
  have hask : reply.cmd.isRead = false ∧ busPkt.cmd.isInvalidate = true := by
    rw [h.cmd]
    rcases hcmd with hcmd | hcmd <;> rw [hcmd] <;> exact ⟨rfl, rfl⟩
  obtain ⟨hsteady, hfound, hptr, hwbs, hblk, hcopies⟩ := handleFill_upgrade (hs i) hp' hask.1 now
  rw [h.own]
  intro f
  have hfound' : f.1.findBlock (B.geom i) a = some p := (Tags.findBlock_align halign).symm.trans hfound
  have hcopy : f.1.copy (B.geom i) a = some (filledCopy reply ((s.caches i).blks p).data) := by
    rw [hcopies, if_pos halign.symm]
  rw [show f.2.1 = p from hptr, show f.2.2 = [] from hwbs]
  refine ⟨⟨(h.steady hs).setTags hsteady, ?_, ?_, h.memory, ?_, ?_⟩, ?_⟩
  · rw [setTags_self]
    exact hfound'
  · refine gets_of_fill h haddr hcopy (hask.2.trans hwants.symm) ?_ ?_ ?_ (Or.inl ⟨_, hown, rfl⟩)
    · rw [hwants]
      nofun
    · intro d hd
      rw [← Option.some.inj (hown.symm.trans hd)]
      exact hlacks
    · rw [hwants]
      nofun
  · intro j hj x hx
    rw [setTags_of_ne s₁ hj, h.copies hj, if_neg (haddr ▸ hx)]
  · rw [setTags_self]
    refine .none fun x hx => ?_
    rw [hcopies, if_neg (halign ▸ hx)]
  · refine writesTo_congr _ ?_ ?_ pkt
    · rw [hblk]
    · rw [hblk]

end

/-- A request that could not be satisfied is, once the block is obtained. -/
theorem missAtomic_obtains (hs : s.Ready B) (hcmd : pkt.cmd = c.memCmd) (hcacheable : pkt.req.uncacheable = false)
    (haddr : pkt.addr = pkt.req.paddr) {r : AccessResult} (hr : r.pkt = pkt)
    (hblk : r.blk = (s.caches i).findBlock (B.geom i) pkt.addr)
    (hlacks : ∀ q, r.blk = some q → c.mayWrite = true ∧ ((s.caches i).blks q).isWritable = false)
    (now memLatency : Tick) :
    ∃ s' p wbs lat, Obtains B i c pkt.addr s s' p wbs ∧
      (∀ q, r.blk = some q →
        writesTo (B.geom i) ((s'.caches i).blks p) pkt = writesTo (B.geom i) ((s.caches i).blks q) pkt) ∧
      s.missAtomic B i now memLatency r =
        some (s'.setTags i (satisfyCpuSideRequest (B.geom i) (s'.caches i) p pkt).1,
          (satisfyCpuSideRequest (B.geom i) (s'.caches i) p pkt).2, lat, r.writebacks ++ wbs) := by
  have hvalid : ∀ b, r.blk.map (s.caches i).blks = some b → b.isValid = true := by
    intro b hb
    obtain ⟨q, hq, rfl⟩ := Option.map_eq_some_iff.1 hb
    exact Tags.findBlock_valid (hblk.symm.trans hq)
  obtain ⟨busPkt, hbus, hask, halign, hnew, hold⟩ := getBusPacket_asks B i hcmd hcacheable hvalid now
  rw [← haddr] at halign
  obtain ⟨s₁, reply, lat, hrecv, hgrants⟩ :=
    recvAtomic_granted i hask hs.steady (hs.whole busPkt.addr) (hs.owner busPkt.addr) now memLatency
  obtain ⟨-, hresp, -⟩ := hask.cmd.responds
  obtain ⟨hnack, herr, hfills⟩ := hask.cmd.fills
  rw [← hgrants.cmd] at hnack hresp herr hfills
  have hneeds : pkt.cmd.needsResponse = true := by rw [hcmd, CpuCmd.memCmd_needsResponse]
  have hmiss : s.missAtomic B i now memLatency r =
      let f := handleFill (B.geom i) (s₁.caches i) noMisses now reply r.blk
      let q := satisfyCpuSideRequest (B.geom i) f.1 f.2.1 pkt
      some (s₁.setTags i q.1, q.2, r.lat + lat, r.writebacks ++ f.2.2) := by
    unfold missAtomic
    rw [hr]
    simp only [hbus, hrecv, Option.bind_eq_bind, Option.bind_some, hnack, hresp, herr, hfills, hneeds, if_false,
      if_true, Bool.not_true, Bool.false_eq_true]
  rw [hmiss]
  dsimp only
  cases hfound : r.blk with
  | none =>
    rw [hfound] at hnew hblk
    have hobtains := obtains_new hs.steady hgrants halign (hnew rfl) hblk.symm now
    refine ⟨_, _, _, r.lat + lat, hobtains, nofun, ?_⟩
    rw [setTags_self, setTags_setTags]
  | some q =>
    rw [hfound] at hold hblk
    obtain ⟨hwants, hrights⟩ := hlacks q hfound
    obtain ⟨hobtains, hsame⟩ :=
      obtains_upgrade hs.steady hgrants halign (hold _ rfl) hblk.symm hwants hrights now pkt
    refine ⟨_, _, _, r.lat + lat, hobtains, ?_, ?_⟩
    · intro q' hq'
      rw [← Option.some.inj hq', setTags_self]
      exact hsame
    · rw [setTags_self, setTags_setTags]

/-! ## The whole access -/

/-- What an access does and what the CPU is told. -/
inductive Outcome (B : Bus ι) (i : ι) (c : CpuCmd) (pkt : Packet) (s : AtomicSystem ι) :
    AtomicSystem ι → Packet → Prop where
  /-- a store-conditional gives up without a block -/
  | gaveUp (cond : c = .storeCond) (absent : (s.caches i).findBlock (B.geom i) pkt.addr = none) :
      Outcome B i c pkt s s (pkt.setExtraData 0).makeAtomicResponse
  /-- the request is satisfied from block `b`; `l` is its line before that -/
  | served {s' : AtomicSystem ι} {reply : Packet} (b : CacheBlk) (l : Line ι (List UInt8)) (steady : s'.Steady B)
      (gets : Line.Gets i c.mayWrite (s.line B pkt.addr) l) (own : l.copies i = some b.copy)
      (keeps : writesTo (B.geom i) b pkt = false → s'.line B pkt.addr = l)
      (writes : writesTo (B.geom i) b pkt = true →
        Line.Writes i (Bytes.splice b.data (pkt.getOffset B.blkSize) (pkt.data.take pkt.size)) l (s'.line B pkt.addr))
      (others : ∀ x, B.blockAlign x ≠ B.blockAlign pkt.addr →
        s'.line B x = s.line B x ∨ Line.Drops i (s.line B x) (s'.line B x))
      (same : c.mayWrite = true → ∀ p, (s.caches i).findBlock (B.geom i) pkt.addr = some p →
        ((s.caches i).blks p).isWritable = false →
          writesTo (B.geom i) b pkt = writesTo (B.geom i) ((s.caches i).blks p) pkt)
      (data : c.returnsData = true → reply.data = (b.data.drop (pkt.getOffset B.blkSize)).take pkt.size)
      (told : c = .storeCond → (reply.req.extraData = 1 ↔ writesTo (B.geom i) b pkt = true)) :
      Outcome B i c pkt s s' reply

/-- The request is satisfied in `s₀`, where the block has been obtained. -/
theorem outcome_served (s₀ s' : AtomicSystem ι) (hs₀ : s₀.Steady B)
    (hp : (s₀.caches i).findBlock (B.geom i) pkt.addr = some p) (hcmd : pkt.cmd = c.memCmd)
    (hsize : pkt.size ≠ B.blkSize) (gets : Line.Gets i c.mayWrite (s.line B pkt.addr) (s₀.line B pkt.addr))
    (same : c.mayWrite = true → ∀ q, (s.caches i).findBlock (B.geom i) pkt.addr = some q →
      ((s.caches i).blks q).isWritable = false →
        writesTo (B.geom i) ((s₀.caches i).blks p) pkt = writesTo (B.geom i) ((s.caches i).blks q) pkt)
    (hcaches : s'.caches = (s₀.setTags i (satisfyCpuSideRequest (B.geom i) (s₀.caches i) p pkt).1).caches)
    (hline : s'.line B pkt.addr =
      (s₀.setTags i (satisfyCpuSideRequest (B.geom i) (s₀.caches i) p pkt).1).line B pkt.addr)
    (others : ∀ x, B.blockAlign x ≠ B.blockAlign pkt.addr →
      s'.line B x = s.line B x ∨ Line.Drops i (s.line B x) (s'.line B x)) :
    Outcome B i c pkt s s' (satisfyCpuSideRequest (B.geom i) (s₀.caches i) p pkt).2.makeAtomicResponse := by
  obtain ⟨hsteady, -, hkeeps, hwrites⟩ := serve_lines hs₀ hp hcmd hsize
  have hsize' : pkt.size ≠ (B.geom i).blkSize := by rwa [B.geom_blkSize]
  obtain ⟨-, hdata, htold⟩ := satisfy_reply (B.geom i) (s₀.caches i) p hcmd hsize'
  have hown : (s₀.line B pkt.addr).copies i = some ((s₀.caches i).blks p).copy := Tags.copy_of_findBlock hp
  refine .served ((s₀.caches i).blks p) (s₀.line B pkt.addr) ?_ gets hown ?_ ?_ others same ?_ htold
  · intro j
    rw [hcaches]
    exact hsteady j
  · intro h
    exact hline.trans (hkeeps h)
  · intro h
    rw [hline]
    exact hwrites h (gets.rights hown (mayWrite_of_writesTo hcmd h))
  · intro h
    rw [← B.geom_blkSize i]
    exact hdata h

theorem Ready.quiet (hs : s.Ready B) {t : Tags} (quiet : (s.caches i).Quiet t) :
    (s.setTags i t).Ready B ∧ ∀ x, (s.setTags i t).line B x = s.line B x := by
  have hlines : ∀ x, (s.setTags i t).line B x = s.line B x := fun x => line_setTags (quiet.copy (hs.steady i).wf x)
  refine ⟨⟨hs.steady.setTags (quiet.steady (hs.steady i)), ?_, ?_⟩, hlines⟩
  · intro x
    rw [hlines]
    exact hs.whole x
  · intro x
    rw [hlines]
    exact hs.owner x

/-- The rest of an access whose lookup has found no block, or one without the right to write. -/
theorem outcome_missed (hs : s.Ready B) (hcmd : pkt.cmd = c.memCmd) (hcacheable : pkt.req.uncacheable = false)
    (haddr : pkt.addr = pkt.req.paddr) (hsize : pkt.size ≠ B.blkSize) {r : AccessResult} (hr : r.pkt = pkt)
    (hwbs : r.writebacks = []) (quiet : (s.caches i).Quiet r.tags)
    (hblk : r.blk = r.tags.findBlock (B.geom i) pkt.addr)
    (hlacks : ∀ q, r.blk = some q → c.mayWrite = true ∧ (r.tags.blks q).isWritable = false)
    (hsame : ∀ q, r.blk = some q →
      writesTo (B.geom i) (r.tags.blks q) pkt = writesTo (B.geom i) ((s.caches i).blks q) pkt)
    (now memLatency : Tick) :
    ∃ s₂ answer lat wbs s', (s.setTags i r.tags).missAtomic B i now memLatency r = some (s₂, answer, lat, wbs) ∧
      s₂.sendWritebacks B i now memLatency wbs = some s' ∧ answer.cmd = pkt.cmd ∧
      Outcome B i c pkt s s' answer.makeAtomicResponse := by
  obtain ⟨hs₀, hlines⟩ := hs.quiet quiet
  have htags : (s.setTags i r.tags).caches i = r.tags := setTags_self ..
  obtain ⟨s₁, p, wbs, lat, hobtains, hkept, hmiss⟩ := missAtomic_obtains (c := c) hs₀ hcmd hcacheable haddr hr
    (by rw [htags, hblk]) (by rw [htags]; exact hlacks) now memLatency
  rw [hwbs, List.nil_append] at hmiss
  obtain ⟨-, hserved, -⟩ := serve_lines hobtains.steady hobtains.found hcmd hsize
  obtain ⟨s', hsend, hcaches, hline, hothers⟩ := sendWritebacks_lines
    (s₁.setTags i (satisfyCpuSideRequest (B.geom i) (s₁.caches i) p pkt).1) hobtains.displaced
    (fun x => hs₀.whole x i) hobtains.memory (fun x hx => congrFun (congrArg Line.copies (hserved x hx)) i)
    (fun j hj x hx => by rw [setTags_of_ne s₁ hj]; exact hobtains.others j hj x hx) now memLatency
  refine ⟨_, _, lat, wbs, s', hmiss, hsend, (satisfy_pkt (B.geom i) (s₁.caches i) p pkt).1, ?_⟩
  refine outcome_served s₁ s' hobtains.steady hobtains.found hcmd hsize ?_ ?_ hcaches hline ?_
  · rw [← hlines]
    exact hobtains.gets
  · intro _ q hq _
    have hq' : r.blk = some q := by rw [hblk, ← hq]; exact quiet.findBlk (hs.steady i).wf _ _
    rw [hkept q hq', htags, hsame q hq']
  · intro x hx
    rw [← hlines]
    exact hothers x hx

/-- Every access is answered: no assertion fails. -/
theorem atomicAccess_outcome (hs : s.Ready B) (hcmd : pkt.cmd = c.memCmd) (hcacheable : pkt.req.uncacheable = false)
    (haddr : pkt.addr = pkt.req.paddr) (hsize : pkt.size ≠ B.blkSize) (hopen : pkt.memInhibit = false)
    (now memLatency : Tick) :
    ∃ s' reply lat, s.atomicAccess B i now memLatency pkt = some (s', reply, lat) ∧ Outcome B i c pkt s s' reply := by
  have hneeds : pkt.cmd.needsResponse = true := by rw [hcmd, CpuCmd.memCmd_needsResponse]
  have hlookup := accessAtomic_lookup (hs.steady i) now hcmd hcacheable
  unfold atomicAccess
  rw [hopen]
  simp only [Bool.false_eq_true, if_false]
  generalize accessAtomic (B.geom i) (s.caches i) now pkt = r at hlookup ⊢
  cases hlookup with
  | failed lat absent cond =>
    have hsame : s.setTags i (s.caches i) = s := by rw [setTags, Function.update_eq_self]
    simp only [if_true, Option.bind_eq_bind, Option.bind_some, sendWritebacks, List.foldlM_nil, hsame]
    exact ⟨_, _, _, rfl, by simpa [Packet.setExtraData, hneeds] using Outcome.gaveUp cond absent⟩
  | missed lat absent other =>
    obtain ⟨s₂, answer, lat, wbs, s', hmiss, hsend, hanswer, houtcome⟩ := outcome_missed hs hcmd hcacheable haddr hsize
      (r := { tags := s.caches i, pkt, blk := none, lat, satisfied := false }) rfl rfl (Tags.Quiet.refl _) absent.symm
      (by rintro q ⟨⟩) (by rintro q ⟨⟩) now memLatency
    simp only [hmiss, hsend, Option.bind_eq_bind, Option.bind_some, hanswer, hneeds, if_true, Bool.false_eq_true,
      if_false]
    exact ⟨s', _, lat, rfl, houtcome⟩
  | hit lat t₁ q quiet found rights =>
    obtain ⟨hs₀, hlines⟩ := hs.quiet quiet
    have htags : (s.setTags i t₁).caches i = t₁ := setTags_self ..
    have hserve := serve_lines (s := s.setTags i t₁) hs₀.steady (htags.symm ▸ found) hcmd hsize
    have houtcome := outcome_served (s := s) (s.setTags i t₁)
      (s.setTags i (satisfyCpuSideRequest (B.geom i) t₁ q pkt).1) hs₀.steady (htags.symm ▸ found) hcmd hsize
    rw [htags, setTags_setTags] at hserve houtcome
    have hown : (s.line B pkt.addr).copies i = some (t₁.blks q).copy := by
      rw [← hlines]
      show ((s.setTags i t₁).caches i).copy (B.geom i) pkt.addr = _
      rw [htags, Tags.copy_of_findBlock found]
    simp only [if_true, Option.bind_eq_bind, Option.bind_some, sendWritebacks, List.foldlM_nil,
      (satisfy_pkt (B.geom i) t₁ q pkt).1, hneeds]
    refine ⟨_, _, lat, rfl, houtcome ?_ ?_ rfl rfl ?_⟩
    · rw [hlines]
      exact .held _ hown rights
    · intro hwants p hp hlacks
      have hq : t₁.findBlock (B.geom i) pkt.addr = some p := (quiet.findBlk (hs.steady i).wf _ _).trans hp
      obtain rfl := Option.some.inj (found.symm.trans hq)
      have := rights hwants
      rw [CacheBlk.isWritable, quiet.status] at this
      rw [CacheBlk.isWritable, this] at hlacks
      cases hlacks
    · intro x hx
      rw [← hlines]
      exact Or.inl (hserve.2.1 x hx)
  | denied lat t₁ q quiet found wants rights same =>
    obtain ⟨s₂, answer, lat, wbs, s', hmiss, hsend, hanswer, houtcome⟩ := outcome_missed hs hcmd hcacheable haddr hsize
      (r := { tags := t₁, pkt, blk := some q, lat, satisfied := false }) rfl rfl quiet found.symm
      (fun p hp => Option.some.inj hp ▸ ⟨wants, rights⟩) (fun p hp => Option.some.inj hp ▸ same) now memLatency
    simp only [hmiss, hsend, Option.bind_eq_bind, Option.bind_some, hanswer, hneeds, if_true, Bool.false_eq_true,
      if_false]
    exact ⟨s', _, lat, rfl, houtcome⟩

end AtomicSystem

end PrefetchSim
