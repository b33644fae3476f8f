import Mathlib.Data.List.Induction
import PrefetchSim.Mem.Atomic

/- The locks of the memory at the end of the hierarchy (`m5/src/mem/physical.{hh,cc}`), which
   decide about the store-conditionals that are not cached.

   A store-conditional is meant to succeed if nobody has written what its context has
   load-locked. What is tested is something else (`store_conditional_iff`): every write, also a
   store-conditional that fails, takes the locks of the 16 bytes its request starts in from
   all contexts, and a swap takes none. So a success says that the 16 bytes are unchanged where
   no swap and no write from other 16 bytes has reached them (`store_conditional_atomic`). -/
namespace PrefetchSim
namespace PhysicalMemory

open LockedAddr (mask)

/-- The accesses lead from one memory to the other, whatever their latencies. -/
inductive Leads : PhysicalMemory → List Packet → PhysicalMemory → Prop
  | start (m : PhysicalMemory) : Leads m [] m
  | access {m m' m'' : PhysicalMemory} {log : List Packet} {pkt response : Packet} {latency time : Tick} :
      Leads m log m' → m'.doAtomicAccess latency pkt = some (m'', response, time) → Leads m (log ++ [pkt]) m''

theorem Leads.single {m m' : PhysicalMemory} {pkt response : Packet} {latency time : Tick}
    (h : m.doAtomicAccess latency pkt = some (m', response, time)) : Leads m [pkt] m' :=
  (Leads.start m).access h

theorem Leads.append {m m' m'' : PhysicalMemory} {log log' : List Packet} (h : Leads m log m')
    (h' : Leads m' log' m'') : Leads m (log ++ log') m'' := by
  induction h' with
  | start => simpa using h
  | access h' hacc ih =>
    rw [← List.append_assoc]
    exact .access ih hacc

/-! ## The locks -/

/-- A load-locked of a context. -/
def Links (c : Option Nat) (pkt : Packet) : Prop :=
  pkt.memInhibit = false ∧ pkt.cmd = .loadLockedReq ∧ pkt.req.contextId = c

/-- A write, conditional or not, whose request starts in the 16 bytes `g`. -/
def Clears (g : Addr) (pkt : Packet) : Prop :=
  pkt.memInhibit = false ∧ pkt.cmd.isWrite = true ∧ pkt.cmd.isRead = false ∧ mask pkt.req.paddr = g

/-- The last load-locked of the context was to the 16 bytes `g`, and no write has cleared
    them since. -/
def Reserved (log : List Packet) (c : Option Nat) (g : Addr) : Prop :=
  ∃ before ll after, log = before ++ ll :: after ∧ Links c ll ∧ mask ll.req.paddr = g ∧
    ∀ p ∈ after, ¬ Links c p ∧ ¬ Clears g p

theorem not_reserved_nil (c : Option Nat) (g : Addr) : ¬ Reserved [] c g := by
  rintro ⟨before, ll, after, h, -⟩
  simp at h

/-- How one more access changes the reservations. -/
theorem reserved_append {log : List Packet} {pkt : Packet} {c : Option Nat} {g : Addr} :
    Reserved (log ++ [pkt]) c g ↔
      (Links c pkt ∧ mask pkt.req.paddr = g) ∨ (¬ Links c pkt ∧ ¬ Clears g pkt ∧ Reserved log c g) := by
  constructor
  · rintro ⟨before, ll, after, hlog, hll, hg, hafter⟩
    rcases after.eq_nil_or_concat with rfl | ⟨init, last, rfl⟩
    · obtain ⟨-, h⟩ := List.append_inj' hlog rfl
      obtain rfl : pkt = ll := by simpa using h
      exact .inl ⟨hll, hg⟩
    · have hsplit : log ++ [pkt] = (before ++ ll :: init) ++ [last] := by simp [hlog]
      obtain ⟨rfl, h⟩ := List.append_inj' hsplit rfl
      obtain rfl : pkt = last := by simpa using h
      obtain ⟨h₁, h₂⟩ := hafter pkt (by simp)
      exact .inr ⟨h₁, h₂, before, ll, init, rfl, hll, hg, fun p hp => hafter p (by simp [hp])⟩
  · rintro (⟨hl, hg⟩ | ⟨hl, hc, before, ll, after, rfl, hll, hg, hafter⟩)
    · exact ⟨log, pkt, [], rfl, hl, hg, by simp⟩
    · refine ⟨before, ll, after ++ [pkt], by simp, hll, hg, fun p hp => ?_⟩
      obtain hp | rfl : p ∈ after ∨ p = pkt := by simpa using hp
      · exact hafter p hp
      · exact ⟨hl, hc⟩

/-- The list of locks is that of the reservations, one for each context. -/
structure Tracks (m : PhysicalMemory) (log : List Packet) : Prop where
  locks : ∀ c g, ⟨g, c⟩ ∈ m.lockedAddrList ↔ Reserved log c g
  single : (m.lockedAddrList.map (·.contextId)).Nodup

/-- The lock of the context is moved, the others stay. -/
theorem mem_modify {req : Request} {paddr : Addr} :
    ∀ {ls : List LockedAddr} {i : Nat}, ls.findIdx? (·.matchesContext req) = some i → (ls.map (·.contextId)).Nodup →
      (ls.modify i fun l => { l with addr := paddr }).map (·.contextId) = ls.map (·.contextId) ∧
        ∀ l, l ∈ (ls.modify i fun l => { l with addr := paddr }) ↔
          l = ⟨paddr, req.contextId⟩ ∨ l.contextId ≠ req.contextId ∧ l ∈ ls
  | [], _, h, _ => by simp at h
  | l :: ls, i, h, hn => by
    obtain ⟨hl, hn⟩ := List.nodup_cons.1 hn
    rw [List.findIdx?_cons] at h
    split_ifs at h with hc
    · obtain rfl := Option.some.inj h
      have hc : l.contextId = req.contextId := by simpa [LockedAddr.matchesContext] using hc
      refine ⟨rfl, fun l' => ?_⟩
      have hother : ∀ l' ∈ ls, l'.contextId ≠ req.contextId := fun l' hl' hc' =>
        hl (List.mem_map.2 ⟨l', hl', hc'.trans hc.symm⟩)
      rw [List.modify_zero_cons, List.mem_cons, List.mem_cons]
      constructor
      · rintro (rfl | hl')
        · exact .inl (by rw [hc])
        · exact .inr ⟨hother l' hl', .inr hl'⟩
      · rintro (rfl | ⟨hc', rfl | hl'⟩)
        · exact .inl (by rw [hc])
        · exact absurd hc hc'
        · exact .inr hl'
    · obtain ⟨i, hi, rfl⟩ := Option.map_eq_some_iff.1 h
      have hc : l.contextId ≠ req.contextId := by simpa [LockedAddr.matchesContext] using hc
      obtain ⟨hmap, hmem⟩ := mem_modify hi hn
      rw [List.modify_succ_cons]
      refine ⟨by rw [List.map_cons, List.map_cons, hmap], fun l' => ?_⟩
      rw [List.mem_cons, List.mem_cons, hmem]
      constructor
      · rintro (rfl | rfl | ⟨hc', hl'⟩)
        · exact .inr ⟨hc, .inl rfl⟩
        · exact .inl rfl
        · exact .inr ⟨hc', .inr hl'⟩
      · rintro (rfl | ⟨hc', rfl | hl'⟩)
        · exact .inr (.inl rfl)
        · exact .inl rfl
        · exact .inr (.inr ⟨hc', hl'⟩)

theorem mem_trackLoadLocked {m : PhysicalMemory} (h : (m.lockedAddrList.map (·.contextId)).Nodup) (pkt : Packet) :
    ((m.trackLoadLocked pkt).lockedAddrList.map (·.contextId)).Nodup ∧
      ∀ l, l ∈ (m.trackLoadLocked pkt).lockedAddrList ↔
        l = ⟨mask pkt.req.paddr, pkt.req.contextId⟩ ∨ l.contextId ≠ pkt.req.contextId ∧ l ∈ m.lockedAddrList := by
  simp only [trackLoadLocked]
  cases hfind : m.lockedAddrList.findIdx? (·.matchesContext pkt.req) with
  | some i =>
    obtain ⟨hmap, hmem⟩ := mem_modify hfind h
    exact ⟨hmap ▸ h, hmem⟩
  | none =>
    have hnone : ∀ l ∈ m.lockedAddrList, l.contextId ≠ pkt.req.contextId := by
      simpa [LockedAddr.matchesContext] using List.findIdx?_eq_none_iff.1 hfind
    refine ⟨?_, fun l => ?_⟩
    · refine List.nodup_cons.2 ⟨fun hc => ?_, h⟩
      obtain ⟨l, hl, hlc⟩ := List.mem_map.1 hc
      exact hnone l hl hlc
    · rw [List.mem_cons]
      exact or_congr_right ⟨fun hl => ⟨hnone l hl, hl⟩, And.right⟩

/-! ## One access -/

theorem loadLocked_iff {c : MemCmd} : (c.isRead = true ∧ c.isLLSC = true) ↔ c = .loadLockedReq := by
  cases c <;> decide

/-- Whether a write takes place. -/
def writes (m : PhysicalMemory) (pkt : Packet) : Bool :=
  !pkt.cmd.isLLSC || decide (⟨mask pkt.req.paddr, pkt.req.contextId⟩ ∈ m.lockedAddrList)

/-- The memory without the locks a write takes away. -/
def unlocked (m : PhysicalMemory) (pkt : Packet) : PhysicalMemory :=
  { m with lockedAddrList := m.lockedAddrList.filter fun l => l.addr != mask pkt.req.paddr }

/-- The bytes after a write. -/
def stored (m : PhysicalMemory) (pkt : Packet) : Addr → UInt8 :=
  Bytes.write m.pmem pkt.addr (pkt.data.take pkt.size)

theorem any_lock {ls : List LockedAddr} {paddr : Addr} {req : Request} :
    (ls.any fun l => l.addr == paddr && l.matchesContext req) = decide (⟨paddr, req.contextId⟩ ∈ ls) := by
  rw [Bool.eq_iff_iff, List.any_eq_true, decide_eq_true_eq]
  constructor
  · rintro ⟨l, hl, hmatch⟩
    obtain ⟨ha, hc⟩ : l.addr = paddr ∧ l.contextId = req.contextId := by
      simpa [LockedAddr.matchesContext] using hmatch
    exact ha ▸ hc ▸ hl
  · exact fun hl => ⟨_, hl, by simp [LockedAddr.matchesContext]⟩

/-- With the shortcut for an empty list or without it. -/
theorem writeOK_spec (m : PhysicalMemory) (pkt : Packet) :
    m.writeOK pkt = (m.unlocked pkt,
      if pkt.cmd.isLLSC then pkt.setExtraData (if m.writes pkt then 1 else 0) else pkt, m.writes pkt) := by
  have hcheck : m.checkLockedAddrList pkt = (m.unlocked pkt,
      if pkt.cmd.isLLSC then pkt.setExtraData (if m.writes pkt then 1 else 0) else pkt, m.writes pkt) := by
    rw [checkLockedAddrList, any_lock]
    rfl
  cases hl : m.lockedAddrList with
  | cons l ls =>
    rw [writeOK, hl]
    exact hcheck
  | nil =>
    have hsame : m.unlocked pkt = m := by
      rw [unlocked, hl, List.filter_nil, ← hl]
    have hwrites : m.writes pkt = !pkt.cmd.isLLSC := by simp [writes, hl]
    rw [writeOK, hl, hsame, hwrites]
    cases pkt.cmd.isLLSC <;> rfl

theorem doAtomicAccess_write {m : PhysicalMemory} {pkt : Packet} (hinh : pkt.memInhibit = false)
    (hwrite : pkt.cmd.isWrite = true) (hread : pkt.cmd.isRead = false) (latency : Tick) :
    ∃ r, m.doAtomicAccess latency pkt = some r ∧ r.1.lockedAddrList = (m.unlocked pkt).lockedAddrList ∧
      r.1.pmem = (if m.writes pkt then m.stored pkt else m.pmem) ∧
      (pkt.cmd.isLLSC = true → r.2.1.req.extraData = if m.writes pkt then 1 else 0) := by
  have hswap : pkt.cmd ≠ .swapReq := by
    intro h
    rw [h] at hread
    cases hread
  have hserve : m.serve pkt = some (
      if m.writes pkt then { m.unlocked pkt with pmem := m.stored pkt } else m.unlocked pkt,
      if pkt.cmd.isLLSC then pkt.setExtraData (if m.writes pkt then 1 else 0) else pkt) := by
    rw [serve, if_neg hswap, hread, if_neg Bool.false_ne_true, if_pos hwrite, writeOK_spec]
    rfl
  rw [doAtomicAccess, hinh, if_neg Bool.false_ne_true, hserve]
  refine ⟨_, rfl, ?_, ?_, fun hllsc => ?_⟩
  · cases m.writes pkt <;> rfl
  · cases m.writes pkt <;> rfl
  · have hreq : ∀ p : Packet, (if p.cmd.needsResponse then p.makeAtomicResponse else p).req = p.req := by
      intro p
      split <;> rfl
    simp only [hllsc, if_true, hreq]
    rfl

/-- The other accesses take no locks away, and write nothing but for a swap. -/
theorem doAtomicAccess_other {m : PhysicalMemory} {pkt : Packet} {latency : Tick} {r : PhysicalMemory × Packet × Tick}
    (hinh : pkt.memInhibit = false) (hw : ¬ (pkt.cmd.isWrite = true ∧ pkt.cmd.isRead = false))
    (h : m.doAtomicAccess latency pkt = some r) :
    (r.1.lockedAddrList =
        if pkt.cmd = .loadLockedReq then (m.trackLoadLocked pkt).lockedAddrList else m.lockedAddrList) ∧
      (r.1.pmem = m.pmem ∨ pkt.cmd = .swapReq ∧ r.1.pmem = m.stored pkt) := by
  rw [doAtomicAccess, hinh, if_neg Bool.false_ne_true] at h
  obtain ⟨r', hserve, rfl⟩ := Option.map_eq_some_iff.1 h
  unfold serve at hserve
  by_cases hswap : pkt.cmd = .swapReq
  · have hll : pkt.cmd ≠ .loadLockedReq := by
      rw [hswap]
      decide
    rw [if_pos hswap] at hserve
    obtain rfl := Option.some.inj hserve
    rw [if_neg hll]
    dsimp only
    split
    · exact ⟨rfl, .inr ⟨hswap, rfl⟩⟩
    · exact ⟨rfl, .inl rfl⟩
  rw [if_neg hswap] at hserve
  by_cases hread : pkt.cmd.isRead = true
  · rw [if_pos hread] at hserve
    obtain rfl := Option.some.inj hserve
    by_cases hllsc : pkt.cmd.isLLSC = true
    · have hbytes : (m.trackLoadLocked pkt).pmem = m.pmem := by
        simp only [trackLoadLocked]
        split <;> rfl
      rw [if_pos (loadLocked_iff.1 ⟨hread, hllsc⟩)]
      simp [hllsc, hbytes]
    · rw [if_neg fun hll => hllsc (loadLocked_iff.2 hll).2]
      simp [hllsc]
  · have hwrite : ¬ pkt.cmd.isWrite = true := fun hwrite => hw ⟨hwrite, by simpa using hread⟩
    rw [if_neg hread, if_neg hwrite] at hserve
    rw [if_neg fun hll => hread (loadLocked_iff.2 hll).1]
    split_ifs at hserve <;> obtain rfl := Option.some.inj hserve <;> exact ⟨rfl, .inl rfl⟩

theorem doAtomicAccess_inhibited {m : PhysicalMemory} {pkt : Packet} {latency : Tick}
    {r : PhysicalMemory × Packet × Tick} (hinh : pkt.memInhibit = true) (h : m.doAtomicAccess latency pkt = some r) :
    r.1 = m := by
  rw [doAtomicAccess, if_pos hinh] at h
  rw [← Option.some.inj h]

theorem Tracks.step {m : PhysicalMemory} {log : List Packet} (h : Tracks m log) {pkt : Packet} {latency : Tick}
    {r : PhysicalMemory × Packet × Tick} (hacc : m.doAtomicAccess latency pkt = some r) :
    Tracks r.1 (log ++ [pkt]) := by
  cases hinh : pkt.memInhibit with
  | true =>
    rw [doAtomicAccess_inhibited hinh hacc]
    refine ⟨fun c g => ?_, h.single⟩
    simp [reserved_append, Links, Clears, hinh, h.locks]
  | false =>
    by_cases hw : pkt.cmd.isWrite = true ∧ pkt.cmd.isRead = false
    · -- a write takes all locks of its 16 bytes away
      obtain ⟨r', hacc', hlocks, -⟩ := doAtomicAccess_write (m := m) hinh hw.1 hw.2 latency
      obtain rfl := Option.some.inj (hacc'.symm.trans hacc)
      refine ⟨fun c g => ?_, hlocks ▸ h.single.sublist (List.filter_sublist.map _)⟩
      have hlinks : ¬ Links c pkt := fun hl => by
        have := loadLocked_iff.2 hl.2.1
        simp [hw.2] at this
      have hclears : Clears g pkt ↔ mask pkt.req.paddr = g := by simp [Clears, hinh, hw]
      rw [hlocks, unlocked, List.mem_filter, reserved_append, h.locks, hclears]
      simp only [hlinks, false_and, not_false_eq_true, true_and, false_or, bne_iff_ne]
      rw [and_comm, ne_comm, ne_eq]
    · have hlocks := (doAtomicAccess_other hinh hw hacc).1
      have hclears : ∀ g, ¬ Clears g pkt := fun g hc => hw ⟨hc.2.1, hc.2.2.1⟩
      split_ifs at hlocks with hll
      · -- a load-locked replaces the reservation of its context
        obtain ⟨hsingle, hmem⟩ := mem_trackLoadLocked h.single pkt
        refine ⟨fun c g => ?_, hlocks ▸ hsingle⟩
        rw [hlocks, hmem, reserved_append, h.locks]
        simp only [LockedAddr.mk.injEq, Links, hinh, hll, true_and, hclears, not_false_eq_true]
        constructor
        · rintro (⟨rfl, rfl⟩ | ⟨hc, hr⟩)
          · exact .inl ⟨rfl, rfl⟩
          · exact .inr ⟨fun h => hc h.symm, hr⟩
        · rintro (⟨rfl, rfl⟩ | ⟨hc, hr⟩)
          · exact .inl ⟨rfl, rfl⟩
          · exact .inr ⟨fun h => hc h.symm, hr⟩
      · refine ⟨fun c g => ?_, hlocks ▸ h.single⟩
        rw [hlocks, reserved_append, h.locks]
        simp [Links, hll, hclears]

theorem Leads.tracks {pmem : Addr → UInt8} {log : List Packet} {m : PhysicalMemory} (h : Leads { pmem } log m) :
    Tracks m log := by
  generalize hstart : ({ pmem } : PhysicalMemory) = m₀ at h
  induction h with
  | start =>
    subst hstart
    exact ⟨fun c g => iff_of_false (by simp) (not_reserved_nil c g), List.nodup_nil⟩
  | access h hacc ih => exact ih.step hacc

/-! ## Store-conditionals -/

/-- What the memory finds in its list is a reservation. -/
theorem Tracks.writes_iff {m : PhysicalMemory} {log : List Packet} (h : Tracks m log) {sc : Packet}
    (hllsc : sc.cmd.isLLSC = true) : m.writes sc = true ↔ Reserved log sc.req.contextId (mask sc.req.paddr) := by
  simp [writes, hllsc, h.locks]

theorem storeCondReq_attributes {c : MemCmd} (h : c = .storeCondReq) :
    c.isWrite = true ∧ c.isRead = false ∧ c.isLLSC = true := by
  rw [h]
  decide

/-- The locks are those of the reservations, one for each context. A store-conditional succeeds
    exactly if the last load-locked of its context was to the same 16 bytes and no write,
    conditional or not, has started in them since. It then writes its data, and else nothing. -/
theorem store_conditional_iff (pmem : Addr → UInt8) (log : List Packet) (m : PhysicalMemory)
    (hlog : Leads { pmem } log m) (sc : Packet) (hcmd : sc.cmd = .storeCondReq) (hinh : sc.memInhibit = false)
    (latency : Tick) :
    Tracks m log ∧ ∃ r, m.doAtomicAccess latency sc = some r ∧
      (Reserved log sc.req.contextId (mask sc.req.paddr) ∧ r.2.1.req.extraData = 1 ∧
          r.1.pmem = Bytes.write m.pmem sc.addr (sc.data.take sc.size) ∨
        ¬ Reserved log sc.req.contextId (mask sc.req.paddr) ∧ r.2.1.req.extraData = 0 ∧ r.1.pmem = m.pmem) := by
  obtain ⟨hwrite, hread, hllsc⟩ := storeCondReq_attributes hcmd
  obtain ⟨r, hacc, -, hmem, hextra⟩ := doAtomicAccess_write (m := m) hinh hwrite hread latency
  have hres := hlog.tracks.writes_iff hllsc
  have hextra := hextra hllsc
  refine ⟨hlog.tracks, r, hacc, ?_⟩
  by_cases hw : m.writes sc = true
  · rw [if_pos hw] at hmem hextra
    exact .inl ⟨hres.1 hw, hextra, hmem⟩
  · rw [if_neg hw] at hmem hextra
    exact .inr ⟨mt hres.2 hw, hextra, hmem⟩

/-- An eight-byte access of a context at an address. -/
def accessAt (cmd : MemCmd) (context : Nat) (paddr : Addr) : Packet :=
  let req : Request := { paddr, size := 8, contextId := some context }
  { Packet.ofRequest req cmd 0 with data := List.replicate 8 1 }

/-- The memory, all zero, after context 1 has load-locked address 64. -/
def linkedOnce : PhysicalMemory := { pmem := fun _ => 0, lockedAddrList := [⟨64, some 1⟩] }

theorem leads_linkedOnce : Leads { pmem := fun _ => 0 } [accessAt .loadLockedReq 1 64] linkedOnce := by
  have hacc : doAtomicAccess { pmem := fun _ => 0 } 0 (accessAt .loadLockedReq 1 64) = some (linkedOnce, _, _) := rfl
  exact .single hacc

theorem store_conditional_iff_linked :
    ∃ r, linkedOnce.doAtomicAccess 0 (accessAt .storeCondReq 1 72) = some r ∧ r.2.1.req.extraData = 1 := by
  obtain ⟨-, r, hacc, h | h⟩ := store_conditional_iff _ _ _ leads_linkedOnce (accessAt .storeCondReq 1 72) rfl rfl 0
  · exact ⟨r, hacc, h.2.1⟩
  · exact absurd ⟨[], _, [], rfl, ⟨rfl, rfl, rfl⟩, by decide, by simp⟩ h.1

/-- The reservation of a context is that of its last load-locked. -/
theorem reserved_last {before after : List Packet} {ll : Packet} {c : Option Nat} {g : Addr} (hll : Links c ll)
    (hlast : ∀ p ∈ after, ¬ Links c p) (h : Reserved (before ++ ll :: after) c g) :
    mask ll.req.paddr = g ∧ ∀ p ∈ after, ¬ Clears g p := by
  induction after using List.reverseRecOn with
  | nil =>
    rcases reserved_append.1 h with h | h
    · exact ⟨h.2, by simp⟩
    · exact absurd hll h.1
  | append_singleton after p ih =>
    have hsplit : before ++ ll :: (after ++ [p]) = (before ++ ll :: after) ++ [p] := by simp
    rw [hsplit] at h
    rcases reserved_append.1 h with h | ⟨-, hclears, h⟩
    · exact absurd h.1 (hlast p (by simp))
    · obtain ⟨hg, hafter⟩ := ih (fun p' hp' => hlast p' (by simp [hp'])) h
      refine ⟨hg, fun p' hp' => ?_⟩
      obtain hp' | rfl : p' ∈ after ∨ p' = p := by simpa using hp'
      · exact hafter p' hp'
      · exact hclears

/-- All bytes of an access lie in the 16 bytes its request starts in. -/
def Within (pkt : Packet) : Prop := ∀ i < pkt.size, mask (pkt.addr + BitVec.ofNat 64 i) = mask pkt.req.paddr

theorem stored_outside {m : PhysicalMemory} {pkt : Packet} (hwithin : Within pkt) {a : Addr}
    (ha : mask a ≠ mask pkt.req.paddr) : m.stored pkt a = m.pmem a := by
  have hout : (pkt.data.take pkt.size).length ≤ (a - pkt.addr).toNat := by
    by_contra hlt
    have hi : (a - pkt.addr).toNat < pkt.size := by
      have := List.length_take_le pkt.size pkt.data
      omega
    have hmask := hwithin _ hi
    rw [BitVec.ofNat_toNat, BitVec.setWidth_eq, show pkt.addr + (a - pkt.addr) = a by bv_omega] at hmask
    exact ha hmask
  exact List.getD_eq_default _ _ hout

/-- An access that does not write the 16 bytes of `a`. -/
theorem doAtomicAccess_byte {m : PhysicalMemory} {pkt : Packet} {latency : Tick} {r : PhysicalMemory × Packet × Tick}
    (h : m.doAtomicAccess latency pkt = some r) {a : Addr} (hwithin : Within pkt) (hclears : ¬ Clears (mask a) pkt)
    (hswap : pkt.cmd = .swapReq → mask pkt.req.paddr ≠ mask a) : r.1.pmem a = m.pmem a := by
  cases hinh : pkt.memInhibit with
  | true => rw [doAtomicAccess_inhibited hinh h]
  | false =>
    by_cases hw : pkt.cmd.isWrite = true ∧ pkt.cmd.isRead = false
    · obtain ⟨r', h', -, hbytes, -⟩ := doAtomicAccess_write (m := m) hinh hw.1 hw.2 latency
      obtain rfl := Option.some.inj (h'.symm.trans h)
      rw [hbytes]
      split
      · exact stored_outside hwithin fun hmask => hclears ⟨hinh, hw.1, hw.2, hmask.symm⟩
      · rfl
    · rcases (doAtomicAccess_other hinh hw h).2 with hbytes | ⟨hcmd, hbytes⟩
      · rw [hbytes]
      · rw [hbytes]
        exact stored_outside hwithin (hswap hcmd).symm

theorem Leads.byte {m m' : PhysicalMemory} {log : List Packet} (h : Leads m log m') {a : Addr}
    (hquiet : ∀ p ∈ log, Within p ∧ ¬ Clears (mask a) p ∧ (p.cmd = .swapReq → mask p.req.paddr ≠ mask a)) :
    m'.pmem a = m.pmem a := by
  induction h with
  | start => rfl
  | access h hacc ih =>
    obtain ⟨hbefore, hlast⟩ := List.forall_mem_append.1 hquiet
    obtain ⟨hwithin, hclears, hswap⟩ := hlast _ List.mem_cons_self
    exact (doAtomicAccess_byte hacc hwithin hclears hswap).trans (ih hbefore)

/-- Where no swap has been in them and no access crosses a boundary of 16 bytes, a
    store-conditional that succeeds finds its 16 bytes as the last load-locked of its context
    has left them. -/
theorem store_conditional_atomic (pmem : Addr → UInt8) (before after : List Packet) (ll sc : Packet)
    (linked m : PhysicalMemory) (hbefore : Leads { pmem } (before ++ [ll]) linked) (hafter : Leads linked after m)
    (hll : Links sc.req.contextId ll) (hlast : ∀ p ∈ after, ¬ Links sc.req.contextId p)
    (hcmd : sc.cmd = .storeCondReq) (hinh : sc.memInhibit = false) (hwithin : ∀ p ∈ after, Within p)
    (hswap : ∀ p ∈ after, p.cmd = .swapReq → mask p.req.paddr ≠ mask sc.req.paddr) (latency : Tick)
    (r : PhysicalMemory × Packet × Tick) (hacc : m.doAtomicAccess latency sc = some r)
    (hok : r.2.1.req.extraData = 1) :
    mask ll.req.paddr = mask sc.req.paddr ∧ ∀ a, mask a = mask sc.req.paddr → m.pmem a = linked.pmem a := by
  obtain ⟨hwrite, hread, hllsc⟩ := storeCondReq_attributes hcmd
  have hw : m.writes sc = true := by
    obtain ⟨r', hacc', -, -, hextra⟩ := doAtomicAccess_write (m := m) hinh hwrite hread latency
    obtain rfl := Option.some.inj (hacc'.symm.trans hacc)
    by_contra hw
    have hextra := hextra hllsc
    rw [hok, if_neg hw] at hextra
    cases hextra
  have hsplit : before ++ [ll] ++ after = before ++ ll :: after := by simp
  have htracks := (hbefore.append hafter).tracks
  rw [hsplit] at htracks
  obtain ⟨hg, hclears⟩ := reserved_last hll hlast ((htracks.writes_iff hllsc).1 hw)
  refine ⟨hg, fun a ha => hafter.byte fun p hp => ⟨hwithin p hp, ?_, ?_⟩⟩
  · rw [ha]
    exact hclears p hp
  · rw [ha]
    exact hswap p hp

/-- Another context writes the next 16 bytes in between. -/
theorem store_conditional_atomic_neighbour :
    ∃ m, Leads linkedOnce [accessAt .writeReq 2 80] m ∧ ∀ a, mask a = mask 72 → m.pmem a = linkedOnce.pmem a := by
  have hacc : linkedOnce.doAtomicAccess 0 (accessAt .writeReq 2 80) =
      some ({ linkedOnce with pmem := Bytes.write linkedOnce.pmem 80 (List.replicate 8 1) }, _, _) := rfl
  have hafter := Leads.single hacc
  refine ⟨_, hafter, ?_⟩
  refine (store_conditional_atomic _ [] _ (accessAt .loadLockedReq 1 64) (accessAt .storeCondReq 1 72) _ _
    leads_linkedOnce hafter ⟨rfl, rfl, rfl⟩ ?_ rfl rfl ?_ ?_ 0 _ rfl rfl).2
  · simp [Links, accessAt, Packet.ofRequest]
  · simp only [List.mem_singleton, forall_eq, Within]
    decide
  · simp [accessAt, Packet.ofRequest]

end PhysicalMemory
end PrefetchSim
