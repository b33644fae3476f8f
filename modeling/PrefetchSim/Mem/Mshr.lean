import Mathlib.Data.List.Basic
import PrefetchSim.Mem.Packet

/- The miss status holding register (`m5/src/mem/cache/mshr.{hh,cc}`).

   Correspondence (C++ ↔ Lean):
     `MSHR::Target`, `MSHR::TargetList`    ↔ `Target`, `TargetList`
     `TargetList::add`, `replaceUpgrades`  ↔ `TargetList.add`, `TargetList.replaceUpgrades`
     `MSHR::allocate`, `allocateTarget`    ↔ `Mshr.allocate`, `Mshr.allocateTarget`
     `handleSnoop`, `handleFill`           ↔ `Mshr.handleSnoop`, `Mshr.handleFill`
     `promoteDeferredTargets`              ↔ `Mshr.promoteDeferredTargets`
     `markInService`, `deallocate`         ↔ `Mshr.markInService`, `Mshr.deallocate`

   `downstreamPending` is written by other caches, through the sender state of
   the packets they buffer; the flags this cache writes in the registers of the
   caches above it (`markedPending`) belong to those. `recvTime` and
   `threadNum` serve statistics only and are left out. -/
namespace PrefetchSim

/-- Where a target came from. -/
inductive Source where
  | fromCPU | fromSnoop | fromPrefetcher
  deriving DecidableEq, Repr

structure Target where
  readyTime : Tick
  order : Nat
  pkt : Packet
  source : Source
  needsResponse : Bool
  deriving DecidableEq, Repr

structure TargetList where
  list : List Target := []
  needsExclusive : Bool := false
  hasUpgrade : Bool := false
  deriving DecidableEq, Repr

namespace TargetList

def isReset (tl : TargetList) : Bool := !tl.needsExclusive && !tl.hasUpgrade

def resetFlags (tl : TargetList) : TargetList :=
  { tl with needsExclusive := false, hasUpgrade := false }

/-- A snoop adds to the list but not to its flags. -/
def add (tl : TargetList) (pkt : Packet) (readyTime : Tick) (order : Nat) (source : Source) :
    TargetList where
  list := tl.list ++ [{ readyTime, order, pkt, source, needsResponse := pkt.cmd.needsResponse }]
  needsExclusive := tl.needsExclusive || (source != .fromSnoop && pkt.cmd.needsExclusive)
  hasUpgrade := tl.hasUpgrade || (source != .fromSnoop && pkt.cmd.isUpgrade)

/-- What becomes of a buffered upgrade once the copy above is gone. -/
def replaceUpgrade (t : Target) : Target :=
  if t.pkt.cmd = .upgradeReq then { t with pkt := { t.pkt with cmd := .readExReq } }
  else if t.pkt.cmd = .scUpgradeReq then { t with pkt := { t.pkt with cmd := .scUpgradeFailReq } }
  else t

def replaceUpgrades (tl : TargetList) : TargetList :=
  if tl.hasUpgrade then { tl with list := tl.list.map replaceUpgrade, hasUpgrade := false } else tl

end TargetList

structure Mshr where
  readyTime : Tick := 0
  order : Nat := 0
  addr : Addr := 0
  size : Nat := 0
  inService : Bool := false
  isForward : Bool := false
  isUncacheable : Bool := false
  downstreamPending : Bool := false
  pendingInvalidate : Bool := false
  pendingShared : Bool := false
  ntargets : Nat := 0
  targets : TargetList := {}
  deferredTargets : TargetList := {}
  deriving DecidableEq, Repr

namespace Mshr

def needsExclusive (m : Mshr) : Bool := m.targets.needsExclusive
def hasTargets (m : Mshr) : Bool := !m.targets.list.isEmpty
def getTarget (m : Mshr) : Option Target := m.targets.list.head?
def getNumTargets (m : Mshr) : Nat := m.ntargets

def popTarget (m : Mshr) : Mshr :=
  { m with ntargets := m.ntargets - 1
           targets := { m.targets with list := m.targets.list.tail } }

def allocate (m : Mshr) (addr : Addr) (size : Nat) (pkt : Packet) (whenReady : Tick) (order : Nat) :
    Mshr :=
  let source := if pkt.cmd = .hardPFReq then Source.fromPrefetcher else Source.fromCPU
  { m with
    addr, size, readyTime := whenReady, order
    isForward := false, isUncacheable := pkt.req.uncacheable
    inService := false, downstreamPending := false
    ntargets := 1
    targets := m.targets.add pkt whenReady order source
    pendingInvalidate := false, pendingShared := false }

/-- One target that wants no response: the packet is only passed on. -/
def isForwardNoResponse (m : Mshr) : Bool :=
  m.getNumTargets == 1 && (m.getTarget.any fun t => t.source == .fromCPU && !t.needsResponse)

/-- The second component says that the entry is done with. -/
def markInService (m : Mshr) : Mshr × Bool :=
  if m.isForwardNoResponse then (m.popTarget, true) else ({ m with inService := true }, false)

def deallocate (m : Mshr) : Mshr := { m with targets := m.targets.resetFlags, inService := false }

/-- A target is deferred while a request is in service that it cannot join. -/
def allocateTarget (m : Mshr) (pkt : Packet) (whenReady : Tick) (order : Nat) : Mshr :=
  if m.inService && (!m.deferredTargets.list.isEmpty || m.pendingInvalidate ||
      (!m.targets.needsExclusive && pkt.cmd.needsExclusive)) then
    { m with deferredTargets := m.deferredTargets.add pkt whenReady order .fromCPU
             ntargets := m.ntargets + 1 }
  else
    { m with targets := m.targets.add pkt whenReady order .fromCPU
             ntargets := m.ntargets + 1 }

/-- The flags of the list, and the upgrades in it, after an exclusive snoop. -/
def replaceIf (b : Bool) (tl : TargetList) : TargetList := if b then tl.replaceUpgrades else tl

/-- The new register, the snooped packet with the flags set on it, and whether
the snoop has been dealt with. -/
def handleSnoop (m : Mshr) (now : Tick) (pkt : Packet) (order : Nat) : Mshr × Packet × Bool :=
  if !m.inService || (pkt.expressSnoop && m.downstreamPending) then
    -- the snooped request precedes this one
    ({ m with targets := replaceIf pkt.cmd.needsExclusive m.targets
              deferredTargets := replaceIf pkt.cmd.needsExclusive m.deferredTargets }, pkt, false)
  else
    let m := { m with deferredTargets := replaceIf pkt.cmd.needsExclusive m.deferredTargets }
    if m.pendingInvalidate then (m, pkt, true)
    else if m.targets.needsExclusive || pkt.cmd.needsExclusive then
      let m' := { m with
        targets := m.targets.add (pkt.copy now true) now order .fromSnoop
        ntargets := m.ntargets + 1
        pendingInvalidate := pkt.cmd.needsExclusive }
      if m.targets.needsExclusive then
        -- ownership is pending, so it is for this cache to respond
        (m', { pkt with memInhibit := true, supplyExclusive := true }, true)
      else (m', pkt, true)
    else ({ m with pendingShared := true }, { pkt with shared := true }, true)

/-- Deferred targets join the fill when it brings an exclusive copy anyway. -/
def handleFill (m : Mshr) (pkt : Packet) : Mshr × Packet :=
  let pkt := { pkt with shared := pkt.shared || m.pendingShared }
  if !pkt.shared && !m.pendingInvalidate && m.deferredTargets.needsExclusive then
    ({ m with
      targets := { m.targets with list := m.targets.list ++ m.deferredTargets.list
                                  needsExclusive := true }
      deferredTargets := {} }, pkt)
  else (m, pkt)

/-- The deferred targets become the targets of a new request; the second
component says whether there were any. -/
def promoteDeferredTargets (m : Mshr) (now : Tick) : Mshr × Bool :=
  match m.deferredTargets.list with
  | [] => (m, false)
  | t :: _ =>
    ({ m with
      targets := m.deferredTargets
      deferredTargets := m.targets.resetFlags
      pendingInvalidate := false, pendingShared := false
      order := t.order
      readyTime := max now t.readyTime }, true)

/-- The register once all its targets have been served. -/
def served (m : Mshr) : Mshr :=
  { m with ntargets := m.ntargets - m.targets.list.length
           targets := { m.targets with list := [] } }

/-! ## Registers in use and registers that are free -/

/-- A free register holds no targets, and its flags are reset. -/
structure Idle (m : Mshr) : Prop where
  targets : m.targets = {}
  deferred : m.deferredTargets = {}

/-- A register in use counts its targets and has one. Targets are deferred only
while a request is in service, and only requests of the CPU side are. -/
structure Busy (m : Mshr) : Prop where
  count : m.ntargets = m.targets.list.length + m.deferredTargets.list.length
  nonempty : m.targets.list ≠ []
  pending : m.inService = false → m.deferredTargets.list = []
  reset : m.deferredTargets.list = [] → m.deferredTargets = {}
  deferred_cpu : ∀ t ∈ m.deferredTargets.list, t.source = .fromCPU

theorem Idle.allocate {m : Mshr} (h : m.Idle) (addr : Addr) (size : Nat) (pkt : Packet) (time : Tick)
    (order : Nat) : (m.allocate addr size pkt time order).Busy where
  count := by simp [Mshr.allocate, TargetList.add, h.targets, h.deferred]
  nonempty := by simp [Mshr.allocate, TargetList.add]
  pending _ := by simp [Mshr.allocate, h.deferred]
  reset _ := h.deferred
  deferred_cpu t ht := by simp [Mshr.allocate, h.deferred] at ht

theorem Busy.allocateTarget {m : Mshr} (h : m.Busy) (pkt : Packet) (time : Tick) (order : Nat) :
    (m.allocateTarget pkt time order).Busy := by
  unfold Mshr.allocateTarget
  have hcount := h.count
  split
  · rename_i hdefer
    rw [Bool.and_eq_true] at hdefer
    refine ⟨?_, h.nonempty, ?_, ?_, ?_⟩
    · simp [TargetList.add]
      omega
    · intro hin
      rw [show m.inService = false from hin] at hdefer
      exact absurd hdefer.1 (by simp)
    · intro hnil
      simp [TargetList.add] at hnil
    · intro t ht
      simp only [TargetList.add, List.mem_append, List.mem_singleton] at ht
      rcases ht with ht | rfl
      · exact h.deferred_cpu t ht
      · rfl
  · refine ⟨?_, ?_, h.pending, h.reset, h.deferred_cpu⟩
    · simp [TargetList.add]
      omega
    · simp [TargetList.add]

end Mshr

/-! ## Replaced upgrades -/

theorem TargetList.replaceUpgrade_source (t : Target) :
    (TargetList.replaceUpgrade t).source = t.source := by
  unfold TargetList.replaceUpgrade
  split
  · rfl
  · split <;> rfl

namespace Mshr

/-- Replacing upgrades changes commands only. -/
theorem replaceIf_list (b : Bool) (tl : TargetList) :
    (replaceIf b tl).list = tl.list ∨ (replaceIf b tl).list = tl.list.map TargetList.replaceUpgrade := by
  unfold replaceIf TargetList.replaceUpgrades
  split
  · split
    · exact .inr rfl
    · exact .inl rfl
  · exact .inl rfl

/-- A target, perhaps with its upgrade replaced. -/
def Replaced (t t' : Target) : Prop := t = t' ∨ t = TargetList.replaceUpgrade t'

theorem Replaced.source {t t' : Target} (h : Replaced t t') : t.source = t'.source := by
  rcases h with rfl | rfl
  · rfl
  · exact TargetList.replaceUpgrade_source t'

theorem mem_replaceIf {b : Bool} {tl : TargetList} {t : Target} (h : t ∈ (replaceIf b tl).list) :
    ∃ t' ∈ tl.list, Replaced t t' := by
  rcases replaceIf_list b tl with hl | hl
  · exact ⟨t, hl ▸ h, Or.inl rfl⟩
  · rw [hl] at h
    obtain ⟨t', ht', rfl⟩ := List.mem_map.1 h
    exact ⟨t', ht', Or.inr rfl⟩

theorem replaceIf_length (b : Bool) (tl : TargetList) :
    (replaceIf b tl).list.length = tl.list.length := by
  rcases replaceIf_list b tl with h | h <;> simp [h]

theorem replaceIf_empty (b : Bool) : replaceIf b {} = {} := by
  cases b <;> rfl

theorem replaceIf_sources (b : Bool) (tl : TargetList) :
    (replaceIf b tl).list.map Target.source = tl.list.map Target.source := by
  rcases replaceIf_list b tl with h | h
  · rw [h]
  · rw [h, List.map_map]
    exact List.map_congr_left fun t _ => TargetList.replaceUpgrade_source t

theorem replaceIf_nil {b : Bool} {tl : TargetList} : (replaceIf b tl).list = [] ↔ tl.list = [] := by
  rw [← List.length_eq_zero_iff, replaceIf_length, List.length_eq_zero_iff]

/-- The parts of `Busy` that speak of the deferred targets survive a replacement. -/
theorem Busy.replaceDeferred {m : Mshr} (h : m.Busy) (b : Bool) :
    { m with deferredTargets := replaceIf b m.deferredTargets }.Busy where
  count := by simpa [replaceIf_length] using h.count
  nonempty := h.nonempty
  pending hin := replaceIf_nil.2 (h.pending hin)
  reset hnil := by
    show replaceIf b m.deferredTargets = {}
    rw [h.reset (replaceIf_nil.1 hnil), replaceIf_empty]
  deferred_cpu t ht := by
    have hmem : t.source ∈ (replaceIf b m.deferredTargets).list.map Target.source :=
      List.mem_map_of_mem ht
    rw [replaceIf_sources, List.mem_map] at hmem
    obtain ⟨t', ht', hs⟩ := hmem
    rw [← hs, h.deferred_cpu t' ht']

/-- A snoop replaces upgrades and may add a target of its own. -/
theorem handleSnoop_lists (m : Mshr) (now : Tick) (pkt : Packet) (order : Nat) :
    let r := (m.handleSnoop now pkt order).1
    ∃ b extra, r.targets.list = (replaceIf b m.targets).list ++ extra ∧
      (∀ t ∈ extra, t.source = .fromSnoop ∧ t.pkt.cmd = pkt.cmd) ∧
      r.deferredTargets = replaceIf pkt.cmd.needsExclusive m.deferredTargets := by
  unfold handleSnoop
  dsimp only
  split
  · exact ⟨pkt.cmd.needsExclusive, [], by simp, by simp, rfl⟩
  split
  · exact ⟨false, [], by simp [replaceIf], by simp, rfl⟩
  split
  · split
    all_goals
      refine ⟨false, _, rfl, ?_, rfl⟩
      intro t ht
      rw [List.mem_singleton.1 ht]
      exact ⟨rfl, rfl⟩
  · exact ⟨false, [], by simp [replaceIf], by simp, rfl⟩

theorem mem_handleSnoop {m : Mshr} {now : Tick} {pkt : Packet} {order : Nat} {t : Target}
    (h : t ∈ (m.handleSnoop now pkt order).1.targets.list ++ (m.handleSnoop now pkt order).1.deferredTargets.list) :
    (∃ t' ∈ m.targets.list ++ m.deferredTargets.list, Replaced t t') ∨
      (t.source = .fromSnoop ∧ t.pkt.cmd = pkt.cmd) := by
  obtain ⟨b, extra, htargets, hextra, hdeferred⟩ := m.handleSnoop_lists now pkt order
  rw [htargets, hdeferred, List.mem_append, List.mem_append] at h
  rcases h with (h | h) | h
  · obtain ⟨t', ht', hsame⟩ := mem_replaceIf h
    exact Or.inl ⟨t', List.mem_append_left _ ht', hsame⟩
  · exact Or.inr (hextra t h)
  · obtain ⟨t', ht', hsame⟩ := mem_replaceIf h
    exact Or.inl ⟨t', List.mem_append_right _ ht', hsame⟩

theorem mem_allocateTarget {m : Mshr} {pkt : Packet} {time : Tick} {order : Nat} {t : Target}
    (h : t ∈ (m.allocateTarget pkt time order).targets.list ++ (m.allocateTarget pkt time order).deferredTargets.list) :
    t ∈ m.targets.list ++ m.deferredTargets.list ∨ (t.source = .fromCPU ∧ t.pkt = pkt) := by
  unfold allocateTarget at h
  split at h
  all_goals
    simp only [TargetList.add, List.mem_append, List.mem_singleton] at h ⊢
    rcases h with h | h <;> grind

theorem Busy.handleSnoop {m : Mshr} (h : m.Busy) (now : Tick) (pkt : Packet) (order : Nat) :
    (m.handleSnoop now pkt order).1.Busy := by
  have hd := h.replaceDeferred pkt.cmd.needsExclusive
  unfold Mshr.handleSnoop
  split
  · refine ⟨?_, ?_, hd.pending, hd.reset, hd.deferred_cpu⟩
    · simpa [replaceIf_length] using h.count
    · exact fun hnil => h.nonempty (replaceIf_nil.1 hnil)
  dsimp only
  split
  · exact hd
  split
  · -- the copy of the snoop becomes the last target
    have added : ∀ r : Mshr, r.targets =
        m.targets.add (pkt.copy now true) now order .fromSnoop →
        r.deferredTargets = replaceIf pkt.cmd.needsExclusive m.deferredTargets →
        r.ntargets = m.ntargets + 1 → r.inService = m.inService → r.Busy := by
      intro r ht hdef hn hin
      have hcount := h.count
      refine ⟨?_, ?_, ?_, ?_, ?_⟩
      · rw [hn, ht, hdef, replaceIf_length]
        simp [TargetList.add]
        omega
      · rw [ht]
        simp [TargetList.add]
      · rw [hin, hdef]
        exact hd.pending
      · rw [hdef]
        exact hd.reset
      · rw [hdef]
        exact hd.deferred_cpu
    split <;> exact added _ rfl rfl rfl rfl
  · exact ⟨hd.count, hd.nonempty, hd.pending, hd.reset, hd.deferred_cpu⟩

theorem Busy.handleFill {m : Mshr} (h : m.Busy) (pkt : Packet) : (m.handleFill pkt).1.Busy := by
  unfold Mshr.handleFill
  dsimp only
  split
  · refine ⟨?_, ?_, ?_, ?_, ?_⟩
    · simpa using h.count
    · simp [h.nonempty]
    · simp
    · simp
    · simp
  · exact h

/-- An entry that only passes its packet on is empty without that target. -/
theorem Busy.forwarded {m : Mshr} (h : m.Busy) (hf : m.isForwardNoResponse = true) :
    m.targets.list.tail = [] ∧ m.deferredTargets = {} := by
  simp only [isForwardNoResponse, getNumTargets, Bool.and_eq_true, beq_iff_eq] at hf
  have hcount := h.count
  have hpos := List.length_pos_iff.2 h.nonempty
  refine ⟨?_, h.reset (List.length_eq_zero_iff.1 (by omega))⟩
  rw [← List.length_eq_zero_iff, List.length_tail]
  omega

/-- A register whose targets are being answered: it may have none left. -/
structure Draining (m : Mshr) : Prop where
  count : m.ntargets = m.targets.list.length + m.deferredTargets.list.length
  pending : m.inService = false → m.deferredTargets.list = []
  reset : m.deferredTargets.list = [] → m.deferredTargets = {}
  deferred_cpu : ∀ t ∈ m.deferredTargets.list, t.source = .fromCPU

theorem Busy.draining {m : Mshr} (h : m.Busy) : m.Draining := ⟨h.count, h.pending, h.reset, h.deferred_cpu⟩

theorem Draining.popTarget {m : Mshr} (h : m.Draining) (ht : m.hasTargets = true) : m.popTarget.Draining := by
  refine ⟨?_, h.pending, h.reset, h.deferred_cpu⟩
  have hcount := h.count
  have hpos : 0 < m.targets.list.length := List.length_pos_iff.2 (by simpa [hasTargets] using ht)
  simp only [Mshr.popTarget, List.length_tail]
  omega

theorem Draining.served {m : Mshr} (h : m.Draining) : m.served.Draining := by
  refine ⟨?_, h.pending, h.reset, h.deferred_cpu⟩
  have hcount := h.count
  simp only [Mshr.served, List.length_nil]
  omega

@[simp] theorem promoteDeferredTargets_ntargets (m : Mshr) (now : Tick) :
    (m.promoteDeferredTargets now).1.ntargets = m.ntargets := by
  unfold promoteDeferredTargets
  split <;> rfl

/-- A promotion that happens swaps the two lists. -/
theorem promoteDeferredTargets_lists {m : Mshr} {now : Tick} (h : (m.promoteDeferredTargets now).2 = true) :
    (m.promoteDeferredTargets now).1.targets.list = m.deferredTargets.list ∧
      (m.promoteDeferredTargets now).1.deferredTargets.list = m.targets.list := by
  unfold promoteDeferredTargets at h ⊢
  split at h
  · cases h
  · exact ⟨rfl, rfl⟩

/-- After its targets have been answered an entry has deferred ones, which then
are the targets of a register in use, or it is empty. -/
theorem Draining.promote {m : Mshr} (h : m.Draining) (hempty : m.targets.list = []) (now : Tick) :
    let r := m.promoteDeferredTargets now
    (r.2 = true → { r.1 with inService := false }.Busy) ∧
      (r.2 = false → r.1 = m ∧ m.deferredTargets = {}) := by
  intro r
  have hr : r = m.promoteDeferredTargets now := rfl
  have hcount := h.count
  unfold promoteDeferredTargets at hr
  cases hd : m.deferredTargets.list with
  | nil =>
    simp only [hd] at hr
    rw [hr]
    exact ⟨by simp, fun _ => ⟨rfl, h.reset hd⟩⟩
  | cons t ts =>
    simp only [hd] at hr
    rw [hr]
    refine ⟨fun _ => ⟨?_, ?_, ?_, ?_, ?_⟩, by simp⟩
    · simp [TargetList.resetFlags, hcount, hempty]
    · intro hnil
      rw [show m.deferredTargets.list = [] from hnil] at hd
      cases hd
    all_goals simp [TargetList.resetFlags, hempty]

theorem Busy.promote {m : Mshr} (h : m.Busy) (now : Tick) :
    let r := m.served.promoteDeferredTargets now
    (r.2 = true → { r.1 with inService := false }.Busy) ∧
      (r.2 = false → r.1 = m.served ∧ m.served.deferredTargets = {}) :=
  h.draining.served.promote rfl now

end Mshr
end PrefetchSim
