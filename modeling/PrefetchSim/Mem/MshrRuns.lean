import PrefetchSim.Lib.Runs
import PrefetchSim.Mem.Mshr

/- One miss register over the calls the cache makes of it.

   A register is free, or held by an entry; a response makes the cache answer its targets one by
   one, and when there are none left the deferred ones take their place, or the register is
   emptied and freed (`Phase`). The order numbers of the targets increase, as the cache counts
   them up with every request.

   Proved here: in every state of every such run the counter is the number of targets, as long
   as that fits its 16 bits; the requests of the CPU side and the prefetcher are listed in the
   order of their arrival; only a request in service has deferred targets; and what `allocate`,
   `deallocate` and `promoteDeferredTargets` assert holds (`mshr_in_order`). -/
namespace PrefetchSim

/-! ## Arrivals -/

/-- The order numbers of the targets that are not snoops. -/
def arrivals (ts : List Target) : List Nat :=
  (ts.filter fun t => t.source != .fromSnoop).map Target.order

theorem arrivals_append (ts us : List Target) : arrivals (ts ++ us) = arrivals ts ++ arrivals us := by
  rw [arrivals, List.filter_append, List.map_append]
  rfl

theorem arrivals_request {t : Target} (h : t.source ≠ .fromSnoop) : arrivals [t] = [t.order] := by
  simp [arrivals, h]

theorem arrivals_snoops {ts : List Target} (h : ∀ t ∈ ts, t.source = .fromSnoop) : arrivals ts = [] := by
  rw [arrivals, List.map_eq_nil_iff, List.filter_eq_nil_iff]
  intro t ht
  simp [h t ht]

theorem arrivals_tail_sublist (ts : List Target) : (arrivals ts.tail).Sublist (arrivals ts) :=
  ((List.tail_sublist ts).filter _).map _

theorem replaceUpgrade_order (t : Target) : (TargetList.replaceUpgrade t).order = t.order := by
  unfold TargetList.replaceUpgrade
  split
  · rfl
  · split <;> rfl

theorem arrivals_replaceIf (b : Bool) (tl : TargetList) :
    arrivals (Mshr.replaceIf b tl).list = arrivals tl.list := by
  rcases Mshr.replaceIf_list b tl with h | h
  · rw [h]
  · have hsource : (fun t : Target => t.source != .fromSnoop) ∘ TargetList.replaceUpgrade =
        fun t : Target => t.source != .fromSnoop := by
      funext t
      simp [TargetList.replaceUpgrade_source]
    rw [h, arrivals, List.filter_map, List.map_map, hsource]
    exact List.map_congr_left fun t _ => replaceUpgrade_order t

namespace Mshr

/-- The requests waiting in a register, first those of the request at hand. -/
def arrivals (m : Mshr) : List Nat := PrefetchSim.arrivals (m.targets.list ++ m.deferredTargets.list)

theorem arrivals_eq (m : Mshr) : m.arrivals =
    PrefetchSim.arrivals m.targets.list ++ PrefetchSim.arrivals m.deferredTargets.list :=
  arrivals_append _ _

theorem Idle.arrivals_allocate {m : Mshr} (h : m.Idle) (addr : Addr) (size : Nat) (pkt : Packet) (time : Tick)
    (order : Nat) : (m.allocate addr size pkt time order).arrivals = [order] := by
  by_cases hpf : pkt.cmd = .hardPFReq <;>
    simp [arrivals, PrefetchSim.arrivals, Mshr.allocate, TargetList.add, h.targets, h.deferred, hpf]

/-- A new request comes last: it joins the deferred ones if there are any. -/
theorem Busy.arrivals_allocateTarget {m : Mshr} (h : m.Busy) (pkt : Packet) (time : Tick) (order : Nat) :
    (m.allocateTarget pkt time order).arrivals = m.arrivals ++ [order] := by
  unfold Mshr.allocateTarget
  split
  · simp only [arrivals_eq, TargetList.add]
    rw [arrivals_append, arrivals_request (by simp), List.append_assoc]
  · rename_i hjoin
    have hnone : m.deferredTargets.list = [] := by
      cases hin : m.inService with
      | false => exact h.pending hin
      | true =>
        simp only [hin, Bool.true_and, Bool.or_eq_true, not_or] at hjoin
        simpa using hjoin.1.1
    simp only [arrivals_eq, TargetList.add]
    rw [arrivals_append, arrivals_request (by simp), hnone]
    simp [PrefetchSim.arrivals]

theorem arrivals_handleSnoop (m : Mshr) (now : Tick) (pkt : Packet) (order : Nat) :
    (m.handleSnoop now pkt order).1.arrivals = m.arrivals := by
  obtain ⟨b, extra, htargets, hextra, hdeferred⟩ := m.handleSnoop_lists now pkt order
  have hsnoops := arrivals_snoops fun t ht => (hextra t ht).1
  rw [arrivals_eq, arrivals_eq, htargets, hdeferred, arrivals_append, hsnoops, List.append_nil,
    arrivals_replaceIf, arrivals_replaceIf]

theorem arrivals_handleFill (m : Mshr) (pkt : Packet) : (m.handleFill pkt).1.arrivals = m.arrivals := by
  unfold handleFill
  dsimp only
  split
  · rw [arrivals, List.append_nil]
    rfl
  · rfl

theorem arrivals_popTarget (m : Mshr) : m.popTarget.arrivals.Sublist m.arrivals := by
  rw [arrivals_eq, arrivals_eq]
  exact (arrivals_tail_sublist m.targets.list).append_right _

theorem arrivals_promote {m : Mshr} (h : m.targets.list = []) (now : Tick) :
    (m.promoteDeferredTargets now).1.arrivals = m.arrivals := by
  unfold promoteDeferredTargets
  split
  · rfl
  · simp [arrivals, TargetList.resetFlags, h]

end Mshr

/-! ## Runs -/

/-- What the cache is at with a register. -/
inductive Phase where
  | free
  | held
  /-- the targets are answered one by one -/
  | answering
  /-- no target is left, and the register is about to be freed -/
  | emptied
  deriving DecidableEq, Repr

/-- A register with its counter as the source has it, an `unsigned short`, and the number above
all order numbers so far. -/
structure Tracked where
  reg : Mshr := {}
  counter : BitVec 16 := 0
  phase : Phase := .free
  clock : Nat := 0

inductive MshrOp where
  | allocate (addr : Addr) (size : Nat) (pkt : Packet) (whenReady : Tick) (order : Nat)
  | allocateTarget (pkt : Packet) (whenReady : Tick) (order : Nat)
  | handleSnoop (now : Tick) (pkt : Packet) (order : Nat)
  /-- the two flags that others write -/
  | flags (forward pending : Bool)
  | markInService
  /-- a response that is not a fill -/
  | respond
  /-- a response that is -/
  | handleFill (pkt : Packet)
  | popTarget
  /-- `popTarget` for a prefetch whose block is in the cache -/
  | bailOut
  /-- with `markPending` of the queue, if there are deferred targets -/
  | promoteDeferredTargets (now : Tick)
  | deallocate

/-- The snoop becomes a target. -/
def Mshr.addsSnoop (m : Mshr) (pkt : Packet) : Bool :=
  !(!m.inService || (pkt.expressSnoop && m.downstreamPending)) && !m.pendingInvalidate &&
    (m.targets.needsExclusive || pkt.cmd.needsExclusive)

namespace Tracked

def step (s : Tracked) : MshrOp → Tracked
  | .allocate addr size pkt whenReady order =>
    { reg := s.reg.allocate addr size pkt whenReady order, counter := 1, phase := .held, clock := order + 1 }
  | .allocateTarget pkt whenReady order =>
    { s with reg := s.reg.allocateTarget pkt whenReady order, counter := s.counter + 1, clock := order + 1 }
  | .handleSnoop now pkt order =>
    { s with
      reg := (s.reg.handleSnoop now pkt order).1
      counter := if s.reg.addsSnoop pkt then s.counter + 1 else s.counter
      clock := order + 1 }
  | .flags forward pending => { s with reg := { s.reg with isForward := forward, downstreamPending := pending } }
  | .markInService =>
    if s.reg.markInService.2 then
      { s with reg := s.reg.markInService.1, counter := s.counter - 1, phase := .emptied }
    else { s with reg := s.reg.markInService.1 }
  | .respond => { s with phase := .answering }
  | .handleFill pkt => { s with reg := (s.reg.handleFill pkt).1, phase := .answering }
  | .popTarget => { s with reg := s.reg.popTarget, counter := s.counter - 1 }
  | .bailOut =>
    { s with
      reg := s.reg.popTarget
      counter := s.counter - 1
      phase := if s.reg.popTarget.hasTargets then .held else .emptied }
  | .promoteDeferredTargets now =>
    let r := s.reg.promoteDeferredTargets now
    if r.2 then { s with reg := { r.1 with inService := false }, phase := .held }
    else { s with reg := r.1, phase := .emptied }
  | .deallocate => { s with reg := s.reg.deallocate, phase := .free }

/-- The number of targets, of both lists. -/
def size (s : Tracked) : Nat := s.reg.targets.list.length + s.reg.deferredTargets.list.length

/-- The calls the cache makes. The order numbers increase, and there are fewer than 2^16 targets;
without a request in service only a store-conditional that has failed is answered. -/
def Enabled (s : Tracked) : MshrOp → Prop
  | .allocate _ _ pkt _ order => s.phase = .free ∧ pkt.cmd.isRequest = true ∧ s.clock ≤ order
  | .allocateTarget pkt _ order =>
    s.phase = .held ∧ pkt.cmd.isRequest = true ∧ pkt.cmd ≠ .hardPFReq ∧ s.clock ≤ order ∧ s.size + 1 < 2 ^ 16
  | .handleSnoop _ _ order => s.phase = .held ∧ s.clock ≤ order ∧ s.size + 1 < 2 ^ 16
  | .flags _ _ => s.phase = .held
  | .markInService => s.phase = .held ∧ s.reg.inService = false
  | .respond => s.phase = .held ∧
      (s.reg.inService = true ∨ ∃ t ∈ s.reg.getTarget, t.pkt.cmd = .scUpgradeFailReq)
  | .handleFill _ => s.phase = .held ∧ s.reg.inService = true
  | .popTarget => s.phase = .answering ∧ s.reg.hasTargets = true
  | .bailOut => s.phase = .held ∧ s.reg.inService = false ∧ ∃ t ∈ s.reg.getTarget, t.pkt.cmd = .hardPFReq
  | .promoteDeferredTargets _ => s.phase = .answering ∧ s.reg.hasTargets = false
  | .deallocate => s.phase = .emptied

instance (s : Tracked) : (op : MshrOp) → Decidable (s.Enabled op)
  | .allocate _ _ _ _ _ => inferInstanceAs (Decidable (_ ∧ _))
  | .allocateTarget _ _ _ => inferInstanceAs (Decidable (_ ∧ _))
  | .handleSnoop _ _ _ => inferInstanceAs (Decidable (_ ∧ _))
  | .flags _ _ => inferInstanceAs (Decidable (_ = _))
  | .markInService => inferInstanceAs (Decidable (_ ∧ _))
  | .respond => inferInstanceAs (Decidable (_ ∧ _))
  | .handleFill _ => inferInstanceAs (Decidable (_ ∧ _))
  | .popTarget => inferInstanceAs (Decidable (_ ∧ _))
  | .bailOut => inferInstanceAs (Decidable (_ ∧ _))
  | .promoteDeferredTargets _ => inferInstanceAs (Decidable (_ ∧ _))
  | .deallocate => inferInstanceAs (Decidable (_ = _))

/-- What the source asserts of the lists, their flags and the counter. -/
def Asserts (s : Tracked) : MshrOp → Prop
  | .allocate _ _ _ _ _ => s.counter = 0 ∧ s.reg.targets.isReset = true ∧ s.reg.deferredTargets.isReset = true
  | .deallocate => s.reg.targets.list = [] ∧ s.reg.deferredTargets.isReset = true ∧ s.counter = 0
  | .promoteDeferredTargets _ => s.reg.targets.list = [] ∧
      (s.reg.deferredTargets.list ≠ [] → s.reg.deferredTargets.list.length = s.counter.toNat)
  | _ => True

/-- What the phase says about the register. -/
def Fits (m : Mshr) : Phase → Prop
  | .free => m.Idle ∧ m.inService = false ∧ m.ntargets = 0
  | .held => m.Busy
  | .answering => m.Draining
  | .emptied => m.Draining ∧ m.targets.list = [] ∧ m.deferredTargets.list = []

structure Inv (s : Tracked) : Prop where
  fits : Fits s.reg s.phase
  counter : s.counter.toNat = s.reg.ntargets
  sorted : s.reg.arrivals.Pairwise (· < ·)
  below : ∀ o ∈ s.reg.arrivals, o < s.clock

/-! ## One call -/

theorem counter_succ {c : BitVec 16} {n : Nat} (h : c.toNat = n) (hn : n + 1 < 2 ^ 16) : (c + 1).toNat = n + 1 := by
  rw [BitVec.toNat_add, h]
  exact Nat.mod_eq_of_lt hn

theorem counter_pred {c : BitVec 16} {n : Nat} (h : c.toNat = n) (hn : 0 < n) : (c - 1).toNat = n - 1 := by
  have hlt := c.isLt
  have hone : (1 : BitVec 16).toNat = 1 := rfl
  rw [BitVec.toNat_sub, h, hone]
  omega

theorem handleSnoop_ntargets (m : Mshr) (now : Tick) (pkt : Packet) (order : Nat) :
    (m.handleSnoop now pkt order).1.ntargets = if m.addsSnoop pkt then m.ntargets + 1 else m.ntargets := by
  unfold Mshr.handleSnoop
  split
  · rename_i hprecedes
    simp [Mshr.addsSnoop, hprecedes]
  · rename_i hsent
    dsimp only
    split
    · rename_i hinval
      simp [Mshr.addsSnoop, hinval]
    · rename_i hinval
      split
      · rename_i hexcl
        have hadds : m.addsSnoop pkt = true := by
          rw [Mshr.addsSnoop, hexcl, Bool.eq_false_iff.2 hsent, Bool.eq_false_iff.2 hinval]
          rfl
        rw [if_pos hadds]
        split <;> rfl
      · rename_i hexcl
        have hadds : ¬ m.addsSnoop pkt = true := fun hadds => hexcl (Bool.and_eq_true_iff.1 hadds).2
        rw [if_neg hadds]

/-- One more arrival, with the next order number. -/
theorem sorted_append {os : List Nat} {clock order : Nat} (hsorted : os.Pairwise (· < ·))
    (hbelow : ∀ o ∈ os, o < clock) (horder : clock ≤ order) :
    (os ++ [order]).Pairwise (· < ·) ∧ ∀ o ∈ os ++ [order], o < order + 1 := by
  constructor
  · refine List.pairwise_append.2 ⟨hsorted, List.pairwise_singleton _ _, ?_⟩
    intro a ha b hb
    rw [List.mem_singleton.1 hb]
    exact Nat.lt_of_lt_of_le (hbelow a ha) horder
  · intro o ho
    rcases List.mem_append.1 ho with ho | ho
    · have := hbelow o ho
      omega
    · rw [List.mem_singleton.1 ho]
      exact Nat.lt_succ_self order

namespace Inv

variable {s : Tracked}

/-- A call that lists no new request. -/
theorem of_sublist (h : s.Inv) {s' : Tracked} (hfits : Fits s'.reg s'.phase)
    (hcounter : s'.counter.toNat = s'.reg.ntargets) (hsub : s'.reg.arrivals.Sublist s.reg.arrivals)
    (hclock : s.clock ≤ s'.clock) : s'.Inv where
  fits := hfits
  counter := hcounter
  sorted := h.sorted.sublist hsub
  below o ho := Nat.lt_of_lt_of_le (h.below o (hsub.subset ho)) hclock

theorem busy (h : s.Inv) (hp : s.phase = .held) : s.reg.Busy := by
  have hfits := h.fits
  rwa [hp] at hfits

theorem draining (h : s.Inv) (hp : s.phase = .answering) : s.reg.Draining := by
  have hfits := h.fits
  rwa [hp] at hfits

/-- The target at the head is taken off. -/
theorem pop_counter (h : s.Inv) (hd : s.reg.Draining) (ht : s.reg.hasTargets = true) :
    (s.counter - 1).toNat = s.reg.popTarget.ntargets := by
  have hcount := hd.count
  have hpos : 0 < s.reg.targets.list.length := List.length_pos_iff.2 (by simpa [Mshr.hasTargets] using ht)
  exact counter_pred h.counter (by omega)

theorem step_allocate (h : s.Inv) {addr : Addr} {size : Nat} {pkt : Packet} {time : Tick} {order : Nat}
    (he : s.Enabled (.allocate addr size pkt time order)) : (s.step (.allocate addr size pkt time order)).Inv := by
  have hfits := h.fits
  rw [he.1] at hfits
  have harrivals := hfits.1.arrivals_allocate addr size pkt time order
  refine ⟨hfits.1.allocate addr size pkt time order, rfl, ?_, ?_⟩
  · rw [step, harrivals]
    exact List.pairwise_singleton _ _
  · intro o ho
    rw [step, harrivals] at ho
    rw [List.mem_singleton.1 ho]
    exact Nat.lt_succ_self order

theorem step_allocateTarget (h : s.Inv) {pkt : Packet} {time : Tick} {order : Nat}
    (he : s.Enabled (.allocateTarget pkt time order)) : (s.step (.allocateTarget pkt time order)).Inv := by
  obtain ⟨hp, -, -, horder, hroom⟩ := he
  have hbusy := h.busy hp
  have harrivals := hbusy.arrivals_allocateTarget pkt time order
  obtain ⟨hsorted, hbelow⟩ := sorted_append h.sorted h.below horder
  have hfits : Fits (s.step (.allocateTarget pkt time order)).reg s.phase := by
    rw [hp]
    exact hbusy.allocateTarget pkt time order
  have hcount : (s.step (.allocateTarget pkt time order)).reg.ntargets = s.reg.ntargets + 1 := by
    unfold step Mshr.allocateTarget
    dsimp only
    split <;> rfl
  refine ⟨hfits, ?_, ?_, ?_⟩
  · rw [hcount]
    apply counter_succ h.counter
    rw [hbusy.count]
    exact hroom
  · rw [step, harrivals]
    exact hsorted
  · rw [step, harrivals]
    exact hbelow

theorem step_handleSnoop (h : s.Inv) {now : Tick} {pkt : Packet} {order : Nat}
    (he : s.Enabled (.handleSnoop now pkt order)) : (s.step (.handleSnoop now pkt order)).Inv := by
  obtain ⟨hp, horder, hroom⟩ := he
  have hbusy := h.busy hp
  refine h.of_sublist ?_ ?_ ?_ ?_
  · show Fits _ s.phase
    rw [hp]
    exact hbusy.handleSnoop now pkt order
  · rw [step, handleSnoop_ntargets]
    dsimp only
    split
    · apply counter_succ h.counter
      rw [hbusy.count]
      exact hroom
    · exact h.counter
  · rw [step, Mshr.arrivals_handleSnoop]
  · exact Nat.le_succ_of_le horder

theorem step_markInService (h : s.Inv) (he : s.Enabled .markInService) : (s.step .markInService).Inv := by
  have hbusy := h.busy he.1
  have hclosed := hbusy.forwarded
  unfold step Mshr.markInService
  cases hf : s.reg.isForwardNoResponse with
  | false =>
    refine h.of_sublist ?_ h.counter (List.Sublist.refl _) (Nat.le_refl _)
    simp only [Bool.false_eq_true, if_false, he.1]
    refine ⟨hbusy.count, hbusy.nonempty, ?_, hbusy.reset, hbusy.deferred_cpu⟩
    intro hin
    cases hin
  | true =>
    obtain ⟨htail, hdeferred⟩ := hclosed hf
    have hmore : s.reg.hasTargets = true := by simpa [Mshr.hasTargets] using hbusy.nonempty
    refine h.of_sublist ?_ (h.pop_counter hbusy.draining hmore) (Mshr.arrivals_popTarget s.reg) (Nat.le_refl _)
    exact ⟨hbusy.draining.popTarget hmore, htail, by simp [Mshr.popTarget, hdeferred]⟩

theorem step_bailOut (h : s.Inv) (he : s.Enabled .bailOut) : (s.step .bailOut).Inv := by
  obtain ⟨hp, hin, -⟩ := he
  have hbusy := h.busy hp
  have hmore : s.reg.hasTargets = true := by simpa [Mshr.hasTargets] using hbusy.nonempty
  have hpop := hbusy.draining.popTarget hmore
  refine h.of_sublist ?_ (h.pop_counter hbusy.draining hmore) (Mshr.arrivals_popTarget s.reg) (Nat.le_refl _)
  unfold step
  dsimp only
  split
  · rename_i hleft
    exact ⟨hpop.count, by simpa [Mshr.hasTargets] using hleft, hpop.pending, hpop.reset, hpop.deferred_cpu⟩
  · rename_i hnone
    exact ⟨hpop, by simpa [Mshr.hasTargets] using hnone, hbusy.pending hin⟩

theorem step_promote (h : s.Inv) {now : Tick} (he : s.Enabled (.promoteDeferredTargets now)) :
    (s.step (.promoteDeferredTargets now)).Inv := by
  have hdraining := h.draining he.1
  have hempty : s.reg.targets.list = [] := by simpa [Mshr.hasTargets] using he.2
  obtain ⟨hmore, hnone⟩ := hdraining.promote hempty now
  have harrivals := Mshr.arrivals_promote hempty now
  have hcount := s.reg.promoteDeferredTargets_ntargets now
  unfold step
  dsimp only
  split
  · rename_i hprom
    exact h.of_sublist (hmore hprom) (h.counter.trans hcount.symm) (harrivals ▸ List.Sublist.refl _) (Nat.le_refl _)
  · rename_i hprom
    obtain ⟨hsame, hdeferred⟩ := hnone (by simpa using hprom)
    rw [hsame]
    refine h.of_sublist ⟨hdraining, hempty, ?_⟩ h.counter (List.Sublist.refl _) (Nat.le_refl _)
    rw [hdeferred]

theorem step_deallocate (h : s.Inv) (he : s.Enabled .deallocate) : (s.step .deallocate).Inv := by
  have hfits := h.fits
  rw [show s.phase = .emptied from he] at hfits
  obtain ⟨hdraining, htargets, hdeferred⟩ := hfits
  refine h.of_sublist ⟨⟨?_, hdraining.reset hdeferred⟩, rfl, ?_⟩ h.counter (List.Sublist.refl _) (Nat.le_refl _)
  · simp [step, Mshr.deallocate, TargetList.resetFlags, htargets]
  · show s.reg.ntargets = 0
    rw [hdraining.count, htargets, hdeferred]
    rfl

theorem step (h : s.Inv) {op : MshrOp} (he : s.Enabled op) : (s.step op).Inv := by
  cases op with
  | allocate addr size pkt time order => exact h.step_allocate he
  | allocateTarget pkt time order => exact h.step_allocateTarget he
  | handleSnoop now pkt order => exact h.step_handleSnoop he
  | flags forward pending =>
    have hbusy := h.busy he
    refine h.of_sublist ?_ h.counter (List.Sublist.refl _) (Nat.le_refl _)
    show Fits _ s.phase
    rw [show s.phase = .held from he]
    exact ⟨hbusy.count, hbusy.nonempty, hbusy.pending, hbusy.reset, hbusy.deferred_cpu⟩
  | markInService => exact h.step_markInService he
  | respond => exact h.of_sublist (h.busy he.1).draining h.counter (List.Sublist.refl _) (Nat.le_refl _)
  | handleFill pkt =>
    have hcount : (s.reg.handleFill pkt).1.ntargets = s.reg.ntargets := by
      unfold Mshr.handleFill
      dsimp only
      split <;> rfl
    exact h.of_sublist ((h.busy he.1).handleFill pkt).draining (h.counter.trans hcount.symm)
      (Mshr.arrivals_handleFill s.reg pkt ▸ List.Sublist.refl _) (Nat.le_refl _)
  | popTarget =>
    have hdraining := h.draining he.1
    refine h.of_sublist ?_ (h.pop_counter hdraining he.2) (Mshr.arrivals_popTarget s.reg) (Nat.le_refl _)
    show Fits _ s.phase
    rw [he.1]
    exact hdraining.popTarget he.2
  | bailOut => exact h.step_bailOut he
  | promoteDeferredTargets now => exact h.step_promote he
  | deallocate => exact h.step_deallocate he

theorem asserts (h : s.Inv) {op : MshrOp} (he : s.Enabled op) : s.Asserts op := by
  have hfits := h.fits
  have hcounter := h.counter
  cases op with
  | allocate addr size pkt time order =>
    rw [he.1] at hfits
    obtain ⟨hidle, -, hzero⟩ := hfits
    rw [hzero] at hcounter
    exact ⟨BitVec.eq_of_toNat_eq hcounter, by rw [hidle.targets]; rfl, by rw [hidle.deferred]; rfl⟩
  | deallocate =>
    rw [show s.phase = .emptied from he] at hfits
    obtain ⟨hdraining, htargets, hdeferred⟩ := hfits
    rw [hdraining.count, htargets, hdeferred] at hcounter
    exact ⟨htargets, by rw [hdraining.reset hdeferred]; rfl, BitVec.eq_of_toNat_eq hcounter⟩
  | promoteDeferredTargets now =>
    rw [he.1] at hfits
    have hempty : s.reg.targets.list = [] := by simpa [Mshr.hasTargets] using he.2
    refine ⟨hempty, fun _ => ?_⟩
    rw [hcounter, hfits.count, hempty, List.length_nil, Nat.zero_add]
  | _ => trivial

end Inv

/-! ## Whole runs -/

/-- The lists and the counter as they are to be. -/
structure InArrivalOrder (s : Tracked) : Prop where
  counts : s.counter.toNat = s.reg.targets.list.length + s.reg.deferredTargets.list.length
  sorted : s.reg.arrivals.Pairwise (· < ·)
  deferred : s.reg.deferredTargets.list ≠ [] → s.reg.inService = true

theorem Inv.inArrivalOrder {s : Tracked} (h : s.Inv) : s.InArrivalOrder := by
  have hfits := h.fits
  have hdraining : s.reg.Draining := by
    cases hp : s.phase with
    | free =>
      rw [hp] at hfits
      obtain ⟨hidle, -, hzero⟩ := hfits
      exact ⟨by rw [hzero, hidle.targets, hidle.deferred]; rfl, fun _ => by rw [hidle.deferred],
        fun _ => hidle.deferred, by simp [hidle.deferred]⟩
    | held => exact (h.busy hp).draining
    | answering => exact h.draining hp
    | emptied =>
      rw [hp] at hfits
      exact hfits.1
  refine ⟨h.counter.trans hdraining.count, h.sorted, ?_⟩
  intro hne
  by_contra hin
  exact hne (hdraining.pending (by simpa using hin))

theorem initial_inv : Inv {} := ⟨⟨⟨rfl, rfl⟩, rfl, rfl⟩, rfl, List.Pairwise.nil, fun o ho => by cases ho⟩

end Tracked

theorem mshr_in_order (ops : List MshrOp) (h : Runs.Guarded Tracked.step Tracked.Enabled {} ops) :
    Runs.Along Tracked.step Tracked.InArrivalOrder {} ops ∧ Runs.Guarded Tracked.step Tracked.Asserts {} ops :=
  ⟨Runs.along_mono (fun _ hs => hs.inArrivalOrder) ops _
    (Runs.along_of_guarded (fun _ _ hs he => hs.step he) ops _ Tracked.initial_inv h),
    Runs.guarded_of_invariant (fun _ _ hs he => hs.step he) (fun _ _ hs he => hs.asserts he) ops _
      Tracked.initial_inv h⟩

/-- A request for some bytes of the block at address 0. -/
def blockRequest (cmd : MemCmd) : Packet := Packet.ofRequest { paddr := 0, size := 8 } cmd 0

/-- A load is sent; a store has to wait for it, and a read is snooped; the copy that comes is
shared, so the store is sent next. -/
def deferredStore : List MshrOp :=
  [.allocate 0 64 (blockRequest .readReq) 1 0, .markInService, .allocateTarget (blockRequest .writeReq) 2 1,
    .handleSnoop 3 (blockRequest .readReq) 2, .handleFill (blockRequest .readResp), .popTarget,
    .promoteDeferredTargets 4, .markInService, .respond, .popTarget, .promoteDeferredTargets 5, .deallocate]

theorem mshr_in_order_deferredStore :
    Runs.Guarded Tracked.step Tracked.Enabled {} deferredStore ∧
      Runs.Along Tracked.step Tracked.InArrivalOrder {} deferredStore ∧
      Runs.Guarded Tracked.step Tracked.Asserts {} deferredStore := by
  have henabled : Runs.Guarded Tracked.step Tracked.Enabled {} deferredStore := by decide +kernel
  exact ⟨henabled, mshr_in_order deferredStore henabled⟩

end PrefetchSim
