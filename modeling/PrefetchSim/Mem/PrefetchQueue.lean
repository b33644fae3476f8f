import PrefetchSim.Mem.Policies
import PrefetchSim.Mem.Timing

/- The prefetch queue and its blocks.

   `notify` looks for a candidate among the queued packets before it puts it there, and
   takes the first packet it finds for the block that is demanded: both rely on there being
   one packet for a block at most. But `inPrefetch` compares block addresses with the
   candidate as it is, so a candidate that is not a block address is never found.

   Proved here: in every run in which the policy's candidates are block addresses
   (`PolicyKind.Aligns`: for four of the policies, always), no two packets of the queue are
   for one block, and a demand request takes every packet for its block out of the queue
   (`one_prefetch_per_block`). -/
namespace PrefetchSim

/-- No two queued packets are for one block. -/
def OnePerBlock (g : Geometry) (pf : List Packet) : Prop :=
  pf.Pairwise fun p q => g.blockAlign p.addr ≠ g.blockAlign q.addr

instance (g : Geometry) (pf : List Packet) : Decidable (OnePerBlock g pf) := by
  unfold OnePerBlock
  infer_instance

namespace Prefetcher

variable {σ : Type} {g : Geometry} {cfg : PfConfig}

/-- A packet is taken out, or all packets from some point on are. -/
theorem removeDemanded_sublist (addr : Addr) (s : Prefetcher σ) :
    (s.removeDemanded g addr).pf.Sublist s.pf := List.eraseP_sublist

theorem squash_sublist (time : Tick) (s : Prefetcher σ) : (s.squash time).pf.Sublist s.pf :=
  (List.rdropWhile_prefix _ _).sublist

/-- With one packet for a block, taking out the first one found leaves none. -/
theorem removeDemanded_none {s : Prefetcher σ} (h : OnePerBlock g s.pf) (addr : Addr) :
    ∀ p ∈ (s.removeDemanded g addr).pf, g.blockAlign p.addr ≠ g.blockAlign addr := by
  intro p hp
  change p ∈ s.pf.eraseP (inPrefetch g (g.blockAlign addr)) at hp
  generalize s.pf = pf at h hp
  induction pf with
  | nil => cases hp
  | cons q pf ih =>
    obtain ⟨hq, hpf⟩ := List.pairwise_cons.1 h
    by_cases hmatch : inPrefetch g (g.blockAlign addr) q = true
    · rw [List.eraseP_cons_of_pos hmatch] at hp
      rw [← of_decide_eq_true hmatch]
      exact (hq p hp).symm
    · rw [List.eraseP_cons_of_neg hmatch] at hp
      rcases List.mem_cons.1 hp with rfl | hp
      · exact fun heq => hmatch (decide_eq_true heq)
      · exact ih hpf hp

/-- A candidate that is a block address is put behind packets for other blocks. -/
theorem enqueue_onePerBlock {s : Prefetcher σ} (h : OnePerBlock g s.pf) (pkt : Packet) (time now : Tick)
    {c : Addr × Tick} (hc : g.blockAlign c.1 = c.1) : OnePerBlock g (enqueue g cfg pkt time now s c).pf := by
  unfold enqueue
  dsimp only [record]
  split
  · exact h
  · rename_i hnew
    have hother : ∀ p ∈ s.pf, g.blockAlign p.addr ≠ g.blockAlign c.1 := by
      intro p hp heq
      apply hnew
      exact List.any_eq_true.2 ⟨p, hp, decide_eq_true (heq.trans hc)⟩
    have happend : ∀ l : List Packet, l.Sublist s.pf →
        OnePerBlock g (l ++ [prefetchPacket g pkt time now c]) := by
      intro l hl
      refine List.pairwise_append.2 ⟨List.Pairwise.sublist hl h, List.pairwise_singleton .., ?_⟩
      intro p hp q hq
      rw [List.mem_singleton.1 hq]
      exact hother p (hl.mem hp)
    cases hpf : s.pf with
    | nil =>
      rw [hpf] at happend
      exact happend [] (List.Sublist.refl _)
    | cons old rest =>
      rw [hpf] at happend
      dsimp only
      split
      · exact happend rest (List.sublist_cons_self ..)
      · exact happend _ (List.Sublist.refl _)

theorem enqueueAll_onePerBlock {s : Prefetcher σ} (h : OnePerBlock g s.pf) (pkt : Packet) (time now : Tick)
    {cs : List (Addr × Tick)} (hcs : ∀ c ∈ cs, g.blockAlign c.1 = c.1) :
    OnePerBlock g (cs.foldl (enqueue g cfg pkt time now) s).pf := by
  induction cs generalizing s with
  | nil => exact h
  | cons c cs ih =>
    obtain ⟨hc, hcs⟩ := List.forall_mem_cons.1 hcs
    exact ih (enqueue_onePerBlock h pkt time now hc) hcs

end Prefetcher

/-! ## Runs -/

/-- The calls the cache makes of its prefetcher. -/
inductive PfAction where
  | notify (inCache inMissQueue : Addr → Bool) (now : Tick) (pkt : Packet) (time : Tick)
  | getPacket
  | complete (pkt : Packet)

def Prefetcher.act {σ : Type} (P : Policy σ) (g : Geometry) (cfg : PfConfig) (s : Prefetcher σ) :
    PfAction → Prefetcher σ
  | .notify inCache inMissQueue now pkt time => (s.notify P g cfg inCache inMissQueue now pkt time).1
  | .getPacket => s.getPacket s.pf.tail
  | .complete pkt => s.complete P pkt

/-- The requests `notify` deals with. -/
def heeded (cfg : PfConfig) (pkt : Packet) : Bool :=
  !pkt.req.uncacheable && !(pkt.req.instFetch && cfg.onlyData)

/-- A prefetcher with one of the policies. -/
structure PfSetting (τ : Type) where
  geom : Geometry
  cfg : PfConfig
  params : PolicyParams
  user : User τ
  kind : PolicyKind

namespace PfSetting

variable {τ : Type} (S : PfSetting τ)

def policy : Policy (S.kind.State τ) := S.kind.policy S.geom S.params S.user

def act : Prefetcher (S.kind.State τ) → PfAction → Prefetcher (S.kind.State τ) :=
  Prefetcher.act S.policy S.geom S.cfg

/-- The candidates of the call are block addresses. -/
def Aligns (s : Prefetcher (S.kind.State τ)) : PfAction → Prop
  | .notify inCache _ _ pkt _ =>
    heeded S.cfg pkt = true → S.kind.Aligns S.geom S.params inCache pkt s.policy
  | _ => True

/-- What the calls keep. -/
structure Sound (s : Prefetcher (S.kind.State τ)) : Prop where
  once : OnePerBlock S.geom s.pf
  kept : S.kind.Kept S.geom s.policy

variable {S}

theorem Sound.notify {s : Prefetcher (S.kind.State τ)} (hs : S.Sound s) (inCache inMissQueue : Addr → Bool)
    (now : Tick) {pkt : Packet} (time : Tick)
    (ha : heeded S.cfg pkt = true → S.kind.Aligns S.geom S.params inCache pkt s.policy) :
    S.Sound (s.notify S.policy S.geom S.cfg inCache inMissQueue now pkt time).1 := by
  unfold Prefetcher.notify
  dsimp only
  split
  · rename_i hheeded
    -- what is left of the queue is part of it, and the policy has not moved
    obtain ⟨s₁, hs₁, hsub, hpolicy⟩ : ∃ s₁ : Prefetcher (S.kind.State τ),
        (if S.cfg.serialSquash = true then (s.removeDemanded S.geom pkt.addr).squash time
          else s.removeDemanded S.geom pkt.addr) = s₁ ∧ s₁.pf.Sublist s.pf ∧ s₁.policy = s.policy := by
      refine ⟨_, rfl, ?_, ?_⟩
      · split
        · exact (Prefetcher.squash_sublist ..).trans (Prefetcher.removeDemanded_sublist ..)
        · exact Prefetcher.removeDemanded_sublist ..
      · split <;> rfl
    rw [hs₁]
    obtain ⟨hkept, hcs⟩ := PolicyKind.candidates S.user S.kind
      (v := ⟨inCache, inMissQueue, s₁.pf.length⟩) hs.kept (ha hheeded)
    rw [← hpolicy] at hkept hcs
    refine ⟨?_, ?_⟩
    · apply Prefetcher.enqueueAll_onePerBlock _ pkt time now hcs
      exact List.Pairwise.sublist hsub hs.once
    · rw [Prefetcher.enqueueAll_policy]
      exact hkept
  · exact hs

theorem Sound.act {s : Prefetcher (S.kind.State τ)} (hs : S.Sound s) {a : PfAction} (ha : S.Aligns s a) :
    S.Sound (S.act s a) := by
  cases a with
  | notify inCache inMissQueue now pkt time => exact hs.notify inCache inMissQueue now time ha
  | getPacket => exact ⟨List.Pairwise.sublist (List.tail_sublist _) hs.once, hs.kept⟩
  | complete pkt => exact ⟨hs.once, PolicyKind.kept_complete S.user pkt S.kind hs.kept⟩

end PfSetting

theorem one_prefetch_per_block {τ : Type} (S : PfSetting τ) {s₀ : S.kind.State τ} (h₀ : S.kind.Initial s₀)
    (as : List PfAction) (h : Runs.Guarded S.act S.Aligns { policy := s₀ } as) :
    Runs.Along S.act (fun s => OnePerBlock S.geom s.pf ∧
      ∀ addr, ∀ p ∈ (s.removeDemanded S.geom addr).pf, S.geom.blockAlign p.addr ≠ S.geom.blockAlign addr)
      { policy := s₀ } as := by
  have hinit : S.Sound { policy := s₀ } := ⟨List.Pairwise.nil, PolicyKind.kept_initial S.kind h₀⟩
  have hrun := Runs.along_of_guarded (I := S.Sound) (fun s a hs ha => hs.act ha) as _ hinit h
  exact Runs.along_mono (fun s hs => ⟨hs.once, Prefetcher.removeDemanded_none hs.once⟩) as _ hrun

/-- A load by one instruction, with nothing in the cache. -/
def heard (addr : Addr) : PfAction := .notify (fun _ => false) (fun _ => false) 0 (load 1 addr) 0

def pfParams (degree : Nat) : PolicyParams where
  latency := 1
  degree
  useContextId := true
  pageStop := true

/-- A user of the proxy that issues the same two addresses on each access. -/
def issuesPair : User Unit where
  prefetchAccess _ _ s := (s, [4096, 4160])
  prefetchComplete _ s := s

def pfSetting (geom : Geometry) (degree : Nat) (kind : PolicyKind) : PfSetting Unit where
  geom
  cfg := {}
  params := pfParams degree
  user := issuesPair
  kind

theorem one_prefetch_per_block_strides :
    let S := pfSetting smallGeometry 2 .stride
    let s₀ : Nat → List StrideEntry := fun _ => []
    Runs.Along S.act (fun s => OnePerBlock S.geom s.pf ∧
      ∀ addr, ∀ p ∈ (s.removeDemanded S.geom addr).pf, S.geom.blockAlign p.addr ≠ S.geom.blockAlign addr)
      { policy := s₀ } [heard 4100, heard 4164, heard 4228, heard 4292, .getPacket, heard 4356] :=
  @one_prefetch_per_block Unit (pfSetting smallGeometry 2 .stride) (fun _ => []) rfl _
    (by simp [Runs.Guarded, PfSetting.Aligns, PolicyKind.Aligns, pfSetting, heard])

/-- Blocks of 128 bytes. -/
def wideGeometry : Geometry where
  blkBits := 7
  setBits := 1
  assoc := 2
  hitLatency := 1
  numCpus := 1
  two_le_blkBits := by decide
  fits := by decide
  assoc_pos := Nat.two_pos
  hitLatency_pos := Nat.one_pos

/-- Two misses in one block queue each of the blocks ahead twice, and a demand request then
leaves one behind; the proxy is asked for two halves of a block; and the global history starts
from what was in memory. -/
theorem two_prefetches_for_a_block :
    let ahead := pfSetting smallGeometry 1 .interface
    let halves := pfSetting wideGeometry 1 .proxy
    let history := pfSetting smallGeometry 2 .ghb
    let s := Runs.exec ahead.act { policy := () } [heard 4100, heard 4104]
    let garbage : GhbState := { secondLastMissAddr := fun _ => 62, lastMissAddr := fun _ => 63 }
    (¬OnePerBlock smallGeometry s.pf ∧
        ∃ p ∈ (s.removeDemanded smallGeometry 4160).pf, smallGeometry.blockAlign p.addr = 4160) ∧
      ¬OnePerBlock wideGeometry (Runs.exec halves.act { policy := () } [heard 0]).pf ∧
      ¬OnePerBlock smallGeometry (Runs.exec history.act { policy := garbage } [heard 64]).pf := by
  decide +kernel

end PrefetchSim
