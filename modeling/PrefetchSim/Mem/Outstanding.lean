import PrefetchSim.Dcpt.Filter
import PrefetchSim.Mem.Targets

/- Outstanding prefetches of the DCPT prefetcher behind the proxy.

   A prefetch that `issue_prefetch` has accepted is outstanding while its packet
   is in the queue `pf` or its target is in an allocated entry of `mshrQueue`.
   The cache refines the abstract book of `Ledger`: the addresses outstanding, the
   blocks marked in `in_flight`, and the log. So what holds of every book holds
   in every state of every run: the outstanding blocks are distinct and in
   flight, and a block is outstanding exactly if it was accepted and has since
   neither completed nor been dropped (`outstanding_iff_open`).

   `Tracks` lets the same argument serve policies that observe the DCPT
   prefetcher from outside: `π` is its state, and `clean` what is observed. -/
namespace PrefetchSim

open Ledger (Book Move Moves Good)

/-- The causes for which the prefetches of this configuration may be dropped. -/
def MayDrop (cfg : Config) : DropCause → Prop
  | .squashed => cfg.pf.serialSquash = true
  | .queued => 6 < cfg.geom.blkBits
  | .overflow => cfg.pf.size < Dcpt.maxQueueSize
  | _ => True

/-! ## The policy -/

theorem Geometry.blockAlign_of_block {g : Geometry} (hg : g.blkBits ≤ 6) {a : Addr}
    (ha : Dcpt.toBlock a = a) : g.blockAlign a = a := by
  apply BitVec.eq_of_getLsbD_eq
  intro i hi
  rw [g.getLsbD_blockAlign a hi]
  by_cases h : g.blkBits ≤ i
  · simp [h]
  · rw [← ha, Dcpt.getLsbD_toBlock]
    have : ¬6 ≤ i := by omega
    simp [this]

theorem issuePrefetch_eq {latency : Tick} {a : Addr} (h : a ≤ Dcpt.maxPhysMemAddr) :
    issuePrefetch latency a = [(Dcpt.toBlock a, latency)] := by
  rw [issuePrefetch, if_pos h, Dcpt.toBlock_eq_and]

/-- The candidates of one call: new blocks, which are marked. -/
theorem dcpt_candidates (latency : Tick) (v : View) (pkt : Packet) (d : Dcpt.State) :
    let r := (proxy latency dcpt).calculatePrefetch v pkt d
    d.inFlight ⊆ r.1.inFlight ∧
      (d.inFlight.card ≤ Dcpt.maxQueueSize → r.1.inFlight.card ≤ Dcpt.maxQueueSize) ∧
      (d.Aligned → r.1.Aligned) ∧ (r.2.map Prod.fst).Nodup ∧
      ∀ c ∈ r.2, c.1 ∉ d.inFlight ∧ c.1 ∈ r.1.inFlight := by
  intro r
  have hr : r = (proxy latency dcpt).calculatePrefetch v pkt d := rfl
  unfold proxy at hr
  cases hstat : accessStat v pkt with
  | none =>
    simp only [hstat] at hr
    rw [hr]
    exact ⟨Finset.Subset.refl _, id, id, by simp, by simp⟩
  | some stat =>
    simp only [hstat] at hr
    obtain ⟨hsub, hcard, hnodup, hissued⟩ := Dcpt.prefetchAccess_spec v.sim stat d
    have hlist : r.2 = (Dcpt.prefetchAccess v.sim stat d).2.map fun a => (Dcpt.toBlock a, latency) := by
      rw [hr, List.map_eq_flatMap]
      apply List.flatMap_congr
      intro a ha
      exact issuePrefetch_eq (hissued a ha).1
    have hstate : r.1 = (Dcpt.prefetchAccess v.sim stat d).1 := by rw [hr]; rfl
    rw [hlist, hstate]
    refine ⟨hsub, hcard, Dcpt.prefetchAccess_aligned v.sim stat, ?_, ?_⟩
    · rw [List.map_map]
      exact hnodup
    · intro c hc
      obtain ⟨a, ha, rfl⟩ := List.mem_map.1 hc
      exact (hissued a ha).2

/-- Policy `P` issues what the DCPT prefetcher does. Its state shows the state of
that through `π`; `clean` is a property that the calls of this development keep. -/
structure Tracks {σ : Type} (P : Policy σ) (latency : Tick) (π : σ → Dcpt.State) (clean : σ → Prop) :
    Prop where
  access_state : ∀ v pkt s, π (P.calculatePrefetch v pkt s).1 =
    ((proxy latency dcpt).calculatePrefetch v pkt (π s)).1
  access_issued : ∀ v pkt s, (P.calculatePrefetch v pkt s).2 =
    ((proxy latency dcpt).calculatePrefetch v pkt (π s)).2
  complete_state : ∀ pkt s, π (P.prefetchComplete pkt s) = Dcpt.prefetchComplete pkt.addr (π s)
  access_clean : ∀ v pkt s, clean s → v.currentQueueSize ≤ (π s).inFlight.card →
    (π s).inFlight.card ≤ Dcpt.maxQueueSize → clean (P.calculatePrefetch v pkt s).1
  complete_clean : ∀ pkt s, clean s → Dcpt.toBlock pkt.addr ∈ (π s).inFlight →
    clean (P.prefetchComplete pkt s)

theorem tracks_dcpt (latency : Tick) : Tracks (proxy latency dcpt) latency id fun _ => True where
  access_state _ _ _ := rfl
  access_issued _ _ _ := rfl
  complete_state _ _ := rfl
  access_clean _ _ _ _ _ _ := trivial
  complete_clean _ _ _ _ := trivial

theorem Tracks.candidates {σ : Type} {P : Policy σ} {latency : Tick} {π : σ → Dcpt.State}
    {clean : σ → Prop} (hP : Tracks P latency π clean) (v : View) (pkt : Packet) (s : σ) :
    let r := P.calculatePrefetch v pkt s
    (π s).inFlight ⊆ (π r.1).inFlight ∧
      ((π s).inFlight.card ≤ Dcpt.maxQueueSize → (π r.1).inFlight.card ≤ Dcpt.maxQueueSize) ∧
      ((π s).Aligned → (π r.1).Aligned) ∧ (r.2.map Prod.fst).Nodup ∧
      ∀ c ∈ r.2, c.1 ∉ (π s).inFlight ∧ c.1 ∈ (π r.1).inFlight := by
  have h := dcpt_candidates latency v pkt (π s)
  dsimp only at h ⊢
  rwa [← hP.access_state, ← hP.access_issued] at h

/-! ## The prefetcher's part of the book -/

namespace Prefetcher

variable {σ : Type} {π : σ → Dcpt.State} {P : Policy σ} {latency : Tick} {clean : σ → Prop}
  {cfg : Config} {rest : List Addr}

def queued (s : Prefetcher σ) : List Addr := s.pf.map fun p : Packet => p.addr

/-- The book when `out` is outstanding. -/
def book (π : σ → Dcpt.State) (s : Prefetcher σ) (out : List Addr) : Book DropCause Addr :=
  ⟨out, (π s.policy).inFlight, s.log⟩

/-- What holds of a prefetcher apart from its book. -/
structure Fit (π : σ → Dcpt.State) (clean : σ → Prop) (s : Prefetcher σ) : Prop where
  cmd : ∀ p ∈ s.pf, p.cmd = .hardPFReq
  aligned : (π s.policy).Aligned
  clean : clean s.policy

abbrev Sound (cfg : Config) (π : σ → Dcpt.State) (s : Prefetcher σ) (out : List Addr) : Prop :=
  Good (MayDrop cfg) Dcpt.maxQueueSize (s.book π out)

abbrev Steps (cfg : Config) (π : σ → Dcpt.State) (s : Prefetcher σ) (out : List Addr)
    (s' : Prefetcher σ) (out' : List Addr) : Prop :=
  Moves (MayDrop cfg) Dcpt.maxQueueSize (s.book π out) (s'.book π out')

/-- A change of the order in which the outstanding addresses are listed. -/
theorem Steps.shuffle {s : Prefetcher σ} {out out' : List Addr} (h : out.Perm out') :
    Steps cfg π s out s out' :=
  Relation.ReflTransGen.single (.shuffle h)

theorem removeDemanded_steps (s : Prefetcher σ) (addr : Addr) :
    Steps cfg π s (s.queued ++ rest) (s.removeDemanded cfg.geom addr)
      ((s.removeDemanded cfg.geom addr).queued ++ rest) := by
  unfold removeDemanded
  cases hfind : s.pf.find? (inPrefetch cfg.geom (cfg.geom.blockAlign addr)) with
  | none =>
    have hsame : s.pf.eraseP (inPrefetch cfg.geom (cfg.geom.blockAlign addr)) = s.pf :=
      List.eraseP_of_forall_not fun p hp => List.find?_eq_none.1 hfind p hp
    simp only [hsame, Option.toList_none, List.map_nil, record, List.append_nil]
    exact .refl
  | some p =>
    obtain ⟨hp, before, after, hpf, hbefore⟩ := List.find?_eq_some_iff_append.1 hfind
    have herase : s.pf.eraseP (inPrefetch cfg.geom (cfg.geom.blockAlign addr)) = before ++ after := by
      rw [hpf, List.eraseP_append_right _ (fun q hq => by simpa using hbefore q hq),
        List.eraseP_cons_of_pos hp]
    have hperm : (s.queued ++ rest).Perm
        (p.addr :: ((before ++ after).map (fun q : Packet => q.addr) ++ rest)) := by
      rw [queued, hpf]
      simp
    simp only [herase]
    exact (Steps.shuffle hperm).tail (.drop p.addr DropCause.demanded trivial)

theorem squash_steps (hsquash : cfg.pf.serialSquash = true) (s : Prefetcher σ) (time : Tick) :
    Steps cfg π s (s.queued ++ rest) (s.squash time) ((s.squash time).queued ++ rest) := by
  unfold squash
  dsimp only
  set late := fun p : Packet => decide (time ≤ p.time)
  have hsplit : s.pf.rdropWhile late ++ s.pf.rtakeWhile late = s.pf :=
    List.rdropWhile_append_rtakeWhile ..
  have hperm : (s.queued ++ rest).Perm ((s.pf.rtakeWhile late).map (fun q : Packet => q.addr) ++
      ((s.pf.rdropWhile late).map (fun q : Packet => q.addr) ++ rest)) := by
    rw [queued, ← hsplit, List.map_append, hsplit, List.append_assoc]
    exact List.perm_append_comm_assoc ..
  refine (Steps.shuffle hperm).trans ?_
  have ok : MayDrop cfg .squashed := hsquash
  have hdrop : Moves (MayDrop cfg) Dcpt.maxQueueSize _ _ :=
    Moves.drop_all ok ((s.pf.rtakeWhile late).map fun q : Packet => q.addr)
    ((s.pf.rdropWhile late).map (fun q : Packet => q.addr) ++ rest) (π s.policy).inFlight s.log
  rw [List.map_map] at hdrop
  exact hdrop

/-- One round of the loop over the candidates, for a new block that is marked. -/
theorem enqueue_steps {s : Prefetcher σ} (hgood : s.Sound cfg π (s.queued ++ rest))
    (haligned : (π s.policy).Aligned) {c : Addr × Tick} (hfresh : c.1 ∉ s.queued ++ rest)
    (hmark : c.1 ∈ (π s.policy).inFlight) (pkt : Packet) (time now : Tick) :
    let s' := s.enqueue cfg.geom cfg.pf pkt time now c
    Steps cfg π s (s.queued ++ rest) s' (s'.queued ++ rest) ∧ s'.policy = s.policy ∧
      ∀ a ∈ s'.queued, a = c.1 ∨ a ∈ s.queued := by
  have haccept : Steps cfg π s (s.queued ++ rest) (s.record [.accepted c.1]) (c.1 :: (s.queued ++ rest)) :=
    Relation.ReflTransGen.single (.accept c.1 hfresh hmark)
  unfold enqueue
  dsimp only
  split
  · rename_i hany
    obtain ⟨p, hp, hin⟩ := List.any_eq_true.1 hany
    have hmem : p.addr ∈ s.queued := List.mem_map_of_mem hp
    -- two blocks of the prefetcher fall together in larger blocks only
    have hlarge : MayDrop cfg .queued := by
      by_contra hsmall
      have hblock := haligned p.addr (hgood.marked p.addr (List.mem_append_left _ hmem))
      have heq : p.addr = c.1 := by
        rw [← Geometry.blockAlign_of_block (Nat.le_of_not_lt hsmall) hblock]
        simpa [inPrefetch] using hin
      exact hfresh (List.mem_append_left _ (heq ▸ hmem))
    exact ⟨haccept.tail (.drop c.1 DropCause.queued hlarge), rfl, fun a ha => .inr ha⟩
  · -- the new packet goes to the end of a queue that now is `l`
    have hpush : ∀ l : List Packet, (c.1 :: (l.map (fun p : Packet => p.addr) ++ rest)).Perm
        ((l ++ [prefetchPacket cfg.geom pkt time now c]).map (fun p : Packet => p.addr) ++ rest) := by
      intro l
      rw [List.map_append, List.append_assoc]
      exact List.perm_middle.symm
    have hmem : ∀ l : List Packet, (∀ p ∈ l, p ∈ s.pf) →
        ∀ a ∈ (l ++ [prefetchPacket cfg.geom pkt time now c]).map (fun p : Packet => p.addr),
          a = c.1 ∨ a ∈ s.queued := by
      intro l hl a ha
      rw [List.map_append, List.mem_append] at ha
      rcases ha with ha | ha
      · obtain ⟨p, hp, rfl⟩ := List.mem_map.1 ha
        exact .inr (List.mem_map_of_mem (hl p hp))
      · exact .inl (List.mem_singleton.1 ha)
    have hkept : Steps cfg π s (s.queued ++ rest)
        { s.record [.accepted c.1] with pf := s.pf ++ [prefetchPacket cfg.geom pkt time now c] }
        ((s.pf ++ [prefetchPacket cfg.geom pkt time now c]).map (fun p : Packet => p.addr) ++ rest) :=
      haccept.tail (.shuffle (hpush s.pf))
    split
    · exact ⟨hkept, rfl, hmem s.pf fun _ => id⟩
    · rename_i old l hpf
      replace hpf : s.pf = old :: l := hpf
      split
      · rename_i hfull
        -- the outstanding blocks and the new one are all marked
        have hover : MayDrop cfg .overflow := by
          have hroom : (s.queued ++ rest).length < Dcpt.maxQueueSize := hgood.length_lt hmark hfresh
          have hlen : s.pf.length = cfg.pf.size := hfull
          simp only [List.length_append, queued, List.length_map] at hroom
          show cfg.pf.size < Dcpt.maxQueueSize
          omega
        have hperm : (c.1 :: (s.queued ++ rest)).Perm
            (old.addr :: (c.1 :: (l.map (fun p : Packet => p.addr) ++ rest))) := by
          rw [queued, hpf]
          exact List.Perm.swap ..
        refine ⟨?_, rfl, hmem l fun p hp => hpf ▸ List.mem_cons_of_mem old hp⟩
        refine ((haccept.tail (.shuffle hperm)).tail (.drop old.addr DropCause.overflow hover)).tail ?_
        exact .shuffle (hpush l)
      · exact ⟨hkept, rfl, hmem s.pf fun _ => id⟩

/-- The loop over the candidates. -/
theorem enqueueAll_steps (pkt : Packet) (time now : Tick) (cs : List (Addr × Tick)) {s : Prefetcher σ}
    (hgood : s.Sound cfg π (s.queued ++ rest)) (haligned : (π s.policy).Aligned)
    (hnodup : (cs.map Prod.fst).Nodup)
    (hnew : ∀ c ∈ cs, c.1 ∉ s.queued ++ rest ∧ c.1 ∈ (π s.policy).inFlight) :
    let s' := cs.foldl (enqueue cfg.geom cfg.pf pkt time now) s
    Steps cfg π s (s.queued ++ rest) s' (s'.queued ++ rest) ∧ s'.policy = s.policy := by
  induction cs generalizing s with
  | nil => exact ⟨.refl, rfl⟩
  | cons c cs ih =>
    obtain ⟨hc, hcs⟩ := List.nodup_cons.1 hnodup
    obtain ⟨hfresh, hmark⟩ := hnew c (List.mem_cons_self ..)
    obtain ⟨hstep, hpolicy, hmem⟩ := enqueue_steps hgood haligned hfresh hmark pkt time now
    obtain ⟨hsteps, hsame⟩ := @ih (s.enqueue cfg.geom cfg.pf pkt time now c) (Moves.good hstep hgood)
      (by rwa [hpolicy]) hcs (by
        intro d hd
        obtain ⟨hd₁, hd₂⟩ := hnew d (List.mem_cons_of_mem _ hd)
        refine ⟨fun h => ?_, by rwa [hpolicy]⟩
        rcases List.mem_append.1 h with h | h
        · rcases hmem _ h with heq | h
          · exact hc (heq ▸ List.mem_map_of_mem hd)
          · exact hd₁ (List.mem_append_left _ h)
        · exact hd₁ (List.mem_append_right _ h))
    exact ⟨hstep.trans hsteps, hsame.trans hpolicy⟩

/-- `notify`, whatever the cache answers. -/
theorem notify_steps (hP : Tracks P latency π clean) {s : Prefetcher σ} (hfit : s.Fit π clean)
    (hgood : s.Sound cfg π (s.queued ++ rest)) (inCache inMissQueue : Addr → Bool) (now : Tick)
    (pkt : Packet) (time : Tick) :
    let s' := (s.notify P cfg.geom cfg.pf inCache inMissQueue now pkt time).1
    Steps cfg π s (s.queued ++ rest) s' (s'.queued ++ rest) ∧ s'.Fit π clean := by
  unfold notify
  dsimp only
  split
  swap
  · exact ⟨.refl, hfit⟩
  -- the removals, which leave `s₁`
  have hremove : ∃ s₁ : Prefetcher σ, (if cfg.pf.serialSquash = true then
      (s.removeDemanded cfg.geom pkt.addr).squash time else s.removeDemanded cfg.geom pkt.addr) = s₁ ∧
      Steps cfg π s (s.queued ++ rest) s₁ (s₁.queued ++ rest) ∧ s₁.Fit π clean := by
    have hfirst : Steps cfg π s (s.queued ++ rest) _ _ := removeDemanded_steps s pkt.addr
    have hfit₁ : (s.removeDemanded cfg.geom pkt.addr).Fit π clean :=
      ⟨fun p hp => hfit.cmd p (List.mem_of_mem_eraseP hp), hfit.aligned, hfit.clean⟩
    refine ⟨_, rfl, ?_⟩
    split
    · rename_i hsquash
      refine ⟨hfirst.trans (squash_steps hsquash _ time), ?_, hfit₁.aligned, hfit₁.clean⟩
      intro p hp
      apply hfit₁.cmd p
      rw [← @List.rdropWhile_append_rtakeWhile _ (fun q : Packet => decide (time ≤ q.time))
        (s.removeDemanded cfg.geom pkt.addr).pf]
      exact List.mem_append_left _ hp
    · exact ⟨hfirst, hfit₁⟩
  obtain ⟨s₁, heq, hsteps, hfit₁⟩ := hremove
  rw [heq]
  have hgood₁ := Moves.good hsteps hgood
  -- the call of the policy
  set v : View := ⟨inCache, inMissQueue, s₁.pf.length⟩
  obtain ⟨hsub, hcard, haligned, hnodup, hnew⟩ := hP.candidates v pkt s₁.policy
  have hclean : clean (P.calculatePrefetch v pkt s₁.policy).1 := by
    apply hP.access_clean v pkt _ hfit₁.clean _ hgood₁.bounded
    have := hgood₁.length_le
    simp only [book, List.length_append, queued, List.length_map] at this
    exact le_trans (Nat.le_add_right _ _) this
  generalize P.calculatePrefetch v pkt s₁.policy = r at hsub hcard haligned hnodup hnew hclean ⊢
  have hmark : Steps cfg π s₁ (s₁.queued ++ rest) { s₁ with policy := r.1 } (s₁.queued ++ rest) :=
    Relation.ReflTransGen.single (.mark hsub hcard)
  obtain ⟨hloop, hpolicy⟩ := @enqueueAll_steps _ π cfg rest pkt time now r.2 { s₁ with policy := r.1 }
    (Moves.good hmark hgood₁) (haligned hfit₁.aligned) hnodup
    fun c hc => ⟨fun h => (hnew c hc).1 (hgood₁.marked _ h), (hnew c hc).2⟩
  refine ⟨(hsteps.trans hmark).trans hloop, enqueueAll_forall (fun _ => rfl) r.2 hfit₁.cmd, ?_, ?_⟩
  · rw [hpolicy]
    exact haligned hfit₁.aligned
  · rw [hpolicy]
    exact hclean

/-- A completed prefetch is not outstanding any more, and not marked. -/
theorem complete_steps (hP : Tracks P latency π clean) {s : Prefetcher σ} (hfit : s.Fit π clean)
    {pkt : Packet} (hgood : s.Sound cfg π (pkt.addr :: rest)) :
    Steps cfg π s (pkt.addr :: rest) (s.complete P pkt) rest ∧ (s.complete P pkt).Fit π clean := by
  have hmark : pkt.addr ∈ (π s.policy).inFlight := hgood.marked _ (List.mem_cons_self ..)
  have hblock := hfit.aligned _ hmark
  have hmarks : (π (P.prefetchComplete pkt s.policy)).inFlight = (π s.policy).inFlight.erase pkt.addr := by
    rw [hP.complete_state, Dcpt.prefetchComplete, hblock]
  have hmove : Move (MayDrop cfg) Dcpt.maxQueueSize (s.book π (pkt.addr :: rest))
      ⟨rest, (π s.policy).inFlight.erase pkt.addr, s.log ++ [.completed pkt.addr]⟩ :=
    .complete pkt.addr
  rw [← hmarks] at hmove
  refine ⟨Relation.ReflTransGen.single hmove, hfit.cmd, ?_, ?_⟩
  · intro b hb
    exact hfit.aligned b (Finset.mem_of_mem_erase (hmarks ▸ hb))
  · exact hP.complete_clean pkt _ hfit.clean (hblock.symm ▸ hmark)

/-- The target loop ends every prefetch among the targets. -/
theorem servePrefetches_steps (hP : Tracks P latency π clean) (hasBlk : Bool) (ts : List Target)
    {s : Prefetcher σ} (hfit : s.Fit π clean)
    (hgood : s.Sound cfg π (pfAddrs ts ++ rest)) :
    let s' := servePrefetches P hasBlk ts s
    Steps cfg π s (pfAddrs ts ++ rest) s' rest ∧ s'.Fit π clean ∧ s'.pf = s.pf := by
  induction ts generalizing s with
  | nil => exact ⟨.refl, hfit, rfl⟩
  | cons t ts ih =>
    by_cases hsrc : t.source = .fromPrefetcher
    · have haddrs : pfAddrs (t :: ts) ++ rest = t.pkt.addr :: (pfAddrs ts ++ rest) := by
        simp [pfAddrs, hsrc]
      rw [haddrs] at hgood ⊢
      -- one prefetch is completed or dropped
      have hone : Steps cfg π s (t.pkt.addr :: (pfAddrs ts ++ rest)) (servePrefetch P hasBlk s t)
          (pfAddrs ts ++ rest) ∧ (servePrefetch P hasBlk s t).Fit π clean ∧
          (servePrefetch P hasBlk s t).pf = s.pf := by
        unfold servePrefetch
        rw [hsrc]
        cases hasBlk with
        | true =>
          obtain ⟨hstep, hfit'⟩ := complete_steps hP hfit hgood
          exact ⟨hstep, hfit', rfl⟩
        | false =>
          exact ⟨Relation.ReflTransGen.single (.drop t.pkt.addr DropCause.noBlock trivial),
            ⟨hfit.cmd, hfit.aligned, hfit.clean⟩, rfl⟩
      obtain ⟨hstep, hfit', hpf⟩ := hone
      obtain ⟨hsteps, hfit'', hpf'⟩ := ih hfit' (Moves.good hstep hgood)
      exact ⟨hstep.trans hsteps, hfit'', hpf'.trans hpf⟩
    · have haddrs : pfAddrs (t :: ts) = pfAddrs ts := by simp [pfAddrs, hsrc]
      have hsame : servePrefetch P hasBlk s t = s := by
        unfold servePrefetch
        split
        · contradiction
        · rfl
      rw [haddrs] at hgood ⊢
      rw [servePrefetches, List.foldl_cons, hsame]
      exact ih hfit hgood

end Prefetcher

/-! ## The book of a cache -/

namespace Cache

variable {σ : Type} {π : σ → Dcpt.State} {clean : σ → Prop} {latency : Tick}

/-- The addresses of the outstanding prefetches. -/
def out (s : Cache σ) : List Addr := s.prefetcher.queued ++ s.mshrQueue.pfTargets

/-- The invariant of a cache whose policy tracks the DCPT prefetcher. -/
structure Accounts (cfg : Config) (π : σ → Dcpt.State) (clean : σ → Prop) (s : Cache σ) : Prop where
  sound : s.Sound cfg
  sourced : ∀ i ∈ s.mshrQueue.allocatedList, (s.mshrQueue.registers i).Sourced
  fit : s.prefetcher.Fit π clean
  good : s.prefetcher.Sound cfg π s.out

section

variable {cfg : Config} {P : Policy σ} {ok : Allowed σ} {s s' : Cache σ}

/-- The prefetcher's steps of an operation that leaves the prefetcher alone. -/
theorem steps_of_perm (hpf : s'.prefetcher = s.prefetcher)
    (hperm : s.mshrQueue.pfTargets.Perm s'.mshrQueue.pfTargets) (hfit : s.prefetcher.Fit π clean) :
    Prefetcher.Steps cfg π s.prefetcher s.out s'.prefetcher s'.out ∧ s'.prefetcher.Fit π clean := by
  unfold out
  rw [hpf]
  exact ⟨Prefetcher.Steps.shuffle (hperm.append_left _), hfit⟩

theorem Accounts.popMiss (hs : s.Accounts cfg π clean) {p : Packet} {rest : List Packet}
    (hhead : s.prefetcher.pf = p :: rest) (hroom : s.mshrQueue.isFull = false) :
    let s' := (({ s with prefetcher := s.prefetcher.getPacket rest } : Cache σ).allocateMissBuffer cfg p s.curTick).1
    Prefetcher.Steps cfg π s.prefetcher s.out s'.prefetcher s'.out ∧ s'.prefetcher.Fit π clean := by
  dsimp only
  have hwf : s.mshrQueue.WellFormed := hs.sound.queues .mshrs
  have hcmd : p.cmd = .hardPFReq := hs.fit.cmd p (hhead ▸ List.mem_cons_self ..)
  have hfree : s.mshrQueue.freeList ≠ [] :=
    hwf.free_of_not_full (by rw [show s.mshrQueue.numReserve = 4 from hs.sound.numReserve .mshrs]; decide)
      hroom
  have hq : (({ s with prefetcher := s.prefetcher.getPacket rest } : Cache σ).allocateMissBuffer cfg p
      s.curTick).1.mshrQueue =
      (s.mshrQueue.allocate (cfg.geom.blockAlign p.addr) cfg.geom.blkSize p s.curTick s.order).1 :=
    allocateBuffer_queue .mshrs ..
  have hperm : s.out.Perm (rest.map (fun q : Packet => q.addr) ++ (s.mshrQueue.pfTargets ++ [p.addr])) := by
    rw [out, Prefetcher.queued, hhead, ← List.append_assoc]
    exact (List.perm_append_singleton p.addr _).symm
  have hpf : (({ s with prefetcher := s.prefetcher.getPacket rest } : Cache σ).allocateMissBuffer cfg p
      s.curTick).1.prefetcher = s.prefetcher.getPacket rest := allocateBuffer_prefetcher ..
  unfold out at hperm ⊢
  rw [hpf, hq, MshrQueue.pfTargets_allocate hwf, if_pos ⟨hfree, hcmd⟩]
  refine ⟨Relation.ReflTransGen.single (.shuffle hperm), ?_, hs.fit.aligned, hs.fit.clean⟩
  exact fun q hq => hs.fit.cmd q (hhead ▸ List.mem_cons_of_mem p hq)

theorem Accounts.bail (hs : s.Accounts cfg π clean) {m : MshrRef} {target : Target}
    (hm : m.2 ∈ (s.queue m.1).readyList) (hfirst : (s.register m).getTarget = some target)
    (hpf : target.pkt.cmd = .hardPFReq) :
    let s' := s.bailOut m target
    Prefetcher.Steps cfg π s.prefetcher s.out s'.prefetcher s'.out ∧ s'.prefetcher.Fit π clean := by
  dsimp only
  have hwf : s.mshrQueue.WellFormed := hs.sound.queues .mshrs
  obtain ⟨_ | _, i⟩ := m
  · have hq : (s.bailOut (.mshrs, i) target).queue .mshrs = s.mshrQueue.bailOut i := queue_bailOut ..
    have hlog : (s.bailOut (.mshrs, i) target).prefetcher =
        s.prefetcher.record [.dropped .bailOut target.pkt.addr] := bailOut_prefetcher ..
    have hperm : s.out.Perm (target.pkt.addr :: (s.prefetcher.queued ++
        ((s.bailOut (.mshrs, i) target).queue .mshrs).pfTargets)) := by
      rw [hq]
      exact ((MshrQueue.pfTargets_bailOut hwf hs.sourced hm hfirst hpf).append_left _).trans
        List.perm_middle
    unfold out at hperm ⊢
    rw [hlog]
    refine ⟨?_, hs.fit.cmd, hs.fit.aligned, hs.fit.clean⟩
    exact (Prefetcher.Steps.shuffle hperm).tail (.drop target.pkt.addr DropCause.bailOut trivial)
  · -- the write buffer holds no prefetches
    obtain ⟨-, t, ht, -, -, hcmd, -⟩ := hs.sound.writes i ((hs.sound.queues .writeBuffer).mem_ready.1 hm).1
    have hfirst' : (s.writeBuffer.registers i).targets.list.head? = some target := hfirst
    rw [ht, List.head?_cons] at hfirst'
    cases hfirst'
    exact absurd hpf hcmd

theorem Accounts.answered (hP : Tracks P latency π clean) (hs : s.Accounts cfg π clean) {m : MshrRef} {r : Mshr}
    (hasBlk : Bool) (hm : m.2 ∈ (s.queue m.1).allocatedList)
    (hfill : r = s.register m ∨ ∃ pkt, r = ((s.register m).handleFill pkt).1) :
    let s' : Cache σ :=
      { s.settle m r with prefetcher := servePrefetches P hasBlk r.targets.list s.prefetcher }
    Prefetcher.Steps cfg π s.prefetcher s.out s'.prefetcher s'.out ∧ s'.prefetcher.Fit π clean := by
  dsimp only
  have hwf : s.mshrQueue.WellFormed := hs.sound.queues .mshrs
  have hperm : s.out.Perm
      (pfAddrs r.targets.list ++ (s.prefetcher.queued ++ ((s.settle m r).queue .mshrs).pfTargets)) := by
    refine List.Perm.trans (List.Perm.append_left _ ?_) (List.perm_append_comm_assoc ..)
    rw [queue_settle]
    obtain ⟨_ | _, i⟩ := m
    · exact MshrQueue.pfTargets_finish hwf hm _ hfill
    · -- the targets of the write buffer are not the prefetcher's
      obtain ⟨hdef, t, ht, hsrc, -⟩ := hs.sound.writes i hm
      have htargets : r.targets.list = [t] := by
        rw [filled_of_no_deferred hdef hfill]
        exact ht
      simp [htargets, pfAddrs, hsrc, queue]
  have hgood := Moves.good (Prefetcher.Steps.shuffle hperm) hs.good
  obtain ⟨hsteps, hfit, hpf⟩ := Prefetcher.servePrefetches_steps hP hasBlk r.targets.list hs.fit hgood
  refine ⟨(Prefetcher.Steps.shuffle hperm).trans ?_, hfit⟩
  unfold out Prefetcher.queued
  rw [hpf]
  exact hsteps

/-- An elementary operation is a sequence of moves in the book. -/
theorem Micro.bookkeeping (hP : Tracks P latency π clean) (h : Micro cfg P ok s s')
    (hs : s.Accounts cfg π clean) :
    Prefetcher.Steps cfg π s.prefetcher s.out s'.prefetcher s'.out ∧ s'.prefetcher.Fit π clean := by
  have hwf : s.mshrQueue.WellFormed := hs.sound.queues .mshrs
  cases h with
  | others core =>
    refine steps_of_perm core.prefetcher ?_ hs.fit
    rw [core.mshrQueue]
  | time n => exact ⟨.refl, hs.fit⟩
  | block => exact ⟨.refl, hs.fit⟩
  | unblock => exact ⟨.refl, hs.fit⟩
  | miss addr size pkt _ hp =>
    refine steps_of_perm (allocateBuffer_prefetcher ..) ?_ hs.fit
    have hq : (s.allocateBuffer .mshrs addr size pkt (s.curTick + cfg.geom.hitLatency)).1.mshrQueue =
        (s.mshrQueue.allocate addr size pkt (s.curTick + cfg.geom.hitLatency) s.order).1 :=
      allocateBuffer_queue .mshrs ..
    rw [hq, MshrQueue.pfTargets_allocate hwf]
    simp [hp]
  | write pkt _ =>
    refine steps_of_perm (allocateBuffer_prefetcher ..) ?_ hs.fit
    have hq : (s.allocateWriteBuffer pkt (s.curTick + cfg.geom.hitLatency)).mshrQueue = s.mshrQueue :=
      queue_allocateBuffer .writeBuffer .mshrs ..
    rw [hq]
  | target i pkt _ _ =>
    refine steps_of_perm rfl (List.Perm.of_eq ?_) hs.fit
    exact (MshrQueue.pfTargets_modify (Mshr.pfTargets_allocateTarget ..)).symm
  | snoop i pkt _ _ =>
    refine steps_of_perm rfl (List.Perm.of_eq ?_) hs.fit
    exact (MshrQueue.pfTargets_modify (Mshr.pfTargets_handleSnoop ..)).symm
  | flags m forward pending _ =>
    refine steps_of_perm (setQueue_prefetcher ..) (List.Perm.of_eq ?_) hs.fit
    obtain ⟨_ | _, i⟩ := m
    · have hsame : ({ s.mshrQueue.registers i with isForward := forward, downstreamPending := pending } :
          Mshr).pfTargets = (s.mshrQueue.registers i).pfTargets := rfl
      exact (MshrQueue.pfTargets_modify hsame).symm
    · rfl
  | notify pkt time => exact Prefetcher.notify_steps hP hs.fit hs.good _ _ _ pkt time
  | popDrop p rest hhead =>
    have hout : s.out = p.addr :: (rest.map (fun q : Packet => q.addr) ++ s.mshrQueue.pfTargets) := by
      rw [out, Prefetcher.queued, hhead]
      rfl
    rw [hout]
    refine ⟨Relation.ReflTransGen.single (.drop p.addr DropCause.present trivial), ?_, hs.fit.aligned,
      hs.fit.clean⟩
    exact fun q hq => hs.fit.cmd q (hhead ▸ List.mem_cons_of_mem p hq)
  | popMiss p rest hhead hroom _ => exact hs.popMiss hhead hroom
  | sent m hm =>
    have hpf : (s.markInService m).prefetcher = s.prefetcher := freed_prefetcher ..
    refine steps_of_perm hpf ?_ hs.fit
    have hq : (s.markInService m).queue .mshrs =
        if .mshrs = m.1 then (s.queue m.1).markInService m.2 else s.mshrQueue := queue_freed ..
    obtain ⟨_ | _, i⟩ := m
    · exact (MshrQueue.pfTargets_markInService hwf hm).trans (List.Perm.of_eq (congrArg _ hq.symm))
    · exact List.Perm.of_eq (congrArg _ hq.symm)
  | bail m target hm hfirst hpf _ => exact hs.bail hm hfirst hpf
  | answered m r hasBlk hm hfill => exact hs.answered hP hasBlk hm hfill

theorem Micro.accounts (hP : Tracks P latency π clean) (h : Micro cfg P ok s s')
    (hs : s.Accounts cfg π clean) : s'.Accounts cfg π clean where
  sound := h.sound hs.sound
  sourced := (h.queueStep .mshrs).entries (sourced_invariant _) (hs.sound.queues .mshrs) hs.sourced
  fit := (h.bookkeeping hP hs).2
  good := Moves.good (h.bookkeeping hP hs).1 hs.good

theorem step_accounts (hP : Tracks P latency π clean) (hs : s.Accounts cfg π clean) {a : Action}
    (he : s.Enabled cfg a) : (s.step cfg P a).Accounts cfg π clean := by
  have hmicros : Micros cfg P {} s (s.step cfg P a) := step_micros_any hs.sound he
  exact invariant_of_micro (fun _ _ h hs => h.accounts hP hs) hmicros hs

theorem initial_accounts {policy : σ} (hstart : π policy = Dcpt.initial) (hclean : clean policy) :
    (initial cfg policy).Accounts cfg π clean where
  sound := initial_sound cfg policy
  sourced i hi := by simp [initial, MshrQueue.create] at hi
  fit := by
    refine ⟨by simp [initial], ?_, hclean⟩
    intro b hb
    simp [initial, hstart, Dcpt.initial] at hb
  good := by
    have hbook : (initial cfg policy).prefetcher.book π (initial cfg policy).out = ⟨[], ∅, []⟩ := by
      simp [Prefetcher.book, initial, out, Prefetcher.queued, MshrQueue.pfTargets, MshrQueue.create,
        hstart, Dcpt.initial]
    unfold Prefetcher.Sound
    rw [hbook]
    exact Ledger.good_empty

end

/-- The invariant holds in every state of every run. -/
theorem run_accounts {cfg : Config} {P : Policy σ} (hP : Tracks P latency π clean) {policy : σ}
    (hstart : π policy = Dcpt.initial) (hclean : clean policy) (as : List Action)
    (hen : Runs.Guarded (step cfg P) (Enabled cfg) (initial cfg policy) as) :
    Runs.Along (step cfg P) (Accounts cfg π clean) (initial cfg policy) as :=
  Runs.along_of_guarded (fun _ _ hs he => step_accounts hP hs he) as _
    (initial_accounts hstart hclean) hen

/-! ## Dropped prefetches -/

/-- The block is in the prefetch queue, or a target of the prefetcher in an allocated entry. -/
def Outstanding (s : Cache σ) (b : Addr) : Prop :=
  (∃ p ∈ s.prefetcher.pf, p.addr = b) ∨
    ∃ i ∈ s.mshrQueue.allocatedList, ∃ t ∈ (s.mshrQueue.registers i).targets.list,
      t.source = .fromPrefetcher ∧ t.pkt.addr = b

instance (s : Cache σ) (b : Addr) : Decidable (s.Outstanding b) := by
  unfold Outstanding
  infer_instance

theorem mem_out {s : Cache σ} {b : Addr} : b ∈ s.out ↔ s.Outstanding b := by
  unfold out Outstanding Prefetcher.queued MshrQueue.pfTargets Mshr.pfTargets pfAddrs
  simp only [List.mem_append, List.mem_map, List.mem_flatMap, List.mem_filter, beq_iff_eq]
  grind

/-- What becomes of the prefetches that `issue_prefetch` has accepted: a block is
outstanding while nothing has happened to its prefetch, it is marked until the
prefetch completes, and the drops have one of the causes there are. -/
structure Accounted (cfg : Config) (s : Cache Dcpt.State) : Prop where
  outstanding_iff : ∀ b, s.Outstanding b ↔ Ledger.Open s.prefetcher.log b
  in_flight : ∀ b, Ledger.Unfinished s.prefetcher.log b → b ∈ s.prefetcher.policy.inFlight
  causes : ∀ c b, .dropped c b ∈ s.prefetcher.log → MayDrop cfg c

/-- In every state of every run a block is outstanding exactly if its prefetch was
accepted and has since neither completed nor been dropped. -/
theorem outstanding_iff_open (cfg : Config) (latency : Tick) (as : List Action)
    (hen : Runs.Guarded (step cfg (proxy latency dcpt)) (Enabled cfg) (initial cfg Dcpt.initial) as) :
    Runs.Along (step cfg (proxy latency dcpt)) (Accounted cfg) (initial cfg Dcpt.initial) as := by
  refine Runs.along_mono ?_ as _ (run_accounts (tracks_dcpt latency) rfl trivial as hen)
  intro s hs
  exact ⟨fun b => mem_out.symm.trans (hs.good.open_iff b).symm, hs.good.unfinished, hs.good.causes⟩

/-- Loads at a distance of 64 bytes by one instruction. The fourth makes the
prefetcher issue 4352, and the fifth asks for that block before it is fetched. -/
def demandedRun : List Action :=
  [.cpuPacket (load 1 4096), .cpuPacket (load 1 4160), .cpuPacket (load 1 4224),
    .cpuPacket (load 1 4288), .cpuPacket (load 1 4352)]

/-- The prefetch of 4352 was accepted and has not completed, but it is not
outstanding any more; the block stays in flight. -/
theorem accepted_not_outstanding :
    let s₀ := initial (smallConfig 8) Dcpt.initial
    let s := Runs.exec (step (smallConfig 8) (proxy 0 dcpt)) s₀ demandedRun
    Runs.Guarded (step (smallConfig 8) (proxy 0 dcpt)) (Enabled (smallConfig 8)) s₀ demandedRun ∧
      Ledger.Unfinished s.prefetcher.log 4352 ∧ ¬s.Outstanding 4352 ∧
      (4352 : Addr) ∈ s.prefetcher.policy.inFlight := by
  decide +kernel

theorem outstanding_demandedRun :
    Runs.Along (step (smallConfig 8) (proxy 0 dcpt)) (Accounted (smallConfig 8))
      (initial (smallConfig 8) Dcpt.initial) demandedRun :=
  outstanding_iff_open _ _ _ (by decide +kernel)

end Cache

end PrefetchSim
