import PrefetchSim.Mem.Lines
import PrefetchSim.Mem.Prefetch

/- The prefetch policies (`m5/src/mem/cache/prefetch/`): which candidate addresses
   `calculatePrefetch` produces, and which of them are block addresses.

   Correspondence (C++ ↔ Lean):
     `TaggedPrefetcher` (tagged.cc)           ↔ `tagged`
     `SequentialPrefetcher` (sequential.cc)   ↔ `sequential`
     `GHBPrefetcher` (ghb.cc)                 ↔ `ghb`, `GhbState`
     `StridePrefetcher` (stride.cc)           ↔ `stride`, `StrideEntry` (`.updated`, `strideMiss`)
     `InterfacePrefetcher` (cppinterface.cc)  ↔ `interface`, with `Prefetcher::notify` of
                                                outer_impl.cc (`queuedAhead`)
     `ProxyPrefetcher` (proxy.cc)             ↔ `proxy` (Prefetch.lean)
     the choice by `prefetch_policy`          ↔ `PolicyKind`, `PolicyKind.policy`

   A stride is an `int` of 32 bits in the source: the difference of two addresses is cut to
   it, and a multiple of it is sign-extended again. `GHBPrefetcher` does not initialise its
   addresses, so its first state is any state. -/
namespace PrefetchSim

structure PolicyParams where
  latency : Tick
  degree : Nat
  useContextId : Bool
  pageStop : Bool

/-- `d * stride` as an `int`, added to an address. -/
def strideAddr (blkAddr : Addr) (stride : BitVec 32) (d : Nat) : Addr :=
  blkAddr + (BitVec.ofNat 32 d * stride).signExtend 64

/-- `samePage`, for pages of `VMPageSize` bytes. -/
def samePage (a b : Addr) : Bool := decide (a &&& ~~~(8192 - 1) = b &&& ~~~(8192 - 1))

/-- The loop over the degree, which ends where the candidates leave the page. -/
def spread (prm : PolicyParams) (blkAddr : Addr) (stride : BitVec 32) : List (Addr × Tick) :=
  (((List.range prm.degree).map fun i => strideAddr blkAddr stride (i + 1)).takeWhile
    fun a => !prm.pageStop || samePage blkAddr a).map (·, prm.latency)

/-- `useContextId && !pkt->req->hasContextId()`. -/
def ignored (prm : PolicyParams) (pkt : Packet) : Bool := prm.useContextId && pkt.req.contextId.isNone

/-- `useContextId ? pkt->req->contextId() : 0`. -/
def contextOf (prm : PolicyParams) (pkt : Packet) : Nat :=
  if prm.useContextId then pkt.req.contextId.getD 0 else 0

/-- `blkSize` as an `int`. -/
def Geometry.blkInt (g : Geometry) : BitVec 32 := BitVec.ofNat 32 g.blkSize

/-! ## Tagged and sequential -/

def tagged (g : Geometry) (prm : PolicyParams) : Policy Unit where
  calculatePrefetch _ pkt s :=
    (s, if ignored prm pkt then [] else spread prm (g.blockAlign pkt.addr) g.blkInt)
  prefetchComplete _ s := s

def sequential (g : Geometry) (prm : PolicyParams) : Policy Unit where
  calculatePrefetch v pkt s :=
    let addr := strideAddr (g.blockAlign pkt.addr) g.blkInt 1
    (s, if ignored prm pkt || pkt.req.prefetch || v.inCache addr then [] else [(addr, prm.latency)])
  prefetchComplete _ s := s

/-! ## Global history buffer -/

structure GhbState where
  secondLastMissAddr : Nat → Addr
  lastMissAddr : Nat → Addr

def ghb (g : Geometry) (prm : PolicyParams) : Policy GhbState where
  calculatePrefetch _ pkt s :=
    if ignored prm pkt then (s, [])
    else
      let blkAddr := g.blockAlign pkt.addr
      let ctx := contextOf prm pkt
      let newStride := (blkAddr - s.lastMissAddr ctx).setWidth 32
      let oldStride := (s.lastMissAddr ctx - s.secondLastMissAddr ctx).setWidth 32
      ({ secondLastMissAddr := Function.update s.secondLastMissAddr ctx (s.lastMissAddr ctx)
         lastMissAddr := Function.update s.lastMissAddr ctx blkAddr },
        if newStride = oldStride then spread prm blkAddr newStride else [])
  prefetchComplete _ s := s

/-! ## Stride -/

structure StrideEntry where
  instAddr : Addr
  missAddr : Addr
  stride : BitVec 32 := 0
  confidence : Int := 0

/-- `Max_Conf` and `Min_Conf`. -/
def maxConf : Int := 2147483647
def minConf : Int := -2147483648

def newStride (blkAddr : Addr) (e : StrideEntry) : BitVec 32 := (blkAddr - e.missAddr).setWidth 32

/-- An entry after a hit in the table. -/
def StrideEntry.updated (blkAddr : Addr) (e : StrideEntry) : StrideEntry :=
  let s := newStride blkAddr e
  if s = e.stride ∧ s ≠ 0 then
    { e with missAddr := blkAddr, confidence := if e.confidence < maxConf then e.confidence + 1 else e.confidence }
  else
    { e with missAddr := blkAddr, stride := s, confidence := if minConf < e.confidence then 0 else e.confidence }

/-- The position of the first entry with the lowest confidence. -/
def lowestConf (pos : Nat) (conf : Int) (i : Nat) : List StrideEntry → Nat
  | [] => pos
  | e :: es => if e.confidence < conf then lowestConf i e.confidence (i + 1) es else lowestConf pos conf (i + 1) es

/-- A miss in the table: a full table gives up an entry. -/
def strideMiss (pc blkAddr : Addr) (tab : List StrideEntry) : List StrideEntry :=
  let tab := match tab with
    | [] => []
    | e :: es => if 256 ≤ (e :: es).length then (e :: es).eraseIdx (lowestConf 0 e.confidence 1 es) else e :: es
  tab ++ [{ instAddr := pc, missAddr := blkAddr }]

def stride (g : Geometry) (prm : PolicyParams) : Policy (Nat → List StrideEntry) where
  calculatePrefetch _ pkt s :=
    match pkt.req.pc with
    | none => (s, [])
    | some pc =>
      if ignored prm pkt then (s, [])
      else
        let blkAddr := g.blockAlign pkt.addr
        let ctx := contextOf prm pkt
        match (s ctx).find? fun e => e.instAddr == pc with
        | some e =>
          let e' := e.updated blkAddr
          (Function.update s ctx ((s ctx).replaceF fun x => if x.instAddr == pc then some e' else none),
            if e'.confidence ≤ 0 then [] else spread prm blkAddr (newStride blkAddr e))
        | none => (Function.update s ctx (strideMiss pc blkAddr (s ctx)), [])
  prefetchComplete _ s := s

/-! ## The C++ interface -/

/-- The addresses the prefetcher behind the interface queues on a miss. -/
def queuedAhead (g : Geometry) (address : Addr) : List Addr :=
  (List.range 8).map fun i => strideAddr address g.blkInt (i + 1)

def interface (g : Geometry) (prm : PolicyParams) : Policy Unit where
  calculatePrefetch v pkt s :=
    (s, if ignored prm pkt || pkt.req.pc.isNone || v.inCache pkt.addr then []
      else (queuedAhead g pkt.addr).map (·, prm.latency))
  prefetchComplete _ s := s

/-! ## The choice of a policy -/

inductive PolicyKind where
  | proxy | interface | stride | ghb | tagged | sequential
  deriving DecidableEq, Repr

namespace PolicyKind

variable {τ : Type}

/-- The state of a policy; the proxy's is that of its user. -/
def State (τ : Type) : PolicyKind → Type
  | proxy => τ
  | stride => Nat → List StrideEntry
  | ghb => GhbState
  | interface | tagged | sequential => Unit

def policy (g : Geometry) (prm : PolicyParams) (u : User τ) : (k : PolicyKind) → Policy (k.State τ)
  | proxy => PrefetchSim.proxy prm.latency u
  | stride => PrefetchSim.stride g prm
  | ghb => PrefetchSim.ghb g prm
  | interface => PrefetchSim.interface g prm
  | tagged => PrefetchSim.tagged g prm
  | sequential => PrefetchSim.sequential g prm

/-- The states a policy can start in. -/
def Initial : (k : PolicyKind) → k.State τ → Prop
  | stride, s => s = fun _ => []
  | proxy, _ | ghb, _ | interface, _ | tagged, _ | sequential, _ => True

/-- What the candidates of a request depend on: the proxy aligns its addresses for blocks of
64 bytes, the interface takes the address of the request as it is, and the global history
takes the last address of the context. -/
def Aligns (g : Geometry) (prm : PolicyParams) (inCache : Addr → Bool) (pkt : Packet) :
    (k : PolicyKind) → k.State τ → Prop
  | proxy, _ => g.blkBits ≤ 6
  | interface, _ => ignored prm pkt = true ∨ pkt.req.pc = none ∨ inCache pkt.addr = true ∨
      g.blockAlign pkt.addr = pkt.addr
  | ghb, s => ignored prm pkt = true ∨
      g.blockAlign (s.lastMissAddr (contextOf prm pkt)) = s.lastMissAddr (contextOf prm pkt)
  | stride, _ | tagged, _ | sequential, _ => True

end PolicyKind

/-! ## Alignment of the candidates -/

section

variable {g : Geometry} {prm : PolicyParams} {τ : Type}

theorem Geometry.blockAlign_eq_iff (g : Geometry) (a : Addr) :
    g.blockAlign a = a ↔ 2 ^ g.blkBits ∣ a.toNat := by
  have hfits := g.fits
  exact Words.align_eq_iff (by omega) a

theorem dvd_blkInt (g : Geometry) : 2 ^ min g.blkBits 32 ∣ g.blkInt.toNat := by
  rw [Geometry.blkInt, BitVec.toNat_ofNat, Geometry.blkSize]
  refine (Nat.dvd_mod_iff (Nat.pow_dvd_pow 2 (Nat.min_le_right ..))).2 ?_
  exact Nat.pow_dvd_pow 2 (Nat.min_le_left ..)

/-- Whole strides lead from block to block. -/
theorem strideAddr_aligned {a : Addr} {stride : BitVec 32} (ha : g.blockAlign a = a)
    (hs : 2 ^ min g.blkBits 32 ∣ stride.toNat) (d : Nat) :
    g.blockAlign (strideAddr a stride d) = strideAddr a stride d := by
  have hfits := g.fits
  rw [g.blockAlign_eq_iff] at ha ⊢
  apply Words.dvd_add (by omega) ha
  apply Words.dvd_signExtend (by decide)
  exact Words.dvd_mul (Nat.min_le_right ..) _ hs

theorem spread_aligned {a : Addr} {stride : BitVec 32} (ha : g.blockAlign a = a)
    (hs : 2 ^ min g.blkBits 32 ∣ stride.toNat) :
    ∀ c ∈ spread prm a stride, g.blockAlign c.1 = c.1 := by
  intro c hc
  obtain ⟨b, hb, rfl⟩ := List.mem_map.1 hc
  obtain ⟨i, -, rfl⟩ := List.mem_map.1 ((List.takeWhile_sublist _).mem hb)
  exact strideAddr_aligned ha hs _

theorem newStride_dvd {a b : Addr} (ha : g.blockAlign a = a) (hb : g.blockAlign b = b) :
    2 ^ min g.blkBits 32 ∣ ((a - b).setWidth 32).toNat := by
  have hfits := g.fits
  rw [g.blockAlign_eq_iff] at ha hb
  exact Words.dvd_truncate (Words.dvd_sub (by omega) ha hb)

/-- The proxy's addresses are aligned for 64 bytes, hence for every smaller block. -/
theorem issuePrefetch_aligned (hk : g.blkBits ≤ 6) {latency : Tick} {addr : Addr} :
    ∀ c ∈ issuePrefetch latency addr, g.blockAlign c.1 = c.1 := by
  intro c hc
  unfold issuePrefetch at hc
  split at hc
  · rw [List.mem_singleton.1 hc, g.blockAlign_eq_iff]
    refine Nat.dvd_trans (Nat.pow_dvd_pow 2 hk) ?_
    rw [show (Dcpt.blockSize : Addr) = BitVec.ofNat 64 (2 ^ 6) by decide, Words.toNat_align (by decide)]
    exact Nat.dvd_mul_left ..
  · cases hc

/-- The entries of the stride table are block addresses. -/
def PolicyKind.Kept (g : Geometry) : (k : PolicyKind) → k.State τ → Prop
  | stride, s => ∀ ctx, ∀ e ∈ s ctx, g.blockAlign e.missAddr = e.missAddr
  | proxy, _ | ghb, _ | interface, _ | tagged, _ | sequential, _ => True

theorem strideMiss_kept {pc blkAddr : Addr} {tab : List StrideEntry} {p : StrideEntry → Prop}
    (h : ∀ e ∈ tab, p e) (hnew : p { instAddr := pc, missAddr := blkAddr }) :
    ∀ e ∈ strideMiss pc blkAddr tab, p e := by
  intro e he
  rcases List.mem_append.1 he with he | he
  · apply h
    cases tab with
    | nil => exact he
    | cons x xs =>
      dsimp only at he
      split at he
      · exact List.mem_of_mem_eraseIdx he
      · exact he
  · rw [List.mem_singleton.1 he]
    exact hnew

theorem updated_missAddr (blkAddr : Addr) (e : StrideEntry) : (e.updated blkAddr).missAddr = blkAddr := by
  unfold StrideEntry.updated
  dsimp only
  split <;> rfl

theorem mem_replaceF {α : Type} {f : α → Option α} {l : List α} {x : α} (h : x ∈ l.replaceF f) :
    x ∈ l ∨ ∃ y ∈ l, f y = some x := by
  induction l with
  | nil => cases h
  | cons y l ih =>
    rw [List.replaceF] at h
    cases hy : f y with
    | none =>
      rw [hy] at h
      rcases List.mem_cons.1 h with rfl | h
      · exact .inl (List.mem_cons_self ..)
      · rcases ih h with hx | ⟨z, hz, hfz⟩
        · exact .inl (List.mem_cons_of_mem _ hx)
        · exact .inr ⟨z, List.mem_cons_of_mem _ hz, hfz⟩
    | some z =>
      rw [hy] at h
      rcases List.mem_cons.1 h with rfl | h
      · exact .inr ⟨y, List.mem_cons_self .., hy⟩
      · exact .inl (List.mem_cons_of_mem _ h)

theorem stride_candidates {s : Nat → List StrideEntry}
    (h : ∀ ctx, ∀ e ∈ s ctx, g.blockAlign e.missAddr = e.missAddr) (v : View) (pkt : Packet) :
    let r := (stride g prm).calculatePrefetch v pkt s
    (∀ ctx, ∀ e ∈ r.1 ctx, g.blockAlign e.missAddr = e.missAddr) ∧ ∀ c ∈ r.2, g.blockAlign c.1 = c.1 := by
  have hblk := g.blockAlign_blockAlign pkt.addr
  -- the table of one context changes
  have hupdate : ∀ ctx tab, (∀ e ∈ tab, g.blockAlign e.missAddr = e.missAddr) →
      ∀ ctx', ∀ e ∈ Function.update s ctx tab ctx', g.blockAlign e.missAddr = e.missAddr := by
    intro ctx tab htab ctx' e he
    by_cases hctx : ctx' = ctx
    · rw [hctx, Function.update_self] at he
      exact htab e he
    · rw [Function.update_of_ne hctx] at he
      exact h ctx' e he
  unfold stride
  dsimp only
  split
  · exact ⟨h, by simp⟩
  split
  · exact ⟨h, by simp⟩
  split
  · rename_i e hfind
    refine ⟨hupdate _ _ fun x hx => ?_, ?_⟩
    · rcases mem_replaceF hx with hx | ⟨y, -, hy⟩
      · exact h _ x hx
      · split at hy
        · rw [← Option.some.inj hy, updated_missAddr]
          exact hblk
        · cases hy
    · split
      · simp
      · exact spread_aligned hblk (newStride_dvd hblk (h _ e (List.mem_of_find?_eq_some hfind)))
  · exact ⟨hupdate _ _ (strideMiss_kept (h _) hblk), by simp⟩

/-- The candidates of every policy are block addresses, under its condition. -/
theorem PolicyKind.candidates (u : User τ) {v : View} {pkt : Packet} (k : PolicyKind) {s : k.State τ}
    (h : k.Kept g s) (ha : k.Aligns g prm v.inCache pkt s) :
    let r := (k.policy g prm u).calculatePrefetch v pkt s
    k.Kept g r.1 ∧ ∀ c ∈ r.2, g.blockAlign c.1 = c.1 := by
  have hblk := g.blockAlign_blockAlign pkt.addr
  cases k with
  | proxy =>
    refine ⟨trivial, fun c hc => ?_⟩
    dsimp only [policy, PrefetchSim.proxy] at hc
    split at hc
    · cases hc
    · obtain ⟨a, -, hc⟩ := List.mem_flatMap.1 hc
      exact issuePrefetch_aligned ha c hc
  | stride => exact stride_candidates h v pkt
  | ghb =>
    refine ⟨trivial, fun c hc => ?_⟩
    dsimp only [policy, PrefetchSim.ghb] at hc
    split at hc
    · cases hc
    · rename_i hctx
      dsimp only at hc
      split at hc
      · exact spread_aligned hblk (newStride_dvd hblk (ha.resolve_left hctx)) c hc
      · cases hc
  | interface =>
    refine ⟨trivial, fun c hc => ?_⟩
    dsimp only [policy, PrefetchSim.interface] at hc
    split at hc
    · cases hc
    · rename_i hmiss
      simp only [Bool.or_eq_true, Option.isNone_iff_eq_none, not_or] at hmiss
      have haddr := ((ha.resolve_left hmiss.1.1).resolve_left hmiss.1.2).resolve_left hmiss.2
      obtain ⟨a, hq, rfl⟩ := List.mem_map.1 hc
      obtain ⟨i, -, rfl⟩ := List.mem_map.1 hq
      exact strideAddr_aligned haddr (dvd_blkInt g) _
  | tagged =>
    refine ⟨trivial, fun c hc => ?_⟩
    dsimp only [policy, PrefetchSim.tagged] at hc
    split at hc
    · cases hc
    · exact spread_aligned hblk (dvd_blkInt g) c hc
  | sequential =>
    refine ⟨trivial, fun c hc => ?_⟩
    dsimp only [policy, PrefetchSim.sequential] at hc
    split at hc
    · cases hc
    · rw [List.mem_singleton.1 hc]
      exact strideAddr_aligned hblk (dvd_blkInt g) 1

theorem PolicyKind.kept_complete (u : User τ) (pkt : Packet) (k : PolicyKind) {s : k.State τ} (h : k.Kept g s) :
    k.Kept g ((k.policy g prm u).prefetchComplete pkt s) := by
  cases k <;> exact h

theorem PolicyKind.kept_initial (k : PolicyKind) {s : k.State τ} (h : k.Initial s) : k.Kept g s := by
  cases k with
  | stride =>
    rw [show s = fun _ => [] from h]
    intro ctx e he
    cases he
  | _ => trivial

end

end PrefetchSim
