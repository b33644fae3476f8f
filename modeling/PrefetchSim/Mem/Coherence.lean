import PrefetchSim.Lib.Runs
import PrefetchSim.Mem.AtomicStep
import PrefetchSim.Mem.Timing

/- Coherence of the caches on a bus in atomic mode.

   A run is a sequence of loads, stores, load-lockeds, store-conditionals and swaps of the CPUs.
   Beside the caches and memory it keeps `last`, the values last written, as the CPUs see it: a
   store writes, a store-conditional does if it is told that it did, a conditional swap does if
   the value it compares with is the last one.

   Each access keeps the lines coherent, with one exception. `handleFill` sets the status of the
   block anew, so an upgrade takes the dirty bit from a cache that owned the block itself. A
   store that follows sets it again, but a store-conditional that fails, or a swap that finds
   another value, does not. Unless memory has the data by chance, it is then lost with the copy.
   Coherence holds along a run exactly if that does not happen (`coherent_iff`). -/
namespace PrefetchSim

open Snooping (Copy Line)

variable {ι : Type}

/-! ## Bytes of a request -/

namespace CpuRequest

variable {B : Bus ι} (r : CpuRequest B.blkBits) (m : Addr → UInt8)

/-- Where the bytes of the request start in their block. -/
def offset : Nat := (r.req.paddr &&& (BitVec.ofNat 64 (2 ^ B.blkBits) - 1)).toNat

theorem paddr_eq (hk : B.blkBits < 64) : B.blockAlign r.req.paddr + BitVec.ofNat 64 r.offset = r.req.paddr :=
  Bytes.align_add_offset hk r.req.paddr

theorem fits : r.offset + r.data.length ≤ 2 ^ B.blkBits := by
  rw [r.filled]
  exact r.inside

theorem read_own (hk : B.blkBits < 64) :
    ((Bytes.read m (B.blockAlign r.req.paddr) B.blkSize).drop r.offset).take r.req.size =
      Bytes.read m r.req.paddr r.req.size := by
  have hpart : ((Bytes.read m (B.blockAlign r.req.paddr) B.blkSize).drop r.offset).take r.req.size =
      Bytes.read m (B.blockAlign r.req.paddr + BitVec.ofNat 64 r.offset) r.req.size :=
    Bytes.take_drop_read m _ r.inside
  rw [hpart, r.paddr_eq hk]

theorem read_write_own (hk : B.blkBits < 64) :
    Bytes.read (Bytes.write m r.req.paddr r.data) (B.blockAlign r.req.paddr) B.blkSize =
      Bytes.splice (Bytes.read m (B.blockAlign r.req.paddr) B.blkSize) r.offset r.data := by
  have hspliced := Bytes.read_write hk m (B.blockAlign r.req.paddr) r.fits
  rwa [r.paddr_eq hk] at hspliced

theorem read_write_other (hk : B.blkBits < 64) {x : Addr} (hx : B.blockAlign x ≠ B.blockAlign r.req.paddr) :
    Bytes.read (Bytes.write m r.req.paddr r.data) (B.blockAlign x) B.blkSize =
      Bytes.read m (B.blockAlign x) B.blkSize := by
  have hsame := Bytes.read_write_of_ne hk m (Bus.dvd_blockAlign hk r.req.paddr) (Bus.dvd_blockAlign hk x) hx r.fits
  rwa [r.paddr_eq hk] at hsame

end CpuRequest

/-! ## Runs -/

/-- An access of a CPU through its cache. -/
structure CpuAccess (B : Bus ι) where
  cpu : ι
  now : Tick
  memLatency : Tick
  request : CpuRequest B.blkBits

namespace CpuAccess

variable {B : Bus ι}

def packet (a : CpuAccess B) : Packet := a.request.packet a.now

def addr (a : CpuAccess B) : Addr := a.request.req.paddr

/-- The values last written after the access, given what the CPU is told. -/
def written (a : CpuAccess B) (last : Addr → UInt8) (reply : Packet) : Addr → UInt8 :=
  let req := a.request.req
  let done := match a.request.cmd with
    | .load | .loadLocked => false
    | .store => true
    | .storeCond => reply.req.extraData == 1
    | .swap => !req.condSwap || decide (Bytes.read last req.paddr req.size = littleEndian req.size req.extraData)
  if done then Bytes.write last req.paddr a.request.data else last

end CpuAccess

/-- The caches and memory, and the values last written. -/
structure Observed (ι : Type) where
  sys : AtomicSystem ι
  last : Addr → UInt8
  aborted : Bool := false

namespace Observed

variable [DecidableEq ι] {B : Bus ι}

def initial (B : Bus ι) (memory : PhysicalMemory) : Observed ι where
  sys := { caches := fun i => Tags.initial (B.geom i), memory }
  last := memory.pmem

def respond (B : Bus ι) (s : Observed ι) (a : CpuAccess B) : Option (AtomicSystem ι × Packet × Tick) :=
  s.sys.atomicAccess B a.cpu a.now a.memLatency a.packet

def step (B : Bus ι) (s : Observed ι) (a : CpuAccess B) : Observed ι :=
  match s.respond B a with
  | none => { s with aborted := true }
  | some (sys, reply, _) => { s with sys, last := a.written s.last reply }

/-- No assertion has failed, and every block is coherent with the values last written. -/
def Good (B : Bus ι) (s : Observed ι) : Prop :=
  s.aborted = false ∧ ∀ a, (s.sys.line B a).Coherent (Bytes.read s.last (B.blockAlign a) B.blkSize)

/-- The access is answered, and with the bytes last written. -/
def Current (B : Bus ι) (s : Observed ι) (a : CpuAccess B) : Prop :=
  ∃ sys reply lat, s.respond B a = some (sys, reply, lat) ∧
    (a.request.cmd.returnsData = true → reply.data = Bytes.read s.last a.addr a.request.req.size)

/-- The access asks for the right to write to a block of which its cache is the owner, and does
not write; and memory is behind. -/
def Forgets (B : Bus ι) (s : Observed ι) (a : CpuAccess B) : Bool :=
  let g := B.geom a.cpu
  let t := s.sys.caches a.cpu
  a.request.cmd.mayWrite && (t.findBlock g a.addr).any fun p =>
    (t.blks p).isDirty && !(t.blks p).isWritable && !writesTo g (t.blks p) a.packet &&
      decide (Bytes.read s.sys.memory.pmem (B.blockAlign a.addr) B.blkSize ≠ (t.blks p).data)

end Observed

/-! ## One access -/

namespace CpuAccess

variable {B : Bus ι} (a : CpuAccess B)

/-- Whether the access has written, as the CPU sees it, is whether the cache has written to the
block that had the bytes last written. -/
theorem written_eq {last : Addr → UInt8} {reply : Packet} {b : CacheBlk} (hk : B.blkBits < 64)
    (hdata : b.data = Bytes.read last (B.blockAlign a.addr) B.blkSize)
    (htold : a.request.cmd = .storeCond →
      (reply.req.extraData = 1 ↔ writesTo (B.geom a.cpu) b a.packet = true)) :
    a.written last reply =
      if writesTo (B.geom a.cpu) b a.packet then Bytes.write last a.addr a.request.data else last := by
  have hcmd : a.packet.cmd = a.request.cmd.memCmd := rfl
  have hbytes : (b.data.drop ((B.geom a.cpu).extractBlkOffset a.packet.addr)).take a.packet.size =
      Bytes.read last a.request.req.paddr a.request.req.size := by
    rw [Geometry.extractBlkOffset, B.geom_blkSize, hdata]
    exact a.request.read_own last hk
  unfold written
  dsimp only
  cases hc : a.request.cmd with
  | load | loadLocked =>
    have hnot : writesTo (B.geom a.cpu) b a.packet = false := by
      rw [writesTo, hcmd, hc]
      rfl
    simp [hnot]
  | store =>
    have hdoes : writesTo (B.geom a.cpu) b a.packet = true := by
      rw [writesTo, CacheBlk.checkWrite, hcmd, hc]
      rfl
    simp [hdoes, addr]
  | storeCond =>
    have hiff : (reply.req.extraData == 1) = writesTo (B.geom a.cpu) b a.packet := by
      rw [Bool.eq_iff_iff, beq_iff_eq]
      exact htold hc
    rw [hiff]
    rfl
  | swap =>
    have hswap : writesTo (B.geom a.cpu) b a.packet = (!a.request.req.condSwap ||
        decide (Bytes.read last a.request.req.paddr a.request.req.size =
          littleEndian a.request.req.size a.request.req.extraData)) := by
      rw [writesTo, hcmd, hc, hbytes]
      rfl
    rw [hswap]
    rfl

end CpuAccess

namespace Observed

variable {B : Bus ι} {s : Observed ι} {a : CpuAccess B}

theorem initial_good (B : Bus ι) (memory : PhysicalMemory) : (initial B memory).Good B := by
  refine ⟨rfl, fun x => ⟨⟨?_, ?_, ?_⟩, fun _ => rfl⟩⟩
  all_goals
    intro i c
    have hnone : ((initial B memory).sys.line B x).copies i = none := Tags.initial_copy (B.geom i) x
    rw [hnone]
    nofun

theorem Good.ready (h : s.Good B) (hs : s.sys.Steady B) : s.sys.Ready B where
  steady := hs
  whole x j c hc := by rw [(h.2 x).current j c hc, Bytes.length_read]
  owner x := (h.2 x).owner

/-- Where the other lines are coherent, only the one of the access matters. -/
theorem coherent_own_iff {sys : AtomicSystem ι} {last : Addr → UInt8} (x₀ : Addr)
    (hothers : ∀ x, B.blockAlign x ≠ B.blockAlign x₀ →
      (sys.line B x).Coherent (Bytes.read last (B.blockAlign x) B.blkSize)) :
    (∀ x, (sys.line B x).Coherent (Bytes.read last (B.blockAlign x) B.blkSize)) ↔
      (sys.line B x₀).Coherent (Bytes.read last (B.blockAlign x₀) B.blkSize) := by
  refine ⟨fun h => h x₀, fun h x => ?_⟩
  by_cases hx : B.blockAlign x = B.blockAlign x₀
  · rw [AtomicSystem.line_align hx, hx]
    exact h
  · exact hothers x hx

/-- The condition of `Forgets`, in terms of the line. -/
theorem forgets_eq_false (hgood : s.Good B) {done : Bool}
    (hsame : a.request.cmd.mayWrite = true → ∀ p,
      (s.sys.caches a.cpu).findBlock (B.geom a.cpu) a.addr = some p →
        ((s.sys.caches a.cpu).blks p).isWritable = false →
          done = writesTo (B.geom a.cpu) ((s.sys.caches a.cpu).blks p) a.packet) :
    s.Forgets B a = false ↔ (done = false → a.request.cmd.mayWrite = true →
      ∀ d, (s.sys.line B a.addr).copies a.cpu = some d → d.writable = false → d.dirty = true →
        (s.sys.line B a.addr).memory = Bytes.read s.last (B.blockAlign a.addr) B.blkSize) := by
  have hcopies : (s.sys.line B a.addr).copies a.cpu =
      ((s.sys.caches a.cpu).findBlock (B.geom a.cpu) a.addr).map fun p => ((s.sys.caches a.cpu).blks p).copy := rfl
  have hcurrent := (hgood.2 a.addr).current a.cpu
  rw [hcopies] at hcurrent ⊢
  unfold Forgets
  dsimp only
  cases hwants : a.request.cmd.mayWrite with
  | false => simp
  | true =>
    cases hp : (s.sys.caches a.cpu).findBlock (B.geom a.cpu) a.addr with
    | none => simp
    | some p =>
      rw [hp] at hcurrent
      have hdata : ((s.sys.caches a.cpu).blks p).data = Bytes.read s.last (B.blockAlign a.addr) B.blkSize :=
        hcurrent _ rfl
      have hmemory : (s.sys.line B a.addr).memory = Bytes.read s.sys.memory.pmem (B.blockAlign a.addr) B.blkSize := rfl
      have hdone := hsame hwants p hp
      rw [Option.any_some, hdata, hmemory]
      cases hw : ((s.sys.caches a.cpu).blks p).isWritable with
      | true => simp [CacheBlk.copy, hw]
      | false =>
        rw [← hdone hw]
        cases hd : ((s.sys.caches a.cpu).blks p).isDirty <;> cases done <;> simp [CacheBlk.copy, hw, hd]

variable [DecidableEq ι]

/-- An access from a good state is answered, with the bytes last written if with any, and leads
to a good state unless the dirty bit is lost. -/
theorem respond_spec (hs : s.sys.Steady B) (hgood : s.Good B) (a : CpuAccess B) :
    ∃ sys reply lat, s.respond B a = some (sys, reply, lat) ∧ sys.Steady B ∧
      (a.request.cmd.returnsData = true → reply.data = Bytes.read s.last a.addr a.request.req.size) ∧
      ((∀ x, (sys.line B x).Coherent (Bytes.read (a.written s.last reply) (B.blockAlign x) B.blkSize)) ↔
        s.Forgets B a = false) := by
  have hk := B.blkBits_lt a.cpu
  obtain ⟨sys, reply, lat, hresp, houtcome⟩ := AtomicSystem.atomicAccess_outcome (i := a.cpu) (c := a.request.cmd)
    (hgood.ready hs) (show a.packet.cmd = _ from rfl) a.request.cacheable rfl (ne_of_lt a.request.smaller) rfl
    a.now a.memLatency
  refine ⟨sys, reply, lat, hresp, ?_⟩
  have haddr : a.packet.addr = a.addr := rfl
  cases houtcome with
  | gaveUp cond absent =>
    have hwritten : a.written s.last (a.packet.setExtraData 0).makeAtomicResponse = s.last := by
      unfold CpuAccess.written
      rw [cond]
      rfl
    have hforgets : s.Forgets B a = false := by
      rw [Forgets, ← haddr, absent]
      exact Bool.and_false _
    rw [hwritten, cond]
    exact ⟨hs, nofun, iff_of_true hgood.2 hforgets⟩
  | served b l steady gets own keeps writes others same data told =>
    rw [haddr] at gets keeps writes others same
    have hbefore := hgood.2 a.addr
    have hagreed := hbefore.get gets
    have hdata : b.data = Bytes.read s.last (B.blockAlign a.addr) B.blkSize := hagreed.current a.cpu _ own
    rw [a.written_eq hk hdata told]
    refine ⟨steady, ?_, ?_⟩
    · intro hreturns
      rw [data hreturns, hdata]
      exact a.request.read_own s.last hk
    · rw [coherent_own_iff a.addr ?others, forgets_eq_false hgood same]
      case others =>
        intro x hx
        have hsame : Bytes.read (if writesTo (B.geom a.cpu) b a.packet then
            Bytes.write s.last a.addr a.request.data else s.last) (B.blockAlign x) B.blkSize =
              Bytes.read s.last (B.blockAlign x) B.blkSize := by
          split
          · exact a.request.read_write_other s.last hk hx
          · rfl
        rw [hsame]
        rcases others x hx with hline | hdrops
        · rw [hline]
          exact hgood.2 x
        · exact (hgood.2 x).drop hdrops
      cases hdone : writesTo (B.geom a.cpu) b a.packet with
      | true =>
        have hspliced : Bytes.read (Bytes.write s.last a.addr a.request.data) (B.blockAlign a.addr) B.blkSize =
            Bytes.splice b.data (a.packet.getOffset B.blkSize) (a.packet.data.take a.packet.size) := by
          have hall : a.packet.data.take a.packet.size = a.request.data :=
            List.take_of_length_le (le_of_eq a.request.filled)
          rw [hall, hdata]
          exact a.request.read_write_own s.last hk
        rw [if_pos rfl, hspliced]
        exact iff_of_true (hagreed.write (writes hdone)) nofun
      | false =>
        rw [if_neg Bool.false_ne_true, keeps hdone, hbefore.get_iff gets]
        exact ⟨fun h _ => h, fun h => h rfl⟩

/-! ## Whole runs -/

theorem step_good_iff (hs : s.sys.Steady B) (hgood : s.Good B) (a : CpuAccess B) :
    (s.step B a).sys.Steady B ∧ s.Current B a ∧ ((s.step B a).Good B ↔ s.Forgets B a = false) := by
  obtain ⟨sys, reply, lat, hresp, hsteady, hdata, hiff⟩ := respond_spec hs hgood a
  have hstep : s.step B a = { s with sys, last := a.written s.last reply } := by rw [step, hresp]
  rw [hstep]
  refine ⟨hsteady, ⟨sys, reply, lat, hresp, hdata⟩, ?_⟩
  rw [← hiff]
  exact ⟨And.right, And.intro hgood.1⟩

/-- In every run the caches stay coherent and answer every load with the value last written,
exactly if no access forgets that its cache is the owner. -/
theorem coherent_iff (B : Bus ι) (memory : PhysicalMemory) (as : List (CpuAccess B)) :
    (Runs.Along (step B) (Good B) (initial B memory) as ∧ Runs.Guarded (step B) (Current B) (initial B memory) as) ↔
      Runs.Guarded (step B) (fun s a => s.Forgets B a = false) (initial B memory) as := by
  have hsteady : (initial B memory).sys.Steady B := fun i => Tags.initial_steady (B.geom i)
  have hgood := initial_good B memory
  have keep : ∀ (s : Observed ι) (a : CpuAccess B), s.sys.Steady B ∧ s.Good B → s.Forgets B a = false →
      (s.step B a).sys.Steady B ∧ (s.step B a).Good B := fun s a hi hok =>
    ⟨(step_good_iff hi.1 hi.2 a).1, (step_good_iff hi.1 hi.2 a).2.2.2 hok⟩
  have need : ∀ (s : Observed ι) (a : CpuAccess B), s.sys.Steady B → s.Good B → True → (s.step B a).Good B →
      s.Forgets B a = false := fun s a hs hg _ hg' => (step_good_iff hs hg a).2.2.1 hg'
  have answered : ∀ (s : Observed ι) (a : CpuAccess B), s.sys.Steady B ∧ s.Good B → s.Forgets B a = false →
      s.Current B a := fun s a hi _ => (step_good_iff hi.1 hi.2 a).2.1
  have hiff := Runs.along_iff_guarded (fun s a hs hg _ hok => keep s a ⟨hs, hg⟩ hok) need as _ hsteady hgood
    (Runs.guarded_of_forall (fun _ _ => trivial) as _)
  constructor
  · rintro ⟨halong, -⟩
    exact hiff.1 halong
  · intro hguarded
    exact ⟨hiff.2 hguarded, Runs.guarded_of_invariant keep answered as _ ⟨hsteady, hgood⟩ hguarded⟩

/-- Two small caches with memory on a bus. -/
def twoCaches : Bus (Fin 2) where
  geom _ := smallGeometry
  blkBits := 6
  blkBits_eq _ := rfl
  snoopPorts := [0, 1]
  nodup := by decide
  all_snoop := by decide

theorem twoBytes_inside (block : Fin 128) :
    (BitVec.ofNat 64 (64 * block.val) &&& (BitVec.ofNat 64 (2 ^ 6) - 1)).toNat + 2 ≤ 2 ^ 6 := by
  revert block
  decide +kernel

/-- CPU `cpu`, as its own context, accesses two bytes at the start of block `block`. -/
def accessBlockOf (cpu : Fin 2) (cmd : CpuCmd) (block : Fin 128) (value : UInt8) : CpuAccess twoCaches where
  cpu
  now := 0
  memLatency := 10
  request :=
    { cmd
      req := { paddr := BitVec.ofNat 64 (64 * block.val), size := 2, contextId := some cpu.val }
      data := [value, value]
      cacheable := rfl
      smaller := show 2 < 2 ^ 6 by decide
      inside := twoBytes_inside block
      filled := rfl }

/-- CPU 0 stores and CPU 1 loads, so that cache 0 is the owner of a shared block. -/
def sharedStore : List (CpuAccess twoCaches) :=
  [accessBlockOf 0 .store 64 7, accessBlockOf 1 .load 64 0]

def zeroMemory : PhysicalMemory where
  pmem _ := 0

/-- A load-locked makes the store-conditional succeed, and nothing is lost. -/
theorem coherent_lockedStore :
    let as := sharedStore ++ [accessBlockOf 0 .loadLocked 64 0, accessBlockOf 0 .storeCond 64 9,
      accessBlockOf 1 .load 64 0]
    Runs.Along (step twoCaches) (Good twoCaches) (initial twoCaches zeroMemory) as ∧
      Runs.Guarded (step twoCaches) (Current twoCaches) (initial twoCaches zeroMemory) as :=
  (coherent_iff twoCaches zeroMemory _).2 (by decide +kernel)

/-- A store-conditional without a load-locked makes cache 0 forget that it is the owner. After
two more loads the block is gone from it, and CPU 1 loads what was there before the store. -/
def lostStore : List (CpuAccess twoCaches) :=
  sharedStore ++ [accessBlockOf 0 .storeCond 64 9, accessBlockOf 0 .load 66 0, accessBlockOf 0 .load 68 0]

theorem lostStore_not_coherent :
    ¬(Runs.Along (step twoCaches) (Good twoCaches) (initial twoCaches zeroMemory)
        (lostStore ++ [accessBlockOf 1 .load 64 0]) ∧
      Runs.Guarded (step twoCaches) (Current twoCaches) (initial twoCaches zeroMemory)
        (lostStore ++ [accessBlockOf 1 .load 64 0])) := by
  rintro ⟨-, hguarded⟩
  obtain ⟨sys, reply, lat, hresp, hdata⟩ := ((Runs.guarded_append _ _ _).1 hguarded).2.1
  have hreply : ((Runs.exec (step twoCaches) (initial twoCaches zeroMemory) lostStore).respond twoCaches
      (accessBlockOf 1 .load 64 0)).map (fun r => r.2.1.data) = some [0, 0] := by decide +kernel
  have hlast : Bytes.read (Runs.exec (step twoCaches) (initial twoCaches zeroMemory) lostStore).last 4096 2 =
      [7, 7] := by decide +kernel
  rw [hresp] at hreply
  have hbytes : [0, 0] = ([7, 7] : List UInt8) := (Option.some.inj hreply).symm.trans ((hdata rfl).trans hlast)
  cases hbytes

end Observed

end PrefetchSim
