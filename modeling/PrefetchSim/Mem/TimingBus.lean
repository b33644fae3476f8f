import PrefetchSim.Lib.Runs
import PrefetchSim.Mem.Packet

/- The arbitration of the bus in timing mode (`m5/src/mem/bus.{hh,cc}`).

   Correspondence (C++ ↔ Lean):
     the parameters of `Bus`           ↔ `BusConfig`
     `Bus`                             ↔ `TimingBus`
     `calcPacketTiming`, `occupyBus`   ↔ `TimingBus.calcPacketTiming`, `.occupyBus`
     `addToRetryList`                  ↔ `TimingBus.addToRetryList`
     `recvTiming`, `recvRetry`         ↔ `TimingBus.recvTiming`, `.recvRetry`
     `BusFreeEvent::process`           ↔ `TimingBus.busFree`
     `drain`, `startup`                ↔ `TimingBus.drain`, `.startup`
     `assert`                          ↔ `TimingBus.require`

   Whether the target takes a packet is part of the action (`BusSend`), and so is what a
   device sends while it is being retried. The caches that snoop a packet may not refuse
   it, so they only hear it. Next to the bus runs its history: who has joined the retry
   list and who has left it, when the bus was occupied, and what was heard. -/
namespace PrefetchSim

structure BusConfig (ι : Type) where
  clock : Nat
  headerCycles : Nat
  width : Nat
  clock_pos : 0 < clock
  headerCycles_pos : 0 < headerCycles
  width_pos : 0 < width
  /-- the port that an address belongs to -/
  findPort : Addr → ι
  snoopPorts : List ι

/-- What a device sends: without a destination it is a broadcast. -/
structure Sending (ι : Type) where
  dest : Option ι := none
  pkt : Packet
  /-- what the target's `sendTiming` returns -/
  accepted : Bool := true

/-- A call of `recvTiming`. -/
structure BusSend (ι : Type) extends Sending ι where
  src : ι

structure TimingBus (ι : Type) where
  tickNextIdle : Nat := 0
  /-- when `busIdle` is scheduled for -/
  busIdle : Option Nat := none
  retryList : List ι := []
  onRetryList : ι → Bool := fun _ => false
  inRetry : Bool := false
  drainEvent : Bool := false
  curTick : Nat := 0
  /-- an assertion has failed -/
  failed : Bool := false
  joined : List ι := []
  left : List ι := []
  occupied : List (Nat × Nat) := []
  heard : List (ι × Packet) := []

namespace TimingBus

variable {ι : Type} [DecidableEq ι]

def require (c : Bool) (b : TimingBus ι) : TimingBus ι := { b with failed := b.failed || !c }

/-- `reschedule(busIdle, when, true)`. -/
def reschedule (time : Nat) (b : TimingBus ι) : TimingBus ι :=
  { b.require (decide (b.curTick ≤ time)) with busIdle := some time }

/-- The tick at which the next cycle starts. -/
def nextCycle (cfg : BusConfig ι) (now : Nat) : Nat :=
  if now % cfg.clock ≠ 0 then now - now % cfg.clock + cfg.clock else now

/-- The cycles that the data of a packet takes. -/
def dataCycles (cfg : BusConfig ι) (pkt : Packet) : Nat :=
  if pkt.cmd.hasData then pkt.size / cfg.width + if pkt.size % cfg.width ≠ 0 then 1 else 0 else 0

/-- The bus and the packet with its times, and the tick at which the header is through. -/
def calcPacketTiming (cfg : BusConfig ι) (pkt : Packet) (b : TimingBus ι) : TimingBus ι × Packet × Nat :=
  let tickNextIdle := if b.tickNextIdle < b.curTick then nextCycle cfg b.curTick else b.tickNextIdle
  let headerTime := tickNextIdle + cfg.headerCycles * cfg.clock
  ({ b with tickNextIdle },
    { pkt with firstWordTime := headerTime + cfg.clock, finishTime := headerTime + dataCycles cfg pkt * cfg.clock },
    headerTime)

def occupyBus (until_ : Nat) (b : TimingBus ι) : TimingBus ι :=
  -- the shortcut for express snoops
  if until_ = 0 then b
  else { b with
    tickNextIdle := until_
    occupied := b.occupied ++ [(b.tickNextIdle, until_)] }.reschedule until_

/-- The port goes to the end of the retry list. -/
def enlist (p : ι) (b : TimingBus ι) : TimingBus ι :=
  { b with
    onRetryList := Function.update b.onRetryList p true
    retryList := b.retryList ++ [p]
    joined := b.joined ++ [p] }

def addToRetryList (p : ι) (b : TimingBus ι) : TimingBus ι :=
  if b.inRetry then
    if b.onRetryList p then
      -- the port was retrying and stays at the head of the list
      { b.require (decide (b.retryList.head? = some p)) with inRetry := false }
    else b.enlist p
  else (b.require (!b.onRetryList p)).enlist p

/-- The head of the retry list is done with. -/
def popFront (b : TimingBus ι) : TimingBus ι :=
  match b.retryList with
  | [] => { b with inRetry := false }
  | p :: rest =>
    { b with
      onRetryList := Function.update b.onRetryList p false
      retryList := rest
      inRetry := false
      left := b.left ++ [p] }

/-- The bus is busy, or other devices are in line. -/
def refuses (x : BusSend ι) (b : TimingBus ι) : Bool :=
  !x.pkt.expressSnoop &&
    (decide (b.curTick < b.tickNextIdle) ||
      (!b.retryList.isEmpty && (!b.inRetry || decide (b.retryList.head? ≠ some x.src))))

/-- The end of `recvTiming` for a packet that was sent. -/
def taken (until_ : Nat) (b : TimingBus ι) : TimingBus ι :=
  let b := b.occupyBus until_
  if b.inRetry then b.popFront else b

def recvTiming (cfg : BusConfig ι) (x : BusSend ι) (b : TimingBus ι) : TimingBus ι × Bool :=
  if b.refuses x then (b.addToRetryList x.src, false)
  else
    let (b, pkt, headerFinishTime) := if x.pkt.expressSnoop then (b, x.pkt, 0) else b.calcPacketTiming cfg x.pkt
    let packetFinishTime := if pkt.expressSnoop then 0 else pkt.finishTime
    let target := x.dest.getD (cfg.findPort pkt.addr)
    let b := b.require (decide (x.dest ≠ some x.src))
    let snoopers := if x.dest.isNone then cfg.snoopPorts.filter fun p => p ≠ target ∧ p ≠ x.src else []
    let b := { b with heard := b.heard ++ snoopers.map (·, pkt) }
    if target = x.src then
      -- a snoop that is forwarded from below
      (b.taken packetFinishTime, true)
    else if x.accepted then ({ b with heard := b.heard ++ [(target, pkt)] }.taken packetFinishTime, true)
    else
      let b := b.require (!pkt.cmd.isResponse && !pkt.memInhibit)
      ((b.addToRetryList x.src).occupyBus headerFinishTime, false)

/-- `while (tickNextIdle < curTick) tickNextIdle += clock`, for at most `n` rounds. -/
def catchUp (clock now : Nat) : Nat → Nat → Nat
  | 0, t => t
  | n + 1, t => if t < now then catchUp clock now n (t + clock) else t

/-- The device did not send anything: it loses its place, and a cycle is burnt. -/
def missedGrant (cfg : BusConfig ι) (b : TimingBus ι) : TimingBus ι :=
  let b := b.popFront
  -- the clock is positive, so these are rounds enough
  let start := catchUp cfg.clock b.curTick (b.curTick - b.tickNextIdle) b.tickNextIdle
  { b with
    tickNextIdle := start + cfg.clock
    occupied := b.occupied ++ [(start, start + cfg.clock)] }.reschedule (start + cfg.clock)

/-- The last part of `recvRetry`. -/
def checkDrain (b : TimingBus ι) : TimingBus ι :=
  if b.drainEvent && b.retryList.isEmpty && decide (b.tickNextIdle ≤ b.curTick) then { b with drainEvent := false }
  else b

/-- The port at the head of the list is retried and sends `sends`. -/
def sendRetry (cfg : BusConfig ι) (front : ι) (sends : List (Sending ι)) (b : TimingBus ι) : TimingBus ι :=
  let b := sends.foldl (fun b x => (recvTiming cfg ⟨x, front⟩ b).1) { b with inRetry := true }
  if b.inRetry then b.missedGrant cfg else b

/-- `sends` is what the port at the head of the list sends if it is retried. -/
def recvRetry (cfg : BusConfig ι) (sends : List (Sending ι)) (b : TimingBus ι) : TimingBus ι :=
  let b := match b.retryList with
    | [] => b
    | front :: _ => if b.tickNextIdle ≤ b.curTick then b.sendRetry cfg front sends else b
  b.checkDrain

/-- The event `busIdle` has come. -/
def busFree (cfg : BusConfig ι) (sends : List (Sending ι)) (b : TimingBus ι) : TimingBus ι :=
  { b.require (decide (b.busIdle = some b.curTick)) with busIdle := none }.recvRetry cfg sends

def drain (b : TimingBus ι) : TimingBus ι × Nat :=
  if !b.retryList.isEmpty || (decide (b.curTick < b.tickNextIdle) && b.busIdle.isSome) then
    ({ b with drainEvent := true }, 1)
  else (b, 0)

def startup (cfg : BusConfig ι) (b : TimingBus ι) : TimingBus ι :=
  if b.tickNextIdle < b.curTick then { b with tickNextIdle := b.curTick / cfg.clock * cfg.clock + cfg.clock } else b

/-! ## Runs -/

inductive Action (ι : Type) where
  | tick (n : Nat)
  | send (x : BusSend ι)
  /-- the event `busIdle` fires -/
  | idle (sends : List (Sending ι))
  /-- a device that has refused a packet calls `sendRetry` -/
  | retry (sends : List (Sending ι))
  | drain

def step (cfg : BusConfig ι) (b : TimingBus ι) : Action ι → TimingBus ι
  | .tick n => { b with curTick := b.curTick + n }
  | .send x => (b.recvTiming cfg x).1
  | .idle sends => b.busFree cfg sends
  | .retry sends => b.recvRetry cfg sends
  | .drain => b.drain.1

/-- The bus when the simulation starts at tick `now`. -/
def initial (cfg : BusConfig ι) (now : Nat) : TimingBus ι := ({ curTick := now } : TimingBus ι).startup cfg

/-- What `p` may send: nothing to itself; and the target refuses neither a response nor
what another device has promised to answer. -/
def Sendable (p : ι) (x : Sending ι) : Prop :=
  x.dest ≠ some p ∧ (x.accepted = false → x.pkt.cmd.isResponse = false ∧ x.pkt.memInhibit = false)

instance (p : ι) (x : Sending ι) : Decidable (Sendable p x) := inferInstanceAs (Decidable (_ ∧ _))

/-- A device that is retried sends nothing, or a packet, or the two halves of one; after
a packet that is refused it sends nothing more. -/
def Orderly (p : ι) (sends : List (Sending ι)) : Prop :=
  sends.length ≤ 2 ∧ (∀ x ∈ sends, x.pkt.expressSnoop = false ∧ Sendable p x) ∧
    (sends.length = 2 → ∀ x ∈ sends.head?, x.accepted = true)

instance (p : ι) (sends : List (Sending ι)) : Decidable (Orderly p sends) :=
  inferInstanceAs (Decidable (_ ∧ _ ∧ (_ → ∀ x ∈ sends.head?, _)))

/-- What the environment may do. No event is skipped. A port that is on the retry list
waits; express snoops are never refused; and nothing is sent before the first cycle. -/
def Enabled (b : TimingBus ι) : Action ι → Prop
  | .tick n => ∀ t ∈ b.busIdle, b.curTick + n ≤ t
  | .send x => Sendable x.src x.toSending ∧
      ((x.pkt.expressSnoop = true ∧ x.accepted = true) ∨
        (x.pkt.expressSnoop = false ∧ x.src ∉ b.retryList ∧ (b.busIdle = none → b.tickNextIdle ≤ b.curTick)))
  | .idle sends => b.busIdle = some b.curTick ∧ ∀ p ∈ b.retryList.head?, Orderly p sends
  | .retry sends => ∀ p ∈ b.retryList.head?, Orderly p sends
  | .drain => True

instance (b : TimingBus ι) : DecidablePred b.Enabled := by
  rintro ⟨⟩ <;> dsimp only [Enabled] <;> infer_instance

end TimingBus

end PrefetchSim
