import PrefetchSim.Lib.Runs
import PrefetchSim.Mem.Packet

/- The bridge between two buses (`m5/src/mem/bridge.{hh,cc}`), in timing mode.

   Correspondence (C++ ↔ Lean):
     `Packet`, what the bridge reads of it  ↔ `Msg`, with the rest as `payload`
     `Packet::SenderState *`                ↔ `SenderState`; a `PacketBuffer` is named by the
                                              number of its `new`
     `PacketBuffer`, `fixResponse`          ↔ `PacketBuffer`, `PacketBuffer.fixResponse`
     `BridgePort`                           ↔ `BridgePort`
     `respQueueFull`, `reqQueueFull`        ↔ `BridgePort.respQueueFull`, `.reqQueueFull`
     `nackRequest`                          ↔ `BridgePort.nackRequest`
     `trySend`, `recvRetry`                 ↔ `BridgePort.trySend`, `.recvRetry`
     `queueForSendTiming`                   ↔ `Bridge.queueForSendTiming`, `BridgePort.push`
     `recvTiming`                           ↔ `Bridge.recvTiming`
     `portA`, `portB`, `otherPort`          ↔ `Bridge.port`, `Side.other`
     `assert`                               ↔ `BridgePort.require`

   Whether the bus takes a packet is part of the action, and nothing arrives at the bridge
   while it is asked. The buffers of requests that were sent and wait for their response
   live on the heap only; here they are the list `waiting` of the port they were sent from.
   `received`, `handed`, `gone` and `returned` are history. -/
namespace PrefetchSim

inductive Side where
  | a | b
  deriving DecidableEq, Repr

def Side.other : Side → Side
  | a => b
  | b => a

theorem Side.forall_iff {P : Side → Prop} : (∀ x, P x) ↔ P .a ∧ P .b :=
  ⟨fun h => ⟨h .a, h .b⟩, fun h x => x.rec h.1 h.2⟩

instance {P : Side → Prop} [DecidablePred P] : Decidable (∀ x, P x) :=
  decidable_of_iff _ Side.forall_iff.symm

/-- The pointer in a packet: none, one of somebody else, or one of this bridge. -/
inductive SenderState where
  | null
  | outside (n : Nat)
  | buffer (id : Nat)
  deriving DecidableEq, Repr

structure Msg (α : Type) where
  cmd : MemCmd
  src : Int
  dest : Int
  senderState : SenderState
  payload : α
  deriving DecidableEq, Repr

namespace Msg

variable {α : Type}

def isRequest (m : Msg α) : Bool := m.cmd.isRequest
def isResponse (m : Msg α) : Bool := m.cmd.isResponse
def needsResponse (m : Msg α) : Bool := m.cmd.needsResponse

def makeTimingResponse (m : Msg α) : Msg α := { m with cmd := m.cmd.responseCommand, dest := m.src }

def setNacked (m : Msg α) : Msg α := { m with cmd := .networkNackError }

/-- Whom a request wants to be answered: the response has to go to its source and to bring
    its `senderState` back. -/
def asker (m : Msg α) : Int × SenderState := (m.src, m.senderState)

/-- Whom a response answers. -/
def answeree (m : Msg α) : Int × SenderState := (m.dest, m.senderState)

end Msg

structure PacketBuffer (α : Type) where
  id : Nat
  ready : Nat
  pkt : Msg α
  nackedHere : Bool
  origSenderState : SenderState
  origSrc : Int
  expectResponse : Bool
  deriving DecidableEq, Repr

namespace PacketBuffer

variable {α : Type}

/-- The constructor; the buffer of a request takes the place of its `senderState`. -/
def new (id : Nat) (pkt : Msg α) (t : Nat) (nack : Bool) : PacketBuffer α where
  id := id
  ready := t
  pkt := if !pkt.isResponse && !nack then { pkt with senderState := .buffer id } else pkt
  nackedHere := nack
  origSenderState := pkt.senderState
  origSrc := if nack then pkt.dest else pkt.src
  expectResponse := pkt.needsResponse && !nack

def fixResponse (buf : PacketBuffer α) (pkt : Msg α) : Msg α :=
  { pkt with dest := buf.origSrc, senderState := buf.origSenderState }

/-- Who asked for what the buffer was made for. -/
def asker (buf : PacketBuffer α) : Int × SenderState := (buf.origSrc, buf.origSenderState)

/-- A response the bridge owes space to. -/
def isReturn (buf : PacketBuffer α) : Bool := !buf.pkt.isRequest && !buf.nackedHere

end PacketBuffer

/-- `delay` and `nackDelay` are those of the bridge, the limits those of each port. -/
structure BridgeConfig where
  delay : Nat
  nackDelay : Nat
  reqQueueLimit : Side → Nat
  respQueueLimit : Side → Nat

structure BridgePort (α : Type) where
  sendQueue : List (PacketBuffer α) := []
  outstandingResponses : Int := 0
  queuedRequests : Int := 0
  inRetry : Bool := false
  /-- when `sendEvent` is scheduled for -/
  sendEvent : Option Nat := none
  /-- the buffers of the requests sent that wait for a response -/
  waiting : List (PacketBuffer α) := []
  /-- an assertion has failed -/
  failed : Bool := false
  /-- the requests that came in and want a response -/
  received : List (Msg α) := []
  /-- the buffers the other port has put into the queue -/
  handed : List (PacketBuffer α) := []
  /-- the buffers sent, and when -/
  gone : List (PacketBuffer α × Nat) := []
  /-- the responses handed over, with the buffer they came back to -/
  returned : List (Nat × Msg α) := []

namespace BridgePort

variable {α : Type}

def require (c : Bool) (p : BridgePort α) : BridgePort α := { p with failed := p.failed || !c }

def schedule (now t : Nat) (p : BridgePort α) : BridgePort α :=
  { p.require (p.sendEvent.isNone && decide (now ≤ t)) with sendEvent := some t }

def reschedule (now t : Nat) (p : BridgePort α) : BridgePort α :=
  { p.require (p.sendEvent.isSome && decide (now ≤ t)) with sendEvent := some t }

def respQueueFull (limit : Nat) (p : BridgePort α) : Bool := decide ((limit : Int) ≤ p.outstandingResponses)
def reqQueueFull (limit : Nat) (p : BridgePort α) : Bool := decide ((limit : Int) ≤ p.queuedRequests)

/-- The assertions in the two tests. -/
def checkResp (limit : Nat) (p : BridgePort α) : BridgePort α :=
  p.require (decide (0 ≤ p.outstandingResponses ∧ p.outstandingResponses ≤ limit))

def checkReq (limit : Nat) (p : BridgePort α) : BridgePort α :=
  p.require (decide (0 ≤ p.queuedRequests ∧ p.queuedRequests ≤ limit))

/-- The loop for a nack that does not go at the end; `none` is its end. -/
def insertBuf (buf : PacketBuffer α) : List (PacketBuffer α) → Option (List (PacketBuffer α))
  | [] => none
  | e :: l => if buf.ready < e.ready then some (buf :: e :: l) else (insertBuf buf l).map (e :: ·)

/-- The part of `nackRequest` that puts the buffer into the queue. -/
def queueNack (now : Nat) (buf : PacketBuffer α) (p : BridgePort α) : BridgePort α :=
  match p.sendQueue with
  | [] => { (p.require p.sendEvent.isNone).schedule now buf.ready with sendQueue := [buf] }
  | front :: rest =>
    let p := p.require (p.sendEvent.isSome || p.inRetry)
    if ((front :: rest).getLast (List.cons_ne_nil _ _)).ready ≤ buf.ready then
      { p with sendQueue := front :: rest ++ [buf] }
    else
      match insertBuf buf (front :: rest) with
      | some q =>
        { (if buf.ready < front.ready then p.reschedule now buf.ready else p) with sendQueue := q }
      | none => p.require false

/-- `makeTimingResponse` has two assertions and `setNacked` one. -/
def nackRequest (now nackDelay id : Nat) (pkt : Msg α) (p : BridgePort α) : BridgePort α :=
  let p := p.require (pkt.needsResponse && pkt.isRequest && pkt.makeTimingResponse.isResponse)
  p.queueNack now (.new id pkt.makeTimingResponse.setNacked (now + nackDelay) true)

/-- The part of `queueForSendTiming` that puts the packet into the queue. -/
def push (now delay id : Nat) (pkt : Msg α) (p : BridgePort α) : BridgePort α :=
  let p := if pkt.isRequest then { p with queuedRequests := p.queuedRequests + 1 } else p
  let buf := PacketBuffer.new id pkt (now + delay) false
  let p := if p.sendQueue.isEmpty then p.schedule now buf.ready else p
  { p with sendQueue := p.sendQueue ++ [buf], handed := p.handed ++ [buf] }

/-- What a successful send changes but for the event. -/
def popFront (now : Nat) (buf : PacketBuffer α) (rest : List (PacketBuffer α)) (p : BridgePort α) : BridgePort α :=
  { p with
    sendQueue := rest
    waiting := if buf.expectResponse then p.waiting ++ [buf] else p.waiting
    queuedRequests := if buf.pkt.isRequest then p.queuedRequests - 1 else p.queuedRequests
    outstandingResponses := if buf.isReturn then p.outstandingResponses - 1 else p.outstandingResponses
    gone := p.gone ++ [(buf, now)] }

def trySend (now : Nat) (accepted : Bool) (p : BridgePort α) : BridgePort α :=
  match p.sendQueue with
  | [] => p.require false
  | buf :: rest =>
    let p := p.require (decide (buf.ready ≤ now))
    if accepted then
      let p := p.popFront now buf rest
      match rest with
      | [] => p
      | next :: _ => p.schedule now (max next.ready (now + 1))
    else { p with inRetry := true }

def recvRetry (now : Nat) (accepted : Bool) (p : BridgePort α) : BridgePort α :=
  let p := { p with inRetry := false }
  match p.sendQueue with
  | [] => p.require false
  | front :: _ => if front.ready ≤ now then p.trySend now accepted else p.schedule now front.ready

/-- `sendEvent` fires. -/
def processSendEvent (now : Nat) (accepted : Bool) (p : BridgePort α) : BridgePort α :=
  { p with sendEvent := none }.trySend now accepted

end BridgePort

structure Bridge (α : Type) where
  port : Side → BridgePort α := fun _ => {}
  curTick : Nat := 0
  /-- how many buffers were made -/
  made : Nat := 0

namespace Bridge

variable {α : Type}

def modify (x : Side) (f : BridgePort α → BridgePort α) (s : Bridge α) : Bridge α :=
  { s with port := Function.update s.port x (f (s.port x)) }

/-- `nackRequest` of port `x`. -/
def nackRequest (cfg : BridgeConfig) (x : Side) (pkt : Msg α) (s : Bridge α) : Bridge α :=
  { s.modify x (·.nackRequest s.curTick cfg.nackDelay s.made pkt) with made := s.made + 1 }

/-- `queueForSendTiming` of port `x`. A response has come in at the other port, which is the
    one the request was sent from. -/
def queueForSendTiming (cfg : BridgeConfig) (x : Side) (pkt : Msg α) (s : Bridge α) : Bridge α :=
  if pkt.isResponse then
    match (s.port x.other).waiting.find? fun b => pkt.senderState = .buffer b.id with
    | none => s.modify x (·.require false)
    | some buf =>
      let s := s.modify x.other fun p => { p with waiting := p.waiting.eraseP fun b => pkt.senderState = .buffer b.id }
      let pkt := buf.fixResponse pkt
      let s := s.modify x fun p => { p with returned := p.returned ++ [(buf.id, pkt)] }
      { s.modify x (·.push s.curTick cfg.delay s.made pkt) with made := s.made + 1 }
  else { s.modify x (·.push s.curTick cfg.delay s.made pkt) with made := s.made + 1 }

def recvTiming (cfg : BridgeConfig) (x : Side) (pkt : Msg α) (s : Bridge α) : Bridge α :=
  let s := if pkt.isRequest then s.modify x.other (·.checkReq (cfg.reqQueueLimit x.other)) else s
  if pkt.isRequest && (s.port x.other).reqQueueFull (cfg.reqQueueLimit x.other) then s.nackRequest cfg x pkt
  else if pkt.needsResponse then
    let s := s.modify x (·.checkResp (cfg.respQueueLimit x))
    if (s.port x).respQueueFull (cfg.respQueueLimit x) then s.nackRequest cfg x pkt
    else
      (s.modify x fun p => { p with outstandingResponses := p.outstandingResponses + 1 }).queueForSendTiming
        cfg x.other pkt
  else s.queueForSendTiming cfg x.other pkt

/-- What can happen to the bridge. -/
inductive Act (α : Type) where
  | recv (x : Side) (pkt : Msg α)
  | fire (x : Side) (accepted : Bool)
  | retry (x : Side) (accepted : Bool)
  | tick (d : Nat)

def step (cfg : BridgeConfig) (s : Bridge α) : Act α → Bridge α
  | .recv x pkt =>
    let s := if pkt.needsResponse then s.modify x fun p => { p with received := p.received ++ [pkt] } else s
    s.recvTiming cfg x pkt
  | .fire x accepted => s.modify x (·.processSendEvent s.curTick accepted)
  | .retry x accepted => s.modify x (·.recvRetry s.curTick accepted)
  | .tick d => { s with curTick := s.curTick + d }

/-- What the buses do: they bring requests, and responses to requests that were sent and are
    not answered yet, they ask for a retry only of what they have refused, and events fire in
    time. -/
def Enabled (s : Bridge α) : Act α → Prop
  | .recv x pkt => pkt.isRequest = true ∨
      pkt.isResponse = true ∧ ∃ b ∈ (s.port x).waiting, pkt.senderState = .buffer b.id
  | .fire x _ => (s.port x).sendEvent = some s.curTick
  | .retry x _ => (s.port x).inRetry = true
  | .tick d => ∀ x, ∀ t ∈ (s.port x).sendEvent, s.curTick + d ≤ t

instance (s : Bridge α) : ∀ act, Decidable (Enabled s act) := by
  rintro ⟨⟩ <;> dsimp only [Enabled] <;> infer_instance

end Bridge
end PrefetchSim
