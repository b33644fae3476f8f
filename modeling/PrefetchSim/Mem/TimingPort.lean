import PrefetchSim.Lib.Pool
import PrefetchSim.Lib.Runs
import PrefetchSim.Mem.Cache

/- The port that sends responses at their time (`m5/src/mem/tport.{hh,cc}`).

   Correspondence (C++ ↔ Lean):
     `DeferredPacket`                      ↔ `Deferred`
     `SimpleTimingPort`                    ↔ `TimingPort`
     `schedSendEvent`, `schedSendTiming`   ↔ `TimingPort.schedSendEvent`, `.schedSendTiming`
     `sendDeferredPacket`                  ↔ `TimingPort.sendDeferredPacket`
     `recvRetry`, `processSendEvent`       ↔ `TimingPort.recvRetry`, `.processSendEvent`
     `drain`                               ↔ `TimingPort.drain`
     `assert`                              ↔ `TimingPort.require`

   Whether the other side takes a packet, and what it hands over to the port while it does,
   is part of the action (`SendOutcome`); while it refuses a packet it hands over nothing.
   The event queue fires `sendEvent` at its time, so no time passes beyond it.

   Next to the port run the packets handed over and the packets sent (`PortRun`). Proved
   here, for every run: no assertion fails, the list is sorted, the packets of each tick are
   sent in the order in which they were handed over and are in the list until then, none is
   sent before its tick, and while there is something to send, the port is waiting for a retry
   or its event is scheduled in time (`port_delivers`). -/
namespace PrefetchSim

structure Deferred (α : Type) where
  tick : Nat
  pkt : α
  deriving DecidableEq, Repr

structure TimingPort (α : Type) where
  transmitList : List (Deferred α) := []
  /-- when `sendEvent` is scheduled for -/
  sendEvent : Option Nat := none
  drainEvent : Bool := false
  waitingOnRetry : Bool := false
  curTick : Nat := 0
  /-- an assertion has failed -/
  failed : Bool := false
  deriving DecidableEq, Repr

/-- What `sendTiming` returns, with the calls of `schedSendTiming` made on the way. -/
inductive SendOutcome (α : Type) where
  | refused
  | accepted (calls : List (Deferred α))

def SendOutcome.calls {α : Type} : SendOutcome α → List (Deferred α)
  | .refused => []
  | .accepted calls => calls

def SendOutcome.success {α : Type} : SendOutcome α → Bool
  | .refused => false
  | .accepted _ => true

namespace TimingPort

variable {α : Type}

def require (c : Bool) (s : TimingPort α) : TimingPort α := { s with failed := s.failed || !c }

/-- `schedule` and `reschedule` of the event queue. -/
def schedule (time : Nat) (s : TimingPort α) : TimingPort α :=
  { s.require (s.sendEvent.isNone && decide (s.curTick ≤ time)) with sendEvent := some time }

def reschedule (time : Nat) (s : TimingPort α) : TimingPort α :=
  { s.require (s.sendEvent.isSome && decide (s.curTick ≤ time)) with sendEvent := some time }

def schedSendEvent (time : Nat) (s : TimingPort α) : TimingPort α :=
  if s.waitingOnRetry then s.require s.sendEvent.isNone
  else match s.sendEvent with
    | none => s.schedule time
    | some w => if time < w then s.reschedule time else s

/-- The loop for a packet that belongs in the middle; `none` is its end. -/
def insertMiddle (d : Deferred α) : List (Deferred α) → Option (List (Deferred α))
  | [] => none
  | e :: es => if d.tick < e.tick then some (d :: e :: es) else (insertMiddle d es).map (e :: ·)

/-- `ms` is `SimClock::Int::ms`. -/
def schedSendTiming (ms : Nat) (d : Deferred α) (s : TimingPort α) : TimingPort α :=
  let s := s.require (decide (s.curTick < d.tick) && decide (d.tick < s.curTick + ms))
  match s.transmitList with
  | [] => { s with transmitList := [d] }.schedSendEvent d.tick
  | front :: rest =>
    if d.tick < front.tick then
      { s with transmitList := d :: front :: rest }.schedSendEvent d.tick
    else if ((front :: rest).getLast (List.cons_ne_nil _ _)).tick ≤ d.tick then
      { s with transmitList := front :: rest ++ [d] }
    else match insertMiddle d rest with
      | some rest' => { s with transmitList := front :: rest' }
      | none => s.require false

def deferredPacketReady (s : TimingPort α) : Bool :=
  s.transmitList.head?.any fun d => decide (d.tick ≤ s.curTick)

/-- The end of a send that was successful: the next event, and the drain event. -/
def rearm (s : TimingPort α) : TimingPort α :=
  let s := match s.transmitList, s.sendEvent with
    | next :: _, none => s.schedule (if next.tick ≤ s.curTick then s.curTick + 1 else next.tick)
    | _, _ => s
  if s.transmitList.isEmpty && s.drainEvent && s.sendEvent.isNone then { s with drainEvent := false } else s

def sendDeferredPacket (ms : Nat) (o : SendOutcome α) (s : TimingPort α) : TimingPort α :=
  let s := s.require s.deferredPacketReady
  match s.transmitList with
  | [] => s
  | dp :: rest =>
    match o with
    | .accepted calls =>
      { (calls.foldl (fun s d => schedSendTiming ms d s) { s with transmitList := rest }).rearm with
        waitingOnRetry := false }
    | .refused => { s.require s.sendEvent.isNone with transmitList := dp :: rest, waitingOnRetry := true }

def recvRetry (ms : Nat) (o : SendOutcome α) (s : TimingPort α) : TimingPort α :=
  (s.require s.waitingOnRetry).sendDeferredPacket ms o

def processSendEvent (ms : Nat) (o : SendOutcome α) (s : TimingPort α) : TimingPort α :=
  (s.require (!s.waitingOnRetry)).sendDeferredPacket ms o

def drain (s : TimingPort α) : TimingPort α × Nat :=
  if s.transmitList.isEmpty && s.sendEvent.isNone then (s, 0) else ({ s with drainEvent := true }, 1)

end TimingPort

/-! ## Runs -/

/-- The port with its history: what was handed over to it, and what it has sent and when. -/
structure PortRun (α : Type) where
  port : TimingPort α := {}
  handed : List (Deferred α) := []
  sent : List (Nat × Deferred α) := []

inductive PortAction (α : Type) where
  /-- time passes -/
  | tick (n : Nat)
  /-- a call of `schedSendTiming` -/
  | call (d : Deferred α)
  /-- `sendEvent` fires -/
  | fire (o : SendOutcome α)
  /-- the other side calls `recvRetry` -/
  | retry (o : SendOutcome α)
  | drain

namespace PortRun

variable {α : Type}

/-- The packet at the head is sent, or refused. -/
def delivered (o : SendOutcome α) (port : TimingPort α) (s : PortRun α) : PortRun α where
  port
  handed := s.handed ++ o.calls
  sent := s.sent ++ if o.success then s.port.transmitList.head?.toList.map (s.port.curTick, ·) else []

def step (ms : Nat) (s : PortRun α) : PortAction α → PortRun α
  | .tick n => { s with port := { s.port with curTick := s.port.curTick + n } }
  | .call d => { s with port := s.port.schedSendTiming ms d, handed := s.handed ++ [d] }
  -- the event queue takes the event off before it is processed
  | .fire o => s.delivered o ({ s.port with sendEvent := none }.processSendEvent ms o)
  | .retry o => s.delivered o (s.port.recvRetry ms o)
  | .drain => { s with port := s.port.drain.1 }

/-- What `schedSendTiming` asserts of its callers. -/
def Horizon (ms now : Nat) (d : Deferred α) : Prop := now < d.tick ∧ d.tick < now + ms

/-- What the environment may do. -/
def Enabled (ms : Nat) (s : PortRun α) : PortAction α → Prop
  | .tick n => ∀ w ∈ s.port.sendEvent, s.port.curTick + n ≤ w
  | .call d => Horizon ms s.port.curTick d
  | .fire o => s.port.sendEvent = some s.port.curTick ∧ ∀ d ∈ o.calls, Horizon ms s.port.curTick d
  | .retry o => s.port.waitingOnRetry = true ∧ ∀ d ∈ o.calls, Horizon ms s.port.curTick d
  | .drain => True

instance (ms now : Nat) (d : Deferred α) : Decidable (Horizon ms now d) :=
  inferInstanceAs (Decidable (_ ∧ _))

instance (ms : Nat) (s : PortRun α) : DecidablePred (Enabled ms s) := by
  rintro ⟨⟩ <;> dsimp only [Enabled] <;> infer_instance

end PortRun

/-! ## One call -/

namespace TimingPort

variable {α : Type} {ms : Nat} {s : TimingPort α} {d : Deferred α}

/-- What holds of the port also in the middle of a send. -/
structure Sane (s : TimingPort α) : Prop where
  sorted : s.transmitList.Pairwise fun a b => a.tick ≤ b.tick
  event : ∀ w ∈ s.sendEvent, s.curTick ≤ w ∧ ∃ front rest, s.transmitList = front :: rest ∧
    front.tick ≤ w ∧ w ≤ max front.tick (s.curTick + 1)
  waiting : s.waitingOnRetry = true → s.sendEvent = none
  ok : s.failed = false

theorem Sane.no_event (hs : s.Sane) (hlist : s.transmitList = []) : s.sendEvent = none := by
  rw [Option.eq_none_iff_forall_ne_some]
  intro w hw
  obtain ⟨-, front, rest, hcons, -⟩ := hs.event w hw
  rw [hlist] at hcons
  cases hcons

theorem require_of_true {c : Bool} (h : c = true) (s : TimingPort α) : s.require c = s := by
  simp [require, h]

/-- The list after a call, wherever in it the packet belongs. -/
theorem insertMiddle_eq {front : Deferred α} {rest : List (Deferred α)}
    (h : ((front :: rest).getLast (List.cons_ne_nil _ _)).tick > d.tick) (hfront : front.tick ≤ d.tick) :
    insertMiddle d rest = some (rest.orderedInsert (fun a b => a.tick < b.tick) d) := by
  induction rest generalizing front with
  | nil =>
    rw [List.getLast_singleton] at h
    omega
  | cons e es ih =>
    rw [List.getLast_cons (List.cons_ne_nil _ _)] at h
    rw [insertMiddle, List.orderedInsert_cons]
    by_cases he : d.tick < e.tick
    · rw [if_pos he, if_pos he]
    · rw [if_neg he, if_neg he, ih h (Nat.le_of_not_lt he)]
      rfl

theorem schedSendEvent_eq {time : Nat} (hnow : s.curTick ≤ time)
    (hwait : s.waitingOnRetry = true → s.sendEvent = none) (hlate : ∀ w ∈ s.sendEvent, time < w) :
    s.schedSendEvent time =
      { s with sendEvent := if s.waitingOnRetry then s.sendEvent else some time } := by
  unfold schedSendEvent
  cases hw : s.waitingOnRetry with
  | true =>
    have hnone : s.sendEvent.isNone = true := by rw [hwait hw, Option.isNone_none]
    rw [if_pos rfl, if_pos rfl, require_of_true hnone, ← hw]
  | false =>
    rw [if_neg Bool.false_ne_true, if_neg Bool.false_ne_true]
    cases he : s.sendEvent with
    | none =>
      dsimp only [schedule]
      rw [require_of_true (by simp [he, hnow]), ← hw]
    | some w =>
      dsimp only [reschedule]
      rw [if_pos (hlate w he), require_of_true (by simp [he, hnow]), ← hw]

/-- A call puts the packet behind those that are not later; if it comes first, and the port is
not waiting, the event is for it. -/
theorem schedSendTiming_eq (hs : s.Sane) (hd : PortRun.Horizon ms s.curTick d) :
    s.schedSendTiming ms d = { s with
      transmitList := s.transmitList.orderedInsert (fun a b => a.tick < b.tick) d
      sendEvent := if !s.waitingOnRetry && s.transmitList.head?.all fun front => decide (d.tick < front.tick)
        then some d.tick else s.sendEvent } := by
  unfold schedSendTiming
  rw [require_of_true (by simp [hd.1, hd.2])]
  dsimp only
  have hsorted := hs.sorted
  cases hlist : s.transmitList with
  | nil =>
    have hnone := hs.no_event hlist
    dsimp only
    have hsched := @schedSendEvent_eq α { s with transmitList := [d] } d.tick (Nat.le_of_lt hd.1) hs.waiting
      (by simp [hnone])
    rw [hsched]
    cases s.waitingOnRetry <;> rfl
  | cons front rest =>
    rw [hlist] at hsorted
    obtain ⟨hfront, hrest⟩ := List.pairwise_cons.1 hsorted
    dsimp only
    split
    · rename_i hlt
      have hinsert : (front :: rest).orderedInsert (fun a b => a.tick < b.tick) d = d :: front :: rest := by
        rw [List.orderedInsert_cons, if_pos hlt]
      have hlate : ∀ w ∈ s.sendEvent, d.tick < w := by
        intro w hw
        obtain ⟨-, f, r, hcons, hle, -⟩ := hs.event w hw
        rw [hlist] at hcons
        rw [(List.cons.inj hcons).1] at hlt
        omega
      have hsched := @schedSendEvent_eq α { s with transmitList := d :: front :: rest } d.tick
        (Nat.le_of_lt hd.1) hs.waiting hlate
      rw [hsched, hinsert]
      cases s.waitingOnRetry <;> simp [hlt]
    · rename_i hge
      have hkeep : (if !s.waitingOnRetry && (front :: rest).head?.all fun front => decide (d.tick < front.tick)
          then some d.tick else s.sendEvent) = s.sendEvent := by
        rw [if_neg]
        simp [hge]
      rw [hkeep]
      split
      · rename_i hlast
        have hall : ∀ e ∈ front :: rest, e.tick ≤ d.tick := by
          intro e he
          exact Nat.le_trans (Pool.le_getLast hsorted (List.cons_ne_nil _ _) he) hlast
        rw [@Pool.orderedInsert_of_le _ Deferred.tick d _ hall]
      · rename_i hlast
        rw [insertMiddle_eq (Nat.lt_of_not_le hlast) (Nat.le_of_not_lt hge)]
        dsimp only
        rw [List.orderedInsert_cons, if_neg hge]

/-- The packet comes first, or the head stays. -/
theorem orderedInsert_head (d : Deferred α) (l : List (Deferred α)) :
    (l.head?.all (fun front => decide (d.tick < front.tick)) = true ∧
        l.orderedInsert (fun a b => a.tick < b.tick) d = d :: l) ∨
      (l.head?.all (fun front => decide (d.tick < front.tick)) = false ∧ ∃ front rest, l = front :: rest ∧
        front.tick ≤ d.tick ∧ l.orderedInsert (fun a b => a.tick < b.tick) d =
          front :: rest.orderedInsert (fun a b => a.tick < b.tick) d) := by
  cases l with
  | nil => exact .inl ⟨rfl, rfl⟩
  | cons front rest =>
    rw [List.orderedInsert_cons]
    by_cases h : d.tick < front.tick
    · rw [if_pos h]
      exact .inl ⟨by simp [h], rfl⟩
    · rw [if_neg h]
      exact .inr ⟨by simpa using h, front, rest, rfl, Nat.le_of_not_lt h, rfl⟩

theorem Sane.call (hs : s.Sane) (hd : PortRun.Horizon ms s.curTick d) : (s.schedSendTiming ms d).Sane := by
  rw [schedSendTiming_eq hs hd]
  have hsorted := @Pool.pairwise_orderedInsert _ Deferred.tick d _ hs.sorted
  rcases orderedInsert_head d s.transmitList with ⟨hall, hins⟩ | ⟨hall, front, rest, hlist, hle, hins⟩
  · refine ⟨hsorted, fun w hw => ?_, fun hwait => ?_, hs.ok⟩
    · dsimp only at hw ⊢
      rw [hall, Bool.and_true] at hw
      cases hwait : s.waitingOnRetry with
      | true =>
        rw [hwait, hs.waiting hwait] at hw
        cases hw
      | false =>
        rw [hwait] at hw
        obtain rfl : d.tick = w := Option.some.inj hw
        exact ⟨Nat.le_of_lt hd.1, d, _, hins, Nat.le_refl _, Nat.le_max_left ..⟩
    · change s.waitingOnRetry = true at hwait
      dsimp only
      rw [hwait, hs.waiting hwait]
      rfl
  · refine ⟨hsorted, fun w hw => ?_, fun hwait => ?_, hs.ok⟩
    · dsimp only at hw ⊢
      rw [hall, Bool.and_false] at hw
      obtain ⟨hnow, f, r, hlist', hfront, hmax⟩ := hs.event w hw
      rw [hlist] at hlist'
      obtain ⟨rfl, rfl⟩ := List.cons.inj hlist'
      exact ⟨hnow, front, _, hins, hfront, hmax⟩
    · change s.waitingOnRetry = true at hwait
      dsimp only
      rw [hall, Bool.and_false]
      exact hs.waiting hwait

/-- The calls made while a packet is being sent. -/
theorem Sane.calls {calls : List (Deferred α)} (hs : s.Sane)
    (hc : ∀ d ∈ calls, PortRun.Horizon ms s.curTick d) :
    let s' := calls.foldl (fun s d => schedSendTiming ms d s) s
    s'.Sane ∧ s'.curTick = s.curTick ∧ ∀ t, s'.transmitList.filter (fun e => e.tick = t) =
      s.transmitList.filter (fun e => e.tick = t) ++ calls.filter (fun e => e.tick = t) := by
  induction calls generalizing s with
  | nil => exact ⟨hs, rfl, fun t => by rw [List.filter_nil, List.append_nil]; rfl⟩
  | cons d calls ih =>
    obtain ⟨hd, hc⟩ := List.forall_mem_cons.1 hc
    have heq := schedSendTiming_eq hs hd
    have htick : (s.schedSendTiming ms d).curTick = s.curTick := by rw [heq]
    obtain ⟨hsane, hnow, hfilter⟩ := ih (hs.call hd) (by rwa [htick])
    refine ⟨hsane, hnow.trans htick, fun t => ?_⟩
    calc
      _ = (s.schedSendTiming ms d).transmitList.filter (fun e => e.tick = t) ++
          calls.filter (fun e => e.tick = t) := hfilter t
      _ = s.transmitList.filter (fun e => e.tick = t) ++ [d].filter (fun e => e.tick = t) ++
          calls.filter (fun e => e.tick = t) := by
        rw [heq]
        exact congrArg (· ++ _) (@Pool.filter_orderedInsert _ Deferred.tick d _ hs.sorted t)
      _ = _ := by rw [List.append_assoc, ← List.filter_append, List.singleton_append]

/-! ## Outside a send -/

/-- A port that waits has something to send now, and one that does not wait has its event
scheduled if it has something to send. -/
structure Steady (s : TimingPort α) : Prop extends Sane s where
  ready : s.waitingOnRetry = true → ∃ front rest, s.transmitList = front :: rest ∧ front.tick ≤ s.curTick
  armed : s.waitingOnRetry = false → s.transmitList ≠ [] → s.sendEvent.isSome = true

theorem Steady.call (hs : s.Steady) (hd : PortRun.Horizon ms s.curTick d) : (s.schedSendTiming ms d).Steady := by
  refine ⟨hs.toSane.call hd, ?_, ?_⟩
  · rw [schedSendTiming_eq hs.toSane hd]
    intro hwait
    obtain ⟨front, rest, hlist, hready⟩ := hs.ready hwait
    refine ⟨front, rest.orderedInsert (fun a b => a.tick < b.tick) d, ?_, hready⟩
    have hlate : ¬d.tick < front.tick := by
      have := hd.1
      omega
    dsimp only
    rw [hlist, List.orderedInsert_cons, if_neg hlate]
  · rw [schedSendTiming_eq hs.toSane hd]
    intro hwait _
    change s.waitingOnRetry = false at hwait
    dsimp only
    rcases orderedInsert_head d s.transmitList with ⟨hall, -⟩ | ⟨hall, front, rest, hlist, -⟩
    · rw [hall, hwait]
      rfl
    · rw [hall, Bool.and_false]
      exact hs.armed hwait (by simp [hlist])

theorem schedule_eq {time : Nat} (hev : s.sendEvent = none) (hnow : s.curTick ≤ time) :
    s.schedule time = { s with sendEvent := some time } := by
  unfold schedule
  rw [require_of_true (by simp [hev, hnow])]

/-- The three ways to go on. -/
theorem rearm_cases (s : TimingPort α) :
    (s.transmitList = [] ∧ ∃ b, s.rearm = { s with drainEvent := b }) ∨
      (s.transmitList ≠ [] ∧ s.sendEvent.isSome = true ∧ s.rearm = s) ∨
      ∃ next rest time, s.transmitList = next :: rest ∧ s.sendEvent = none ∧ s.curTick ≤ time ∧
        next.tick ≤ time ∧ time ≤ max next.tick (s.curTick + 1) ∧ s.rearm = { s with sendEvent := some time } := by
  by_cases hlist : s.transmitList = []
  · refine .inl ⟨hlist, ?_⟩
    cases hdrain : s.drainEvent && s.sendEvent.isNone with
    | true => exact ⟨false, by simp [rearm, hlist, hdrain]⟩
    | false =>
      refine ⟨s.drainEvent, ?_⟩
      show s.rearm = s
      simp [rearm, hlist, hdrain]
  · obtain ⟨next, rest, hcons⟩ := List.exists_cons_of_ne_nil hlist
    cases hev : s.sendEvent with
    | some w =>
      refine .inr (.inl ⟨hlist, rfl, ?_⟩)
      simp [rearm, hcons, hev]
    | none =>
      refine .inr (.inr ⟨next, rest, if next.tick ≤ s.curTick then s.curTick + 1 else next.tick, hcons, rfl,
        by split <;> omega, by split <;> omega, by split <;> omega, ?_⟩)
      have hnow : s.curTick ≤ if next.tick ≤ s.curTick then s.curTick + 1 else next.tick := by
        split <;> omega
      simp [rearm, hcons, hev, schedule_eq hev hnow]

/-- After a successful send. -/
theorem Sane.rearm (hs : s.Sane) :
    ({ s.rearm with waitingOnRetry := false } : TimingPort α).Steady ∧
      s.rearm.transmitList = s.transmitList := by
  have hnot : ∀ {p : Prop}, false = true → p := fun h => absurd h Bool.false_ne_true
  rcases rearm_cases s with ⟨hnil, b, hr⟩ | ⟨-, hsome, hr⟩ | ⟨next, rest, time, hlist, hev, hnow, hle, hmax, hr⟩ <;>
    rw [hr]
  · refine ⟨⟨⟨hs.sorted, hs.event, hnot, hs.ok⟩, hnot, fun _ hne => absurd hnil hne⟩, rfl⟩
  · exact ⟨⟨⟨hs.sorted, hs.event, hnot, hs.ok⟩, hnot, fun _ _ => hsome⟩, rfl⟩
  · refine ⟨⟨⟨hs.sorted, fun w hw => ?_, hnot, hs.ok⟩, hnot, fun _ _ => rfl⟩, rfl⟩
    obtain rfl := Option.some.inj hw
    exact ⟨hnow, next, rest, hlist, hle, hmax⟩

/-- A send, from the event or after a retry. -/
theorem Sane.send (hs : s.Sane) (hev : s.sendEvent = none) {dp : Deferred α} {rest : List (Deferred α)}
    (hlist : s.transmitList = dp :: rest) (hready : dp.tick ≤ s.curTick) {o : SendOutcome α}
    (hc : ∀ d ∈ o.calls, PortRun.Horizon ms s.curTick d) :
    (s.sendDeferredPacket ms o).Steady ∧ ∀ t,
      (if o.success then [dp] else []).filter (fun e => e.tick = t) ++
          (s.sendDeferredPacket ms o).transmitList.filter (fun e => e.tick = t) =
        s.transmitList.filter (fun e => e.tick = t) ++ o.calls.filter (fun e => e.tick = t) := by
  unfold sendDeferredPacket
  rw [require_of_true (by simp [deferredPacketReady, hlist, hready])]
  dsimp only
  rw [hlist]
  cases o with
  | refused =>
    dsimp only
    rw [require_of_true (by simp [hev])]
    refine ⟨⟨⟨?_, ?_, fun _ => hev, hs.ok⟩, fun _ => ⟨dp, rest, rfl, hready⟩,
      fun h => absurd h (by simp)⟩, fun t => by simp [SendOutcome.success, SendOutcome.calls]⟩
    · rw [← hlist]
      exact hs.sorted
    · simp [hev]
  | accepted calls =>
    have hpopped : ({ s with transmitList := rest } : TimingPort α).Sane := by
      refine ⟨?_, by simp [hev], hs.waiting, hs.ok⟩
      have hsorted := hs.sorted
      rw [hlist] at hsorted
      exact (List.pairwise_cons.1 hsorted).2
    obtain ⟨hsane, -, hfilter⟩ := hpopped.calls hc
    obtain ⟨hsteady, hsame⟩ := hsane.rearm
    refine ⟨hsteady, fun t => ?_⟩
    dsimp only [SendOutcome.calls] at hfilter hsame ⊢
    rw [hsame, hfilter t]
    calc
      _ = [dp].filter (fun e => e.tick = t) ++ rest.filter (fun e => e.tick = t) ++
          calls.filter (fun e => e.tick = t) := (List.append_assoc ..).symm
      _ = _ := by rw [← List.filter_append, List.singleton_append]

end TimingPort

/-! ## Every run -/

namespace PortRun

variable {α : Type} {ms : Nat} {s : PortRun α}

/-- What the port owes to those who hand over packets. -/
structure Delivers (s : PortRun α) : Prop where
  /-- no assertion has failed -/
  ok : s.port.failed = false
  sorted : s.port.transmitList.Pairwise fun a b => a.tick ≤ b.tick
  /-- the packets of a tick go in the order in which they were handed over: the first of them
  have been sent, once, and the others are in the list -/
  fifo : ∀ t, s.handed.filter (fun d => d.tick = t) =
    (s.sent.map Prod.snd).filter (fun d => d.tick = t) ++ s.port.transmitList.filter (fun d => d.tick = t)
  all : s.handed.Perm (s.sent.map Prod.snd ++ s.port.transmitList)
  not_early : ∀ x ∈ s.sent, x.2.tick ≤ x.1
  /-- something to send now or later is not forgotten -/
  live : ∀ front rest, s.port.transmitList = front :: rest → s.port.waitingOnRetry = false →
    ∃ w, s.port.sendEvent = some w ∧ w ≤ max front.tick (s.port.curTick + 1)

/-- What the actions keep. -/
structure Kept (s : PortRun α) : Prop where
  steady : s.port.Steady
  fifo : ∀ t, s.handed.filter (fun d => d.tick = t) =
    (s.sent.map Prod.snd).filter (fun d => d.tick = t) ++ s.port.transmitList.filter (fun d => d.tick = t)
  not_early : ∀ x ∈ s.sent, x.2.tick ≤ x.1

theorem Kept.delivers (h : s.Kept) : s.Delivers where
  ok := h.steady.ok
  sorted := h.steady.sorted
  fifo := h.fifo
  all := by
    apply @Pool.perm_of_filter _ Deferred.tick
    intro t
    rw [h.fifo t, List.filter_append]
  not_early := h.not_early
  live front rest hlist hwait := by
    obtain ⟨w, hw⟩ := Option.isSome_iff_exists.1 (h.steady.armed hwait (by simp [hlist]))
    obtain ⟨-, f, r, hlist', -, hmax⟩ := h.steady.event w hw
    rw [hlist] at hlist'
    obtain ⟨rfl, rfl⟩ := List.cons.inj hlist'
    exact ⟨w, hw, hmax⟩

/-- A packet is sent or refused; `s` is the state before. -/
theorem Kept.delivered (h : s.Kept) {dp : Deferred α} {rest : List (Deferred α)}
    (hlist : s.port.transmitList = dp :: rest) (hready : dp.tick ≤ s.port.curTick) {o : SendOutcome α}
    {port : TimingPort α} (hport : port.Steady)
    (hfilter : ∀ t, (if o.success then [dp] else []).filter (fun e => e.tick = t) ++
        port.transmitList.filter (fun e => e.tick = t) =
      s.port.transmitList.filter (fun e => e.tick = t) ++ o.calls.filter (fun e => e.tick = t)) :
    (s.delivered o port).Kept := by
  have hsent : ∀ t, ((s.delivered o port).sent.map Prod.snd).filter (fun d => d.tick = t) =
      (s.sent.map Prod.snd).filter (fun d => d.tick = t) ++
        (if o.success then [dp] else []).filter (fun d => d.tick = t) := by
    intro t
    rw [PortRun.delivered, hlist, ← List.filter_append]
    cases o.success <;> simp
  refine ⟨hport, fun t => ?_, fun x hx => ?_⟩
  · calc
      _ = s.handed.filter (fun d => d.tick = t) ++ o.calls.filter (fun d => d.tick = t) :=
        List.filter_append ..
      _ = (s.sent.map Prod.snd).filter (fun d => d.tick = t) ++
          (s.port.transmitList.filter (fun d => d.tick = t) ++ o.calls.filter (fun d => d.tick = t)) := by
        rw [h.fifo t, List.append_assoc]
      _ = _ := by rw [← hfilter t, ← List.append_assoc, ← hsent t]; rfl
  · rcases List.mem_append.1 hx with hx | hx
    · exact h.not_early x hx
    · rw [hlist] at hx
      split at hx
      · obtain rfl := List.mem_singleton.1 hx
        exact hready
      · cases hx

theorem Kept.step (h : s.Kept) {a : PortAction α} (ha : Enabled ms s a) : (s.step ms a).Kept := by
  cases a with
  | tick n =>
    refine ⟨⟨⟨h.steady.sorted, fun w hw => ?_, h.steady.waiting, h.steady.ok⟩, fun hwait => ?_, h.steady.armed⟩,
      h.fifo, h.not_early⟩
    · obtain ⟨-, front, rest, hlist, hle, hmax⟩ := h.steady.event w hw
      refine ⟨ha w hw, front, rest, hlist, hle, ?_⟩
      show w ≤ max front.tick (s.port.curTick + n + 1)
      omega
    · obtain ⟨front, rest, hlist, hready⟩ := h.steady.ready hwait
      exact ⟨front, rest, hlist, Nat.le_trans hready (Nat.le_add_right ..)⟩
  | call d =>
    refine ⟨h.steady.call ha, fun t => ?_, h.not_early⟩
    have hlist : (s.port.schedSendTiming ms d).transmitList =
        s.port.transmitList.orderedInsert (fun a b => a.tick < b.tick) d := by
      rw [TimingPort.schedSendTiming_eq h.steady.toSane ha]
    calc
      _ = s.handed.filter (fun d => d.tick = t) ++ [d].filter (fun d => d.tick = t) := List.filter_append ..
      _ = (s.sent.map Prod.snd).filter (fun d => d.tick = t) ++
          (s.port.transmitList.filter (fun d => d.tick = t) ++ [d].filter (fun d => d.tick = t)) := by
        rw [h.fifo t, List.append_assoc]
      _ = _ := by
        rw [← @Pool.filter_orderedInsert _ Deferred.tick d _ h.steady.sorted t, ← hlist]
        rfl
  | fire o =>
    obtain ⟨hev, hcalls⟩ := ha
    obtain ⟨-, front, rest, hlist, hle, -⟩ := h.steady.event _ hev
    have hwait : s.port.waitingOnRetry = false := by
      rw [← Bool.not_eq_true]
      intro hwait
      rw [h.steady.waiting hwait] at hev
      cases hev
    have hsane : ({ s.port with sendEvent := none } : TimingPort α).Sane :=
      ⟨h.steady.sorted, by simp, fun _ => rfl, h.steady.ok⟩
    have hstep : s.step ms (.fire o) =
        s.delivered o (({ s.port with sendEvent := none } : TimingPort α).sendDeferredPacket ms o) := by
      rw [PortRun.step, TimingPort.processSendEvent, TimingPort.require_of_true (by simp [hwait])]
    obtain ⟨hsteady, hfilter⟩ := hsane.send rfl hlist hle hcalls
    rw [hstep]
    exact h.delivered hlist hle hsteady hfilter
  | retry o =>
    obtain ⟨hwait, hcalls⟩ := ha
    obtain ⟨front, rest, hlist, hle⟩ := h.steady.ready hwait
    have hstep : s.step ms (.retry o) = s.delivered o (s.port.sendDeferredPacket ms o) := by
      rw [PortRun.step, TimingPort.recvRetry, TimingPort.require_of_true hwait]
    obtain ⟨hsteady, hfilter⟩ := h.steady.toSane.send (h.steady.waiting hwait) hlist hle hcalls
    rw [hstep]
    exact h.delivered hlist hle hsteady hfilter
  | drain =>
    have hdrain : ∃ b, s.port.drain.1 = { s.port with drainEvent := b } := by
      unfold TimingPort.drain
      split
      · exact ⟨s.port.drainEvent, rfl⟩
      · exact ⟨true, rfl⟩
    obtain ⟨b, hb⟩ := hdrain
    refine ⟨?_, ?_, h.not_early⟩
    · show s.port.drain.1.Steady
      rw [hb]
      exact ⟨⟨h.steady.sorted, h.steady.event, h.steady.waiting, h.steady.ok⟩, h.steady.ready, h.steady.armed⟩
    · show ∀ t, _ = _ ++ s.port.drain.1.transmitList.filter _
      rw [hb]
      exact h.fifo

end PortRun

/-- In every run the port keeps its promises. -/
theorem port_delivers {α : Type} (ms : Nat) (as : List (PortAction α))
    (h : Runs.Guarded (PortRun.step ms) (PortRun.Enabled ms) {} as) :
    Runs.Along (PortRun.step ms) PortRun.Delivers {} as := by
  have hinit : ({} : PortRun α).Kept := by
    refine ⟨⟨⟨List.Pairwise.nil, by simp, by simp, rfl⟩, by simp, fun _ hne => absurd rfl hne⟩, fun _ => rfl, by simp⟩
  have hrun := Runs.along_of_guarded (I := PortRun.Kept) (fun s a hs ha => hs.step ha) as _ hinit h
  exact Runs.along_mono (fun s hs => hs.delivers) as _ hrun

/-- A packet is refused and sent after a retry, and two more are handed over while it is. -/
theorem port_delivers_refused :
    let as : List (PortAction Nat) := [.call ⟨5, 0⟩, .call ⟨3, 1⟩, .call ⟨5, 2⟩, .tick 3, .fire .refused, .tick 1,
      .call ⟨6, 3⟩, .retry (.accepted [⟨9, 4⟩, ⟨5, 5⟩]), .tick 1, .fire (.accepted [])]
    Runs.Along (PortRun.step 100) PortRun.Delivers {} as :=
  port_delivers 100 _ (by decide)

/-! ## The ports of the cache -/

/-- The list of deferred packets, as the cache's model has it. -/
def CachePort.deferred (p : CachePort) : List (Deferred Packet) := p.transmitList.map fun d => ⟨d.1, d.2⟩

theorem CachePort.respond_transmitList {p : CachePort} {pkt : Packet} {time : Tick}
    (hsorted : p.transmitList.Pairwise fun a b => a.1 ≤ b.1) :
    (p.respond pkt time).transmitList =
      p.transmitList.orderedInsert (fun a b => a.1 < b.1) (time, pkt) := by
  unfold CachePort.respond
  dsimp only
  split
  · rename_i hfirst
    cases hlist : p.transmitList with
    | nil => rfl
    | cons front rest =>
      rw [hlist, List.head?_cons, Option.all_some, decide_eq_true_eq] at hfirst
      rw [List.orderedInsert_cons, if_pos hfirst]
  · split
    · rename_i hlast
      symm
      apply @Pool.orderedInsert_of_le _ Prod.fst (time, pkt)
      intro d hd
      have hne := List.ne_nil_of_mem hd
      rw [List.getLast?_eq_some_getLast hne, Option.all_some, decide_eq_true_eq] at hlast
      exact Nat.le_trans (Pool.le_getLast hsorted hne hd) hlast
    · rfl

/-- A port of the cache keeps the list this port does. -/
theorem CachePort.respond_refines {p : CachePort} {s : TimingPort Packet} {ms : Nat} {pkt : Packet} {time : Nat}
    (hs : s.Sane) (hd : PortRun.Horizon ms s.curTick (⟨time, pkt⟩ : Deferred Packet))
    (hlist : s.transmitList = p.deferred) :
    (s.schedSendTiming ms ⟨time, pkt⟩).transmitList = (p.respond pkt time).deferred := by
  have hsorted : p.transmitList.Pairwise fun a b => a.1 ≤ b.1 := by
    have h := hs.sorted
    rw [hlist, CachePort.deferred, List.pairwise_map] at h
    exact h
  rw [TimingPort.schedSendTiming_eq hs hd, CachePort.deferred, CachePort.respond_transmitList hsorted,
    List.map_orderedInsert (r := fun a b : Tick × Packet => a.1 < b.1)
      (s := fun a b : Deferred Packet => a.tick < b.tick)]
  · rw [hlist]
    rfl
  · exact fun _ _ => Iff.rfl
  · exact fun _ _ => Iff.rfl

end PrefetchSim
