import PrefetchSim.Sim.EventQueue

/- The simulation loop (`m5/src/sim/simulate.cc`, `sim_events.cc`).

   Correspondence (C++ ↔ Lean):
     `simulate`, up to its loop               ↔ `SimAction.simulate`
     the head of the loop, and `serviceOne`   ↔ `SimAction.iterate`
     what `process` of an event calls         ↔ `SimAction.call`
     the end of `serviceOne`, and the return  ↔ `SimAction.finish`
     `SimLoopExitEvent`                       ↔ an event with the priority `simExitPri`

   Signals from outside (`async_event`) are left out. -/
namespace PrefetchSim

/-! ## The loop -/

/-- `Sim_Exit_Pri`. -/
def simExitPri : Int := 100

/-- `MaxTick`. -/
def lastTick : Int := 2 ^ 63 - 1

/-- What `simulate` has returned and when, and the limit there was. -/
structure Return where
  event : Nat
  tick : Int
  limitEvent : Nat
  limitTick : Int
  deriving DecidableEq, Repr

/-- The limit itself comes back at its time, anything else before it or at it. -/
def Return.InTime (r : Return) : Prop := r.tick ≤ r.limitTick ∧ (r.event = r.limitEvent → r.tick = r.limitTick)

structure SimRun where
  run : QueueRun := {}
  /-- `limit_event` and its time, as long as `simulate` has not returned -/
  limit : Option (Nat × Int) := none
  /-- an assertion of the loop has failed -/
  failed : Bool := false
  /-- the events processed, and when -/
  served : List (Nat × Int) := []
  returned : List Return := []

inductive SimAction where
  | simulate (limitEvent : Nat) (numCycles : Int)
  | iterate
  | call (a : QueueAction)
  | finish
  deriving DecidableEq, Repr

/-- The event a call is about; `none` for what only the loop does. -/
def QueueAction.target : QueueAction → Option Nat
  | .construct p _ | .destroy p | .setFlags p _ _ _ | .schedule p _ | .deschedule p | .reschedule p _ _ => some p
  | .tick _ | .serviceOne | .processed => none

/-- The time an event is scheduled for by a call. -/
def QueueAction.time : QueueAction → Option Int
  | .schedule _ t | .reschedule _ t _ => some t
  | _ => none

namespace SimRun

def curTick (s : SimRun) : Int := s.run.queue.curTick

/-- `curTick + num_cycles`, or the largest tick where the sum overflows. -/
def limitTick (s : SimRun) (numCycles : Int) : Int :=
  if (s.curTick + numCycles).bmod (2 ^ 64) < 0 then lastTick else (s.curTick + numCycles).bmod (2 ^ 64)

/-- `limit_event->squash()`. -/
def squash (p : Nat) (r : QueueRun) : QueueRun :=
  r.step (.setFlags p true (r.queue.events p).autoDelete (r.queue.events p).isExitEvent)

def step (s : SimRun) : SimAction → SimRun
  | .simulate p n =>
    { s with
      run := ((s.run.step (.construct p simExitPri)).step (.setFlags p false false true)).step
        (.schedule p (s.limitTick n))
      limit := some (p, s.limitTick n) }
  | .iterate =>
    match s.run.queue.head with
    | none => { s with failed := true }
    | some head =>
      let next := (s.run.queue.events head).when
      let run := (s.run.step (.tick next)).step .serviceOne
      { s with
        run
        failed := s.failed || !decide (s.curTick ≤ next)
        served := s.served ++ run.processing.map fun p => (p, next) }
  | .call a => { s with run := s.run.step a }
  | .finish =>
    match s.run.processing with
    | [] => s
    | p :: _ =>
      let run := s.run.step .processed
      if (s.run.queue.events p).isExitEvent then
        match s.limit with
        | none => { s with run }
        | some (l, t) =>
          { s with
            run := if p = l then run else squash l run
            limit := none
            failed := s.failed || !(decide (p = l) || (run.queue.events l).scheduled)
            returned := s.returned ++ [⟨p, s.curTick, l, t⟩] }
      else { s with run }

/-- `simulate` is called when it is not running; in between, events are made, scheduled and so
on, but nobody touches the limit or schedules anything in the past or beyond the last tick. -/
def Enabled (s : SimRun) : SimAction → Prop
  | .simulate p n => s.limit = none ∧ p ∉ s.run.queue.live ∧ 0 ≤ n ∧ n ≤ lastTick
  | .iterate => s.limit ≠ none ∧ s.run.processing = []
  | .call a => s.run.Enabled a ∧ (s.limit = none ∨ s.run.processing ≠ []) ∧
      (a.target ≠ none ∧ ∀ p ∈ a.target, ∀ l ∈ s.limit, p ≠ l.1) ∧ ∀ t ∈ a.time, s.curTick ≤ t ∧ t ≤ lastTick
  | .finish => s.run.processing ≠ [] ∧ s.run.Enabled .processed

instance (s : SimRun) : DecidablePred (Enabled s) := by
  rintro ⟨⟩ <;> dsimp only [Enabled] <;> infer_instance

end SimRun

/-! ## What a call leaves alone -/

namespace EventQueue

variable {q q' q'' : EventQueue} {event : Nat}

theorem bind_ok {α β : Type} {x : Except QueueFault α} {f : α → Except QueueFault β} {b : β} :
    (x >>= f) = .ok b ↔ ∃ a, x = .ok a ∧ f a = .ok b := by
  cases x with
  | error e => simp [bind, Except.bind]
  | ok a => simp [bind, Except.bind]

theorem get_ok {p : Nat} {e : Event} (h : q.get p = .ok e) : p ∈ q.live ∧ e = q.events p := by
  unfold get at h
  split_ifs at h with hp
  exact ⟨hp, (Except.ok.inj h).symm⟩

/-- Only links are written. -/
structure Relinks (q q' : EventQueue) : Prop extends Relinked q q' where
  tick : q'.curTick = q.curTick

theorem Relinks.trans (h : Relinks q q') (h' : Relinks q' q'') : Relinks q q'' :=
  ⟨h.toRelinked.trans h'.toRelinked, h'.tick.trans h.tick⟩

theorem Relinks.head (h : Relinks q q') (head : Option Nat) : Relinks q { q' with head } :=
  ⟨⟨h.live, h.core⟩, h.tick⟩

theorem relinks_set {p : Nat} {e : Event} (h : e.core = (q.events p).core) : Relinks q (q.set p e) :=
  ⟨Relinked.set h, rfl⟩

theorem relinks_insertBefore {curr : Option Nat} (h : q.insertBefore event curr = .ok q') : Relinks q q' := by
  obtain ⟨e, he, h⟩ := bind_ok.1 h
  obtain rfl := (get_ok he).2
  cases curr with
  | none => exact Except.ok.inj h ▸ relinks_set rfl
  | some c =>
    obtain ⟨top, -, h⟩ := bind_ok.1 h
    split_ifs at h
    · exact Except.ok.inj h ▸ relinks_set rfl
    · exact Except.ok.inj h ▸ relinks_set rfl

theorem relinks_insert (h : q.insert event = .ok q') : Relinks q q' := by
  unfold EventQueue.insert at h
  split at h
  · obtain ⟨q₁, h₁, h⟩ := bind_ok.1 h
    exact Except.ok.inj h ▸ (relinks_insertBefore h₁).head _
  · obtain ⟨e, -, h⟩ := bind_ok.1 h
    obtain ⟨hd, -, h⟩ := bind_ok.1 h
    split_ifs at h
    · obtain ⟨q₁, h₁, h⟩ := bind_ok.1 h
      exact Except.ok.inj h ▸ (relinks_insertBefore h₁).head _
    · obtain ⟨⟨prev, curr⟩, -, h⟩ := bind_ok.1 h
      obtain ⟨q₁, h₁, h⟩ := bind_ok.1 h
      obtain ⟨p, hp, h⟩ := bind_ok.1 h
      obtain rfl := (get_ok hp).2
      exact Except.ok.inj h ▸ (relinks_insertBefore h₁).trans (relinks_set rfl)

theorem relinks_removeItem {top : Nat} {r : EventQueue × Option Nat} (h : q.removeItem event top = .ok r) :
    Relinks q r.1 := by
  obtain ⟨t, -, h⟩ := bind_ok.1 h
  split_ifs at h
  · split at h
    · exact Except.ok.inj h ▸ ⟨.refl q, rfl⟩
    · obtain ⟨n, hn, h⟩ := bind_ok.1 h
      obtain rfl := (get_ok hn).2
      exact Except.ok.inj h ▸ relinks_set rfl
  · obtain ⟨curr, -, h⟩ := bind_ok.1 h
    obtain ⟨c, hc, h⟩ := bind_ok.1 h
    obtain ⟨n, -, h⟩ := bind_ok.1 h
    obtain rfl := (get_ok hc).2
    exact Except.ok.inj h ▸ relinks_set rfl

theorem relinks_remove (h : q.remove event = .ok q') : Relinks q q' := by
  unfold EventQueue.remove at h
  split at h
  · cases h
  · obtain ⟨hd, -, h⟩ := bind_ok.1 h
    obtain ⟨e, -, h⟩ := bind_ok.1 h
    split_ifs at h
    · obtain ⟨⟨q₁, top⟩, h₁, h⟩ := bind_ok.1 h
      exact Except.ok.inj h ▸ (relinks_removeItem h₁).head _
    · obtain ⟨⟨prev, curr⟩, -, h⟩ := bind_ok.1 h
      cases curr with
      | none => cases h
      | some c =>
        obtain ⟨ce, -, h⟩ := bind_ok.1 h
        split_ifs at h
        obtain ⟨⟨q₁, top⟩, h₁, h⟩ := bind_ok.1 h
        obtain ⟨p, hp, h⟩ := bind_ok.1 h
        obtain rfl := (get_ok hp).2
        exact Except.ok.inj h ▸ (relinks_removeItem h₁).trans (relinks_set rfl)

theorem relinks_popHead {e : Event} (h : q.popHead e = .ok q') : Relinks q q' := by
  unfold EventQueue.popHead at h
  split at h
  · obtain ⟨n, hn, h⟩ := bind_ok.1 h
    obtain rfl := (get_ok hn).2
    obtain rfl := Except.ok.inj h
    apply Relinks.head
    exact relinks_set rfl
  · exact Except.ok.inj h ▸ Relinks.head ⟨.refl q, rfl⟩ _

/-- A call for `event` changes neither the time nor, but for the links, another event. -/
structure Frames (event : Nat) (q q' : EventQueue) : Prop where
  tick : q'.curTick = q.curTick
  others : ∀ p, p ≠ event → (q'.events p).core = (q.events p).core
  live : ∀ p, p ≠ event → (p ∈ q'.live ↔ p ∈ q.live)

theorem Frames.refl (event : Nat) (q : EventQueue) : Frames event q q := ⟨rfl, fun _ _ => rfl, fun _ _ => .rfl⟩

theorem Frames.trans (h : Frames event q q') (h' : Frames event q' q'') : Frames event q q'' :=
  ⟨h'.tick.trans h.tick, fun p hp => (h'.others p hp).trans (h.others p hp),
    fun p hp => (h'.live p hp).trans (h.live p hp)⟩

theorem Relinks.frames (h : Relinks q q') (event : Nat) : Frames event q q' :=
  ⟨h.tick, fun p _ => h.core p, fun p _ => by rw [h.live]⟩

theorem frames_set {e : Event} : Frames event q (q.set event e) :=
  ⟨rfl, fun p hp => by rw [set_events_of_ne hp], fun _ _ => .rfl⟩

theorem frames_construct {priority : Int} : Frames event q (q.construct event priority) :=
  ⟨rfl, fun p hp => by rw [construct, set_events_of_ne hp], fun p hp => by simp [construct, hp]⟩

theorem frames_destroy (h : q.destroy event = .ok q') : Frames event q q' := by
  obtain ⟨e, -, h⟩ := bind_ok.1 h
  obtain ⟨-, -, h⟩ := bind_ok.1 h
  obtain rfl := Except.ok.inj h
  exact ⟨rfl, fun p hp => by rw [set_events_of_ne hp], fun p hp => List.mem_erase_of_ne hp⟩

theorem frames_setFlags {sq ad ex : Bool} (h : q.setFlags event sq ad ex = .ok q') : Frames event q q' := by
  obtain ⟨e, -, h⟩ := bind_ok.1 h
  exact Except.ok.inj h ▸ frames_set

theorem frames_schedule {t : Int} (h : q.schedule event t = .ok q') : Frames event q q' := by
  obtain ⟨-, -, h⟩ := bind_ok.1 h
  obtain ⟨e, -, h⟩ := bind_ok.1 h
  obtain ⟨-, -, h⟩ := bind_ok.1 h
  obtain ⟨q₁, h₁, h⟩ := bind_ok.1 h
  obtain ⟨e', -, h⟩ := bind_ok.1 h
  exact Except.ok.inj h ▸ (frames_set.trans ((relinks_insert h₁).frames event)).trans frames_set

theorem frames_deschedule (h : q.deschedule event = .ok q') : Frames event q q' := by
  obtain ⟨e, -, h⟩ := bind_ok.1 h
  obtain ⟨-, -, h⟩ := bind_ok.1 h
  obtain ⟨q₁, h₁, h⟩ := bind_ok.1 h
  obtain ⟨e', -, h⟩ := bind_ok.1 h
  have hset := ((relinks_remove h₁).frames event).trans
    (frames_set (e := { e' with squashed := false, scheduled := false }))
  split_ifs at h
  · exact hset.trans (frames_destroy h)
  · exact Except.ok.inj h ▸ hset

theorem frames_reschedule {t : Int} {always : Bool} (h : q.reschedule event t always = .ok q') :
    Frames event q q' := by
  obtain ⟨-, -, h⟩ := bind_ok.1 h
  obtain ⟨e, -, h⟩ := bind_ok.1 h
  obtain ⟨-, -, h⟩ := bind_ok.1 h
  dsimp only at h
  have hrest : ∀ q₁, Frames event q q₁ → (do
      let e ← q₁.get event
      let q ← (q₁.set event { e with when := t }).insert event
      let e ← q.get event
      pure (q.set event { e with squashed := false, scheduled := true })) = Except.ok q' → Frames event q q' := by
    intro q₁ hfirst h
    obtain ⟨e₁, -, h⟩ := bind_ok.1 h
    obtain ⟨q₂, h₂, h⟩ := bind_ok.1 h
    obtain ⟨e₂, -, h⟩ := bind_ok.1 h
    exact Except.ok.inj h ▸ ((hfirst.trans frames_set).trans ((relinks_insert h₂).frames event)).trans frames_set
  split_ifs at h
  · obtain ⟨q₁, h₁, h⟩ := bind_ok.1 h
    exact hrest q₁ ((relinks_remove h₁).frames event) h
  · obtain ⟨q₁, h₁, h⟩ := bind_ok.1 h
    exact hrest q₁ (Except.ok.inj h₁ ▸ .refl event q) h

theorem frames_autoDelete (h : q.autoDelete event = .ok q') : Frames event q q' := by
  unfold EventQueue.autoDelete at h
  split_ifs at h
  · exact frames_destroy h
  · exact Except.ok.inj h ▸ .refl event q

theorem frames_processed (h : q.processed event = .ok q') : Frames event q q' := by
  unfold EventQueue.processed at h
  split_ifs at h
  · obtain ⟨-, -, h⟩ := bind_ok.1 h
    exact Except.ok.inj h ▸ .refl event q
  · exact frames_autoDelete h

/-- The event at the head is taken off, and is the one to be processed unless it is squashed;
its other fields stay then. -/
theorem serviceOne_frames {r : EventQueue × Option Nat} (hhead : q.head = some event) (h : q.serviceOne = .ok r) :
    Frames event q r.1 ∧ ((q.events event).squashed = true ∧ r.2 = none ∨
      (q.events event).squashed = false ∧ r.2 = some event ∧ event ∈ r.1.live ∧
        (r.1.events event).core = { (q.events event).core with scheduled := false }) := by
  unfold EventQueue.serviceOne at h
  rw [hhead] at h
  obtain ⟨e, he, h⟩ := bind_ok.1 h
  obtain ⟨hlive, rfl⟩ := get_ok he
  obtain ⟨q₁, h₁, h⟩ := bind_ok.1 h
  have hpop := relinks_popHead h₁
  have hframes := (frames_set (q := q) (e := { q.events event with scheduled := false })).trans (hpop.frames event)
  split_ifs at h with hsq
  · obtain ⟨e', -, h⟩ := bind_ok.1 h
    obtain ⟨q₂, h₂, h⟩ := bind_ok.1 h
    obtain rfl := Except.ok.inj h
    exact ⟨(hframes.trans frames_set).trans (frames_autoDelete h₂), .inl ⟨hsq, rfl⟩⟩
  · obtain rfl := Except.ok.inj h
    refine ⟨hframes, .inr ⟨by simpa using hsq, rfl, hpop.live ▸ hlive, ?_⟩⟩
    rw [hpop.core, set_events, Function.update_self]
    rfl

theorem setFlags_eq (h : event ∈ q.live) (sq ad ex : Bool) : q.setFlags event sq ad ex =
    .ok (q.set event { q.events event with squashed := sq, autoDelete := ad, isExitEvent := ex }) := by
  unfold EventQueue.setFlags
  rw [get_of_mem h]
  rfl

/-- The fields of an event that was scheduled. -/
theorem schedule_core {t : Int} (h : q.schedule event t = .ok q') :
    event ∈ q'.live ∧ (q'.events event).core = { (q.events event).core with when := t, scheduled := true } := by
  obtain ⟨-, -, h⟩ := bind_ok.1 h
  obtain ⟨e, he, h⟩ := bind_ok.1 h
  obtain ⟨hlive, rfl⟩ := get_ok he
  obtain ⟨-, -, h⟩ := bind_ok.1 h
  obtain ⟨q₁, h₁, h⟩ := bind_ok.1 h
  obtain ⟨e', he', h⟩ := bind_ok.1 h
  obtain ⟨hlive', rfl⟩ := get_ok he'
  obtain rfl := Except.ok.inj h
  refine ⟨hlive', ?_⟩
  have hcore := (relinks_insert h₁).core event
  rw [set_events, Function.update_self] at hcore
  rw [set_events, Function.update_self]
  have : ({ q₁.events event with scheduled := true } : Event).core =
      { (q₁.events event).core with scheduled := true } := rfl
  rw [this, hcore]
  rfl

end EventQueue

/-! ## Time -/

namespace QueueRun

variable {s : QueueRun}

theorem result_frames {p : Nat} {r : Except QueueFault EventQueue} (h : ∀ q', r = .ok q' → s.queue.Frames p q') :
    s.queue.Frames p (s.result r).queue := by
  cases r with
  | ok q' => exact h q' rfl
  | error f => exact .refl p s.queue

theorem result_processing (r : Except QueueFault EventQueue) : (s.result r).processing = s.processing := by
  cases r <;> rfl

/-- What a call for the event `p` leaves alone. -/
theorem call_frames {a : QueueAction} {p : Nat} (h : a.target = some p) :
    s.queue.Frames p (s.step a).queue ∧ (s.step a).processing = s.processing := by
  cases a with
  | construct r priority => exact Option.some.inj h ▸ ⟨EventQueue.frames_construct, rfl⟩
  | destroy r => exact Option.some.inj h ▸ ⟨result_frames fun _ => EventQueue.frames_destroy, result_processing _⟩
  | setFlags r sq ad ex =>
    exact Option.some.inj h ▸ ⟨result_frames fun _ => EventQueue.frames_setFlags, result_processing _⟩
  | schedule r t =>
    exact Option.some.inj h ▸ ⟨result_frames fun _ => EventQueue.frames_schedule, result_processing _⟩
  | deschedule r =>
    exact Option.some.inj h ▸ ⟨result_frames fun _ => EventQueue.frames_deschedule, result_processing _⟩
  | reschedule r t always =>
    exact Option.some.inj h ▸ ⟨result_frames fun _ => EventQueue.frames_reschedule, result_processing _⟩
  | tick t => cases h
  | serviceOne => cases h
  | processed => cases h

theorem serviceOne_eq {q' : EventQueue} {running : Option Nat} (h : s.queue.serviceOne = .ok (q', running)) :
    s.step .serviceOne =
      { s with queue := q', agenda := serve s.agenda, processing := running.toList ++ s.processing } := by
  rw [step, h]

theorem setFlags_eq {p : Nat} {sq ad ex : Bool} (h : p ∈ s.queue.live) : s.step (.setFlags p sq ad ex) =
    { s with
      queue := s.queue.set p { s.queue.events p with squashed := sq, autoDelete := ad, isExitEvent := ex } } := by
  rw [step, EventQueue.setFlags_eq h]
  rfl

theorem schedule_eq {p : Nat} {t : Int} {q' : EventQueue} (h : s.queue.schedule p t = .ok q') :
    s.step (.schedule p t) =
      { s with queue := q', agenda := ⟨t, (s.queue.events p).priority, p⟩ :: s.agenda } := by
  rw [step, h]
  rfl

theorem result_agenda (r : Except QueueFault EventQueue) : (s.result r).agenda = s.agenda := by
  cases r <;> rfl

/-- What is left to do after `process` leaves alone. -/
theorem processed_frames {p : Nat} (h : s.processing = [p]) :
    s.queue.Frames p (s.step .processed).queue ∧ (s.step .processed).agenda = s.agenda ∧
      (s.step .processed).processing = [] := by
  rw [step, h]
  exact ⟨result_frames fun _ => EventQueue.frames_processed, result_agenda _, rfl⟩

theorem mem_cancel {p : Nat} {agenda : List Entry} {e : Entry} : e ∈ cancel p agenda ↔ e ∈ agenda ∧ e.event ≠ p := by
  simp [cancel]

/-- A call for `p` puts an entry on the agenda for the time it names, and takes only those of
`p` off. -/
theorem call_agenda {a : QueueAction} {p : Nat} (h : a.target = some p) :
    (∀ e ∈ (s.step a).agenda, e ∈ s.agenda ∨ a.time = some e.when) ∧
      ∀ e ∈ s.agenda, e.event ≠ p → e ∈ (s.step a).agenda := by
  cases a with
  | construct r priority => exact ⟨fun e he => .inl he, fun e he _ => he⟩
  | destroy r =>
    rw [step, result_agenda]
    exact ⟨fun e he => .inl he, fun e he _ => he⟩
  | setFlags r sq ad ex =>
    rw [step, result_agenda]
    exact ⟨fun e he => .inl he, fun e he _ => he⟩
  | schedule r t =>
    refine ⟨fun e he => ?_, fun e he _ => List.mem_cons_of_mem _ he⟩
    obtain rfl | he := List.mem_cons.1 he
    · exact .inr rfl
    · exact .inl he
  | deschedule r =>
    obtain rfl := Option.some.inj h
    exact ⟨fun e he => .inl (mem_cancel.1 he).1, fun e he hp => mem_cancel.2 ⟨he, hp⟩⟩
  | reschedule r t always =>
    obtain rfl := Option.some.inj h
    refine ⟨fun e he => ?_, fun e he hp => List.mem_cons_of_mem _ (mem_cancel.2 ⟨he, hp⟩)⟩
    obtain rfl | he := List.mem_cons.1 he
    · exact .inr rfl
    · exact .inl (mem_cancel.1 he).1
  | tick t => cases h
  | serviceOne => cases h
  | processed => cases h

end QueueRun

namespace SimRun

variable {s : SimRun}

/-- The limit `p` at the time `t`: it is to come, or it is being processed. -/
structure Limited (s : SimRun) (p : Nat) (t : Int) : Prop where
  before : s.curTick ≤ t
  live : p ∈ s.run.queue.live
  exits : (s.run.queue.events p).isExitEvent = true
  active : (s.run.queue.events p).squashed = false
  due : (∃ a ∈ s.run.agenda, a.event = p ∧ a.when = t) ∧ s.run.processing ≠ [p] ∨
    s.run.processing = [p] ∧ s.curTick = t

/-- What holds between any two steps of the simulation. -/
structure Timed (s : SimRun) : Prop where
  holds : s.run.queue.Holds s.run.agenda
  fault : s.run.fault = none
  ok : s.failed = false
  range : 0 ≤ s.curTick ∧ s.curTick ≤ lastTick
  ahead : ∀ a ∈ s.run.agenda, s.curTick ≤ a.when ∧ a.when ≤ lastTick
  single : s.run.processing.length ≤ 1
  idle : s.limit = none → s.run.processing = []
  limited : ∀ p t, s.limit = some (p, t) → Limited s p t
  chronological : s.served.Pairwise fun x y => x.2 ≤ y.2
  past : ∀ x ∈ s.served, x.2 ≤ s.curTick
  returned : ∀ r ∈ s.returned, r.InTime

theorem holds_initial : ({} : EventQueue).Holds [] where
  lists := ⟨by simp, [], ⟨rfl, ⟨by simp, List.Pairwise.nil⟩, List.nodup_nil, by simp⟩, rfl⟩
  flags p := iff_of_false Bool.false_ne_true (by simp [EventQueue.onAgenda])
  dead p _ := rfl

theorem timed_initial : Timed {} where
  holds := holds_initial
  fault := rfl
  ok := rfl
  range := by decide
  ahead := by simp
  single := by simp
  idle := fun _ => rfl
  limited := by simp
  chronological := List.Pairwise.nil
  past := by simp
  returned := by simp

/-- The core fields carry over. -/
theorem core_flags {e e' : Event} (h : e'.core = e.core) :
    e'.isExitEvent = e.isExitEvent ∧ e'.squashed = e.squashed := by
  have h₁ : e'.core.isExitEvent = e.core.isExitEvent := by rw [h]
  have h₂ : e'.core.squashed = e.core.squashed := by rw [h]
  exact ⟨h₁, h₂⟩

theorem Timed.call (h : Timed s) {a : QueueAction} (he : Enabled s (.call a)) : Timed (step s (.call a)) := by
  obtain ⟨hen, -, ⟨hp, hne⟩, htime⟩ := he
  obtain ⟨p, hp⟩ := Option.ne_none_iff_exists'.1 hp
  obtain ⟨hframes, hproc⟩ := QueueRun.call_frames (s := s.run) hp
  obtain ⟨hnew, hold⟩ := QueueRun.call_agenda (s := s.run) hp
  obtain ⟨hholds, hfault⟩ := QueueRun.step_holds h.holds h.fault hen
  have htick : (step s (.call a)).curTick = s.curTick := hframes.tick
  refine ⟨hholds, hfault, h.ok, htick ▸ h.range, fun e he => ?_, ?_, ?_, fun l t hl => ?_,
    h.chronological, fun x hx => htick ▸ h.past x hx, h.returned⟩
  · rw [htick]
    rcases hnew e he with he | ht
    · exact h.ahead e he
    · exact htime _ ht
  · exact hproc ▸ h.single
  · exact fun hl => hproc.trans (h.idle hl)
  · have hlim := h.limited l t hl
    have hlp : l ≠ p := (hne p hp (l, t) hl).symm
    obtain ⟨hexit, hsq⟩ := core_flags (hframes.others l hlp)
    refine ⟨htick ▸ hlim.before, (hframes.live l hlp).2 hlim.live, hexit.trans hlim.exits, hsq.trans hlim.active, ?_⟩
    rcases hlim.due with ⟨⟨e, he, rfl, ht⟩, hnp⟩ | ⟨hp', ht⟩
    · exact .inl ⟨⟨e, hold e he hlp, rfl, ht⟩, hproc.trans_ne hnp⟩
    · exact .inr ⟨hproc.trans hp', htick ▸ ht⟩

/-- What the loop takes next: the head is the first on the agenda, and its time is the
smallest. -/
theorem Timed.head (h : Timed s) {p : Nat} (hp : s.run.queue.head = some p) :
    ∃ a ∈ s.run.agenda, a.event = p ∧ a.when = (s.run.queue.events p).when ∧
      serve s.run.agenda = cancel p s.run.agenda ∧ ∀ b ∈ s.run.agenda, a.key ≤ b.key := by
  obtain ⟨a, hnext, rfl⟩ := h.holds.lists.head hp
  obtain ⟨newer, older, hsplit, hnewer, holder⟩ := Stacks.next_spec hnext
  have ha : a ∈ s.run.agenda := by simp [hsplit]
  have hkey := h.holds.lists.keys a ha
  have hwhen : (s.run.queue.events a.event).when = a.when := by
    have : (s.run.queue.key a.event) = a.key := hkey
    simpa [EventQueue.key, Event.key, Entry.key] using congrArg (fun k => (ofLex k).1) this
  refine ⟨a, ha, rfl, hwhen.symm, by rw [serve, hnext], fun b hb => ?_⟩
  rw [hsplit] at hb
  rcases List.mem_append.1 hb with hb | hb
  · exact (hnewer b hb).le
  · obtain rfl | hb := List.mem_cons.1 hb
    · exact le_rfl
    · exact holder b hb

/-- The time of the next event. -/
theorem when_le_of_key_le {a b : Entry} (h : a.key ≤ b.key) : a.when ≤ b.when := by
  rcases Prod.Lex.le_iff.1 h with h | h
  · exact le_of_lt h
  · exact le_of_eq h.1

/-- As long as there is something on the agenda, the queue is not empty. -/
theorem head_ne_none {q : EventQueue} {agenda : List Entry} (h : q.Holds agenda) (hne : agenda ≠ []) :
    q.head ≠ none := by
  intro hhead
  obtain ⟨bins, hspelled, hlisted⟩ := h.lists.bins
  cases bins with
  | cons b bs =>
    have := hspelled.links.1
    rw [hhead] at this
    cases this
  | nil =>
    obtain ⟨e, agenda', rfl⟩ := List.exists_cons_of_ne_nil hne
    have hmem : e.event ∈ (Stacks.sorted Entry.key (e :: agenda')).map Entry.event :=
      EventQueue.mem_listed.2 ⟨e, List.mem_cons_self, rfl⟩
    rw [← hlisted] at hmem
    cases hmem

/-- The entries of one event are at one time. -/
theorem Timed.when_eq (h : Timed s) {a b : Entry} (ha : a ∈ s.run.agenda) (hb : b ∈ s.run.agenda)
    (hab : a.event = b.event) : a.when = b.when := by
  have hkey : a.key = b.key := (h.holds.lists.keys a ha).symm.trans (hab ▸ h.holds.lists.keys b hb)
  exact congrArg (fun k => (ofLex k).1) hkey

theorem Timed.limit_due (h : Timed s) {l : Nat} {t : Int} (hl : s.limit = some (l, t))
    (hproc : s.run.processing = []) : ∃ a ∈ s.run.agenda, a.event = l ∧ a.when = t := by
  rcases (h.limited l t hl).due with ⟨hdue, -⟩ | ⟨hp, -⟩
  · exact hdue
  · rw [hproc] at hp
    cases hp

/-- `a` is the first on the agenda; its event is taken off and, unless squashed, it is
`running` then. -/
structure Turn (s : SimRun) (a : Entry) (q' : EventQueue) (running : Option Nat) : Prop where
  mem : a ∈ s.run.agenda
  least : ∀ b ∈ s.run.agenda, a.when ≤ b.when
  holds : q'.Holds (cancel a.event s.run.agenda)
  frames : ({ s.run.queue with curTick := a.when } : EventQueue).Frames a.event q'
  runs : (s.run.queue.events a.event).squashed = true ∧ running = none ∨
    (s.run.queue.events a.event).squashed = false ∧ running = some a.event ∧ a.event ∈ q'.live ∧
      (q'.events a.event).core = { (s.run.queue.events a.event).core with scheduled := false }

/-- One turn of the loop, up to the call of `process`. -/
theorem Timed.turn (h : Timed s) (he : Enabled s .iterate) : ∃ a q' running, Turn s a q' running ∧
    step s .iterate = { s with
      run := { s.run with queue := q', agenda := cancel a.event s.run.agenda, processing := running.toList }
      served := s.served ++ running.toList.map fun r => (r, a.when) } := by
  obtain ⟨hl, hproc⟩ := he
  obtain ⟨⟨l, t⟩, hl⟩ := Option.ne_none_iff_exists'.1 hl
  -- the limit is on the agenda, so there is a head
  obtain ⟨e, he, -⟩ := h.limit_due hl hproc
  obtain ⟨p, hp⟩ := Option.ne_none_iff_exists'.1 (head_ne_none h.holds (List.ne_nil_of_mem he))
  obtain ⟨a, ha, rfl, hwhen, hserve, hleast⟩ := h.head hp
  have hhead : (s.run.step (.tick a.when)).queue.head = some a.event := hp
  obtain ⟨hholds, -⟩ := QueueRun.step_holds h.holds h.fault (a := .tick a.when) trivial
  obtain ⟨q', running, hcall, hholds⟩ := hholds.serviceOne (Option.ne_none_iff_exists'.2 ⟨_, hhead⟩)
  obtain ⟨hframes, hruns⟩ := EventQueue.serviceOne_frames hhead hcall
  refine ⟨a, q', running, ⟨ha, fun b hb => when_le_of_key_le (hleast b hb), hserve ▸ hholds, hframes, hruns⟩, ?_⟩
  have hnext : decide (s.curTick ≤ a.when) = true := decide_eq_true (h.ahead a ha).1
  simp only [step, hp, ← hwhen, QueueRun.serviceOne_eq hcall, hnext, Bool.not_true, Bool.or_false]
  simp only [QueueRun.step, hproc, hserve, List.append_nil]

theorem Turn.running {a : Entry} {q' : EventQueue} {running : Option Nat} (h : Turn s a q' running) :
    running = none ∨ running = some a.event := by
  rcases h.runs with ⟨-, hr⟩ | ⟨-, hr, -⟩
  · exact .inl hr
  · exact .inr hr

/-- The limit is taken off at its time and runs, or stays. -/
theorem Turn.limited {a : Entry} {q' : EventQueue} {running : Option Nat} (hturn : Turn s a q' running) (h : Timed s)
    (hproc : s.run.processing = []) {l : Nat} {t : Int} (hl : s.limit = some (l, t)) {s' : SimRun}
    (hrun : s'.run = { s.run with queue := q', agenda := cancel a.event s.run.agenda, processing := running.toList }) :
    Limited s' l t := by
  have hlim := h.limited l t hl
  obtain ⟨e, he, rfl, rfl⟩ := h.limit_due hl hproc
  have htick : s'.curTick = a.when := by
    rw [curTick, hrun]
    exact hturn.frames.tick
  have hbefore : s'.curTick ≤ e.when := htick.trans_le (hturn.least e he)
  by_cases hae : a.event = e.event
  · -- the limit is the head, and it is not squashed
    have hruns := hturn.runs
    rw [hae, hlim.active] at hruns
    obtain ⟨-, hr, hlive, hcore⟩ := hruns.resolve_left fun hsq => Bool.false_ne_true hsq.1
    obtain ⟨hexits, hsq⟩ := core_flags (e := { s.run.queue.events e.event with scheduled := false }) hcore
    refine ⟨hbefore, ?_, ?_, ?_, .inr ⟨?_, htick.trans (h.when_eq hturn.mem he hae)⟩⟩ <;> rw [hrun]
    · exact hlive
    · exact hexits.trans hlim.exits
    · exact hsq.trans hlim.active
    · rw [hr]
      rfl
  · have hne : e.event ≠ a.event := Ne.symm hae
    obtain ⟨hexits, hsq⟩ := core_flags (hturn.frames.others e.event hne)
    refine ⟨hbefore, ?_, ?_, ?_, .inl ⟨⟨e, ?_, rfl, rfl⟩, ?_⟩⟩ <;> rw [hrun]
    · exact (hturn.frames.live e.event hne).2 hlim.live
    · exact hexits.trans hlim.exits
    · exact hsq.trans hlim.active
    · exact QueueRun.mem_cancel.2 ⟨he, hne⟩
    · rcases hturn.running with rfl | rfl <;> simp [hae]

theorem Timed.iterate (h : Timed s) (he : Enabled s .iterate) : Timed (step s .iterate) := by
  obtain ⟨a, q', running, hturn, heq⟩ := h.turn he
  obtain ⟨hnow, hlast⟩ := h.ahead a hturn.mem
  have htick : (step s .iterate).curTick = a.when := by
    rw [heq]
    exact hturn.frames.tick
  have hlimited : ∀ l t, s.limit = some (l, t) → Limited (step s .iterate) l t := fun l t hl =>
    hturn.limited h he.2 hl (by rw [heq])
  rw [heq] at htick hlimited ⊢
  refine ⟨hturn.holds, h.fault, h.ok, ?_, ?_, ?_, fun hnone => absurd hnone he.1, hlimited, ?_, ?_, h.returned⟩
  · rw [htick]
    exact ⟨h.range.1.trans hnow, hlast⟩
  · rw [htick]
    intro b hb
    have hb := (QueueRun.mem_cancel.1 hb).1
    exact ⟨hturn.least b hb, (h.ahead b hb).2⟩
  · rcases hturn.running with rfl | rfl <;> simp
  · refine List.pairwise_append.2 ⟨h.chronological, ?_, fun x hx y hy => ?_⟩
    · rcases hturn.running with rfl | rfl <;> simp
    · obtain ⟨r, -, rfl⟩ := List.mem_map.1 hy
      exact (h.past x hx).trans hnow
  · rw [htick]
    intro x hx
    rcases List.mem_append.1 hx with hx | hx
    · exact (h.past x hx).trans hnow
    · obtain ⟨r, -, rfl⟩ := List.mem_map.1 hx
      exact le_rfl

/-- Steps that do not move the time. -/
theorem Timed.still (h : Timed s) {s' : SimRun} (hholds : s'.run.queue.Holds s'.run.agenda)
    (hfault : s'.run.fault = none) (hok : s'.failed = false) (htick : s'.curTick = s.curTick)
    (hahead : ∀ a ∈ s'.run.agenda, s.curTick ≤ a.when ∧ a.when ≤ lastTick) (hidle : s'.run.processing = [])
    (hlimited : ∀ p t, s'.limit = some (p, t) → Limited s' p t) (hserved : s'.served = s.served)
    (hreturned : ∀ r ∈ s'.returned, r.InTime) : Timed s' where
  holds := hholds
  fault := hfault
  ok := hok
  range := htick ▸ h.range
  ahead := htick ▸ hahead
  single := by simp [hidle]
  idle _ := hidle
  limited := hlimited
  chronological := hserved ▸ h.chronological
  past := by
    rw [htick, hserved]
    exact h.past
  returned := hreturned

theorem squash_spec {r : QueueRun} {l : Nat} (h : r.queue.Holds r.agenda) (hfault : r.fault = none)
    (hl : l ∈ r.queue.live) :
    (squash l r).queue.Holds (squash l r).agenda ∧ (squash l r).fault = none ∧ (squash l r).agenda = r.agenda ∧
      (squash l r).processing = r.processing ∧ (squash l r).queue.curTick = r.queue.curTick := by
  obtain ⟨hholds, hfault⟩ := QueueRun.step_holds h hfault
    (a := .setFlags l true (r.queue.events l).autoDelete (r.queue.events l).isExitEvent) hl
  exact ⟨hholds, hfault, QueueRun.result_agenda _, QueueRun.result_processing _,
    (QueueRun.result_frames fun _ => EventQueue.frames_setFlags).tick⟩

theorem Timed.finish (h : Timed s) (he : Enabled s .finish) : Timed (step s .finish) := by
  obtain ⟨hne, hen⟩ := he
  obtain ⟨p, hproc⟩ := List.length_eq_one_iff.1 (le_antisymm h.single (List.length_pos_iff.2 hne))
  obtain ⟨hframes, hagenda, hdone⟩ := QueueRun.processed_frames hproc
  obtain ⟨hholds, hfault⟩ := QueueRun.step_holds h.holds h.fault hen
  have hahead : ∀ a ∈ (s.run.step .processed).agenda, s.curTick ≤ a.when ∧ a.when ≤ lastTick := hagenda ▸ h.ahead
  obtain ⟨⟨l, t⟩, hl⟩ : ∃ l, s.limit = some l := by
    rw [← Option.ne_none_iff_exists']
    exact fun hnone => hne (h.idle hnone)
  have hlim := h.limited l t hl
  by_cases hexit : (s.run.queue.events p).isExitEvent = true
  · by_cases hpl : p = l
    · -- the limit itself: its time has come
      subst hpl
      have ht : s.curTick = t := (hlim.due.resolve_left fun hdue => hdue.2 hproc).2
      have heq : step s .finish = { s with
          run := s.run.step .processed
          limit := none
          returned := s.returned ++ [⟨p, s.curTick, p, t⟩] } := by
        simp [step, hproc, hexit, hl]
      rw [heq]
      refine h.still hholds hfault h.ok hframes.tick hahead hdone (by simp) rfl ?_
      exact List.forall_mem_append.2 ⟨h.returned, by simp [Return.InTime, ht]⟩
    · have hlp : l ≠ p := Ne.symm hpl
      obtain ⟨⟨e, he, rfl, het⟩, -⟩ :=
        hlim.due.resolve_right fun hdue => hpl (List.cons.inj (hproc.symm.trans hdue.1)).1
      have hsched : ((s.run.step .processed).queue.events e.event).scheduled = true :=
        (hholds.flags e.event).2 ⟨e, hagenda ▸ he, rfl⟩
      have heq : step s .finish = { s with
          run := squash e.event (s.run.step .processed)
          limit := none
          returned := s.returned ++ [⟨p, s.curTick, e.event, t⟩] } := by
        simp [step, hproc, hexit, hl, hpl, hsched]
      obtain ⟨hholds', hfault', hagenda', hproc', htick'⟩ :=
        squash_spec hholds hfault ((hframes.live e.event hlp).2 hlim.live)
      rw [heq]
      refine h.still hholds' hfault' h.ok (htick'.trans hframes.tick) (hagenda' ▸ hahead) (hproc'.trans hdone)
        (by simp) rfl ?_
      exact List.forall_mem_append.2 ⟨h.returned, by simp [Return.InTime, hlim.before, hpl]⟩
  · have hpl : l ≠ p := by
      rintro rfl
      exact hexit hlim.exits
    have heq : step s .finish = { s with run := s.run.step .processed } := by
      simp only [step, hproc, hexit, Bool.false_eq_true, if_false]
    obtain ⟨⟨e, he, rfl, het⟩, -⟩ :=
      hlim.due.resolve_right fun hdue => hpl (List.cons.inj (hproc.symm.trans hdue.1)).1.symm
    obtain ⟨hexits, hsq⟩ := core_flags (hframes.others e.event hpl)
    rw [heq]
    refine h.still hholds hfault h.ok hframes.tick hahead hdone (fun l' t' hl' => ?_) rfl h.returned
    obtain ⟨rfl, rfl⟩ := Prod.mk.inj (Option.some.inj (hl.symm.trans hl'))
    refine ⟨hframes.tick.trans_le hlim.before, (hframes.live e.event hpl).2 hlim.live, hexits.trans hlim.exits,
      hsq.trans hlim.active, .inl ⟨⟨e, hagenda ▸ he, rfl, het⟩, ?_⟩⟩
    rw [hdone]
    exact (List.cons_ne_nil _ _).symm

theorem limitTick_spec (h : Timed s) {n : Int} (hn : 0 ≤ n ∧ n ≤ lastTick) :
    s.curTick ≤ s.limitTick n ∧ s.limitTick n ≤ lastTick := by
  obtain ⟨hlo, hhi⟩ := h.range
  obtain ⟨hn, hn'⟩ := hn
  unfold limitTick
  rw [Int.bmod_def]
  unfold lastTick at *
  constructor <;> split_ifs <;> omega

/-- The limit event, made and scheduled for the time `t`. -/
theorem limit_spec {r : QueueRun} {p : Nat} {t : Int} (h : r.queue.Holds r.agenda) (hfault : r.fault = none)
    (hp : p ∉ r.queue.live) (ht : EventQueue.utick r.queue.curTick ≤ EventQueue.utick t) :
    ∃ q', ((r.step (.construct p simExitPri)).step (.setFlags p false false true)).step (.schedule p t) =
        { r with queue := q', agenda := ⟨t, simExitPri, p⟩ :: r.agenda } ∧
      q'.Holds (⟨t, simExitPri, p⟩ :: r.agenda) ∧ q'.curTick = r.queue.curTick ∧ p ∈ q'.live ∧
      (q'.events p).isExitEvent = true ∧ (q'.events p).squashed = false := by
  have hlive : p ∈ (r.step (.construct p simExitPri)).queue.live := List.mem_cons_self
  obtain ⟨hholds₁, hfault₁⟩ := QueueRun.step_holds h hfault (a := .construct p simExitPri) hp
  obtain ⟨hholds₂, -⟩ := QueueRun.step_holds hholds₁ hfault₁ (a := .setFlags p false false true) hlive
  have hmade : ((r.step (.construct p simExitPri)).step (.setFlags p false false true)).queue.events p =
      { when := (r.queue.events p).when, priority := simExitPri, isExitEvent := true } := by
    rw [QueueRun.setFlags_eq hlive]
    simp [QueueRun.step, EventQueue.construct, EventQueue.set_events]
  have hmem : p ∈ ((r.step (.construct p simExitPri)).step (.setFlags p false false true)).queue.live := by
    rw [QueueRun.setFlags_eq hlive]
    exact hlive
  obtain ⟨q', hcall, hholds⟩ := hholds₂.schedule hmem (by rw [hmade]) (t := t) (by
    rw [QueueRun.setFlags_eq hlive]
    exact ht)
  obtain ⟨hlive', hcore⟩ := EventQueue.schedule_core hcall
  have htick := (EventQueue.frames_schedule hcall).tick
  rw [hmade] at hcore hholds
  refine ⟨q', ?_, ?_, ?_, hlive', ?_, ?_⟩
  · rw [QueueRun.schedule_eq hcall, hmade, QueueRun.setFlags_eq hlive]
    rfl
  · rw [QueueRun.setFlags_eq hlive] at hholds
    exact hholds
  · rw [htick, QueueRun.setFlags_eq hlive]
    rfl
  · show (q'.events p).core.isExitEvent = true
    rw [hcore]
    rfl
  · show (q'.events p).core.squashed = false
    rw [hcore]
    rfl

theorem Timed.simulate (h : Timed s) {p : Nat} {n : Int} (he : Enabled s (.simulate p n)) :
    Timed (step s (.simulate p n)) := by
  obtain ⟨hnone, hfresh, hn⟩ := he
  obtain ⟨hafter, hrange⟩ := limitTick_spec h hn
  have hidle := h.idle hnone
  obtain ⟨hlo, -⟩ := h.range
  have hutick : EventQueue.utick s.run.queue.curTick ≤ EventQueue.utick (s.limitTick n) := by
    change EventQueue.utick s.curTick ≤ _
    unfold EventQueue.utick
    unfold lastTick at hrange
    omega
  obtain ⟨q', heq, hholds, htick, hlive, hexits, hsq⟩ := limit_spec h.holds h.fault hfresh hutick
  rw [step, heq]
  refine h.still hholds h.fault h.ok htick ?_ hidle (fun l t hl => ?_) rfl h.returned
  · exact List.forall_mem_cons.2 ⟨⟨hafter, hrange⟩, h.ahead⟩
  · obtain ⟨rfl, rfl⟩ := Prod.mk.inj (Option.some.inj hl)
    refine ⟨htick.trans_le hafter, hlive, hexits, hsq, .inl ⟨⟨_, List.mem_cons_self, rfl, rfl⟩, ?_⟩⟩
    show s.run.processing ≠ [p]
    rw [hidle]
    exact (List.cons_ne_nil _ _).symm

theorem Timed.step (h : Timed s) : ∀ {a : SimAction}, Enabled s a → Timed (step s a)
  | .simulate _ _, he => h.simulate he
  | .iterate, he => h.iterate he
  | .call _, he => h.call he
  | .finish, he => h.finish he

/-- Along every run: no assertion of the loop or of the queue fails, nothing on the agenda is in
the past, events are processed in the order of their times, the time does not pass the limit, and
`simulate` returns in time. -/
theorem simulate_in_time (actions : List SimAction) (h : Runs.Guarded SimRun.step Enabled {} actions) :
    Runs.Along SimRun.step (fun s => s.run.fault = none ∧ s.failed = false ∧
      (∀ a ∈ s.run.agenda, s.curTick ≤ a.when) ∧ (s.served.Pairwise fun x y => x.2 ≤ y.2) ∧
      (∀ x ∈ s.served, x.2 ≤ s.curTick) ∧ (∀ p t, s.limit = some (p, t) → s.curTick ≤ t) ∧
      ∀ r ∈ s.returned, r.InTime) {} actions := by
  have htimed : Runs.Along SimRun.step Timed {} actions :=
    Runs.along_of_guarded (fun _ _ hs ha => hs.step ha) actions _ timed_initial h
  refine Runs.along_mono (fun s hs => ?_) actions _ htimed
  exact ⟨hs.fault, hs.ok, fun a ha => (hs.ahead a ha).1, hs.chronological, hs.past,
    fun p t hl => (hs.limited p t hl).before, hs.returned⟩

/-- An exit at tick 5 squashes the limit at tick 10, which the next call takes off the queue. -/
def exitThenLimit : List SimAction :=
  [.call (.construct 1 0), .call (.schedule 1 5), .simulate 2 10, .iterate, .call (.construct 3 simExitPri),
    .call (.setFlags 3 false false true), .call (.schedule 3 5), .finish, .iterate, .finish,
    .simulate 4 20, .iterate, .iterate, .finish]

theorem simulate_in_time_exit_then_limit :
    Runs.Guarded SimRun.step Enabled {} exitThenLimit ∧
      (Runs.exec SimRun.step {} exitThenLimit).served = [(1, 5), (3, 5), (4, 25)] ∧
      (Runs.exec SimRun.step {} exitThenLimit).returned = [⟨3, 5, 2, 10⟩, ⟨4, 25, 4, 25⟩] ∧
      Runs.Along SimRun.step (fun s => s.failed = false) {} exitThenLimit := by
  have hguarded : Runs.Guarded SimRun.step Enabled {} exitThenLimit := by decide
  refine ⟨hguarded, by decide, by decide, ?_⟩
  exact Runs.along_mono (fun s hs => hs.2.1) _ _ (simulate_in_time exitThenLimit hguarded)

/-! ## The end of the loop -/

/-- The action puts an event on the queue. -/
def schedules : SimAction → Bool
  | .simulate _ _ | .call (.schedule _ _) | .call (.reschedule _ _ _) => true
  | _ => false

/-- The action takes an event off the queue, as a turn of the loop. -/
def turns : SimAction → Bool
  | .iterate => true
  | _ => false

theorem finish_agenda (s : SimRun) : (step s .finish).run.agenda = s.run.agenda := by
  have hprocessed : (s.run.step .processed).agenda = s.run.agenda := by
    unfold QueueRun.step
    cases s.run.processing with
    | nil => rfl
    | cons p ps => exact QueueRun.result_agenda _
  unfold SimRun.step
  cases s.run.processing with
  | nil => rfl
  | cons p ps =>
    dsimp only
    split_ifs with hexit
    · cases s.limit with
      | none => exact hprocessed
      | some l =>
        dsimp only
        split_ifs
        · exact hprocessed
        · exact (QueueRun.result_agenda _).trans hprocessed
    · exact hprocessed

theorem call_length (r : QueueRun) {a : QueueAction} (ha : a.target ≠ none) :
    (r.step a).agenda.length ≤ r.agenda.length + (schedules (.call a)).toNat := by
  have hcancel : ∀ p, (cancel p r.agenda).length ≤ r.agenda.length := fun p => List.length_filter_le _ _
  cases a with
  | construct p priority => exact Nat.le_add_right _ _
  | destroy p =>
    rw [QueueRun.step, QueueRun.result_agenda]
    exact Nat.le_add_right _ _
  | setFlags p sq ad ex =>
    rw [QueueRun.step, QueueRun.result_agenda]
    exact Nat.le_add_right _ _
  | schedule p t => exact le_rfl
  | deschedule p => exact hcancel p
  | reschedule p t always => exact Nat.succ_le_succ (hcancel p)
  | tick t => exact absurd rfl ha
  | serviceOne => exact absurd rfl ha
  | processed => exact absurd rfl ha

/-- Each turn needs an event that was put on the queue. -/
theorem step_length (h : Timed s) {a : SimAction} (he : Enabled s a) :
    (step s a).run.agenda.length + (turns a).toNat ≤ s.run.agenda.length + (schedules a).toNat := by
  cases a with
  | simulate p n =>
    have hsame : ((s.run.step (.construct p simExitPri)).step (.setFlags p false false true)).agenda = s.run.agenda :=
      QueueRun.result_agenda _
    exact (congrArg (fun l => l.length + 1) hsame).le
  | iterate =>
    obtain ⟨a, q', running, hturn, heq⟩ := h.turn he
    rw [heq]
    exact List.length_filter_lt_length_iff_exists.2 ⟨a, hturn.mem, by simp⟩
  | call a => exact call_length s.run he.2.2.1.1
  | finish => exact (congrArg List.length (finish_agenda s)).le

theorem run_length (actions : List SimAction) (s : SimRun) (h : Timed s)
    (hg : Runs.Guarded SimRun.step Enabled s actions) :
    (Runs.exec SimRun.step s actions).run.agenda.length + actions.countP turns ≤
      s.run.agenda.length + actions.countP schedules := by
  induction actions generalizing s with
  | nil => simp
  | cons a actions ih =>
    have hstep := step_length h hg.1
    have hrest := ih _ (h.step hg.1) hg.2
    have hcount : ∀ b : Bool, (if b = true then 1 else 0) = b.toNat := fun b => by cases b <;> rfl
    rw [Runs.exec_cons, List.countP_cons, List.countP_cons, hcount, hcount]
    omega

/-- Once the loop has taken a turn for each event that was put on the queue, `simulate` has
returned: it can only go on for ever if events keep being scheduled. -/
theorem simulate_returns (actions : List SimAction) (h : Runs.Guarded SimRun.step Enabled {} actions)
    (hidle : (Runs.exec SimRun.step {} actions).run.processing = [])
    (hturns : actions.countP schedules ≤ actions.countP turns) : (Runs.exec SimRun.step {} actions).limit = none := by
  have htimed : Timed (Runs.exec SimRun.step {} actions) :=
    Runs.along_exec _ _ (Runs.along_of_guarded (fun _ _ hs ha => hs.step ha) actions _ timed_initial h)
  have hlength := run_length actions {} timed_initial h
  by_contra hl
  obtain ⟨⟨l, t⟩, hl⟩ := Option.ne_none_iff_exists'.1 hl
  obtain ⟨a, ha, -⟩ := htimed.limit_due hl hidle
  have hpos := List.length_pos_of_mem ha
  have hnil : ({} : SimRun).run.agenda.length = 0 := rfl
  omega

theorem simulate_returns_exit_then_limit :
    exitThenLimit.countP schedules = 4 ∧ exitThenLimit.countP turns = 4 ∧
      (Runs.exec SimRun.step {} exitThenLimit).limit = none :=
  ⟨by decide, by decide, simulate_returns exitThenLimit (by decide) (by decide) (by decide)⟩

end SimRun
end PrefetchSim
