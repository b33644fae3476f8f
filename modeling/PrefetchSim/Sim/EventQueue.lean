import Mathlib.Algebra.Group.Int.Defs
import Mathlib.Algebra.Group.Nat.Defs
import Mathlib.Data.Prod.Lex
import PrefetchSim.Lib.Runs
import PrefetchSim.Lib.Stacks

/- The event queue (`m5/src/sim/eventq.{hh,cc}`).

   Correspondence (C++ ↔ Lean):
     `Event`, its operators `<`, `<=`, `==`, `!=`  ↔ `Event`, `Event.lt`, `.le`, `.eq`, `.ne`
     `Event::insertBefore`, `EventQueue::insert`   ↔ `EventQueue.insertBefore`, `.insert`
     `Event::removeItem`, `EventQueue::remove`     ↔ `EventQueue.removeItem`, `.remove`
     `serviceOne`                                  ↔ `EventQueue.serviceOne`, `.processed`
     `schedule`, `deschedule`, `reschedule`        ↔ `EventQueue.schedule`, ...
     `Event::Event`, `~Event`                      ↔ `EventQueue.construct`, `.destroy`
     the `while` loops                             ↔ `EventQueue.findBin`, `.findInBin`

   A pointer is a number, and `events` is the memory; following a pointer to an event that
   does not exist is a fault, as are a failed assertion, a panic, and a loop that goes through
   more events than there are. `serviceOne` is cut in two where it calls `process`, as that
   calls the queue again. Ticks are integers, and only their comparison in `schedule` depends
   on their width.

   Next to the queue runs its purpose (`QueueRun.agenda`): what is scheduled, the newest first.
   Proved here, for every run that meets the assertions: there is no fault, the pointers spell
   bins that increase in time and priority, the bins hold the events on the agenda in the order
   of time, priority and age, and these are the events whose flag is set (`queue_in_order`). -/
namespace PrefetchSim

open Stacks

structure Event where
  nextBin : Option Nat := none
  nextInBin : Option Nat := none
  when : Int := 0
  priority : Int := 0
  scheduled : Bool := false
  squashed : Bool := false
  autoDelete : Bool := false
  isExitEvent : Bool := false
  deriving DecidableEq, Repr

namespace Event

def lt (l r : Event) : Bool := l.when < r.when || (l.when == r.when && l.priority < r.priority)

def le (l r : Event) : Bool := l.when < r.when || (l.when == r.when && l.priority ≤ r.priority)

def eq (l r : Event) : Bool := l.when == r.when && l.priority == r.priority

def ne (l r : Event) : Bool := l.when != r.when || l.priority != r.priority

end Event

/-- Why a call of the queue does not return. -/
inductive QueueFault where
  | assertion
  /-- "event not found!" -/
  | panic
  | dangling
  | endless
  deriving DecidableEq, Repr

structure EventQueue where
  head : Option Nat := none
  curTick : Int := 0
  events : Nat → Event := fun _ => {}
  /-- the events that exist -/
  live : List Nat := []

namespace EventQueue

def get (p : Nat) (q : EventQueue) : Except QueueFault Event :=
  if p ∈ q.live then .ok (q.events p) else .error .dangling

def set (p : Nat) (e : Event) (q : EventQueue) : EventQueue :=
  { q with events := Function.update q.events p e }

def assert (c : Bool) : Except QueueFault Unit := if c then .ok () else .error .assertion

/-! ### Insertion -/

/-- The event is written; what is returned is the event itself. -/
def insertBefore (event : Nat) (curr : Option Nat) (q : EventQueue) : Except QueueFault EventQueue := do
  let e ← q.get event
  match curr with
  | none => return q.set event { e with nextBin := none, nextInBin := none }
  | some c =>
    let top ← q.get c
    if e.lt top then
      return q.set event { e with nextBin := some c, nextInBin := none }
    else
      -- the pointer of the old top to the next bin can now become stale
      return q.set event { e with nextBin := top.nextBin, nextInBin := some c }

/-- The loop `while (curr && *curr < *event)`: `prev` and `curr` at its end. -/
def findBin (q : EventQueue) (e : Event) : Nat → Nat → Option Nat → Except QueueFault (Nat × Option Nat)
  | 0, _, _ => .error .endless
  | _ + 1, prev, none => .ok (prev, none)
  | fuel + 1, prev, some c => do
    let ce ← q.get c
    if ce.lt e then q.findBin e fuel c ce.nextBin else return (prev, some c)

def insert (event : Nat) (q : EventQueue) : Except QueueFault EventQueue :=
  match q.head with
  | none => do
    let q ← q.insertBefore event none
    return { q with head := some event }
  | some head => do
    let e ← q.get event
    let h ← q.get head
    if e.le h then
      let q ← q.insertBefore event (some head)
      return { q with head := some event }
    else
      let (prev, curr) ← q.findBin e q.live.length head h.nextBin
      let q ← q.insertBefore event curr
      let p ← q.get prev
      return q.set prev { p with nextBin := some event }

/-! ### Removal -/

/-- The loop `while (event != next)`: `curr` at its end. -/
def findInBin (q : EventQueue) (event : Nat) : Nat → Nat → Option Nat → Except QueueFault Nat
  | 0, _, _ => .error .endless
  | fuel + 1, curr, next =>
    if next = some event then .ok curr
    else match next with
      | none => .error .panic
      | some n => do
        let ne ← q.get n
        q.findInBin event fuel n ne.nextInBin

/-- The new top of the bin is returned. -/
def removeItem (event top : Nat) (q : EventQueue) : Except QueueFault (EventQueue × Option Nat) := do
  let t ← q.get top
  if event = top then
    match t.nextInBin with
    | none => return (q, t.nextBin)
    | some next =>
      let n ← q.get next
      return (q.set next { n with nextBin := t.nextBin }, some next)
  else
    let curr ← q.findInBin event q.live.length top t.nextInBin
    let c ← q.get curr
    let n ← q.get event
    return (q.set curr { c with nextInBin := n.nextInBin }, some top)

def remove (event : Nat) (q : EventQueue) : Except QueueFault EventQueue :=
  match q.head with
  | none => .error .panic
  | some head => do
    let h ← q.get head
    let e ← q.get event
    if h.eq e then
      let (q, top) ← q.removeItem event head
      return { q with head := top }
    else
      let (prev, curr) ← q.findBin e q.live.length head h.nextBin
      match curr with
      | none => .error .panic
      | some c =>
        let ce ← q.get c
        if ce.ne e then .error .panic
        else
          let (q, top) ← q.removeItem event c
          let p ← q.get prev
          return q.set prev { p with nextBin := top }

/-! ### The interface -/

/-- Memory for a new event; `_when` is not written. -/
def construct (p : Nat) (priority : Int) (q : EventQueue) : EventQueue :=
  { q.set p { when := (q.events p).when, priority } with live := p :: q.live }

/-- All flags are cleared. -/
def destroy (p : Nat) (q : EventQueue) : Except QueueFault EventQueue := do
  let e ← q.get p
  assert !e.scheduled
  return { q.set p { e with scheduled := false, squashed := false, autoDelete := false, isExitEvent := false } with
    live := q.live.erase p }

/-- The flags a subclass or an owner may write: `setFlags`, `clearFlags`, `squash`. -/
def setFlags (p : Nat) (squashed autoDelete isExitEvent : Bool) (q : EventQueue) : Except QueueFault EventQueue := do
  let e ← q.get p
  return q.set p { e with squashed, autoDelete, isExitEvent }

/-- The cast to `UTick`. -/
def utick (t : Int) : Int := t % 2 ^ 64

def schedule (event : Nat) (when : Int) (q : EventQueue) : Except QueueFault EventQueue := do
  assert (utick when ≥ utick q.curTick)
  let e ← q.get event
  assert !e.scheduled
  let q ← (q.set event { e with when }).insert event
  let e ← q.get event
  return q.set event { e with scheduled := true }

def deschedule (event : Nat) (q : EventQueue) : Except QueueFault EventQueue := do
  let e ← q.get event
  assert e.scheduled
  let q ← q.remove event
  let e ← q.get event
  let q := q.set event { e with squashed := false, scheduled := false }
  if e.autoDelete then q.destroy event else return q

def reschedule (event : Nat) (when : Int) (always : Bool) (q : EventQueue) : Except QueueFault EventQueue := do
  assert (when ≥ q.curTick)
  let e ← q.get event
  assert (always || e.scheduled)
  let q ← if e.scheduled then q.remove event else .ok q
  let e ← q.get event
  let q ← (q.set event { e with when }).insert event
  let e ← q.get event
  return q.set event { e with squashed := false, scheduled := true }

/-- The end of `serviceOne`. -/
def autoDelete (event : Nat) (q : EventQueue) : Except QueueFault EventQueue :=
  if (q.events event).autoDelete && !(q.events event).scheduled then q.destroy event else .ok q

/-- The event at the head is taken off. -/
def popHead (e : Event) (q : EventQueue) : Except QueueFault EventQueue :=
  match e.nextInBin with
  | some next => do
    let n ← q.get next
    -- update the next bin pointer since it could be stale
    return { q.set next { n with nextBin := e.nextBin } with head := some next }
  | none => .ok { q with head := e.nextBin }

/-- `serviceOne` up to the call of `process`, and the event it is called on; all of it if the
event is squashed. -/
def serviceOne (q : EventQueue) : Except QueueFault (EventQueue × Option Nat) :=
  match q.head with
  | none => .error .dangling
  | some event => do
    let e ← q.get event
    let q := q.set event { e with scheduled := false }
    let q ← q.popHead e
    if e.squashed then
      let e ← q.get event
      let q ← (q.set event { e with squashed := false }).autoDelete event
      return (q, none)
    else return (q, some event)

/-- `serviceOne` after `process`. What the memory of the event holds is read even if `process`
deleted it. -/
def processed (event : Nat) (q : EventQueue) : Except QueueFault EventQueue :=
  if (q.events event).isExitEvent then do
    assert !(q.events event).autoDelete
    return q
  else q.autoDelete event

end EventQueue

/-! ## Runs -/

/-- An event on the agenda. -/
structure Entry where
  when : Int
  priority : Int
  event : Nat
  deriving DecidableEq, Repr

/-- Time first, then priority. -/
def Entry.key (a : Entry) : Int ×ₗ Int := toLex (a.when, a.priority)

/-- The queue and what it is for. -/
structure QueueRun where
  queue : EventQueue := {}
  /-- what is scheduled, the newest first -/
  agenda : List Entry := []
  /-- the events whose `process` has not returned, the innermost first -/
  processing : List Nat := []
  fault : Option QueueFault := none

inductive QueueAction where
  | construct (p : Nat) (priority : Int)
  | destroy (p : Nat)
  | setFlags (p : Nat) (squashed autoDelete isExitEvent : Bool)
  /-- `curTick` is written -/
  | tick (t : Int)
  | schedule (p : Nat) (when : Int)
  | deschedule (p : Nat)
  | reschedule (p : Nat) (when : Int) (always : Bool)
  | serviceOne
  /-- `process` returns -/
  | processed
  deriving DecidableEq, Repr

def cancel (p : Nat) (agenda : List Entry) : List Entry := agenda.filter fun a => a.event ≠ p

/-- The agenda without what comes next on it: the newest of the entries that are first in time
and priority. -/
def serve (agenda : List Entry) : List Entry :=
  match next Entry.key agenda with
  | none => agenda
  | some a => cancel a.event agenda

namespace QueueRun

def result (r : Except QueueFault EventQueue) (s : QueueRun) : QueueRun :=
  match r with
  | .ok q => { s with queue := q }
  | .error f => { s with fault := some f }

def step (s : QueueRun) : QueueAction → QueueRun
  | .construct p priority => { s with queue := s.queue.construct p priority }
  | .destroy p => s.result (s.queue.destroy p)
  | .setFlags p sq ad ex => s.result (s.queue.setFlags p sq ad ex)
  | .tick t => { s with queue := { s.queue with curTick := t } }
  | .schedule p t =>
    { s.result (s.queue.schedule p t) with agenda := ⟨t, (s.queue.events p).priority, p⟩ :: s.agenda }
  | .deschedule p => { s.result (s.queue.deschedule p) with agenda := cancel p s.agenda }
  | .reschedule p t always =>
    { s.result (s.queue.reschedule p t always) with
      agenda := ⟨t, (s.queue.events p).priority, p⟩ :: cancel p s.agenda }
  | .serviceOne =>
    match s.queue.serviceOne with
    | .ok (q, event) =>
      { s with queue := q, agenda := serve s.agenda, processing := event.toList ++ s.processing }
    | .error f => { s with fault := some f }
  | .processed =>
    match s.processing with
    | [] => s
    | p :: ps => { s.result (s.queue.processed p) with processing := ps }

/-- The assertions of the queue, and that events are used while they exist. -/
def Enabled (s : QueueRun) : QueueAction → Prop
  | .construct p _ => p ∉ s.queue.live
  | .destroy p => p ∈ s.queue.live ∧ (s.queue.events p).scheduled = false
  | .setFlags p _ _ _ => p ∈ s.queue.live
  | .tick _ => True
  | .schedule p t => p ∈ s.queue.live ∧ (s.queue.events p).scheduled = false ∧
      EventQueue.utick s.queue.curTick ≤ EventQueue.utick t
  | .deschedule p => p ∈ s.queue.live ∧ (s.queue.events p).scheduled = true
  | .reschedule p t always => p ∈ s.queue.live ∧ s.queue.curTick ≤ t ∧
      (always = true ∨ (s.queue.events p).scheduled = true)
  | .serviceOne => s.queue.head ≠ none
  | .processed => ∀ p ∈ s.processing.head?, (s.queue.events p).isExitEvent = true →
      (s.queue.events p).autoDelete = false

instance (s : QueueRun) : DecidablePred (Enabled s) := by
  rintro ⟨⟩ <;> dsimp only [Enabled] <;> infer_instance

end QueueRun

/-! ## The pointers -/

def Event.key (e : Event) : Int ×ₗ Int := toLex (e.when, e.priority)

/-- All but the pointers. -/
def Event.core (e : Event) : Event := { e with nextBin := none, nextInBin := none }

namespace Event

variable {l r : Event}

theorem lt_iff : l.lt r = true ↔ l.key < r.key := by
  rw [key, key, Prod.Lex.toLex_lt_toLex]
  simp [lt]

theorem le_iff : l.le r = true ↔ l.key ≤ r.key := by
  rw [key, key, Prod.Lex.toLex_le_toLex]
  simp [le]

theorem eq_iff : l.eq r = true ↔ l.key = r.key := by
  simp [eq, key]

theorem ne_iff : l.ne r = true ↔ l.key ≠ r.key := by
  simp [ne, key, imp_iff_not_or]

theorem core_key (h : l.core = r.core) : l.key = r.key := by
  have hwhen : l.core.when = r.core.when := by rw [h]
  have hpriority : l.core.priority = r.core.priority := by rw [h]
  show toLex (l.core.when, l.core.priority) = toLex (r.core.when, r.core.priority)
  rw [hwhen, hpriority]

end Event

namespace EventQueue

variable {q q' : EventQueue} {event : Nat} {bins post : List (Bin Nat)}

def down (q : EventQueue) (p : Nat) : Option Nat := (q.events p).nextInBin

def right (q : EventQueue) (p : Nat) : Option Nat := (q.events p).nextBin

def key (q : EventQueue) (p : Nat) : Int ×ₗ Int := (q.events p).key

theorem get_of_mem {p : Nat} (h : p ∈ q.live) : q.get p = .ok (q.events p) := if_pos h

@[simp] theorem set_live (p : Nat) (e : Event) : (q.set p e).live = q.live := rfl

@[simp] theorem set_head (p : Nat) (e : Event) : (q.set p e).head = q.head := rfl

@[simp] theorem set_events (p : Nat) (e : Event) : (q.set p e).events = Function.update q.events p e := rfl

theorem set_events_of_ne {p r : Nat} {e : Event} (h : r ≠ p) : (q.set p e).events r = q.events r :=
  Function.update_of_ne h _ _

/-- Only pointers have changed. -/
structure Relinked (q q' : EventQueue) : Prop where
  live : q'.live = q.live
  core : ∀ p, (q'.events p).core = (q.events p).core

theorem Relinked.key (h : Relinked q q') : q'.key = q.key :=
  funext fun p => Event.core_key (h.core p)

theorem Relinked.refl (q : EventQueue) : Relinked q q := ⟨rfl, fun _ => rfl⟩

theorem Relinked.trans {q'' : EventQueue} (h : Relinked q q') (h' : Relinked q' q'') : Relinked q q'' :=
  ⟨h'.live.trans h.live, fun p => (h'.core p).trans (h.core p)⟩

theorem Relinked.set {p : Nat} {e : Event} (h : e.core = (q.events p).core) : Relinked q (q.set p e) := by
  refine ⟨rfl, fun r => ?_⟩
  by_cases hr : r = p
  · subst hr
    rw [set_events, Function.update_self, h]
  · rw [set_events_of_ne hr]

theorem set_down_of_ne {p r : Nat} {e : Event} (h : r ≠ p) : (q.set p e).down r = q.down r := by
  rw [down, set_events_of_ne h, down]

theorem set_right_of_ne {p r : Nat} {e : Event} (h : r ≠ p) : (q.set p e).right r = q.right r := by
  rw [right, set_events_of_ne h, right]

theorem set_down_self {p : Nat} {e : Event} : (q.set p e).down p = e.nextInBin := by
  rw [down, set_events, Function.update_self]

theorem set_right_self {p : Nat} {e : Event} : (q.set p e).right p = e.nextBin := by
  rw [right, set_events, Function.update_self]

/-- A write to the link of `p` to the next bin. -/
theorem set_down_same {p : Nat} {e : Event} (h : e.nextInBin = q.down p) : (q.set p e).down = q.down := by
  funext r
  by_cases hr : r = p
  · subst hr
    rw [set_down_self, h]
  · exact set_down_of_ne hr

/-- A write to the link of `p` in its bin. -/
theorem set_right_same {p : Nat} {e : Event} (h : e.nextBin = q.right p) : (q.set p e).right = q.right := by
  funext r
  by_cases hr : r = p
  · subst hr
    rw [set_right_self, h]
  · exact set_right_of_ne hr

/-! ### The parts of an insertion -/

/-- The bins that follow a pointer, when a node outside is written. -/
theorem spells_set {p : Nat} {e : Event} {link : Option Nat} (h : Spells q.down q.right link post)
    (hp : p ∉ contents post) : Spells (q.set p e).down (q.set p e).right link post := by
  apply h.congr
  · intro y hy
    exact set_down_of_ne fun hyp => hp (hyp ▸ hy)
  · intro b hb
    exact set_right_of_ne fun hbp => hp (hbp ▸ top_mem_contents hb)

theorem insertBefore_spec {curr : Option Nat} (hevent : event ∈ q.live)
    (hspells : Spells q.down q.right curr post) (hlive : ∀ p ∈ contents post, p ∈ q.live)
    (hnew : event ∉ contents post) (hge : ∀ b ∈ post.head?, ¬ q.key b.top < q.key event) :
    ∃ e, q.insertBefore event curr = .ok (q.set event e) ∧ e.core = (q.events event).core ∧
      Spells (q.set event e).down (q.set event e).right (some event) (push q.key event post) := by
  unfold insertBefore
  rw [get_of_mem hevent]
  cases post with
  | nil =>
    obtain rfl : curr = none := hspells
    refine ⟨_, rfl, rfl, rfl, ?_, ?_⟩
    · exact set_down_self
    · exact set_right_self
  | cons b bs =>
    obtain ⟨rfl, hstack, hrest⟩ := hspells
    have hb := hge b rfl
    have hold : ∀ e, Spells (q.set event e).down (q.set event e).right (some b.top) (b :: bs) :=
      fun e => spells_set ⟨rfl, hstack, hrest⟩ hnew
    simp only [get_of_mem (hlive b.top (top_mem_contents List.mem_cons_self))]
    rw [push, if_neg hb]
    by_cases hlt : q.key event < q.key b.top
    · have hcmp : (q.events event).lt (q.events b.top) = true := Event.lt_iff.2 hlt
      rw [if_pos hlt]
      refine ⟨_, if_pos hcmp, rfl, rfl, set_down_self, ?_⟩
      rw [set_right_self]
      exact hold _
    · have hcmp : ¬ (q.events event).lt (q.events b.top) = true := fun h => hlt (Event.lt_iff.1 h)
      have hne : b.top ≠ event := fun h => hnew (h ▸ top_mem_contents List.mem_cons_self)
      rw [if_neg hlt]
      refine ⟨_, if_neg hcmp, rfl, rfl, ?_, ?_⟩
      · rw [set_down_self]
        exact ⟨rfl, (hold _).2.1⟩
      · have hnext := (hold { q.events event with nextBin := q.right b.top, nextInBin := some b.top }).2.2
        rw [set_right_of_ne hne] at hnext
        rw [set_right_self]
        exact hnext

/-- The loop stops behind the bins that come before the event. -/
theorem findBin_spec {fuel : Nat} {b : Bin Nat} (hspells : Spells q.down q.right (q.right b.top) post)
    (hlive : ∀ p ∈ contents post, p ∈ q.live) (hb : q.key b.top < q.key event) (hfuel : post.length < fuel) :
    ∃ pre c rest, b :: post = pre ++ c :: rest ∧
      q.findBin (q.events event) fuel b.top (q.right b.top) = .ok (c.top, q.right c.top) ∧
      Spells q.down q.right (q.right c.top) rest ∧ (∀ d ∈ pre ++ [c], q.key d.top < q.key event) ∧
      ∀ d ∈ rest.head?, ¬ q.key d.top < q.key event := by
  induction post generalizing b fuel with
  | nil =>
    obtain ⟨fuel, rfl⟩ : ∃ n, fuel = n + 1 := ⟨fuel - 1, by omega⟩
    have hnone : q.right b.top = none := hspells
    refine ⟨[], b, [], rfl, ?_, hspells, by simpa using hb, by simp⟩
    rw [hnone, findBin]
  | cons c cs ih =>
    obtain ⟨fuel, rfl⟩ : ∃ n, fuel = n + 1 := ⟨fuel - 1, by omega⟩
    obtain ⟨hsome, hstack, hrest⟩ := hspells
    have hget := get_of_mem (hlive c.top (top_mem_contents List.mem_cons_self))
    have hround : q.findBin (q.events event) (fuel + 1) b.top (q.right b.top) =
        if (q.events c.top).lt (q.events event) then q.findBin (q.events event) fuel c.top (q.right c.top)
        else .ok (b.top, q.right b.top) := by
      rw [hsome, findBin, hget]
      rfl
    by_cases hc : q.key c.top < q.key event
    · obtain ⟨pre, d, rest, hsplit, hfind, hspells', hpre, hhead⟩ := ih hrest
        (fun p hp => hlive p (List.mem_append_right _ hp)) hc (Nat.lt_of_succ_lt_succ hfuel)
      refine ⟨b :: pre, d, rest, by rw [hsplit, List.cons_append], ?_, hspells', ?_, hhead⟩
      · rw [hround, if_pos (Event.lt_iff.2 hc), hfind]
      · exact List.forall_mem_cons.2 ⟨hb, hpre⟩
    · refine ⟨[], b, c :: cs, rfl, ?_, ⟨hsome, hstack, hrest⟩, by simpa using hb, ?_⟩
      · rw [hround, if_neg fun h => hc (Event.lt_iff.1 h)]
      · intro d hd
        obtain rfl : c = d := Option.some.inj hd
        exact hc

/-- The pointers spell these bins. -/
structure Spelled (q : EventQueue) (bins : List (Bin Nat)) : Prop where
  links : Spells q.down q.right q.head bins
  ordered : Ordered q.key bins
  nodup : (contents bins).Nodup
  live : ∀ p ∈ contents bins, p ∈ q.live

/-- The loops visit each event at most once. -/
theorem Spelled.length_le (h : q.Spelled bins) : (contents bins).length ≤ q.live.length :=
  (List.subperm_of_subset h.nodup h.live).length_le

/-- Where the bins are cut, behind `c`. -/
theorem Spelled.cut {pre rest : List (Bin Nat)} {c : Bin Nat} (h : q.Spelled (pre ++ c :: rest)) :
    (contents (pre ++ [c]) ++ contents rest).Nodup ∧ (∀ p ∈ contents rest, p ∈ q.live) ∧
      c.top ∈ q.live ∧ Ordered q.key rest := by
  have hcontents : contents (pre ++ c :: rest) = contents (pre ++ [c]) ++ contents rest := by
    rw [List.append_cons, contents_append]
  refine ⟨hcontents ▸ h.nodup, fun p hp => ?_, h.live _ (top_mem_contents (by simp)), h.ordered.append_right.tail⟩
  apply h.live
  rw [hcontents]
  exact List.mem_append_right _ hp

/-- The first loop of an insertion and of a removal. -/
theorem Spelled.find {b : Bin Nat} (h : q.Spelled (b :: bins)) (hlt : q.key b.top < q.key event) :
    ∃ pre c rest, b :: bins = pre ++ c :: rest ∧
      q.findBin (q.events event) q.live.length b.top (q.events b.top).nextBin = .ok (c.top, q.right c.top) ∧
      Spells q.down q.right (q.right c.top) rest ∧ (∀ d ∈ pre ++ [c], q.key d.top < q.key event) ∧
      ∀ d ∈ rest.head?, ¬ q.key d.top < q.key event := by
  have hfuel : bins.length < q.live.length := by
    have h₁ := h.length_le
    have h₂ := length_le_contents (b :: bins)
    rw [List.length_cons] at h₂
    omega
  exact findBin_spec h.links.2.2 (fun p hp => h.live p (List.mem_append_right _ hp)) hlt hfuel

/-- The last write of an insertion and of a removal: the link behind the bin `c`. Before it, the
bins behind `c` have been changed. -/
theorem Spelled.relink {pre rest rest' : List (Bin Nat)} {c : Bin Nat} {top : Option Nat}
    (h : q.Spelled (pre ++ c :: rest)) (hrelinked : Relinked q q') (hhead : q'.head = q.head)
    (hq' : ∀ p ∈ contents (pre ++ [c]), q'.events p = q.events p)
    (hrest : Spells q'.down q'.right top rest') (hnot : c.top ∉ contents rest') :
    ∃ e, q'.get c.top = .ok e ∧ Relinked q (q'.set c.top { e with nextBin := top }) ∧
      Spells (q'.set c.top { e with nextBin := top }).down (q'.set c.top { e with nextBin := top }).right
        (q'.set c.top { e with nextBin := top }).head (pre ++ c :: rest') := by
  obtain ⟨hnodup, -, hlive, -⟩ := h.cut
  rw [contents_append] at hnodup
  have hpre := (List.nodup_append.1 (List.nodup_append.1 hnodup).1).2.2
  refine ⟨_, get_of_mem (hrelinked.live ▸ hlive), hrelinked.trans (Relinked.set rfl), ?_⟩
  rw [set_head, hhead]
  apply h.links.splice
  · intro y hy
    have hdown := @set_down_same q' c.top { q'.events c.top with nextBin := top } rfl
    rw [hdown, down, down, hq' y hy]
  · intro d hd
    have hne : d.top ≠ c.top := hpre _ (top_mem_contents hd) _ (top_mem_contents (List.mem_singleton_self c))
    rw [set_right_of_ne hne, right, right, hq' d.top (top_mem_contents (List.mem_append_left _ hd))]
  · rw [set_right_self]
    exact spells_set hrest hnot

/-- What is left to show of an insertion. -/
theorem Spelled.push (h : q.Spelled bins) (hevent : event ∈ q.live) (hnew : event ∉ contents bins)
    (hrelinked : Relinked q q') (hlinks : Spells q'.down q'.right q'.head (push q.key event bins)) :
    q'.Spelled (push q.key event bins) := by
  have hperm : (contents (Stacks.push q.key event bins)).Perm (event :: contents bins) := by
    rw [contents_push h.ordered]
    exact List.perm_orderedInsert _ _ _
  refine ⟨hlinks, ?_, hperm.nodup_iff.2 (List.nodup_cons.2 ⟨hnew, h.nodup⟩), fun p hp => ?_⟩
  · rw [hrelinked.key]
    exact h.ordered.push
  · rw [hrelinked.live]
    rcases List.mem_cons.1 (hperm.mem_iff.1 hp) with rfl | hp
    · exact hevent
    · exact h.live p hp

/-- An insertion before the head. -/
theorem insert_front (h : q.Spelled bins) (hevent : event ∈ q.live) (hnew : event ∉ contents bins)
    (hge : ∀ b ∈ bins.head?, ¬ q.key b.top < q.key event) :
    ∃ q', q.insert event = .ok q' ∧ Relinked q q' ∧ q'.Spelled (push q.key event bins) := by
  obtain ⟨e, hbefore, hcore, hlinks⟩ := insertBefore_spec hevent h.links h.live hnew hge
  have hrelinked : Relinked q { q.set event e with head := some event } := ⟨rfl, (Relinked.set hcore).core⟩
  refine ⟨_, ?_, hrelinked, h.push hevent hnew hrelinked hlinks⟩
  unfold insert
  cases bins with
  | nil =>
    have hhead : q.head = none := h.links
    rw [hhead] at hbefore ⊢
    dsimp only
    rw [hbefore]
    rfl
  | cons b bs =>
    have hhead := h.links.1
    have hle : (q.events event).le (q.events b.top) = true := Event.le_iff.2 (le_of_not_gt (hge b rfl))
    rw [hhead] at hbefore ⊢
    dsimp only
    rw [get_of_mem hevent, get_of_mem (h.live b.top (top_mem_contents List.mem_cons_self))]
    simp only [bind, Except.bind, if_pos hle, hbefore]
    rfl

theorem insert_spec (h : q.Spelled bins) (hevent : event ∈ q.live) (hnew : event ∉ contents bins) :
    ∃ q', q.insert event = .ok q' ∧ Relinked q q' ∧ q'.Spelled (push q.key event bins) := by
  by_cases hge : ∀ b ∈ bins.head?, ¬ q.key b.top < q.key event
  · exact insert_front h hevent hnew hge
  cases bins with
  | nil => simp at hge
  | cons b bs =>
    have hlt : q.key b.top < q.key event := by simpa using hge
    obtain ⟨pre, c, rest, hsplit, hfind, hspells, hpre, hge⟩ := h.find hlt
    have hhead := h.links.1
    have hgetb := get_of_mem (h.live b.top (top_mem_contents List.mem_cons_self))
    rw [hsplit] at h hnew ⊢
    obtain ⟨hnodup, hlive, hclive, hordered⟩ := h.cut
    have hctop : c.top ∈ contents (pre ++ [c]) := top_mem_contents (by simp)
    have hnew' := hnew
    rw [List.append_cons, contents_append, List.mem_append, not_or] at hnew'
    obtain ⟨e, hbefore, hcore, hlinks⟩ := insertBefore_spec hevent hspells hlive hnew'.2 hge
    have hnot : c.top ∉ contents (push q.key event rest) := by
      rw [contents_push hordered, List.mem_orderedInsert]
      intro hmem
      rcases hmem with heq | hmem
      · exact hnew'.1 (heq ▸ hctop)
      · exact (List.nodup_append.1 hnodup).2.2 _ hctop _ hmem rfl
    obtain ⟨p, hgetc, hrelinked, hlinks'⟩ := h.relink (Relinked.set hcore) rfl
      (fun p hp => set_events_of_ne fun heq => hnew'.1 (heq ▸ hp)) hlinks hnot
    have hpush : push q.key event (pre ++ c :: rest) = pre ++ c :: push q.key event rest := by
      rw [List.append_cons, push_append hpre, ← List.append_cons]
    refine ⟨_, ?_, hrelinked, h.push hevent hnew hrelinked (hpush ▸ hlinks')⟩
    have hnle : ¬ (q.events event).le (q.events b.top) = true := fun hle => not_le_of_gt hlt (Event.le_iff.1 hle)
    unfold insert
    rw [hhead]
    dsimp only
    rw [get_of_mem hevent, hgetb]
    simp only [bind, Except.bind, if_neg hnle, hfind, hbefore, hgetc]
    rfl

/-! ### The parts of a removal -/

theorem findInBin_spec {fuel curr : Nat} {link : Option Nat} {xs ys : List Nat}
    (hstack : InStack q.down link (xs ++ event :: ys)) (hlive : ∀ p ∈ xs, p ∈ q.live) (hnot : event ∉ xs)
    (hfuel : xs.length < fuel) :
    q.findInBin event fuel curr link = .ok ((curr :: xs).getLast (List.cons_ne_nil _ _)) := by
  induction xs generalizing curr link fuel with
  | nil =>
    obtain ⟨fuel, rfl⟩ : ∃ n, fuel = n + 1 := ⟨fuel - 1, by omega⟩
    rw [findInBin.eq_def, List.getLast_singleton]
    exact if_pos hstack.1
  | cons x xs ih =>
    obtain ⟨fuel, rfl⟩ : ∃ n, fuel = n + 1 := ⟨fuel - 1, by omega⟩
    obtain ⟨hx, hxs⟩ := List.forall_mem_cons.1 hlive
    rw [List.mem_cons, not_or] at hnot
    obtain ⟨rfl, hstack⟩ := hstack
    rw [findInBin.eq_def, List.getLast_cons (List.cons_ne_nil _ _)]
    dsimp only
    rw [if_neg fun h => hnot.1 (Option.some.inj h).symm, get_of_mem hx]
    exact ih hstack hxs hnot.2 (Nat.lt_of_succ_lt_succ hfuel)

theorem removeItem_spec {b : Bin Nat} (hspells : Spells q.down q.right (some b.top) (b :: post))
    (hnodup : (contents (b :: post)).Nodup) (hlive : ∀ p ∈ b.toList, p ∈ q.live) (hevent : event ∈ b.toList) :
    ∃ q' top, q.removeItem event b.top = .ok (q', top) ∧ Relinked q q' ∧ q'.head = q.head ∧
      (∀ p ∉ b.toList, q'.events p = q.events p) ∧ Spells q'.down q'.right top (b.drop event ++ post) := by
  obtain ⟨-, hstack, hrest⟩ := hspells
  rw [contents_cons, List.nodup_append] at hnodup
  obtain ⟨hbin, -, hdisjoint⟩ := hnodup
  have hpost : ∀ p ∈ b.toList, p ∉ contents post := fun p hp hmem => hdisjoint p hp p hmem rfl
  unfold removeItem Bin.drop
  rw [get_of_mem (hlive b.top List.mem_cons_self)]
  simp only [bind, Except.bind]
  by_cases htop : event = b.top
  · rw [if_pos htop, if_pos htop]
    cases hb : b.rest with
    | nil =>
      rw [hb] at hstack
      have hnone : (q.events b.top).nextInBin = none := hstack
      rw [hnone]
      exact ⟨q, _, rfl, Relinked.refl q, rfl, fun _ _ => rfl, hrest⟩
    | cons y ys =>
      rw [hb] at hstack
      have hsome : (q.events b.top).nextInBin = some y := hstack.1
      have hy : y ∈ b.toList := by simp [Bin.toList, hb]
      have hyne : y ∉ ys := by
        rw [Bin.toList, hb] at hbin
        exact (List.nodup_cons.1 (List.nodup_cons.1 hbin).2).1
      rw [hsome]
      dsimp only
      rw [get_of_mem (hlive y hy)]
      refine ⟨_, _, rfl, Relinked.set rfl, rfl, fun p hp => set_events_of_ne fun h => hp (h ▸ hy), rfl, ?_, ?_⟩
      · rw [set_down_self]
        exact hstack.2.congr fun z hz => set_down_of_ne fun h => hyne (h ▸ hz)
      · rw [set_right_self]
        exact spells_set hrest (hpost y hy)
  · rw [if_neg htop, if_neg htop]
    have hmem : event ∈ b.rest := (List.mem_cons.1 hevent).resolve_left htop
    obtain ⟨xs, ys, hsplit⟩ := List.append_of_mem hmem
    rw [Bin.toList, hsplit] at hbin
    rw [hsplit] at hstack
    have hrest' : (xs ++ event :: ys).Nodup := (List.nodup_cons.1 hbin).2
    have hxs : event ∉ xs := by
      intro hx
      exact (List.nodup_append.1 hrest').2.2 event hx event List.mem_cons_self rfl
    have hxlive : ∀ p ∈ xs, p ∈ q.live := fun p hp => hlive p (by simp [Bin.toList, hsplit, hp])
    have hfuel : xs.length < q.live.length := by
      have hsub := (List.subperm_of_subset hbin (by rwa [← hsplit])).length_le
      simp only [List.length_cons, List.length_append] at hsub
      omega
    -- the node above the event
    let curr := (b.top :: xs).getLast (List.cons_ne_nil _ _)
    have hcurr : curr ∈ b.toList := by
      have hmem : curr ∈ b.top :: xs := List.getLast_mem _
      rw [Bin.toList, hsplit, ← List.cons_append]
      exact List.mem_append_left _ hmem
    have hfind : q.findInBin event q.live.length b.top (q.events b.top).nextInBin = .ok curr :=
      findInBin_spec hstack hxlive hxs hfuel
    rw [hfind]
    dsimp only
    rw [get_of_mem (hlive curr hcurr), get_of_mem (hlive event hevent)]
    have herase : b.rest.erase event = xs ++ ys := by
      rw [hsplit, List.erase_append_right _ hxs, List.erase_cons_head]
    refine ⟨_, _, rfl, Relinked.set rfl, rfl, fun p hp => set_events_of_ne fun h => hp (h ▸ hcurr), rfl, ?_, ?_⟩
    · have hdown : (q.set curr { q.events curr with nextInBin := (q.events event).nextInBin }).down =
          Function.update q.down curr (q.down event) := by
        funext p
        by_cases hp : p = curr
        · rw [hp, set_down_self, Function.update_self, down]
        · rw [set_down_of_ne hp, Function.update_of_ne hp]
      rw [herase]
      have hunlink := hstack.unlink hbin
      dsimp only at hunlink ⊢
      rw [hdown]
      exact hunlink
    · have hright := @set_right_same q curr { q.events curr with nextInBin := (q.events event).nextInBin } rfl
      have hlinks := @spells_set q post curr { q.events curr with nextInBin := (q.events event).nextInBin } _ hrest
        (hpost curr hcurr)
      rw [hright] at hlinks ⊢
      exact hlinks

/-- What is left to show of a removal. -/
theorem Spelled.pull (h : q.Spelled bins) (hevent : event ∈ contents bins) (hrelinked : Relinked q q')
    (hlinks : Spells q'.down q'.right q'.head (pull q.key event bins)) : q'.Spelled (pull q.key event bins) := by
  have hcontents := contents_pull h.ordered hevent
  refine ⟨hlinks, ?_, hcontents ▸ h.nodup.erase event, fun p hp => ?_⟩
  · rw [hrelinked.key]
    exact h.ordered.pull
  · rw [hrelinked.live]
    exact h.live p (List.mem_of_mem_erase (hcontents ▸ hp))

/-- The event is in the first bin. -/
theorem removeItem_front {b : Bin Nat} (h : q.Spelled (b :: bins)) (hevent : event ∈ b.toList) :
    ∃ q' top, q.removeItem event b.top = .ok (q', top) ∧ Relinked q { q' with head := top } ∧
      ({ q' with head := top } : EventQueue).Spelled (pull q.key event (b :: bins)) := by
  have hlinks : Spells q.down q.right (some b.top) (b :: bins) := ⟨rfl, h.links.2⟩
  obtain ⟨q', top, hremove, hrelinked, -, -, hspells⟩ := removeItem_spec hlinks h.nodup
    (fun p hp => h.live p (List.mem_append_left _ hp)) hevent
  have hrelinked' : Relinked q { q' with head := top } := ⟨hrelinked.live, hrelinked.core⟩
  have hge : ¬ q.key b.top < q.key event := by
    rw [h.ordered.key_of_mem List.mem_cons_self hevent]
    exact lt_irrefl _
  refine ⟨q', top, hremove, hrelinked', h.pull (List.mem_append_left _ hevent) hrelinked' ?_⟩
  rw [Stacks.pull, if_neg hge]
  exact hspells

theorem remove_spec (h : q.Spelled bins) (hevent : event ∈ contents bins) :
    ∃ q', q.remove event = .ok q' ∧ Relinked q q' ∧ q'.Spelled (pull q.key event bins) := by
  cases bins with
  | nil => cases hevent
  | cons b bs =>
    have hhead := h.links.1
    have hget : ∀ p ∈ contents (b :: bs), q.get p = .ok (q.events p) := fun p hp => get_of_mem (h.live p hp)
    have hgetb := hget b.top (top_mem_contents List.mem_cons_self)
    have hgete := hget event hevent
    unfold remove
    rw [hhead]
    dsimp only
    rw [hgetb, hgete]
    simp only [bind, Except.bind]
    by_cases hlt : q.key b.top < q.key event
    · have hne : ¬ (q.events b.top).eq (q.events event) = true := fun heq => ne_of_lt hlt (Event.eq_iff.1 heq)
      obtain ⟨pre, c, rest, hsplit, hfind, hspells, hpre, hge⟩ := h.find hlt
      rw [if_neg hne, hfind]
      dsimp only
      rw [hsplit] at h hevent hget ⊢
      obtain ⟨hnodup, hlive, hclive, hordered⟩ := h.cut
      obtain ⟨-, hnodup', hdisjoint⟩ := List.nodup_append.1 hnodup
      have hctop : c.top ∈ contents (pre ++ [c]) := top_mem_contents (by simp)
      -- the bins passed have smaller keys, so the event is in the bin behind them
      have hrest : event ∈ contents rest := by
        rw [List.append_cons, contents_append] at hevent
        refine (List.mem_append.1 hevent).resolve_left fun hmem => ?_
        obtain ⟨d, hd, hmem⟩ := mem_contents.1 hmem
        have hd' : d ∈ pre ++ c :: rest := by
          rw [List.append_cons]
          exact List.mem_append_left _ hd
        exact ne_of_lt (hpre d hd) (h.ordered.key_of_mem hd' hmem).symm
      cases rest with
      | nil => cases hrest
      | cons d ds =>
        have hd := hordered.mem_bin hrest (hge d rfl)
        have hsome := hspells.1
        have heq : ¬ (q.events d.top).ne (q.events event) = true := by
          rw [Event.ne_iff, not_not]
          exact (hordered.key_of_mem List.mem_cons_self hd).symm
        rw [hsome] at hspells ⊢
        obtain ⟨q', top, hremove, hrelinked, hhead', hframe, hlinks⟩ := removeItem_spec hspells hnodup'
          (fun p hp => hlive p (List.mem_append_left _ hp)) hd
        have hsub : contents (d.drop event ++ ds) ⊆ contents (d :: ds) := by
          rw [contents_append, contents_drop, contents_cons]
          exact List.append_subset.2 ⟨fun p hp => List.mem_append_left _ (List.mem_of_mem_erase hp),
            List.subset_append_right _ _⟩
        obtain ⟨p, hgetc, hrelinked', hlinks'⟩ := h.relink hrelinked hhead'
          (fun p hp => hframe p fun hpd => hdisjoint p hp p (List.mem_append_left _ hpd) rfl) hlinks
          (fun hmem => hdisjoint _ hctop _ (hsub hmem) rfl)
        have hpull : pull q.key event (pre ++ c :: d :: ds) = pre ++ c :: (d.drop event ++ ds) := by
          rw [List.append_cons, pull_append hpre, Stacks.pull, if_neg (hge d rfl), ← List.append_cons]
        refine ⟨_, ?_, hrelinked', h.pull hevent hrelinked' (hpull ▸ hlinks')⟩
        dsimp only
        rw [get_of_mem (hlive d.top (top_mem_contents List.mem_cons_self))]
        simp only [if_neg heq, hremove, hgetc]
        rfl
    · have hb := h.ordered.mem_bin hevent hlt
      have heq : (q.events b.top).eq (q.events event) = true :=
        Event.eq_iff.2 (h.ordered.key_of_mem List.mem_cons_self hb).symm
      obtain ⟨q', top, hremove, hrelinked, hspelled⟩ := removeItem_front h hb
      refine ⟨_, ?_, hrelinked, hspelled⟩
      rw [if_pos heq, hremove]
      rfl

/-! ## The calls -/

/-- The queue holds what is on the agenda, in order. -/
structure Lists (q : EventQueue) (agenda : List Entry) : Prop where
  keys : ∀ a ∈ agenda, q.key a.event = a.key
  bins : ∃ bins, q.Spelled bins ∧ contents bins = (sorted Entry.key agenda).map Entry.event

variable {agenda : List Entry}

/-- The events on the agenda. -/
def onAgenda (agenda : List Entry) (p : Nat) : Prop := ∃ a ∈ agenda, a.event = p

theorem mem_listed {p : Nat} : p ∈ (sorted Entry.key agenda).map Entry.event ↔ onAgenda agenda p := by
  rw [List.mem_map]
  simp only [sorted, List.mem_insertionSort, onAgenda]

theorem onAgenda_cancel {p r : Nat} : onAgenda (cancel p agenda) r ↔ onAgenda agenda r ∧ r ≠ p := by
  constructor
  · rintro ⟨a, ha, rfl⟩
    obtain ⟨ha, hne⟩ := List.mem_filter.1 ha
    exact ⟨⟨a, ha, rfl⟩, by simpa using hne⟩
  · rintro ⟨⟨a, ha, rfl⟩, hne⟩
    exact ⟨a, List.mem_filter.2 ⟨ha, by simpa using hne⟩, rfl⟩

theorem onAgenda_cons {a : Entry} {r : Nat} : onAgenda (a :: agenda) r ↔ r = a.event ∨ onAgenda agenda r := by
  simp [onAgenda, eq_comm]

/-- Only the links and keys of the events on the agenda matter. -/
theorem Lists.congr (h : q.Lists agenda) (hhead : q'.head = q.head) (hlive : ∀ p, onAgenda agenda p → p ∈ q'.live)
    (hsame : ∀ p, onAgenda agenda p → q'.down p = q.down p ∧ q'.right p = q.right p ∧ q'.key p = q.key p) :
    q'.Lists agenda := by
  obtain ⟨bins, hspelled, hlisted⟩ := h.bins
  have hmem : ∀ p ∈ contents bins, onAgenda agenda p := fun p hp => mem_listed.1 (hlisted ▸ hp)
  refine ⟨fun a ha => ?_, bins, ⟨?_, ?_, hspelled.nodup, fun p hp => hlive p (hmem p hp)⟩, hlisted⟩
  · rw [(hsame a.event ⟨a, ha, rfl⟩).2.2]
    exact h.keys a ha
  · rw [hhead]
    apply hspelled.links.congr
    · exact fun p hp => (hsame p (hmem p hp)).1
    · exact fun b hb => (hsame b.top (hmem b.top (top_mem_contents hb))).2.1
  · exact hspelled.ordered.congr fun p hp => (hsame p (hmem p hp)).2.2

theorem Lists.live (h : q.Lists agenda) {p : Nat} (hp : onAgenda agenda p) : p ∈ q.live := by
  obtain ⟨bins, hspelled, hlisted⟩ := h.bins
  exact hspelled.live p (hlisted ▸ mem_listed.2 hp)

/-- A write that leaves links and key as they are, or is to an event that is not scheduled. -/
theorem Lists.set (h : q.Lists agenda) {p : Nat} {e : Event}
    (hp : ¬ onAgenda agenda p ∨ e.nextInBin = q.down p ∧ e.nextBin = q.right p ∧ e.key = q.key p) :
    (q.set p e).Lists agenda := by
  refine h.congr rfl (fun r hr => h.live hr) fun r hr => ?_
  by_cases hrp : r = p
  · subst hrp
    obtain ⟨hdown, hright, hkey⟩ := hp.resolve_left (not_not.2 hr)
    rw [set_down_self, set_right_self, key, set_events, Function.update_self]
    exact ⟨hdown, hright, hkey⟩
  · rw [set_down_of_ne hrp, set_right_of_ne hrp, key, set_events_of_ne hrp]
    exact ⟨rfl, rfl, rfl⟩

/-- The steps that `schedule` and `reschedule` share. -/
theorem Lists.insert (h : q.Lists agenda) (hevent : event ∈ q.live) (hnew : ¬ onAgenda agenda event) (t : Int) :
    ∃ q', (q.set event { q.events event with when := t }).insert event = .ok q' ∧
      Relinked (q.set event { q.events event with when := t }) q' ∧
      q'.Lists (⟨t, (q.events event).priority, event⟩ :: agenda) := by
  have hset : (q.set event { q.events event with when := t }).Lists agenda := h.set (.inl hnew)
  obtain ⟨bins, hspelled, hlisted⟩ := hset.bins
  have hnot : event ∉ contents bins := fun hmem => hnew (mem_listed.1 (hlisted ▸ hmem))
  obtain ⟨q', hinsert, hrelinked, hspelled'⟩ := insert_spec hspelled hevent hnot
  have hkey : (q.set event { q.events event with when := t }).key event =
      (⟨t, (q.events event).priority, event⟩ : Entry).key := by
    rw [key, set_events, Function.update_self]
    rfl
  refine ⟨q', hinsert, hrelinked, ?_, _, hspelled', ?_⟩
  · rw [hrelinked.key]
    exact List.forall_mem_cons.2 ⟨hkey, hset.keys⟩
  · have hmap := @List.map_orderedInsert _ _ (fun a b : Entry => a.key ≤ b.key)
      (fun a b => (q.set event { q.events event with when := t }).key a ≤
        (q.set event { q.events event with when := t }).key b) _ _ Entry.event (sorted Entry.key agenda)
      ⟨t, (q.events event).priority, event⟩
    have hsorted : ∀ a ∈ sorted Entry.key agenda, (q.set event { q.events event with when := t }).key a.event = a.key :=
      fun a ha => hset.keys a ((List.mem_insertionSort _).1 ha)
    rw [contents_push hspelled.ordered, hlisted]
    refine (hmap (fun a ha => ?_) fun a ha => ?_).symm
    · rw [hkey, hsorted a ha]
    · rw [hkey, hsorted a ha]

/-- The bins without an event are the agenda without it. -/
theorem Lists.pull (h : q.Lists agenda) (hspelled : q.Spelled bins)
    (hlisted : contents bins = (sorted Entry.key agenda).map Entry.event) (hevent : event ∈ contents bins)
    (hrelinked : Relinked q q') (hspelled' : q'.Spelled (pull q.key event bins)) :
    q'.Lists (cancel event agenda) := by
  refine ⟨fun a ha => ?_, _, hspelled', ?_⟩
  · rw [hrelinked.key]
    exact h.keys a (List.mem_filter.1 ha).1
  · calc
      contents (Stacks.pull q.key event bins) = (contents bins).filter fun p => p ≠ event := by
        rw [contents_pull hspelled.ordered hevent, hspelled.nodup.erase_eq_filter]
        simp only [ne_eq, decide_not, bne, beq_eq_decide]
      _ = ((sorted Entry.key agenda).filter fun a => a.event ≠ event).map Entry.event := by
        rw [hlisted, List.filter_map]
        rfl
      _ = _ := by rw [← filter_sorted, cancel]

theorem Lists.remove (h : q.Lists agenda) (hevent : onAgenda agenda event) :
    ∃ q', q.remove event = .ok q' ∧ Relinked q q' ∧ q'.Lists (cancel event agenda) := by
  obtain ⟨bins, hspelled, hlisted⟩ := h.bins
  have hmem : event ∈ contents bins := hlisted ▸ mem_listed.2 hevent
  obtain ⟨q', hremove, hrelinked, hspelled'⟩ := remove_spec hspelled hmem
  exact ⟨q', hremove, hrelinked, h.pull hspelled hlisted hmem hrelinked hspelled'⟩

/-- `serviceOne` does what a removal of the head does. -/
theorem popHead_eq {e : Event} (hevent : event ∈ q.live) (hdown : e.nextInBin = q.down event)
    (hright : e.nextBin = q.right event) : q.popHead e = (do
      let (q', top) ← q.removeItem event event
      return { q' with head := top }) := by
  unfold popHead removeItem
  rw [get_of_mem hevent, hdown, hright, down, right]
  simp only [bind, Except.bind, if_true]
  cases (q.events event).nextInBin with
  | none => rfl
  | some next =>
    cases hget : q.get next with
    | error f => simp only [hget]
    | ok n =>
      simp only [hget]
      rfl

/-- The head is what comes next on the agenda. -/
theorem Lists.head (h : q.Lists agenda) {p : Nat} (hhead : q.head = some p) :
    ∃ a, next Entry.key agenda = some a ∧ a.event = p := by
  obtain ⟨bins, hspelled, hlisted⟩ := h.bins
  cases bins with
  | nil =>
    have hnone : q.head = none := hspelled.links
    rw [hnone] at hhead
    cases hhead
  | cons b bs =>
    have hsome : q.head = some b.top := hspelled.links.1
    rw [hsome] at hhead
    obtain rfl := Option.some.inj hhead
    rw [next_eq_head]
    cases hsorted : sorted Entry.key agenda with
    | nil =>
      rw [hsorted] at hlisted
      cases hlisted
    | cons a as =>
      rw [hsorted] at hlisted
      exact ⟨a, rfl, (List.cons.inj hlisted).1.symm⟩

theorem Lists.popHead (h : q.Lists agenda) (hhead : q.head = some event) {e : Event}
    (hdown : e.nextInBin = q.down event) (hright : e.nextBin = q.right event) :
    ∃ q', q.popHead e = .ok q' ∧ Relinked q q' ∧ q'.Lists (serve agenda) := by
  obtain ⟨a, hnext, ha⟩ := h.head hhead
  have hserve : serve agenda = cancel event agenda := by rw [serve, hnext, ← ha]
  obtain ⟨bins, hspelled, hlisted⟩ := h.bins
  cases bins with
  | nil =>
    have hnone : q.head = none := hspelled.links
    rw [hnone] at hhead
    cases hhead
  | cons b bs =>
    have hsome : q.head = some b.top := hspelled.links.1
    rw [hsome] at hhead
    obtain rfl := Option.some.inj hhead
    have hmem : b.top ∈ contents (b :: bs) := top_mem_contents List.mem_cons_self
    have htop : b.top ∈ b.toList := List.mem_cons_self
    obtain ⟨q', top, hremove, hrelinked, hspelled'⟩ := removeItem_front hspelled htop
    refine ⟨_, ?_, hrelinked, hserve ▸ h.pull hspelled hlisted hmem hrelinked hspelled'⟩
    rw [popHead_eq (hspelled.live b.top hmem) hdown hright, hremove]
    rfl

/-- The queue holds what is on the agenda, the flags say so, and deleted events have no flags. -/
structure Holds (q : EventQueue) (agenda : List Entry) : Prop where
  lists : q.Lists agenda
  flags : ∀ p, (q.events p).scheduled = true ↔ onAgenda agenda p
  dead : ∀ p ∉ q.live, (q.events p).autoDelete = false

theorem Relinked.scheduled (h : Relinked q q') (p : Nat) : (q'.events p).scheduled = (q.events p).scheduled :=
  show (q'.events p).core.scheduled = (q.events p).core.scheduled by rw [h.core p]

theorem Relinked.autoDelete (h : Relinked q q') (p : Nat) : (q'.events p).autoDelete = (q.events p).autoDelete :=
  show (q'.events p).core.autoDelete = (q.events p).core.autoDelete by rw [h.core p]

/-- An event is written that exists; the flag is as the agenda says. -/
theorem Lists.holds (h : q.Lists agenda) {p : Nat} {e : Event} (hp : p ∈ q.live)
    (hflag : e.scheduled = true ↔ onAgenda agenda p)
    (hflags : ∀ r ≠ p, (q.events r).scheduled = true ↔ onAgenda agenda r)
    (hdead : ∀ r ∉ q.live, (q.events r).autoDelete = false)
    (hlinks : ¬ onAgenda agenda p ∨ e.nextInBin = q.down p ∧ e.nextBin = q.right p ∧ e.key = q.key p) :
    (q.set p e).Holds agenda := by
  refine ⟨h.set hlinks, fun r => ?_, fun r hr => ?_⟩
  · by_cases hrp : r = p
    · rw [hrp, set_events, Function.update_self]
      exact hflag
    · rw [set_events_of_ne hrp]
      exact hflags r hrp
  · have hrp : r ≠ p := fun heq => hr (heq ▸ hp)
    rw [set_events_of_ne hrp]
    exact hdead r hr

/-- An event that is not scheduled is created, deleted or written. -/
theorem Holds.outside (h : q.Holds agenda) {p : Nat} (hp : ¬ onAgenda agenda p) (hhead : q'.head = q.head)
    (hevents : ∀ r ≠ p, q'.events r = q.events r) (hlive : ∀ r ≠ p, r ∈ q'.live ↔ r ∈ q.live)
    (hflag : (q'.events p).scheduled = false) (hdead : p ∉ q'.live → (q'.events p).autoDelete = false) :
    q'.Holds agenda := by
  have hne : ∀ {r}, onAgenda agenda r → r ≠ p := fun hr heq => hp (heq ▸ hr)
  refine ⟨h.lists.congr hhead (fun r hr => (hlive r (hne hr)).2 (h.lists.live hr)) fun r hr => ?_, fun r => ?_,
    fun r hr => ?_⟩
  · rw [down, right, key, hevents r (hne hr)]
    exact ⟨rfl, rfl, rfl⟩
  · by_cases hrp : r = p
    · simp [hrp, hflag, hp]
    · rw [hevents r hrp]
      exact h.flags r
  · by_cases hrp : r = p
    · rw [hrp]
      exact hdead (hrp ▸ hr)
    · rw [hevents r hrp]
      exact h.dead r fun hmem => hr ((hlive r hrp).2 hmem)

theorem Holds.construct (h : q.Holds agenda) {p : Nat} (hp : p ∉ q.live) (priority : Int) :
    (q.construct p priority).Holds agenda := by
  have hself : (q.construct p priority).events p = { when := (q.events p).when, priority } :=
    Function.update_self ..
  refine h.outside (fun hon => hp (h.lists.live hon)) rfl ?_ ?_ ?_ ?_
  · exact fun r hr => set_events_of_ne hr
  · exact fun r hr => List.mem_cons.trans (or_iff_right hr)
  · rw [hself]
  · intro _
    rw [hself]

theorem Holds.not_onAgenda (h : q.Holds agenda) {p : Nat} (hflag : (q.events p).scheduled = false) :
    ¬ onAgenda agenda p := by
  rw [← h.flags p, hflag]
  exact Bool.false_ne_true

theorem Holds.destroy (h : q.Holds agenda) {p : Nat} (hp : p ∈ q.live) (hflag : (q.events p).scheduled = false) :
    ∃ q', q.destroy p = .ok q' ∧ q'.Holds agenda := by
  have hdestroy : q.destroy p = .ok { q.set p { q.events p with
      scheduled := false, squashed := false, autoDelete := false, isExitEvent := false } with
      live := q.live.erase p } := by
    unfold EventQueue.destroy
    rw [get_of_mem hp]
    simp only [bind, Except.bind, hflag, assert]
    rfl
  refine ⟨_, hdestroy, ?_⟩
  have hself : ∀ e, (q.set p e).events p = e := fun e => Function.update_self ..
  refine h.outside (h.not_onAgenda hflag) rfl ?_ ?_ ?_ ?_
  · exact fun r hr => set_events_of_ne hr
  · exact fun r hr => List.mem_erase_of_ne hr
  · dsimp only
    rw [hself]
  · intro _
    dsimp only
    rw [hself]

theorem Holds.autoDelete (h : q.Holds agenda) (p : Nat) : ∃ q', q.autoDelete p = .ok q' ∧ q'.Holds agenda := by
  unfold EventQueue.autoDelete
  cases hdelete : (q.events p).autoDelete && !(q.events p).scheduled with
  | false => exact ⟨q, rfl, h⟩
  | true =>
    obtain ⟨hauto, hflag⟩ := Bool.and_eq_true_iff.1 hdelete
    have hp : p ∈ q.live := by
      by_contra hp
      rw [h.dead p hp] at hauto
      cases hauto
    exact h.destroy hp (by simpa using hflag)

theorem Holds.setFlags (h : q.Holds agenda) {p : Nat} (hp : p ∈ q.live) (sq ad ex : Bool) :
    ∃ q', q.setFlags p sq ad ex = .ok q' ∧ q'.Holds agenda := by
  have hset : q.setFlags p sq ad ex =
      .ok (q.set p { q.events p with squashed := sq, autoDelete := ad, isExitEvent := ex }) := by
    unfold EventQueue.setFlags
    rw [get_of_mem hp]
    rfl
  exact ⟨_, hset, h.lists.holds hp (h.flags p) (fun r _ => h.flags r) h.dead (.inr ⟨rfl, rfl, rfl⟩)⟩

/-- The event is put on the queue and its flag is set. -/
theorem Lists.enqueued (h : q.Lists agenda) (hevent : event ∈ q.live) (hnew : ¬ onAgenda agenda event)
    (hflags : ∀ r ≠ event, (q.events r).scheduled = true ↔ onAgenda agenda r)
    (hdead : ∀ r ∉ q.live, (q.events r).autoDelete = false) (t : Int) :
    ∃ q' e, (q.set event { q.events event with when := t }).insert event = .ok q' ∧ q'.get event = .ok e ∧
      ∀ sq, (q'.set event { e with squashed := sq, scheduled := true }).Holds
        (⟨t, (q.events event).priority, event⟩ :: agenda) := by
  obtain ⟨q', hinsert, hrelinked, hlists⟩ := h.insert hevent hnew t
  have hlive : event ∈ q'.live := hrelinked.live ▸ hevent
  refine ⟨q', _, hinsert, get_of_mem hlive, fun sq => ?_⟩
  apply hlists.holds hlive
  · exact iff_of_true rfl (onAgenda_cons.2 (.inl rfl))
  · intro r hr
    rw [hrelinked.scheduled, set_events_of_ne hr, hflags r hr, onAgenda_cons]
    exact (or_iff_right hr).symm
  · intro r hr
    have hr' : r ∉ q.live := fun hmem => hr (hrelinked.live ▸ hmem)
    have hne : r ≠ event := fun heq => hr' (heq ▸ hevent)
    rw [hrelinked.autoDelete, set_events_of_ne hne]
    exact hdead r hr'
  · exact .inr ⟨rfl, rfl, rfl⟩

theorem Holds.schedule (h : q.Holds agenda) (hevent : event ∈ q.live) (hflag : (q.events event).scheduled = false)
    {t : Int} (ht : utick q.curTick ≤ utick t) :
    ∃ q', q.schedule event t = .ok q' ∧ q'.Holds (⟨t, (q.events event).priority, event⟩ :: agenda) := by
  obtain ⟨q', e, hinsert, hget, hholds⟩ :=
    h.lists.enqueued hevent (h.not_onAgenda hflag) (fun r _ => h.flags r) h.dead t
  refine ⟨_, ?_, hholds e.squashed⟩
  have hassert : (!(q.events event).scheduled) = true := by rw [hflag, Bool.not_false]
  unfold EventQueue.schedule
  rw [get_of_mem hevent]
  simp only [bind, Except.bind, assert, hassert, ge_iff_le, ht, decide_true, if_true, hinsert, hget]
  rfl

/-- The event is taken off the queue, its flag being still set. -/
theorem Holds.dequeued (h : q.Holds agenda) (hflag : (q.events event).scheduled = true) :
    ∃ q', q.remove event = .ok q' ∧ Relinked q q' ∧ event ∈ q'.live ∧ q'.Lists (cancel event agenda) ∧
      ¬ onAgenda (cancel event agenda) event ∧
      (∀ r ≠ event, (q'.events r).scheduled = true ↔ onAgenda (cancel event agenda) r) ∧
      ∀ r ∉ q'.live, (q'.events r).autoDelete = false := by
  have hon := (h.flags event).1 hflag
  obtain ⟨q', hremove, hrelinked, hlists⟩ := h.lists.remove hon
  refine ⟨q', hremove, hrelinked, hrelinked.live ▸ h.lists.live hon, hlists, fun hon => (onAgenda_cancel.1 hon).2 rfl,
    fun r hr => ?_, fun r hr => ?_⟩
  · rw [hrelinked.scheduled, h.flags r, onAgenda_cancel]
    exact (and_iff_left hr).symm
  · rw [hrelinked.autoDelete]
    exact h.dead r (hrelinked.live ▸ hr)

theorem Holds.deschedule (h : q.Holds agenda) (hevent : event ∈ q.live) (hflag : (q.events event).scheduled = true) :
    ∃ q', q.deschedule event = .ok q' ∧ q'.Holds (cancel event agenda) := by
  obtain ⟨q₁, hremove, -, hlive, hlists, hoff, hflags, hdead⟩ := h.dequeued hflag
  have hholds : (q₁.set event { q₁.events event with squashed := false, scheduled := false }).Holds
      (cancel event agenda) :=
    hlists.holds hlive (iff_of_false Bool.false_ne_true hoff) hflags hdead (.inl hoff)
  have hcall : q.deschedule event = if (q₁.events event).autoDelete then
      (q₁.set event { q₁.events event with squashed := false, scheduled := false }).destroy event
      else .ok (q₁.set event { q₁.events event with squashed := false, scheduled := false }) := by
    unfold EventQueue.deschedule
    rw [get_of_mem hevent]
    simp only [bind, Except.bind, assert, hflag, if_true, hremove, get_of_mem hlive]
    rfl
  rw [hcall]
  split
  · refine hholds.destroy hlive ?_
    rw [set_events, Function.update_self]
  · exact ⟨_, rfl, hholds⟩

theorem Holds.reschedule (h : q.Holds agenda) (hevent : event ∈ q.live) {t : Int} (ht : q.curTick ≤ t) {always : Bool}
    (halways : always = true ∨ (q.events event).scheduled = true) :
    ∃ q', q.reschedule event t always = .ok q' ∧
      q'.Holds (⟨t, (q.events event).priority, event⟩ :: cancel event agenda) := by
  have hassert : (always || (q.events event).scheduled) = true := by simpa using halways
  -- the event is off the queue, in one way or the other
  obtain ⟨q₁, hremove, hpriority, hlive, hlists, hoff, hflags, hdead⟩ : ∃ q₁,
      (if (q.events event).scheduled then q.remove event else .ok q) = .ok q₁ ∧
      (q₁.events event).priority = (q.events event).priority ∧ event ∈ q₁.live ∧
      q₁.Lists (cancel event agenda) ∧ ¬ onAgenda (cancel event agenda) event ∧
      (∀ r ≠ event, (q₁.events r).scheduled = true ↔ onAgenda (cancel event agenda) r) ∧
      ∀ r ∉ q₁.live, (q₁.events r).autoDelete = false := by
    cases hflag : (q.events event).scheduled with
    | true =>
      obtain ⟨q₁, hremove, hrelinked, hrest⟩ := h.dequeued hflag
      have hpriority : (q₁.events event).core.priority = (q.events event).core.priority := by rw [hrelinked.core]
      exact ⟨q₁, hremove, hpriority, hrest⟩
    | false =>
      have hoff := h.not_onAgenda hflag
      have hcancel : cancel event agenda = agenda := by
        apply List.filter_eq_self.2
        intro a ha
        simpa using fun heq => hoff ⟨a, ha, heq⟩
      rw [hcancel]
      exact ⟨q, rfl, rfl, hevent, h.lists, hoff, fun r _ => h.flags r, h.dead⟩
  obtain ⟨q', e, hinsert, hget, hholds⟩ := hlists.enqueued hlive hoff hflags hdead t
  refine ⟨_, ?_, hpriority ▸ hholds false⟩
  unfold EventQueue.reschedule
  rw [get_of_mem hevent]
  simp only [bind, Except.bind, assert, ge_iff_le, ht, decide_true, hassert, if_true]
  by_cases hflag : (q.events event).scheduled = true
  · rw [if_pos hflag] at hremove ⊢
    simp only [hremove, get_of_mem hlive, hinsert, hget]
    rfl
  · rw [if_neg hflag] at hremove ⊢
    obtain rfl := Except.ok.inj hremove
    simp only [get_of_mem hlive, hinsert, hget]
    rfl

theorem Holds.serviceOne (h : q.Holds agenda) (hhead : q.head ≠ none) :
    ∃ q' running, q.serviceOne = .ok (q', running) ∧ q'.Holds (serve agenda) := by
  obtain ⟨event, hhead⟩ := Option.ne_none_iff_exists'.1 hhead
  obtain ⟨a, hnext, ha⟩ := h.lists.head hhead
  have hserve : serve agenda = cancel event agenda := by rw [serve, hnext, ← ha]
  have hmem : a ∈ agenda := by
    obtain ⟨l₁, l₂, hsplit, -⟩ := next_spec hnext
    simp [hsplit]
  have hevent : event ∈ q.live := h.lists.live ⟨a, hmem, ha⟩
  have hset : (q.set event { q.events event with scheduled := false }).Lists agenda :=
    h.lists.set (.inr ⟨rfl, rfl, rfl⟩)
  have hdown := @set_down_same q event { q.events event with scheduled := false } rfl
  have hright := @set_right_same q event { q.events event with scheduled := false } rfl
  obtain ⟨q₁, hpop, hrelinked, hlists⟩ := @Lists.popHead _ event agenda hset hhead (q.events event)
    (by rw [hdown]; rfl) (by rw [hright]; rfl)
  have hholds : q₁.Holds (serve agenda) := by
    refine ⟨hlists, fun r => ?_, fun r hr => ?_⟩
    · rw [hrelinked.scheduled, hserve, onAgenda_cancel]
      by_cases hr : r = event
      · rw [hr, set_events, Function.update_self]
        simp
      · rw [set_events_of_ne hr, h.flags r]
        exact (and_iff_left hr).symm
    · have hr' : r ∉ q.live := fun hmem => hr (hrelinked.live ▸ hmem)
      have hne : r ≠ event := fun heq => hr' (heq ▸ hevent)
      rw [hrelinked.autoDelete, set_events_of_ne hne]
      exact h.dead r hr'
  have hlive : event ∈ q₁.live := hrelinked.live ▸ hevent
  unfold EventQueue.serviceOne
  rw [hhead]
  dsimp only
  rw [get_of_mem hevent]
  simp only [bind, Except.bind, hpop]
  cases (q.events event).squashed with
  | false => exact ⟨q₁, some event, rfl, hholds⟩
  | true =>
    have hclear : (q₁.set event { q₁.events event with squashed := false }).Holds (serve agenda) :=
      hlists.holds hlive (hholds.flags event) (fun r _ => hholds.flags r) hholds.dead (.inr ⟨rfl, rfl, rfl⟩)
    obtain ⟨q₂, hdelete, hholds₂⟩ := hclear.autoDelete event
    refine ⟨q₂, none, ?_, hholds₂⟩
    rw [if_pos rfl, get_of_mem hlive]
    simp only [hdelete]
    rfl

theorem Holds.processed (h : q.Holds agenda) {p : Nat}
    (hp : (q.events p).isExitEvent = true → (q.events p).autoDelete = false) :
    ∃ q', q.processed p = .ok q' ∧ q'.Holds agenda := by
  unfold EventQueue.processed
  split
  · rename_i hexit
    rw [hp hexit]
    exact ⟨q, rfl, h⟩
  · exact h.autoDelete p

end EventQueue

/-! ## Every run -/

namespace QueueRun

variable {s : QueueRun}

/-- What the queue promises. -/
structure InOrder (s : QueueRun) : Prop where
  /-- no assertion fails, no event is not found, no loop goes on, no pointer dangles -/
  ok : s.fault = none
  /-- an entry has the time and priority of its event -/
  keys : ∀ a ∈ s.agenda, (s.queue.events a.event).when = a.when ∧ (s.queue.events a.event).priority = a.priority
  /-- the list of stacks -/
  bins : ∃ bins, Spells s.queue.down s.queue.right s.queue.head bins ∧
    -- the events of a bin have one time and priority, and these increase strictly
    Ordered s.queue.key bins ∧
    -- the events whose flag is set are in it, and no others, each once
    (contents bins).Nodup ∧ (∀ p, p ∈ contents bins ↔ (s.queue.events p).scheduled = true) ∧
    -- in the order of time, priority and age
    contents bins = (sorted Entry.key s.agenda).map Entry.event
  /-- what `serviceOne` takes is first in time and priority, and everything newer comes later -/
  first : ∀ p, s.queue.head = some p → ∃ newer a older, s.agenda = newer ++ a :: older ∧ a.event = p ∧
    (∀ b ∈ newer, a.key < b.key) ∧ ∀ b ∈ older, a.key ≤ b.key

theorem inOrder_of_holds (h : s.queue.Holds s.agenda) (hok : s.fault = none) : s.InOrder where
  ok := hok
  keys a ha := by
    have hkey := h.lists.keys a ha
    simpa [EventQueue.key, Event.key, Entry.key] using hkey
  bins := by
    obtain ⟨bins, hspelled, hlisted⟩ := h.lists.bins
    refine ⟨bins, hspelled.links, hspelled.ordered, hspelled.nodup, fun p => ?_, hlisted⟩
    rw [h.flags p, hlisted, EventQueue.mem_listed]
  first p hp := by
    obtain ⟨a, hnext, ha⟩ := h.lists.head hp
    obtain ⟨newer, older, hsplit, hnewer, holder⟩ := next_spec hnext
    exact ⟨newer, a, older, hsplit, ha, hnewer, holder⟩

theorem step_holds (h : s.queue.Holds s.agenda) (hok : s.fault = none) {a : QueueAction} (ha : Enabled s a) :
    (s.step a).queue.Holds (s.step a).agenda ∧ (s.step a).fault = none := by
  cases a with
  | construct p priority => exact ⟨h.construct ha priority, hok⟩
  | destroy p =>
    obtain ⟨q', hcall, hholds⟩ := h.destroy ha.1 ha.2
    rw [step, hcall]
    exact ⟨hholds, hok⟩
  | setFlags p sq ad ex =>
    obtain ⟨q', hcall, hholds⟩ := h.setFlags ha sq ad ex
    rw [step, hcall]
    exact ⟨hholds, hok⟩
  | tick t =>
    exact ⟨⟨h.lists.congr rfl (fun r hr => h.lists.live hr) fun _ _ => ⟨rfl, rfl, rfl⟩, h.flags, h.dead⟩, hok⟩
  | schedule p t =>
    obtain ⟨q', hcall, hholds⟩ := h.schedule ha.1 ha.2.1 ha.2.2
    rw [step, hcall]
    exact ⟨hholds, hok⟩
  | deschedule p =>
    obtain ⟨q', hcall, hholds⟩ := h.deschedule ha.1 ha.2
    rw [step, hcall]
    exact ⟨hholds, hok⟩
  | reschedule p t always =>
    obtain ⟨q', hcall, hholds⟩ := h.reschedule ha.1 ha.2.1 ha.2.2
    rw [step, hcall]
    exact ⟨hholds, hok⟩
  | serviceOne =>
    obtain ⟨q', running, hcall, hholds⟩ := h.serviceOne ha
    rw [step, hcall]
    exact ⟨hholds, hok⟩
  | processed =>
    rw [step]
    cases hp : s.processing with
    | nil => exact ⟨h, hok⟩
    | cons p ps =>
      obtain ⟨q', hcall, hholds⟩ := h.processed (ha p (by rw [hp]; rfl))
      dsimp only
      rw [hcall]
      exact ⟨hholds, hok⟩

end QueueRun

/-- In every run that meets the assertions, the queue holds exactly the scheduled events and
serves them in order. -/
theorem queue_in_order (as : List QueueAction) (h : Runs.Guarded QueueRun.step QueueRun.Enabled {} as) :
    Runs.Along QueueRun.step QueueRun.InOrder {} as := by
  have hinit : (({} : QueueRun).queue.Holds ({} : QueueRun).agenda) ∧ ({} : QueueRun).fault = none := by
    refine ⟨⟨⟨by simp, [], ⟨rfl, ⟨by simp, List.Pairwise.nil⟩, List.nodup_nil, by simp⟩, rfl⟩, fun p => ?_,
      fun p _ => rfl⟩, rfl⟩
    exact iff_of_false Bool.false_ne_true fun ⟨a, ha, _⟩ => by cases ha
  have hrun := Runs.along_of_guarded (I := fun s : QueueRun => s.queue.Holds s.agenda ∧ s.fault = none)
    (fun s a hs ha => QueueRun.step_holds hs.1 hs.2 ha) as _ hinit h
  exact Runs.along_mono (fun s hs => QueueRun.inOrder_of_holds hs.1 hs.2) as _ hrun

/-- Three events at one time, one of them taken off, one before them and one behind; the first
one schedules itself again while it is processed. -/
theorem queue_in_order_bins :
    let as : List QueueAction := [.construct 0 0, .construct 1 0, .construct 2 0, .construct 3 (-1), .construct 4 5,
      .schedule 0 10, .schedule 1 10, .schedule 2 10, .schedule 4 10, .schedule 3 10, .deschedule 1, .tick 10,
      .serviceOne, .schedule 3 10, .processed, .serviceOne, .processed, .serviceOne, .processed,
      .reschedule 4 20 false, .serviceOne, .processed]
    Runs.Along QueueRun.step QueueRun.InOrder {} as :=
  queue_in_order _ (by decide)

end PrefetchSim
