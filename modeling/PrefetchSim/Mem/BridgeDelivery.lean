import PrefetchSim.Mem.Bridge

/- What the bridge does with the requests it gets.

   Each port keeps one event or one retry for its queue (`Armed`) and a queue in order
   (`Kept`); the two ports together keep the books of the requests that want a response
   (`Balanced`): each of them is answered, is on its way back in the queue of its own port,
   waits in the other port's queue, or waits for the response, and the counter
   `outstandingResponses` is the number of those that are not answered or nacked. -/
namespace PrefetchSim

variable {α : Type}

theorem MemCmd.not_isResponse_of_isRequest {c : MemCmd} (h : c.isRequest = true) : c.isResponse = false := by
  revert h
  cases c <;> decide

theorem MemCmd.isRequest_of_needsResponse {c : MemCmd} (h : c.needsResponse = true) : c.isRequest = true := by
  revert h
  cases c <;> decide

theorem Msg.of_isResponse {m : Msg α} (h : m.isResponse = true) : m.isRequest = false ∧ m.needsResponse = false := by
  simp only [isResponse, isRequest, needsResponse] at h ⊢
  revert h
  cases m.cmd <;> decide

/-- The first element a test holds for, and the others. -/
theorem perm_cons_eraseP {β : Type} {p : β → Bool} {b : β} :
    ∀ {l : List β}, l.find? p = some b → l.Perm (b :: l.eraseP p)
  | [], h => by simp at h
  | x :: l, h => by
    cases hx : p x with
    | true =>
      obtain rfl : x = b := by simpa [hx] using h
      rw [List.eraseP_cons_of_pos hx]
    | false =>
      rw [List.find?_cons_of_neg (by simp [hx])] at h
      rw [List.eraseP_cons_of_neg (by simp [hx])]
      exact ((perm_cons_eraseP h).cons x).trans (.swap b x _)

/-! ## One port -/

namespace BridgePort

variable {now : Nat} {p : BridgePort α}

/-- There is something to send exactly when the port waits for its event or, not both, for a
    retry; what is at the front may be sent then. -/
structure Armed (now : Nat) (p : BridgePort α) : Prop where
  idle : p.sendQueue = [] → p.sendEvent = none ∧ p.inRetry = false
  woken : p.sendQueue ≠ [] → (p.sendEvent = none ↔ p.inRetry = true)
  event : ∀ t, p.sendEvent = some t → now ≤ t ∧ ∀ b ∈ p.sendQueue.head?, b.ready ≤ t
  retry : p.inRetry = true → ∀ b ∈ p.sendQueue.head?, b.ready ≤ now

theorem require_of {c : Bool} (h : c = true) : p.require c = p := by simp [require, h]

theorem schedule_of {t : Nat} (h : p.sendEvent = none) (ht : now ≤ t) :
    p.schedule now t = { p with sendEvent := some t } := by
  simp [schedule, require, h, ht]

theorem reschedule_of {t : Nat} (h : p.sendEvent ≠ none) (ht : now ≤ t) :
    p.reschedule now t = { p with sendEvent := some t } := by
  simp [reschedule, require, Option.isSome_iff_ne_none.2 h, ht]

theorem insertBuf_some {buf : PacketBuffer α} :
    ∀ {l : List (PacketBuffer α)}, (∃ e ∈ l, buf.ready < e.ready) →
      ∃ l₁ l₂, l = l₁ ++ l₂ ∧ insertBuf buf l = some (l₁ ++ buf :: l₂)
  | [], h => by simp at h
  | e :: l, h => by
    by_cases hlt : buf.ready < e.ready
    · exact ⟨[], e :: l, rfl, by simp [insertBuf, hlt]⟩
    · have h' : ∃ e' ∈ l, buf.ready < e'.ready := by simpa [hlt] using h
      obtain ⟨l₁, l₂, rfl, hins⟩ := insertBuf_some h'
      exact ⟨e :: l₁, l₂, rfl, by simp [insertBuf, hlt, hins]⟩

/-- The queue changes behind its front. -/
theorem Armed.same_front (h : p.Armed now) {front : PacketBuffer α} {rest : List (PacketBuffer α)}
    (hq : p.sendQueue = front :: rest) (rest' : List (PacketBuffer α)) :
    Armed now { p with sendQueue := front :: rest' } where
  idle := by simp
  woken := fun _ => h.woken (by simp [hq])
  event := by simpa [hq] using h.event
  retry := by simpa [hq] using h.retry

/-- A new front, with the event at its time. -/
theorem armed_front {buf : PacketBuffer α} {l : List (PacketBuffer α)} (hbuf : now ≤ buf.ready)
    (hret : p.inRetry = false) :
    Armed now { p with sendQueue := buf :: l, sendEvent := some buf.ready } where
  idle := by simp
  woken := by simp [hret]
  event := by simpa using hbuf
  retry := by simp [hret]

/-- A nack is put somewhere into the queue; the event is moved if it gets to the front. -/
theorem queueNack_spec (h : p.Armed now) (buf : PacketBuffer α) (hbuf : now ≤ buf.ready) :
    ∃ l₁ l₂ e, p.sendQueue = l₁ ++ l₂ ∧
      p.queueNack now buf = { p with sendQueue := l₁ ++ buf :: l₂, sendEvent := e } ∧
      Armed now { p with sendQueue := l₁ ++ buf :: l₂, sendEvent := e } := by
  cases hq : p.sendQueue with
  | nil =>
    obtain ⟨hev, hret⟩ := h.idle hq
    refine ⟨[], [], some buf.ready, rfl, ?_, armed_front hbuf hret⟩
    simp only [queueNack, hq, hev, Option.isNone_none, require_of, schedule_of hev hbuf, List.nil_append]
  | cons front rest =>
    have hwoken : (p.sendEvent.isSome || p.inRetry) = true := by
      have := h.woken (by simp [hq])
      cases hev : p.sendEvent <;> simp_all
    simp only [queueNack, hq, require_of hwoken]
    by_cases hlast : ((front :: rest).getLast (List.cons_ne_nil _ _)).ready ≤ buf.ready
    · exact ⟨front :: rest, [], p.sendEvent, by simp, by simp [hlast], h.same_front hq _⟩
    rw [if_neg hlast]
    by_cases hfront : buf.ready < front.ready
    · -- before the front: the port does not wait for a retry, or the front were ready
      have hret : p.inRetry = false := by
        by_contra hret
        have := h.retry (by simpa using hret) front (by simp [hq])
        omega
      have hev : p.sendEvent ≠ none := fun hev => by
        simp [(h.woken (by simp [hq])).1 hev] at hret
      refine ⟨[], front :: rest, some buf.ready, rfl, ?_, armed_front hbuf hret⟩
      simp [insertBuf, hfront, reschedule_of hev hbuf]
    · have hex : ∃ e ∈ rest, buf.ready < e.ready := by
        have hmem := List.getLast_mem (List.cons_ne_nil front rest)
        obtain hl | hl := List.mem_cons.1 hmem
        · rw [hl] at hlast
          omega
        · exact ⟨_, hl, not_le.1 hlast⟩
      obtain ⟨l₁, l₂, rfl, hins⟩ := insertBuf_some hex
      refine ⟨front :: l₁, l₂, p.sendEvent, rfl, ?_, h.same_front hq _⟩
      simp [insertBuf, hfront, hins]

/-- A packet is put at the end of the queue; it starts the event if it is the only one. -/
theorem push_spec (h : p.Armed now) (delay id : Nat) (pkt : Msg α) :
    let buf := PacketBuffer.new id pkt (now + delay) false
    ∃ e, p.push now delay id pkt =
        { p with sendQueue := p.sendQueue ++ [buf], handed := p.handed ++ [buf], sendEvent := e
                 queuedRequests := p.queuedRequests + if pkt.isRequest then 1 else 0 } ∧
      (p.push now delay id pkt).Armed now := by
  intro buf
  have hready : now ≤ buf.ready := Nat.le_add_right now delay
  cases hq : p.sendQueue with
  | nil =>
    obtain ⟨hev, hret⟩ := h.idle hq
    have heq : p.push now delay id pkt =
        { p with sendQueue := [buf], handed := p.handed ++ [buf], sendEvent := some buf.ready
                 queuedRequests := p.queuedRequests + if pkt.isRequest then 1 else 0 } := by
      cases hr : pkt.isRequest <;> simp [push, hr, hq, hev, schedule, require, buf, PacketBuffer.new]
    refine ⟨some buf.ready, heq, heq ▸ ?_⟩
    have := armed_front (p := p) (l := []) hready hret
    exact { this with }
  | cons front rest =>
    have heq : p.push now delay id pkt =
        { p with sendQueue := front :: rest ++ [buf], handed := p.handed ++ [buf], sendEvent := p.sendEvent
                 queuedRequests := p.queuedRequests + if pkt.isRequest then 1 else 0 } := by
      cases hr : pkt.isRequest <;> simp [push, hr, hq, buf]
    refine ⟨p.sendEvent, heq, heq ▸ ?_⟩
    have := h.same_front hq (rest ++ [buf])
    exact { this with }

/-- An attempt to send the front, by a port that waits for nothing. -/
theorem trySend_spec {buf : PacketBuffer α} {rest : List (PacketBuffer α)} (hq : p.sendQueue = buf :: rest)
    (hready : buf.ready ≤ now) (hev : p.sendEvent = none) (hret : p.inRetry = false) (accepted : Bool) :
    (p.trySend now accepted).Armed now ∧
      (accepted = false ∧ p.trySend now accepted = { p with inRetry := true } ∨
        ∃ e, p.trySend now accepted = { p.popFront now buf rest with sendEvent := e }) := by
  simp only [trySend, hq, require_of (decide_eq_true hready)]
  cases accepted with
  | false =>
    refine ⟨⟨by simp, by simp [hev], by simp [hev], ?_⟩, .inl ⟨rfl, rfl⟩⟩
    simpa [hq] using hready
  | true =>
    cases rest with
    | nil =>
      refine ⟨?_, .inr ⟨none, ?_⟩⟩
      · exact ⟨fun _ => ⟨hev, hret⟩, fun h => absurd rfl h, by simp [popFront, hev], by simp [popFront]⟩
      · simp [popFront, hev]
    | cons next rest =>
      have hsched : (p.popFront now buf (next :: rest)).schedule now (max next.ready (now + 1)) =
          { p.popFront now buf (next :: rest) with sendEvent := some (max next.ready (now + 1)) } :=
        schedule_of hev (by omega)
      refine ⟨?_, .inr ⟨some (max next.ready (now + 1)), ?_⟩⟩
      · simp only [if_true, hsched]
        refine ⟨by simp [popFront], by simp [popFront, hret], fun t ht => ?_, by simp [popFront, hret]⟩
        obtain rfl := Option.some.inj ht
        refine ⟨by omega, fun b hb => ?_⟩
        obtain rfl : next = b := by simpa [popFront] using hb
        omega
      · simp only [if_true, hsched]

/-! ## The books of one port -/

/-- What is in a queue is a request or a response, and a nack is a response; a response is
    expected where it is needed. -/
structure WellMade (b : PacketBuffer α) : Prop where
  kind : b.pkt.isRequest = !b.pkt.isResponse
  nacked : b.nackedHere = true → b.pkt.isResponse = true
  expect : b.expectResponse = b.pkt.needsResponse

theorem WellMade.of_expect {b : PacketBuffer α} (h : WellMade b) (hx : b.expectResponse = true) :
    b.pkt.isRequest = true ∧ b.pkt.isResponse = false ∧ b.nackedHere = false := by
  have hreq : b.pkt.isRequest = true := MemCmd.isRequest_of_needsResponse (h.expect.symm.trans hx)
  have hresp : b.pkt.isResponse = false := MemCmd.not_isResponse_of_isRequest hreq
  refine ⟨hreq, hresp, ?_⟩
  by_contra hn
  simp [h.nacked (by simpa using hn)] at hresp

/-- The queue and the history of a port: what the other port handed over is sent in its order
    and not too early, the counter is that of the requests in the queue. `made` bounds the
    numbers of the buffers. -/
structure Kept (made : Nat) (p : BridgePort α) : Prop where
  fifo : p.handed = (p.gone.map (·.1)).filter (!·.nackedHere) ++ p.sendQueue.filter (!·.nackedHere)
  onTime : ∀ g ∈ p.gone, g.1.ready ≤ g.2
  requests : p.queuedRequests = p.sendQueue.countP (·.pkt.isRequest)
  wellMade : ∀ b ∈ p.sendQueue, WellMade b
  waiting : ∀ b ∈ p.waiting, b ∈ p.handed ∧ b.expectResponse = true
  fresh : ∀ b ∈ p.handed, b.id < made
  distinct : p.handed.Pairwise fun b b' => b.id < b'.id

theorem Kept.mono {made made' : Nat} (h : p.Kept made) (hle : made ≤ made') : p.Kept made' :=
  { h with fresh := fun b hb => lt_of_lt_of_le (h.fresh b hb) hle }

theorem Kept.nack {made : Nat} (h : p.Kept made) {buf : PacketBuffer α} (hbuf : WellMade buf)
    (hn : buf.nackedHere = true) {l₁ l₂ : List (PacketBuffer α)} (hq : p.sendQueue = l₁ ++ l₂) (e : Option Nat) :
    Kept made { p with sendQueue := l₁ ++ buf :: l₂, sendEvent := e } where
  fifo := by simpa [hq, hn] using h.fifo
  onTime := h.onTime
  requests := by
    have := hbuf.kind
    simp [hbuf.nacked hn] at this
    simpa [hq, this] using h.requests
  wellMade := by
    intro b hb
    have hb : b = buf ∨ b ∈ p.sendQueue := by
      rw [hq]
      simp only [List.mem_append, List.mem_cons] at hb ⊢
      tauto
    obtain rfl | hb := hb
    · exact hbuf
    · exact h.wellMade b hb
  waiting := h.waiting
  fresh := h.fresh
  distinct := h.distinct

theorem Kept.push {made : Nat} (h : p.Kept made) {buf : PacketBuffer α} (hbuf : WellMade buf)
    (hn : buf.nackedHere = false) (hid : buf.id = made) (e : Option Nat) :
    Kept (made + 1)
      { p with sendQueue := p.sendQueue ++ [buf], handed := p.handed ++ [buf], sendEvent := e
               queuedRequests := p.queuedRequests + if buf.pkt.isRequest then 1 else 0 } where
  fifo := by simp [h.fifo, hn]
  onTime := h.onTime
  requests := by
    cases hr : buf.pkt.isRequest <;> simp [h.requests, hr]
  wellMade := by
    intro b hb
    obtain hb | rfl : b ∈ p.sendQueue ∨ b = buf := by simpa using hb
    · exact h.wellMade b hb
    · exact hbuf
  waiting := fun b hb => ⟨List.mem_append_left _ (h.waiting b hb).1, (h.waiting b hb).2⟩
  fresh := by
    intro b hb
    obtain hb | rfl : b ∈ p.handed ∨ b = buf := by simpa using hb
    · have := h.fresh b hb
      omega
    · omega
  distinct := by
    refine List.pairwise_append.2 ⟨h.distinct, List.pairwise_singleton _ _, fun b hb b' hb' => ?_⟩
    obtain rfl := List.mem_singleton.1 hb'
    exact hid ▸ h.fresh b hb

theorem Kept.popFront {made : Nat} (h : p.Kept made) {buf : PacketBuffer α} {rest : List (PacketBuffer α)}
    (hq : p.sendQueue = buf :: rest) (hready : buf.ready ≤ now) (e : Option Nat) :
    Kept made { p.popFront now buf rest with sendEvent := e } where
  fifo := by
    cases hn : buf.nackedHere <;> simp [BridgePort.popFront, h.fifo, hq, hn]
  onTime := by
    intro g hg
    obtain hg | rfl : g ∈ p.gone ∨ g = (buf, now) := by simpa [BridgePort.popFront] using hg
    · exact h.onTime g hg
    · exact hready
  requests := by
    have := h.requests
    cases hr : buf.pkt.isRequest <;> simp [BridgePort.popFront, hq, hr] at this ⊢ <;> omega
  wellMade := fun b hb => h.wellMade b (by simp [hq]; exact .inr hb)
  waiting := by
    intro b hb
    cases hx : buf.expectResponse with
    | false => exact h.waiting b (by simpa [BridgePort.popFront, hx] using hb)
    | true =>
      obtain hb | rfl : b ∈ p.waiting ∨ b = buf := by simpa [BridgePort.popFront, hx] using hb
      · exact h.waiting b hb
      · have hn := ((h.wellMade b (by simp [hq])).of_expect hx).2.2
        have hmem : b ∈ p.handed := by simp [h.fifo, hq, hn]
        exact ⟨hmem, hx⟩
  fresh := h.fresh
  distinct := h.distinct

/-! ## The books of the two ports -/

/-- How often `k` was answered, is answered by what is in the queue, and waits for an answer
    to what the port forwards. -/
def answers (k : Int × SenderState) (p : BridgePort α) : Nat :=
  p.gone.countP fun g => g.1.pkt.isResponse && decide (g.1.pkt.answeree = k)

def replies (k : Int × SenderState) (p : BridgePort α) : Nat :=
  p.sendQueue.countP fun b => b.pkt.isResponse && decide (b.pkt.answeree = k)

def pending (k : Int × SenderState) (p : BridgePort α) : Nat :=
  p.sendQueue.countP (fun b => b.expectResponse && decide (b.asker = k)) +
    p.waiting.countP fun b => decide (b.asker = k)

/-- `p` gets the requests, `q` forwards them. -/
structure Balanced (p q : BridgePort α) : Prop where
  outstanding : p.outstandingResponses =
    p.sendQueue.countP (·.isReturn) + q.sendQueue.countP (·.expectResponse) + q.waiting.length
  ledger : ∀ k, p.received.countP (fun m => decide (m.asker = k)) = p.answers k + p.replies k + q.pending k
  returned : ∀ r ∈ p.returned, ∃ b ∈ q.handed, b.id = r.1 ∧ b.expectResponse = true ∧ r.2.answeree = b.asker

variable {q : BridgePort α}

section nack
variable {l₁ l₂ : List (PacketBuffer α)} {buf : PacketBuffer α} {pkt : Msg α} (e : Option Nat)

theorem Balanced.nack_left (h : p.Balanced q) (hq : p.sendQueue = l₁ ++ l₂) (hn : buf.nackedHere = true)
    (hresp : buf.pkt.isResponse = true) (hk : buf.pkt.answeree = pkt.asker) :
    Balanced { p with sendQueue := l₁ ++ buf :: l₂, sendEvent := e, received := p.received ++ [pkt] } q where
  outstanding := by
    have := h.outstanding
    simpa [hq, PacketBuffer.isReturn, hn] using this
  ledger := by
    intro k
    have := h.ledger k
    simp only [replies, answers, hq, List.countP_append, List.countP_cons, List.countP_nil] at this ⊢
    simp only [hresp, hk, Bool.true_and]
    omega
  returned := h.returned

theorem Balanced.nack_right (h : q.Balanced p) (hq : p.sendQueue = l₁ ++ l₂) (hx : buf.expectResponse = false)
    (hist : List (Msg α)) :
    Balanced q { p with sendQueue := l₁ ++ buf :: l₂, sendEvent := e, received := hist } where
  outstanding := by simpa [hq, hx] using h.outstanding
  ledger := by simpa [pending, hq, hx] using h.ledger
  returned := h.returned

end nack

section push
variable {buf : PacketBuffer α} {pkt : Msg α} (e : Option Nat) (n : Int)

/-- A request comes in at `p` and goes into the queue of `q`. -/
theorem Balanced.forward (h : p.Balanced q) (hx : buf.expectResponse = true) (hk : buf.asker = pkt.asker) :
    Balanced { p with outstandingResponses := p.outstandingResponses + 1, received := p.received ++ [pkt] }
      { q with sendQueue := q.sendQueue ++ [buf], handed := q.handed ++ [buf], sendEvent := e
               queuedRequests := n } where
  outstanding := by
    have := h.outstanding
    simp only [List.countP_append, List.countP_singleton, hx, if_true]
    omega
  ledger := by
    intro k
    have := h.ledger k
    simp only [pending, replies, answers, List.countP_append, List.countP_singleton, hx, hk,
      Bool.true_and] at this ⊢
    omega
  returned := fun r hr => (h.returned r hr).imp fun _ hb => ⟨List.mem_append_left _ hb.1, hb.2⟩

/-- A request that wants no response, or a response, goes into the queue of `q`. -/
theorem Balanced.push_right (h : p.Balanced q) (hx : buf.expectResponse = false) (ret : List (Nat × Msg α)) :
    Balanced p { q with sendQueue := q.sendQueue ++ [buf], handed := q.handed ++ [buf], sendEvent := e
                        queuedRequests := n, returned := ret } where
  outstanding := by simpa [hx] using h.outstanding
  ledger := by simpa [pending, hx] using h.ledger
  returned := fun r hr => (h.returned r hr).imp fun _ hb => ⟨List.mem_append_left _ hb.1, hb.2⟩

/-- For the requests that `q` gets, a request in its queue is nothing. -/
theorem Balanced.push_left (h : q.Balanced p) (hreq : buf.pkt.isRequest = true) :
    Balanced { q with sendQueue := q.sendQueue ++ [buf], handed := q.handed ++ [buf], sendEvent := e
                      queuedRequests := n } p where
  outstanding := by simpa [PacketBuffer.isReturn, hreq] using h.outstanding
  ledger := by
    have hresp : buf.pkt.isResponse = false := MemCmd.not_isResponse_of_isRequest hreq
    simpa [replies, hresp, answers] using h.ledger
  returned := h.returned

/-- The response to a request that `p` has sent goes into the queue of `q`. -/
theorem Balanced.response (h : q.Balanced p) {b : PacketBuffer α} {test : PacketBuffer α → Bool}
    (hfind : p.waiting.find? test = some b) (hb : b ∈ p.handed ∧ b.expectResponse = true)
    (hw : WellMade buf) (hn : buf.nackedHere = false) (hresp : buf.pkt.isResponse = true)
    (hk : pkt.answeree = b.asker) (hbuf : buf.pkt.answeree = b.asker) :
    Balanced { q with sendQueue := q.sendQueue ++ [buf], handed := q.handed ++ [buf], sendEvent := e
                      queuedRequests := n, returned := q.returned ++ [(b.id, pkt)] }
      { p with waiting := p.waiting.eraseP test } where
  outstanding := by
    have := h.outstanding
    have hlen := (perm_cons_eraseP hfind).length_eq
    have hret : buf.isReturn = true := by simp [PacketBuffer.isReturn, hw.kind, hresp, hn]
    simp only [List.countP_append, List.countP_singleton, hret, if_true, List.length_cons] at hlen ⊢
    omega
  ledger := by
    intro k
    have := h.ledger k
    have hcount := (perm_cons_eraseP hfind).countP_eq fun b => decide (b.asker = k)
    simp only [List.countP_cons] at hcount
    simp only [pending, replies, answers, List.countP_append, List.countP_singleton, hresp, hbuf,
      Bool.true_and] at this ⊢
    omega
  returned := by
    intro r hr
    obtain hr | rfl : r ∈ q.returned ∨ r = (b.id, pkt) := by simpa using hr
    · exact h.returned r hr
    · exact ⟨b, hb.1, rfl, hb.2, hk⟩

/-- For the requests that `p` gets it is nothing that its own list gets shorter. -/
theorem Balanced.erase_left (h : p.Balanced q) (l : List (PacketBuffer α)) :
    Balanced { p with waiting := l } q :=
  ⟨h.outstanding, h.ledger, h.returned⟩

end push

section pop
variable {buf : PacketBuffer α} {rest : List (PacketBuffer α)} (e : Option Nat)

theorem Balanced.pop_left (h : p.Balanced q) (now : Nat) (hq : p.sendQueue = buf :: rest) :
    Balanced { p.popFront now buf rest with sendEvent := e } q where
  outstanding := by
    have := h.outstanding
    cases hr : buf.isReturn <;> simp [popFront, hq, hr] at this ⊢ <;> omega
  ledger := by
    intro k
    have := h.ledger k
    simp only [popFront, replies, answers, hq, List.countP_append, List.countP_cons, List.countP_nil] at this ⊢
    omega
  returned := h.returned

theorem Balanced.pop_right (h : q.Balanced p) (now : Nat) (hq : p.sendQueue = buf :: rest) :
    Balanced q { p.popFront now buf rest with sendEvent := e } where
  outstanding := by
    have := h.outstanding
    cases hx : buf.expectResponse <;> simp [popFront, hq, hx] at this ⊢ <;> omega
  ledger := by
    intro k
    have := h.ledger k
    cases hx : buf.expectResponse <;>
      simp only [popFront, pending, hq, hx, List.countP_append, List.countP_cons, List.countP_nil,
        Bool.true_and, Bool.false_and, Bool.false_eq_true, if_true, if_false] at this ⊢ <;> omega
  returned := h.returned

end pop

/-! ## Both ports -/

/-- What holds of one port. -/
structure Sound (cfg : BridgeConfig) (now made : Nat) (x : Side) (p : BridgePort α) : Prop where
  armed : p.Armed now
  kept : p.Kept made
  ok : p.failed = false
  requests : p.queuedRequests ≤ cfg.reqQueueLimit x
  responses : p.outstandingResponses ≤ cfg.respQueueLimit x

/-- What holds of the port `x` and the other one. -/
structure Joined (cfg : BridgeConfig) (now made : Nat) (x : Side) (p q : BridgePort α) : Prop where
  left : p.Sound cfg now made x
  right : q.Sound cfg now made x.other
  ahead : p.Balanced q
  back : q.Balanced p

section joined
variable {cfg : BridgeConfig} {made : Nat} {x : Side} {q : BridgePort α} {pkt : Msg α}

theorem Sound.queuedRequests_nonneg (h : p.Sound cfg now made x) : 0 ≤ p.queuedRequests := by
  have := h.kept.requests
  omega

theorem Balanced.outstanding_nonneg (h : p.Balanced q) : 0 ≤ p.outstandingResponses := by
  have := h.outstanding
  omega

theorem Sound.checkReq (h : p.Sound cfg now made x) : p.checkReq (cfg.reqQueueLimit x) = p :=
  require_of (decide_eq_true ⟨h.queuedRequests_nonneg, h.requests⟩)

theorem Joined.checkResp (h : Joined cfg now made x p q) (hist : List (Msg α)) :
    { p with received := hist }.checkResp (cfg.respQueueLimit x) = { p with received := hist } :=
  require_of (decide_eq_true ⟨h.ahead.outstanding_nonneg, h.left.responses⟩)

/-- A request that wants a response is nacked. -/
theorem Joined.nack (h : Joined cfg now made x p q) (hpkt : pkt.needsResponse = true) :
    Joined cfg now (made + 1) x
      ({ p with received := p.received ++ [pkt] }.nackRequest now cfg.nackDelay made pkt) q := by
  have hreq : pkt.isRequest = true := MemCmd.isRequest_of_needsResponse hpkt
  have hresp : pkt.makeTimingResponse.isResponse = true := (MemCmd.response_of_request _ hpkt).2.1
  have harmed : Armed now { p with received := p.received ++ [pkt] } :=
    { h.left.armed with }
  simp only [nackRequest, require_of (show (pkt.needsResponse && pkt.isRequest &&
    pkt.makeTimingResponse.isResponse) = true by simp [hpkt, hreq, hresp])]
  generalize hbuf : PacketBuffer.new made pkt.makeTimingResponse.setNacked (now + cfg.nackDelay) true = buf
  have hmade : WellMade buf := by
    subst hbuf
    exact ⟨rfl, fun _ => rfl, rfl⟩
  have hfields : buf.nackedHere = true ∧ buf.pkt.isResponse = true ∧ buf.pkt.answeree = pkt.asker ∧
      buf.expectResponse = false ∧ buf.ready = now + cfg.nackDelay := by
    subst hbuf
    exact ⟨rfl, rfl, rfl, rfl, rfl⟩
  obtain ⟨hn, hbresp, hask, hx, hready⟩ := hfields
  obtain ⟨l₁, l₂, e, hq, heq, harmed'⟩ := queueNack_spec harmed buf (by omega)
  rw [heq]
  have hk := (h.left.kept.nack hmade hn hq e).mono (Nat.le_succ made)
  refine ⟨⟨harmed', ?_, h.left.ok, h.left.requests, h.left.responses⟩, ?_,
    h.ahead.nack_left e hq hn hbresp hask, h.back.nack_right e hq hx _⟩
  · exact { hk with }
  · exact { h.right with kept := h.right.kept.mono (Nat.le_succ made) }

/-- The buffer of a request, and that of a response. -/
theorem new_request (pkt : Msg α) (hreq : pkt.isRequest = true) (id t : Nat) :
    let buf := PacketBuffer.new id pkt t false
    WellMade buf ∧ buf.pkt.isRequest = true ∧ buf.asker = pkt.asker ∧ buf.expectResponse = pkt.needsResponse := by
  have hresp : pkt.isResponse = false := MemCmd.not_isResponse_of_isRequest hreq
  have hreq' : pkt.cmd.isRequest = true := hreq
  have hresp' : pkt.cmd.isResponse = false := hresp
  simp only [PacketBuffer.new, PacketBuffer.asker, Msg.asker, hresp]
  refine ⟨⟨?_, by simp, by simp [Msg.needsResponse]⟩, hreq, rfl, by simp⟩
  simp [Msg.isRequest, Msg.isResponse, hreq', hresp']

theorem new_response (pkt : Msg α) (hresp : pkt.isResponse = true) (id t : Nat) :
    let buf := PacketBuffer.new id pkt t false
    WellMade buf ∧ buf.pkt = pkt ∧ buf.expectResponse = false := by
  obtain ⟨hreq, hneeds⟩ := Msg.of_isResponse hresp
  simp only [PacketBuffer.new, hresp, hneeds]
  exact ⟨⟨by simp [hreq, hresp], by simp, by simp [hneeds]⟩, rfl, rfl⟩

/-- A packet goes into the queue of the other port. -/
theorem Sound.push (h : q.Sound cfg now made x) (pkt : Msg α)
    (hroom : pkt.isRequest = true → q.queuedRequests < cfg.reqQueueLimit x)
    (hw : WellMade (.new made pkt (now + cfg.delay) false))
    (hreq : (PacketBuffer.new made pkt (now + cfg.delay) false).pkt.isRequest = pkt.isRequest) :
    (q.push now cfg.delay made pkt).Sound cfg now (made + 1) x := by
  obtain ⟨e, heq, harmed⟩ := push_spec h.armed cfg.delay made pkt
  have hkept := h.kept.push hw rfl rfl e
  rw [hreq] at hkept
  rw [heq] at harmed ⊢
  refine ⟨harmed, hkept, h.ok, ?_, h.responses⟩
  have := h.requests
  cases hr : pkt.isRequest with
  | false => simpa [hr] using this
  | true =>
    have := hroom hr
    simp only [if_true]
    omega

/-- A request is forwarded, and a place for its response is kept. -/
theorem Joined.forward (h : Joined cfg now made x p q) (hpkt : pkt.needsResponse = true)
    (hroom : q.queuedRequests < cfg.reqQueueLimit x.other) (hresp : p.outstandingResponses < cfg.respQueueLimit x) :
    Joined cfg now (made + 1) x
      { p with outstandingResponses := p.outstandingResponses + 1, received := p.received ++ [pkt] }
      (q.push now cfg.delay made pkt) := by
  obtain ⟨hw, hbreq, hask, hx⟩ := new_request pkt (MemCmd.isRequest_of_needsResponse hpkt) made (now + cfg.delay)
  have hreq : pkt.isRequest = true := MemCmd.isRequest_of_needsResponse hpkt
  have hright := h.right.push pkt (fun _ => hroom) hw (hbreq.trans hreq.symm)
  have hk := h.left.kept.mono (Nat.le_succ made)
  obtain ⟨e, heq, -⟩ := push_spec h.right.armed cfg.delay made pkt
  refine ⟨⟨?_, ?_, h.left.ok, h.left.requests, by simp only; omega⟩, hright, ?_, ?_⟩
  · exact { h.left.armed with }
  · exact { hk with }
  · rw [heq]
    exact h.ahead.forward e _ (hx.trans hpkt) hask
  · rw [heq]
    have := h.back.push_left e (q.queuedRequests + if pkt.isRequest then 1 else 0) hbreq
    exact { this with }

/-- A request that wants no response is forwarded. -/
theorem Joined.post (h : Joined cfg now made x p q) (hreq : pkt.isRequest = true) (hpkt : pkt.needsResponse = false)
    (hroom : q.queuedRequests < cfg.reqQueueLimit x.other) :
    Joined cfg now (made + 1) x p (q.push now cfg.delay made pkt) := by
  obtain ⟨hw, hbreq, -, hx⟩ := new_request pkt hreq made (now + cfg.delay)
  have hright := h.right.push pkt (fun _ => hroom) hw (hbreq.trans hreq.symm)
  obtain ⟨e, heq, -⟩ := push_spec h.right.armed cfg.delay made pkt
  refine ⟨{ h.left with kept := h.left.kept.mono (Nat.le_succ made) }, hright, ?_, ?_⟩
  · rw [heq]
    exact h.ahead.push_right e _ (hx.trans hpkt) q.returned
  · rw [heq]
    exact h.back.push_left e _ hbreq

/-- A response comes in at the port its request was sent from. -/
theorem Joined.response (h : Joined cfg now made x p q) (hresp : pkt.isResponse = true) {test : PacketBuffer α → Bool}
    {b : PacketBuffer α} (hfind : p.waiting.find? test = some b) :
    Joined cfg now (made + 1) x { p with waiting := p.waiting.eraseP test }
      ({ q with returned := q.returned ++ [(b.id, b.fixResponse pkt)] }.push now cfg.delay made
        (b.fixResponse pkt)) := by
  obtain ⟨hw, hbpkt, hx⟩ := new_response (b.fixResponse pkt) hresp made (now + cfg.delay)
  have hk := h.right.kept
  have hq : Sound cfg now made x.other { q with returned := q.returned ++ [(b.id, b.fixResponse pkt)] } :=
    ⟨{ h.right.armed with },
      { hk with },
      h.right.ok, h.right.requests, h.right.responses⟩
  have hnreq : (b.fixResponse pkt).isRequest = false := (Msg.of_isResponse hresp).1
  have hright := hq.push (b.fixResponse pkt) (by simp [hnreq]) hw (by rw [hbpkt])
  have hb := h.left.kept.waiting b (List.mem_of_find?_eq_some hfind)
  have hkp := h.left.kept.mono (Nat.le_succ made)
  obtain ⟨e, heq, -⟩ := push_spec hq.armed cfg.delay made (b.fixResponse pkt)
  refine ⟨⟨?_, ?_, h.left.ok, h.left.requests, h.left.responses⟩, hright, ?_, ?_⟩
  · exact { h.left.armed with }
  · exact ⟨hkp.fifo, hkp.onTime, hkp.requests, hkp.wellMade,
      fun b' hb' => hkp.waiting b' (List.mem_of_mem_eraseP hb'), hkp.fresh, hkp.distinct⟩
  · rw [heq]
    exact (h.ahead.push_right e _ hx _).erase_left _
  · rw [heq]
    exact h.back.response e _ hfind hb hw rfl (by rw [hbpkt]; exact hresp) rfl (by rw [hbpkt]; rfl)

/-- The port tries to send its front. -/
theorem Joined.trySend (h : Joined cfg now made x p q) {p₀ : BridgePort α} {buf : PacketBuffer α}
    {rest : List (PacketBuffer α)} (hp₀ : p₀ = { p with sendEvent := none, inRetry := false })
    (hq : p.sendQueue = buf :: rest) (hready : buf.ready ≤ now) (accepted : Bool) :
    Joined cfg now made x (p₀.trySend now accepted) q := by
  subst hp₀
  obtain ⟨harmed, hcase⟩ :=
    trySend_spec (p := { p with sendEvent := none, inRetry := false }) hq hready rfl rfl accepted
  rcases hcase with ⟨-, heq⟩ | ⟨e, heq⟩
  · rw [heq] at harmed ⊢
    have hk := h.left.kept
    exact ⟨⟨harmed, { hk with },
      h.left.ok, h.left.requests, h.left.responses⟩, h.right,
      { h.ahead with }, { h.back with }⟩
  · rw [heq] at harmed ⊢
    have hk := h.left.kept.popFront hq hready e
    have hahead := h.ahead.pop_left e now hq
    have hback := h.back.pop_right e now hq
    refine ⟨⟨harmed, { hk with },
      h.left.ok, ?_, ?_⟩, h.right,
      { hahead with }, { hback with }⟩
    · have := h.left.requests
      simp only [popFront]
      split <;> omega
    · have := h.left.responses
      simp only [popFront]
      split <;> omega

end joined

end BridgePort

@[simp] theorem Side.other_other (x : Side) : x.other.other = x := by cases x <;> rfl

theorem Side.other_ne (x : Side) : x.other ≠ x := by cases x <;> decide

namespace Bridge

open BridgePort

variable {cfg : BridgeConfig} {s : Bridge α} {x : Side} {f : BridgePort α → BridgePort α}

@[simp] theorem modify_same : (s.modify x f).port x = f (s.port x) := Function.update_self ..

@[simp] theorem modify_other : (s.modify x f).port x.other = s.port x.other :=
  Function.update_of_ne x.other_ne ..

@[simp] theorem modify_other_self : (s.modify x.other f).port x = s.port x :=
  Function.update_of_ne x.other_ne.symm ..

@[simp] theorem modify_curTick : (s.modify x f).curTick = s.curTick := rfl
@[simp] theorem modify_made : (s.modify x f).made = s.made := rfl

/-- The invariant of the bridge. -/
def Sound (cfg : BridgeConfig) (s : Bridge α) : Prop :=
  Joined cfg s.curTick s.made .a (s.port .a) (s.port .b)

theorem Sound.at (h : s.Sound cfg) (x : Side) : Joined cfg s.curTick s.made x (s.port x) (s.port x.other) := by
  cases x with
  | a => exact h
  | b => exact ⟨h.right, h.left, h.back, h.ahead⟩

theorem sound_of_joined (x : Side) (h : Joined cfg s.curTick s.made x (s.port x) (s.port x.other)) : s.Sound cfg := by
  cases x with
  | a => exact h
  | b => exact ⟨h.right, h.left, h.back, h.ahead⟩

theorem sound_initial (cfg : BridgeConfig) : ({} : Bridge α).Sound cfg := by
  have hport : ∀ x, ({} : BridgePort α).Sound cfg 0 0 x := fun x =>
    ⟨⟨fun _ => ⟨rfl, rfl⟩, fun h => absurd rfl h, by simp, by simp⟩,
      ⟨rfl, by simp, rfl, by simp, by simp, by simp, List.Pairwise.nil⟩, rfl, by simp, by simp⟩
  have hbal : ({} : BridgePort α).Balanced {} := ⟨rfl, fun _ => rfl, by simp⟩
  exact ⟨hport _, hport _, hbal, hbal⟩

/-- A request that wants no response must not meet a full queue: it cannot be nacked. -/
def Fits (cfg : BridgeConfig) (s : Bridge α) : Act α → Prop
  | .recv x pkt => pkt.isRequest = true → pkt.needsResponse = false →
      (s.port x.other).reqQueueFull (cfg.reqQueueLimit x.other) = false
  | _ => True

instance (s : Bridge α) : ∀ act, Decidable (Fits cfg s act) := by
  rintro ⟨⟩ <;> dsimp only [Fits] <;> infer_instance

theorem reqQueueFull_false {p : BridgePort α} {limit : Nat} (h : p.reqQueueFull limit = false) :
    p.queuedRequests < limit := by
  simpa [reqQueueFull] using h

theorem respQueueFull_false {p : BridgePort α} {limit : Nat} (h : p.respQueueFull limit = false) :
    p.outstandingResponses < limit := by
  simpa [respQueueFull] using h

theorem modify_eq_self (h : f (s.port x) = s.port x) : s.modify x f = s := by
  simp [modify, h]

/-- `recvTiming` where the assertions in its tests hold. -/
theorem recvTiming_eq {pkt : Msg α} (hreq : (s.port x.other).checkReq (cfg.reqQueueLimit x.other) = s.port x.other)
    (hresp : (s.port x).checkResp (cfg.respQueueLimit x) = s.port x) :
    s.recvTiming cfg x pkt =
      if pkt.isRequest && (s.port x.other).reqQueueFull (cfg.reqQueueLimit x.other) ||
          pkt.needsResponse && (s.port x).respQueueFull (cfg.respQueueLimit x) then s.nackRequest cfg x pkt
      else (if pkt.needsResponse then
          s.modify x fun p => { p with outstandingResponses := p.outstandingResponses + 1 }
        else s).queueForSendTiming cfg x.other pkt := by
  simp only [recvTiming, modify_eq_self hreq, ite_self, modify_eq_self hresp]
  cases pkt.isRequest && (s.port x.other).reqQueueFull (cfg.reqQueueLimit x.other) <;>
    cases pkt.needsResponse <;> simp

theorem Sound.request (h : s.Sound cfg) {pkt : Msg α} (hpkt : pkt.needsResponse = true) :
    (step cfg s (.recv x pkt)).Sound cfg := by
  have hreq : pkt.isRequest = true := MemCmd.isRequest_of_needsResponse hpkt
  have hresp : pkt.isResponse = false := MemCmd.not_isResponse_of_isRequest hreq
  have hj := h.at x
  apply sound_of_joined x
  simp only [step, hpkt, if_true]
  rw [recvTiming_eq (by simpa using hj.right.checkReq) (by simpa using hj.checkResp _)]
  split_ifs with hfull
  · simpa [nackRequest] using hj.nack hpkt
  · simp only [hreq, hpkt, modify_same, modify_other, Bool.true_and, Bool.or_eq_true, not_or,
      Bool.not_eq_true] at hfull
    have := hj.forward hpkt (reqQueueFull_false hfull.1) (respQueueFull_false hfull.2)
    simpa [queueForSendTiming, hresp] using this

/-- A request that wants no response. -/
theorem Sound.post (h : s.Sound cfg) {pkt : Msg α} (hreq : pkt.isRequest = true) (hpkt : pkt.needsResponse = false)
    (hfit : Fits cfg s (.recv x pkt)) : (step cfg s (.recv x pkt)).Sound cfg := by
  have hresp : pkt.isResponse = false := MemCmd.not_isResponse_of_isRequest hreq
  have hj := h.at x
  apply sound_of_joined x
  simp only [step, hpkt]
  rw [recvTiming_eq (by simpa using hj.right.checkReq) (by simpa using hj.checkResp (s.port x).received)]
  have hroom := hfit hreq hpkt
  have := hj.post hreq hpkt (reqQueueFull_false hroom)
  simpa [hroom, hpkt, queueForSendTiming, hresp] using this

theorem Sound.response (h : s.Sound cfg) {pkt : Msg α} (hresp : pkt.isResponse = true)
    (hb : ∃ b ∈ (s.port x).waiting, pkt.senderState = .buffer b.id) : (step cfg s (.recv x pkt)).Sound cfg := by
  obtain ⟨hreq, hpkt⟩ := Msg.of_isResponse hresp
  obtain ⟨b, hfind⟩ : ∃ b, (s.port x).waiting.find? (fun b => decide (pkt.senderState = .buffer b.id)) = some b := by
    obtain ⟨b, hmem, hid⟩ := hb
    exact Option.isSome_iff_exists.1 (List.find?_isSome.2 ⟨b, hmem, decide_eq_true hid⟩)
  have hj := h.at x
  apply sound_of_joined x
  simp only [step, hpkt]
  rw [recvTiming_eq (by simpa using hj.right.checkReq) (by simpa using hj.checkResp (s.port x).received)]
  have := hj.response hresp hfind
  simpa [hreq, hpkt, queueForSendTiming, hresp, hfind] using this

theorem Sound.fire (h : s.Sound cfg) (he : (s.port x).sendEvent = some s.curTick) (accepted : Bool) :
    (step cfg s (.fire x accepted)).Sound cfg := by
  have hj := h.at x
  cases hq : (s.port x).sendQueue with
  | nil => simp [(hj.left.armed.idle hq).1] at he
  | cons buf rest =>
    have hret : (s.port x).inRetry = false := by
      by_contra hret
      simp [(hj.left.armed.woken (by simp [hq])).2 (by simpa using hret)] at he
    have hready : buf.ready ≤ s.curTick := (hj.left.armed.event _ he).2 buf (by simp [hq])
    apply sound_of_joined x
    simp only [PrefetchSim.Bridge.step, modify_same, modify_other, modify_curTick, modify_made, processSendEvent]
    exact hj.trySend (by rw [← hret]) hq hready accepted

theorem Sound.retry (h : s.Sound cfg) (he : (s.port x).inRetry = true) (accepted : Bool) :
    (step cfg s (.retry x accepted)).Sound cfg := by
  have hj := h.at x
  cases hq : (s.port x).sendQueue with
  | nil => simp [(hj.left.armed.idle hq).2] at he
  | cons buf rest =>
    have hev : (s.port x).sendEvent = none := (hj.left.armed.woken (by simp [hq])).2 he
    have hready : buf.ready ≤ s.curTick := hj.left.armed.retry he buf (by simp [hq])
    apply sound_of_joined x
    simp only [PrefetchSim.Bridge.step, modify_same, modify_other, modify_curTick, modify_made, recvRetry, hq,
      if_pos hready]
    exact hj.trySend (by rw [← hq, ← hev]) hq hready accepted

theorem Sound.tick (h : s.Sound cfg) {d : Nat} (he : Enabled s (.tick d)) : (step cfg s (.tick d)).Sound cfg := by
  have harmed : ∀ x, (s.port x).Armed s.curTick → (s.port x).Armed (s.curTick + d) := fun x hx =>
    { hx with
      event := fun t ht => ⟨he x t ht, (hx.event t ht).2⟩
      retry := fun hr b hb => Nat.le_add_right_of_le (hx.retry hr b hb) }
  exact ⟨{ h.left with armed := harmed _ h.left.armed }, { h.right with armed := harmed _ h.right.armed },
    h.ahead, h.back⟩

theorem Sound.step (h : s.Sound cfg) {act : Act α} (he : Enabled s act) (hfit : Fits cfg s act) :
    (step cfg s act).Sound cfg := by
  cases act with
  | recv x pkt =>
    rcases he with hreq | ⟨hresp, hb⟩
    · cases hpkt : pkt.needsResponse with
      | true => exact h.request hpkt
      | false => exact h.post hreq hpkt hfit
    · exact h.response hresp hb
  | fire x accepted => exact h.fire he accepted
  | retry x accepted => exact h.retry he accepted
  | tick d => exact h.tick he

/-- A nack of what wants no response is a failed assertion. -/
theorem nackRequest_failed {p : BridgePort α} {now nackDelay id : Nat} {pkt : Msg α}
    (h : pkt.needsResponse = false) : (p.nackRequest now nackDelay id pkt).failed = true := by
  simp only [BridgePort.nackRequest, queueNack, h, Bool.false_and]
  split
  · simp [require, schedule]
  · split
    · simp [require]
    · split
      · split <;> simp [require, reschedule]
      · simp [require]

theorem fits_of_step (h : s.Sound cfg) {act : Act α}
    (hok : ∀ x, ((step cfg s act).port x).failed = false) : Fits cfg s act := by
  cases act with
  | recv x pkt =>
    intro hreq hpkt
    by_contra hfull
    have hfull : (s.port x.other).reqQueueFull (cfg.reqQueueLimit x.other) = true := by simpa using hfull
    have hj := h.at x
    have hx := hok x
    simp only [step, hpkt] at hx
    rw [recvTiming_eq (by simpa using hj.right.checkReq) (by simpa using hj.checkResp (s.port x).received)] at hx
    simp [hreq, hfull, nackRequest, nackRequest_failed hpkt] at hx
  | fire | retry | tick => trivial

/-- No assertion of the bridge fails, exactly as long as no request that wants no response (a
    write back) comes in when the queue for it is full. -/
theorem assertions_hold_iff (cfg : BridgeConfig) (acts : List (Act α))
    (hen : Runs.Guarded (step cfg) Enabled {} acts) :
    Runs.Along (step cfg) (fun s => ∀ x, (s.port x).failed = false) {} acts ↔
      Runs.Guarded (step cfg) (Fits cfg) {} acts := by
  have hok : ∀ s : Bridge α, s.Sound cfg → ∀ x, (s.port x).failed = false := fun s h x => (h.at x).left.ok
  refine Runs.along_iff_guarded (I := Sound cfg) (fun s a h _ he hfit => ?_) (fun s a h _ _ hs => fits_of_step h hs)
    acts _ (sound_initial cfg) (hok _ (sound_initial cfg)) hen
  exact ⟨h.step he hfit, hok _ (h.step he hfit)⟩

/-- What the bridge promises to those at port `x`. -/
structure Delivers (cfg : BridgeConfig) (s : Bridge α) (x : Side) : Prop where
  /-- what the other port has handed over is sent in that order, each packet once -/
  inOrder : (s.port x).handed = ((s.port x).gone.map (·.1)).filter (!·.nackedHere) ++
    (s.port x).sendQueue.filter (!·.nackedHere)
  /-- and not before its delay is over -/
  onTime : ∀ g ∈ (s.port x).gone, g.1.ready ≤ g.2
  /-- of the requests of one sender, each was answered, by a response or a nack, or is in
      exactly one place -/
  once : ∀ k, (s.port x).received.countP (fun m => decide (m.asker = k)) =
    (s.port x).answers k + (s.port x).replies k + (s.port x.other).pending k
  /-- a response goes to the sender of the request with whose buffer it came back -/
  matched : ∀ r ∈ (s.port x).returned, ∃ b ∈ (s.port x.other).handed,
    b.id = r.1 ∧ b.expectResponse = true ∧ r.2.answeree = b.asker
  /-- and no two requests have the same buffer -/
  distinct : (s.port x).handed.Pairwise fun b b' => b.id < b'.id
  /-- there is room for all that is not a nack -/
  bounded : (s.port x).sendQueue.length ≤
    cfg.reqQueueLimit x + cfg.respQueueLimit x + (s.port x).sendQueue.countP (·.nackedHere)
  /-- a port with something to send waits for its event or for a retry, not for both -/
  woken : (s.port x).sendQueue ≠ [] ↔ ((s.port x).sendEvent ≠ none ↔ (s.port x).inRetry = false)

theorem length_split (l : List (PacketBuffer α)) (h : ∀ b ∈ l, WellMade b) :
    l.length = l.countP (·.pkt.isRequest) + l.countP (·.isReturn) + l.countP (·.nackedHere) := by
  induction l with
  | nil => rfl
  | cons b l ih =>
    have hb := h b List.mem_cons_self
    have ih := ih fun b' hb' => h b' (List.mem_cons_of_mem _ hb')
    have hone : (if b.pkt.isRequest then 1 else 0) + (if b.isReturn then 1 else 0) +
        (if b.nackedHere then 1 else 0) = 1 := by
      have hk := hb.kind
      have hn := hb.nacked
      cases hnack : b.nackedHere <;> cases hresp : b.pkt.isResponse <;>
        simp_all [PacketBuffer.isReturn]
    simp only [List.length_cons, List.countP_cons]
    omega

theorem Sound.delivers (h : s.Sound cfg) (x : Side) : Delivers cfg s x := by
  have hj := h.at x
  have ha := hj.left.armed
  refine ⟨hj.left.kept.fifo, hj.left.kept.onTime, hj.ahead.ledger, hj.ahead.returned, hj.left.kept.distinct, ?_, ?_⟩
  · have := length_split _ hj.left.kept.wellMade
    have := hj.left.kept.requests
    have := hj.left.requests
    have := hj.ahead.outstanding
    have := hj.left.responses
    omega
  · constructor
    · intro hq
      rw [ne_eq, ha.woken hq, Bool.not_eq_true]
    · intro hiff hq
      have := ha.idle hq
      simp [this.1, this.2] at hiff

/-- A bridge with room for one request and one response each way. -/
def narrow : BridgeConfig :=
  { delay := 1, nackDelay := 2, reqQueueLimit := fun _ => 1, respQueueLimit := fun _ => 1 }

def readFrom (n : Nat) : Msg Unit :=
  { cmd := .readReq, src := n, dest := -1, senderState := .outside n, payload := () }

/-- The first of two reads is forwarded and answered, the second one is nacked; the bus
    refuses the nack once. -/
def twoReads : List (Act Unit) :=
  [.recv .a (readFrom 1), .recv .a (readFrom 2), .tick 1, .fire .b true,
    .recv .b { readFrom 7 with cmd := .readResp, dest := 5, senderState := .buffer 0 },
    .tick 1, .fire .a false, .retry .a true, .tick 1, .fire .a true]

theorem assertions_hold_iff_two_reads :
    Runs.Guarded (step narrow) Enabled {} twoReads ∧
      (Runs.Along (step narrow) (fun s => ∀ x, (s.port x).failed = false) {} twoReads ↔
        Runs.Guarded (step narrow) (Fits narrow) {} twoReads) :=
  ⟨by decide, assertions_hold_iff narrow twoReads (by decide)⟩

end Bridge
end PrefetchSim
