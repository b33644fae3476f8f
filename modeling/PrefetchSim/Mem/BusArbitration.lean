import PrefetchSim.Mem.TimingBus

/- Who gets the bus, and when.

   `recvTiming`, `recvRetry` and the event `busIdle` all end in a few moves: a port joins
   the retry list (`enlist`), its head leaves it (`popFront`), and the bus is given away
   for some cycles from the next one on (`granted`). An invariant is shown of these moves
   once (`Lined`, `Timed`) and holds along every run:

   1. the bus is never given to two packets at a time (`Sound`);
   2. no port on the retry list is forgotten: the event `busIdle` is scheduled as long as
      one waits;
   3. the list is served in the order in which it was joined, and where no target refuses,
      a port waits no longer than those before it take (`bounded_waiting`);
   4. a bus that is started between two cycles, and is sent a packet before the next one,
      is not woken up (`startup_stall`). -/
namespace PrefetchSim.TimingBus

variable {ι : Type} {cfg : BusConfig ι} {b : TimingBus ι}

/-! ## Moves -/

/-- The cycle in which the bus is free next. -/
def nextSlot (cfg : BusConfig ι) (b : TimingBus ι) : Nat :=
  if b.tickNextIdle < b.curTick then nextCycle cfg b.curTick else b.tickNextIdle

/-- The bus is given away for `n` cycles. -/
def granted (cfg : BusConfig ι) (n : Nat) (heard : List (ι × Packet)) (b : TimingBus ι) : TimingBus ι :=
  { b with
    tickNextIdle := b.nextSlot cfg + n * cfg.clock
    busIdle := some (b.nextSlot cfg + n * cfg.clock)
    occupied := b.occupied ++ [(b.nextSlot cfg, b.nextSlot cfg + n * cfg.clock)]
    heard }

@[simp] theorem require_true : b.require true = b := by
  simp [require]

theorem nextCycle_spec (cfg : BusConfig ι) (now : Nat) :
    cfg.clock ∣ nextCycle cfg now ∧ now ≤ nextCycle cfg now ∧ nextCycle cfg now < now + cfg.clock := by
  have hpos := cfg.clock_pos
  have hlt := Nat.mod_lt now hpos
  have hle := Nat.mod_le now cfg.clock
  have hdvd : cfg.clock ∣ now - now % cfg.clock := Nat.dvd_sub_mod now
  unfold nextCycle
  split
  · refine ⟨Nat.dvd_add hdvd (Nat.dvd_refl _), ?_, ?_⟩ <;> omega
  · rename_i h
    exact ⟨Nat.dvd_of_mod_eq_zero (not_not.1 h), Nat.le_refl _, Nat.lt_add_of_pos_right hpos⟩

theorem nextSlot_le (cfg : BusConfig ι) (b : TimingBus ι) :
    b.tickNextIdle ≤ b.nextSlot cfg ∧ b.curTick ≤ b.nextSlot cfg := by
  have h := (nextCycle_spec cfg b.curTick).2.1
  unfold nextSlot
  split
  · exact ⟨Nat.le_of_lt (Nat.lt_of_lt_of_le ‹_› h), h⟩
  · exact ⟨Nat.le_refl _, Nat.le_of_not_lt ‹_›⟩

theorem nextSlot_dvd (h : cfg.clock ∣ b.tickNextIdle) : cfg.clock ∣ b.nextSlot cfg := by
  unfold nextSlot
  split
  · exact (nextCycle_spec cfg b.curTick).1
  · exact h

theorem nextSlot_of_le (h : b.curTick ≤ b.tickNextIdle) : b.nextSlot cfg = b.tickNextIdle :=
  if_neg (Nat.not_lt.2 h)

/-- Rounds enough bring `t` to the first of its cycles that is not over. -/
theorem catchUp_spec {clock : Nat} (now : Nat) (hpos : 0 < clock) : ∀ (n t : Nat), now - t ≤ n →
    ∃ k, catchUp clock now n t = t + k * clock ∧ now ≤ t + k * clock ∧ (0 < k → t + k * clock < now + clock)
  | 0, t, hn => ⟨0, by simp [catchUp], by omega, by simp⟩
  | n + 1, t, hn => by
    unfold catchUp
    split
    · rename_i hlt
      obtain ⟨k, heq, hle, hbound⟩ := catchUp_spec now hpos n (t + clock) (by omega)
      have hk : t + clock + k * clock = t + (k + 1) * clock := by rw [Nat.succ_mul]; omega
      rw [hk] at heq hle hbound
      refine ⟨k + 1, heq, hle, fun _ => ?_⟩
      cases k with
      | zero => simp only [Nat.zero_add, Nat.one_mul]; omega
      | succ k => exact hbound (Nat.succ_pos k)
    · exact ⟨0, by simp, by simpa using Nat.le_of_not_lt ‹_›, by simp⟩

/-- Two multiples of the clock within one cycle are the same. -/
theorem dvd_unique {clock now x y : Nat} (hx : clock ∣ x) (hy : clock ∣ y) (hx1 : now ≤ x) (hx2 : x < now + clock)
    (hy1 : now ≤ y) (hy2 : y < now + clock) : x = y := by
  obtain ⟨m, rfl⟩ := hx
  obtain ⟨n, rfl⟩ := hy
  rcases Nat.lt_trichotomy m n with h | h | h
  · have := Nat.mul_le_mul_left clock h
    rw [Nat.mul_succ] at this
    omega
  · rw [h]
  · have := Nat.mul_le_mul_left clock h
    rw [Nat.mul_succ] at this
    omega

theorem catchUp_nextSlot (h : cfg.clock ∣ b.tickNextIdle) :
    catchUp cfg.clock b.curTick (b.curTick - b.tickNextIdle) b.tickNextIdle = b.nextSlot cfg := by
  obtain ⟨k, heq, hle, hbound⟩ := catchUp_spec b.curTick cfg.clock_pos _ b.tickNextIdle (Nat.le_refl _)
  obtain ⟨hdvd, hle', hbound'⟩ := nextCycle_spec cfg b.curTick
  rw [heq]
  unfold nextSlot
  split
  · rename_i hlt
    have hk : 0 < k := by
      rcases Nat.eq_zero_or_pos k with rfl | hk
      · omega
      · exact hk
    exact dvd_unique (Nat.dvd_add h (Nat.dvd_mul_left ..)) hdvd hle (hbound hk) hle' hbound'
  · rcases Nat.eq_zero_or_pos k with rfl | hk
    · simp
    · have := hbound hk
      have := Nat.mul_le_mul_right cfg.clock hk
      omega

theorem granted_busy (cfg : BusConfig ι) (b : TimingBus ι) {n : Nat} (hn : 0 < n) (heard : List (ι × Packet)) :
    (b.granted cfg n heard).curTick < (b.granted cfg n heard).tickNextIdle :=
  Nat.lt_of_le_of_lt (nextSlot_le cfg b).2 (Nat.lt_add_of_pos_right (Nat.mul_pos hn cfg.clock_pos))

section

variable [DecidableEq ι]

/-- What becomes of the retry list when a packet was sent, or refused. -/
def settled (sent : Bool) (p : ι) (b : TimingBus ι) : TimingBus ι :=
  if sent then (if b.inRetry then b.popFront else b) else b.addToRetryList p

theorem popFront_granted (n : Nat) (heard : List (ι × Packet)) :
    (b.granted cfg n heard).popFront = b.popFront.granted cfg n heard := by
  cases h : b.retryList <;> simp [popFront, granted, nextSlot, h]

theorem addToRetryList_with (t : Nat) (heard : List (ι × Packet)) (p : ι) :
    { b with tickNextIdle := t, heard }.addToRetryList p = { b.addToRetryList p with tickNextIdle := t, heard } := by
  cases h : b.inRetry <;> cases h' : b.onRetryList p <;> simp [addToRetryList, enlist, require, h, h']

theorem addToRetryList_nextSlot (p : ι) : (b.addToRetryList p).nextSlot cfg = b.nextSlot cfg := by
  cases h : b.inRetry <;> cases h' : b.onRetryList p <;> simp [addToRetryList, nextSlot, enlist, require, h, h']

omit [DecidableEq ι] in
theorem occupyBus_granted (cfg : BusConfig ι) (b : TimingBus ι) {n : Nat} (hn : 0 < n) (heard : List (ι × Packet)) :
    { b with tickNextIdle := b.nextSlot cfg, heard }.occupyBus (b.nextSlot cfg + n * cfg.clock) =
      b.granted cfg n heard := by
  have hpos : 0 < n * cfg.clock := Nat.mul_pos hn cfg.clock_pos
  have hle := (nextSlot_le cfg b).2
  unfold occupyBus
  rw [if_neg (by omega)]
  simp [reschedule, require, granted, show b.curTick ≤ b.nextSlot cfg + n * cfg.clock by omega]

/-- The cycles that a packet takes: the data is not sent to a target that refuses it. -/
def cyclesOf (cfg : BusConfig ι) (sent : Bool) (pkt : Packet) : Nat :=
  cfg.headerCycles + if sent then dataCycles cfg pkt else 0

/-- A packet that the bus does not turn away. -/
theorem recvTiming_granted (cfg : BusConfig ι) {x : BusSend ι} (hno : b.refuses x = false)
    (hx : x.pkt.expressSnoop = false) (hs : Sendable x.src x.toSending) :
    ∃ sent heard, (x.accepted = true → sent = true) ∧
      (b.recvTiming cfg x).1 = (b.settled sent x.src).granted cfg (cyclesOf cfg sent x.pkt) heard := by
  have hpos : ∀ sent, 0 < cyclesOf cfg sent x.pkt := fun sent => Nat.add_pos_left cfg.headerCycles_pos _
  have htaken : ∀ heard, ({ b with tickNextIdle := b.nextSlot cfg, heard } : TimingBus ι).taken
      (b.nextSlot cfg + cfg.headerCycles * cfg.clock + dataCycles cfg x.pkt * cfg.clock) =
      (b.settled true x.src).granted cfg (cyclesOf cfg true x.pkt) heard := by
    intro heard
    have hocc := occupyBus_granted cfg b (hpos true) heard
    rw [cyclesOf, if_pos rfl, Nat.add_mul, ← Nat.add_assoc] at hocc
    unfold taken settled cyclesOf
    simp only [hocc, if_true]
    by_cases hin : b.inRetry = true
    · rw [if_pos hin, ← popFront_granted]
      exact if_pos hin
    · rw [if_neg hin]
      exact if_neg hin
  have hrefused : ∀ heard, (({ b with tickNextIdle := b.nextSlot cfg, heard } : TimingBus ι).addToRetryList
      x.src).occupyBus (b.nextSlot cfg + cfg.headerCycles * cfg.clock) =
      (b.settled false x.src).granted cfg (cyclesOf cfg false x.pkt) heard := by
    intro heard
    rw [addToRetryList_with, ← addToRetryList_nextSlot x.src]
    exact occupyBus_granted cfg _ (hpos false) heard
  have hslot : (if b.tickNextIdle < b.curTick then nextCycle cfg b.curTick else b.tickNextIdle) = b.nextSlot cfg := rfl
  unfold recvTiming
  rw [hno, if_neg Bool.false_ne_true]
  simp only [hx, Bool.false_eq_true, if_false, calcPacketTiming, hs.1, ne_eq, not_false_eq_true, decide_true,
    require_true, hslot]
  split
  · exact ⟨true, _, fun _ => rfl, htaken _⟩
  · split
    · exact ⟨true, _, fun _ => rfl, htaken _⟩
    · rename_i haccept
      obtain ⟨hresp, hinhibit⟩ := hs.2 (Bool.eq_false_iff.2 haccept)
      simp only [hresp, hinhibit, Bool.not_false, Bool.and_true, require_true]
      exact ⟨false, _, fun h => absurd h haccept, hrefused _⟩

/-- An express snoop uses no cycle. -/
theorem recvTiming_express (cfg : BusConfig ι) {x : BusSend ι} (hx : x.pkt.expressSnoop = true)
    (ha : x.accepted = true) (hs : Sendable x.src x.toSending) (hin : b.inRetry = false) :
    ∃ heard, (b.recvTiming cfg x).1 = { b with heard } := by
  have htaken : ∀ heard, ({ b with heard } : TimingBus ι).taken 0 = { b with heard } := fun heard => by
    simp [taken, occupyBus, hin]
  have hno : b.refuses x = false := by simp [refuses, hx]
  unfold recvTiming
  rw [hno, if_neg Bool.false_ne_true]
  simp only [hx, if_true, hs.1, ne_eq, not_false_eq_true, decide_true, require_true, ha]
  split
  · exact ⟨_, htaken _⟩
  · exact ⟨_, htaken _⟩

theorem recvTiming_refused {x : BusSend ι} (h : b.refuses x = true) :
    b.recvTiming cfg x = (b.addToRetryList x.src, false) :=
  if_pos h

/-- A device that has nothing to send loses its turn. -/
theorem missedGrant_granted (h : cfg.clock ∣ b.tickNextIdle) :
    b.missedGrant cfg = b.popFront.granted cfg 1 b.heard := by
  obtain ⟨hidle, hnow, hheard⟩ : b.popFront.tickNextIdle = b.tickNextIdle ∧ b.popFront.curTick = b.curTick ∧
      b.popFront.heard = b.heard := by
    unfold popFront
    split <;> exact ⟨rfl, rfl, rfl⟩
  have hslot := catchUp_nextSlot (b := b.popFront) (hidle ▸ h)
  have hle := (nextSlot_le cfg b.popFront).2
  unfold missedGrant
  dsimp only
  rw [hslot]
  simp [reschedule, require, granted, hheard, show b.popFront.curTick ≤ b.popFront.nextSlot cfg + cfg.clock by omega]

end

/-! ## The invariant -/

/-- The retry list: the ports know whether they are on it, and those who joined it have
left it from its head. -/
structure Lined [DecidableEq ι] (b : TimingBus ι) : Prop where
  nodup : b.retryList.Nodup
  flags : ∀ p, b.onRetryList p = decide (p ∈ b.retryList)
  order : b.joined = b.left ++ b.retryList

/-- The bus is given to one packet at a time, and `busIdle` comes when it is free. -/
structure Timed (cfg : BusConfig ι) (b : TimingBus ι) : Prop where
  aligned : cfg.clock ∣ b.tickNextIdle
  scheduled : ∀ t ∈ b.busIdle, t = b.tickNextIdle ∧ b.curTick ≤ t
  apart : b.occupied.Pairwise fun x y => x.2 ≤ y.1
  within : ∀ x ∈ b.occupied, x.1 < x.2 ∧ x.2 ≤ b.tickNextIdle

structure Steady [DecidableEq ι] (cfg : BusConfig ι) (b : TimingBus ι) : Prop extends Lined b, Timed cfg b where
  fine : b.failed = false
  between : b.inRetry = false

/-- No assertion has failed, and whoever waits, for the bus or for it to drain, will be
woken up. -/
structure Sound [DecidableEq ι] (cfg : BusConfig ι) (b : TimingBus ι) : Prop extends Steady cfg b where
  awake : b.retryList ≠ [] ∨ b.drainEvent = true → b.busIdle.isSome = true

theorem Timed.granted (h : b.Timed cfg) {n : Nat} (hn : 0 < n) (heard : List (ι × Packet)) :
    (b.granted cfg n heard).Timed cfg where
  aligned := Nat.dvd_add (nextSlot_dvd h.aligned) (Nat.dvd_mul_left ..)
  scheduled t ht := by
    obtain rfl := Option.some.inj ht
    exact ⟨rfl, Nat.le_add_right_of_le (nextSlot_le cfg b).2⟩
  apart := by
    refine List.pairwise_append.2 ⟨h.apart, List.pairwise_singleton _ _, fun x hx y hy => ?_⟩
    rw [List.mem_singleton.1 hy]
    exact Nat.le_trans (h.within x hx).2 (nextSlot_le cfg b).1
  within x hx := by
    have hpos : 0 < n * cfg.clock := Nat.mul_pos hn cfg.clock_pos
    have hle := (nextSlot_le cfg b).1
    show x.1 < x.2 ∧ x.2 ≤ b.nextSlot cfg + n * cfg.clock
    rcases List.mem_append.1 hx with hx | hx
    · obtain ⟨h1, h2⟩ := h.within x hx
      exact ⟨h1, by omega⟩
    · rw [List.mem_singleton.1 hx]
      exact ⟨Nat.lt_add_of_pos_right hpos, Nat.le_refl _⟩

variable [DecidableEq ι]

theorem Lined.enlist (h : b.Lined) {p : ι} (hp : p ∉ b.retryList) : (b.enlist p).Lined where
  nodup := by
    refine List.nodup_append.2 ⟨h.nodup, List.pairwise_singleton _ p, fun a ha c hc hac => hp ?_⟩
    rwa [← List.mem_singleton.1 hc, ← hac]
  flags q := by
    show Function.update b.onRetryList p true q = decide (q ∈ b.retryList ++ [p])
    by_cases hq : q = p
    · simp [hq]
    · simp [hq, h.flags]
  order := by
    show b.joined ++ [p] = b.left ++ (b.retryList ++ [p])
    rw [h.order, List.append_assoc]

theorem popFront_cons {p : ι} {rest : List ι} (h : b.retryList = p :: rest) :
    b.popFront = { b with
      onRetryList := Function.update b.onRetryList p false, retryList := rest, inRetry := false
      left := b.left ++ [p] } := by
  simp [popFront, h]

theorem popFront_inRetry (c : Bool) : popFront { b with inRetry := c } = b.popFront := rfl

theorem Lined.popFront (h : b.Lined) {p : ι} {rest : List ι} (hline : b.retryList = p :: rest) :
    b.popFront.Lined := by
  have hnodup := h.nodup
  have horder := h.order
  rw [hline] at hnodup horder
  rw [popFront_cons hline]
  refine ⟨hnodup.tail, fun q => ?_, ?_⟩
  · have hflag := h.flags q
    rw [hline] at hflag
    by_cases hq : q = p
    · simp [hq, (List.nodup_cons.1 hnodup).1]
    · simpa [hq] using hflag
  · rw [horder, List.append_assoc]
    rfl

theorem Steady.granted (h : b.Steady cfg) {n : Nat} (hn : 0 < n) (heard : List (ι × Packet)) :
    (b.granted cfg n heard).Steady cfg :=
  ⟨⟨h.nodup, h.flags, h.order⟩, h.toTimed.granted hn heard, h.fine, h.between⟩

theorem Steady.popFront (h : b.Steady cfg) {p : ι} {rest : List ι} (hline : b.retryList = p :: rest) :
    b.popFront.Steady cfg := by
  refine ⟨h.toLined.popFront hline, ?_, ?_, ?_⟩ <;> rw [popFront_cons hline]
  · exact ⟨h.aligned, h.scheduled, h.apart, h.within⟩
  · exact h.fine

theorem Steady.enlist (h : b.Steady cfg) {p : ι} (hp : p ∉ b.retryList) : (b.enlist p).Steady cfg :=
  ⟨h.toLined.enlist hp, ⟨h.aligned, h.scheduled, h.apart, h.within⟩, h.fine, h.between⟩

/-- A port that is not in line goes to its end. -/
theorem Steady.addToRetryList (h : b.Steady cfg) {p : ι} (hp : p ∉ b.retryList) : b.addToRetryList p = b.enlist p := by
  have hflag : b.onRetryList p = false := by
    rw [h.flags]
    exact decide_eq_false hp
  simp [TimingBus.addToRetryList, h.between, hflag]

/-! ## Retries -/

/-- What happens when the port at the head of the list is retried: it leaves, it leaves and
comes back with the rest of its request, or it stays because its target has refused. -/
inductive Turn (cfg : BusConfig ι) (sends : List (Sending ι)) (front : ι) (b : TimingBus ι) : TimingBus ι → Prop
  | leaves (n : Nat) (heard : List (ι × Packet)) (size : n = 1 ∨ ∃ x ∈ sends, n = cyclesOf cfg true x.pkt) :
    Turn cfg sends front b (b.popFront.granted cfg n heard)
  | rejoins (n : Nat) (heard : List (ι × Packet)) (size : n = 1 ∨ ∃ x ∈ sends, n = cyclesOf cfg true x.pkt) :
    Turn cfg sends front b ((b.popFront.granted cfg n heard).enlist front)
  | stays (n : Nat) (heard : List (ι × Packet)) (pos : 0 < n) (refused : ∃ x ∈ sends, x.accepted = false) :
    Turn cfg sends front b (b.granted cfg n heard)

omit [DecidableEq ι] in
theorem cyclesOf_pos (cfg : BusConfig ι) (sent : Bool) (pkt : Packet) : 0 < cyclesOf cfg sent pkt :=
  Nat.add_pos_left cfg.headerCycles_pos _

/-- What the port at the head of the list sends in its turn is not turned away. -/
theorem retry_sends (h : b.Steady cfg) {front : ι} {rest : List ι} (hline : b.retryList = front :: rest)
    (hidle : b.tickNextIdle ≤ b.curTick) {x : Sending ι} (hx : x.pkt.expressSnoop = false) (hs : Sendable front x) :
    ∃ sent heard, (x.accepted = true → sent = true) ∧
      (recvTiming cfg ⟨x, front⟩ { b with inRetry := true }).1 =
        (if sent then b.popFront else b).granted cfg (cyclesOf cfg sent x.pkt) heard := by
  have hno : refuses ⟨x, front⟩ { b with inRetry := true } = false := by
    simp [refuses, hline, Nat.not_lt.2 hidle]
  obtain ⟨sent, heard, himp, heq⟩ := recvTiming_granted cfg hno hx hs
  refine ⟨sent, heard, himp, heq.trans (congrArg _ ?_)⟩
  cases sent with
  | true =>
    exact popFront_inRetry true
  | false =>
    have hflag : b.onRetryList front = true := by simp [h.flags, hline]
    show TimingBus.addToRetryList front { b with inRetry := true } = b
    unfold TimingBus.addToRetryList
    rw [if_pos rfl, if_pos hflag]
    simp only [hline, List.head?_cons, decide_true, require_true]
    rw [← hline, ← h.between]

theorem sendRetry_turn (h : b.Steady cfg) {front : ι} {rest : List ι} (hline : b.retryList = front :: rest)
    (hidle : b.tickNextIdle ≤ b.curTick) {sends : List (Sending ι)} (ho : Orderly front sends) :
    Turn cfg sends front b (b.sendRetry cfg front sends) := by
  obtain ⟨hlen, hsend, hfirst⟩ := ho
  have hpop := h.popFront hline
  have hout : front ∉ b.popFront.retryList := by
    rw [popFront_cons hline]
    have hnodup := h.nodup
    rw [hline] at hnodup
    exact (List.nodup_cons.1 hnodup).1
  unfold sendRetry
  cases sends with
  | nil =>
    simp only [List.foldl_nil, if_true]
    rw [missedGrant_granted (b := { b with inRetry := true }) h.aligned, popFront_inRetry]
    exact .leaves 1 _ (.inl rfl)
  | cons x sends =>
    obtain ⟨hx, hok⟩ := hsend x List.mem_cons_self
    obtain ⟨sent, heard, himp, heq⟩ := retry_sends h hline hidle hx hok
    simp only [List.foldl_cons, heq]
    cases sends with
    | nil =>
      rw [List.foldl_nil]
      cases sent with
      | true =>
        rw [if_pos rfl, if_neg (by simp [TimingBus.granted, hpop.between])]
        exact .leaves _ _ (.inr ⟨x, List.mem_cons_self, rfl⟩)
      | false =>
        rw [if_neg Bool.false_ne_true, if_neg (by simp [TimingBus.granted, h.between])]
        exact .stays _ _ (cyclesOf_pos ..) ⟨x, List.mem_cons_self, by simpa using himp⟩
    | cons y sends =>
      cases sends with
      | cons _ _ => simp at hlen
      | nil =>
        -- the bus is busy with the first half
        obtain rfl : sent = true := himp (hfirst rfl x rfl)
        rw [if_pos rfl, List.foldl_cons, List.foldl_nil]
        have hgranted := hpop.granted (cyclesOf_pos cfg true x.pkt) heard
        have hbusy : (b.popFront.granted cfg (cyclesOf cfg true x.pkt) heard).refuses ⟨y, front⟩ = true := by
          have hbusy := granted_busy cfg b.popFront (cyclesOf_pos cfg true x.pkt) heard
          simp only [refuses, (hsend y (by simp)).1, decide_eq_true hbusy, Bool.not_false, Bool.true_or,
            Bool.and_self]
        rw [recvTiming_refused hbusy, hgranted.addToRetryList hout, if_neg (by simp [enlist, hgranted.between])]
        exact .rejoins _ _ (.inr ⟨x, List.mem_cons_self, rfl⟩)

theorem Turn.steady {sends : List (Sending ι)} {front : ι} {rest : List ι} {b' : TimingBus ι}
    (ht : Turn cfg sends front b b') (h : b.Steady cfg) (hline : b.retryList = front :: rest) :
    b'.Steady cfg ∧ b'.busIdle.isSome = true := by
  have hpos : ∀ n, (n = 1 ∨ ∃ x ∈ sends, n = cyclesOf cfg true x.pkt) → 0 < n := by
    rintro n (rfl | ⟨x, -, rfl⟩)
    · exact Nat.one_pos
    · exact cyclesOf_pos ..
  cases ht with
  | leaves n heard size => exact ⟨(h.popFront hline).granted (hpos n size) heard, rfl⟩
  | rejoins n heard size =>
    refine ⟨((h.popFront hline).granted (hpos n size) heard).enlist ?_, rfl⟩
    show front ∉ b.popFront.retryList
    rw [popFront_cons hline]
    have hnodup := h.nodup
    rw [hline] at hnodup
    exact (List.nodup_cons.1 hnodup).1
  | stays n heard pos => exact ⟨h.granted pos heard, rfl⟩

theorem checkDrain_sound (h : b.Steady cfg)
    (hawake : b.retryList ≠ [] ∨ b.drainEvent = true →
      b.busIdle.isSome = true ∨ b.retryList = [] ∧ b.tickNextIdle ≤ b.curTick) : b.checkDrain.Sound cfg := by
  unfold checkDrain
  split
  · rename_i hdone
    simp only [Bool.and_eq_true, List.isEmpty_iff] at hdone
    refine ⟨⟨⟨h.nodup, h.flags, h.order⟩, ⟨h.aligned, h.scheduled, h.apart, h.within⟩, h.fine, h.between⟩, ?_⟩
    rintro (hne | hdrain)
    · exact absurd hdone.1.2 hne
    · exact absurd hdrain Bool.false_ne_true
  · rename_i hnot
    refine ⟨h, fun hwait => ?_⟩
    rcases hawake hwait with hsome | ⟨hempty, hidle⟩
    · exact hsome
    · rcases hwait with hne | hdrain
      · exact absurd hempty hne
      · simp [hempty, hidle, hdrain] at hnot

theorem recvRetry_sound (h : b.Steady cfg)
    (hawake : b.retryList ≠ [] ∨ b.drainEvent = true → b.busIdle.isSome = true ∨ b.tickNextIdle ≤ b.curTick)
    {sends : List (Sending ι)} (ho : ∀ p ∈ b.retryList.head?, Orderly p sends) : (b.recvRetry cfg sends).Sound cfg := by
  unfold recvRetry
  split
  · rename_i hempty
    refine checkDrain_sound h fun hwait => ?_
    exact (hawake hwait).imp_right fun hidle => ⟨hempty, hidle⟩
  · rename_i front rest hline
    split
    · rename_i hidle
      have hturn := sendRetry_turn h hline hidle (ho front (by rw [hline]; rfl))
      obtain ⟨hsteady, hsome⟩ := hturn.steady h hline
      exact checkDrain_sound hsteady fun _ => .inl hsome
    · rename_i hbusy
      exact checkDrain_sound h fun hwait => .inl ((hawake hwait).resolve_right hbusy)

/-! ## Runs -/

theorem initial_sound (cfg : BusConfig ι) (now : Nat) : (initial cfg now).Sound cfg := by
  unfold initial startup
  split
  · refine ⟨⟨⟨.nil, fun _ => rfl, rfl⟩, ⟨?_, ?_, .nil, ?_⟩, rfl, rfl⟩, ?_⟩
    · exact Nat.dvd_add (Nat.dvd_mul_left ..) (Nat.dvd_refl _)
    · simp
    · simp
    · simp
  · refine ⟨⟨⟨.nil, fun _ => rfl, rfl⟩, ⟨Nat.dvd_zero _, ?_, .nil, ?_⟩, rfl, rfl⟩, ?_⟩ <;> simp

theorem send_sound (h : b.Sound cfg) {x : BusSend ι} (hen : b.Enabled (.send x)) :
    (b.recvTiming cfg x).1.Sound cfg := by
  obtain ⟨hs, ⟨hx, ha⟩ | ⟨hx, hsrc, hstart⟩⟩ := hen
  · obtain ⟨heard, heq⟩ := recvTiming_express cfg hx ha hs h.between
    rw [heq]
    exact ⟨⟨⟨h.nodup, h.flags, h.order⟩, ⟨h.aligned, h.scheduled, h.apart, h.within⟩, h.fine, h.between⟩, h.awake⟩
  · have hadd := h.toSteady.addToRetryList hsrc
    cases hno : b.refuses x with
    | true =>
      rw [recvTiming_refused hno, hadd]
      refine ⟨h.toSteady.enlist hsrc, fun _ => ?_⟩
      show b.busIdle.isSome = true
      by_cases hempty : b.retryList = []
      · simp [refuses, hempty] at hno
        rw [Option.isSome_iff_ne_none]
        intro hnone
        have := hstart hnone
        omega
      · exact h.awake (.inl hempty)
    | false =>
      obtain ⟨sent, heard, -, heq⟩ := recvTiming_granted cfg hno hx hs
      rw [heq]
      refine ⟨Steady.granted ?_ (cyclesOf_pos ..) heard, fun _ => rfl⟩
      unfold settled
      simp only [h.between, Bool.false_eq_true, if_false, hadd]
      split
      · exact h.toSteady
      · exact h.toSteady.enlist hsrc

theorem step_sound (b : TimingBus ι) (a : Action ι) (h : b.Sound cfg) (hen : b.Enabled a) :
    (step cfg b a).Sound cfg := by
  cases a with
  | tick n =>
    refine ⟨⟨⟨h.nodup, h.flags, h.order⟩, ⟨h.aligned, fun t ht => ?_, h.apart, h.within⟩, h.fine, h.between⟩, h.awake⟩
    exact ⟨(h.scheduled t ht).1, hen t ht⟩
  | send x => exact send_sound h hen
  | idle sends =>
    obtain ⟨hfires, ho⟩ := hen
    have hidle := (h.scheduled _ hfires).1
    show (busFree cfg sends b).Sound cfg
    unfold busFree
    rw [decide_eq_true hfires, require_true]
    refine recvRetry_sound (b := { b with busIdle := none })
      ⟨⟨h.nodup, h.flags, h.order⟩, ⟨h.aligned, ?_, h.apart, h.within⟩, h.fine, h.between⟩ ?_ ho
    · simp
    · exact fun _ => .inr (Nat.le_of_eq hidle.symm)
  | retry sends => exact recvRetry_sound h.toSteady (fun hwait => .inl (h.awake hwait)) hen
  | drain =>
    show b.drain.1.Sound cfg
    unfold drain
    split
    · rename_i hbusy
      refine ⟨⟨⟨h.nodup, h.flags, h.order⟩, ⟨h.aligned, h.scheduled, h.apart, h.within⟩, h.fine, h.between⟩,
        fun _ => ?_⟩
      simp only [Bool.or_eq_true, Bool.and_eq_true, Bool.not_eq_true', List.isEmpty_eq_false_iff] at hbusy
      rcases hbusy with hne | hsome
      · exact h.awake (.inl hne)
      · exact hsome.2
    · exact h

/-- Two caches and a memory; the bus is eight bytes wide and has a cycle of two ticks. -/
def twoCaches : BusConfig Nat where
  clock := 2
  headerCycles := 1
  width := 8
  clock_pos := Nat.zero_lt_succ 1
  headerCycles_pos := Nat.zero_lt_succ 0
  width_pos := Nat.zero_lt_succ 7
  findPort _ := 0
  snoopPorts := [1, 2]

/-- A line of 16 bytes is read. -/
def lineRead (port : Nat) : BusSend Nat where
  src := port
  pkt := { cmd := .readReq, req := { paddr := 0, size := 16 }, addr := 0, size := 16 }

/-- The memory sends a line to a cache. -/
def lineData (port : Nat) : BusSend Nat where
  src := 0
  dest := some port
  pkt := { (lineRead port).pkt with cmd := .readResp }

/-- The caches read a line each; while the bus sends the first request, the second cache and
the memory, which has the first line, get in line. The second request is refused once. -/
def twoReads : List (Action Nat) :=
  [.send (lineRead 1), .tick 1, .send (lineRead 2), .send (lineData 1), .tick 1,
    .idle [{ pkt := (lineRead 2).pkt, accepted := false }], .tick 2]

/-- Nobody who is retried is refused or takes more than `m` cycles. -/
def Served (cfg : BusConfig ι) (m : Nat) : Action ι → Prop
  | .idle sends | .retry sends => ∀ x ∈ sends, x.accepted = true ∧ cyclesOf cfg true x.pkt ≤ m
  | _ => True

instance (cfg : BusConfig ι) (m : Nat) : DecidablePred (Served cfg m) := by
  rintro ⟨⟩ <;> dsimp only [Served] <;> infer_instance

/-- As long as not all who were in line in `b` have left it, each who has left it took the
bus for at most `m` cycles. -/
structure Progress (cfg : BusConfig ι) (m : Nat) (b b' : TimingBus ι) : Prop where
  joined : b.joined <+: b'.joined
  left : b.left.length ≤ b'.left.length
  time : b'.left.length < b.joined.length →
    b'.tickNextIdle ≤ b.tickNextIdle + (b'.left.length - b.left.length) * (m * cfg.clock)

variable {m : Nat} {b' b'' : TimingBus ι}

omit [DecidableEq ι] in
theorem Progress.of_eq (hjoined : b.joined <+: b'.joined) (hleft : b'.left = b.left)
    (htime : b'.left.length < b.joined.length → b'.tickNextIdle = b.tickNextIdle) : Progress cfg m b b' :=
  ⟨hjoined, Nat.le_of_eq (by rw [hleft]), fun h => Nat.le_add_right_of_le (Nat.le_of_eq (htime h))⟩

omit [DecidableEq ι] in
theorem Progress.trans (h : Progress cfg m b b') (h' : Progress cfg m b' b'') : Progress cfg m b b'' := by
  refine ⟨h.joined.trans h'.joined, Nat.le_trans h.left h'.left, fun hlt => ?_⟩
  have h1 := h.time (Nat.lt_of_le_of_lt h'.left hlt)
  have h2 := h'.time (Nat.lt_of_lt_of_le hlt h.joined.length_le)
  have hsplit : b''.left.length - b.left.length =
      (b'.left.length - b.left.length) + (b''.left.length - b'.left.length) := by
    have := h.left
    have := h'.left
    omega
  rw [hsplit, Nat.add_mul]
  omega

omit [DecidableEq ι] in
theorem Progress.checkDrain (h : Progress cfg m b b') : Progress cfg m b b'.checkDrain := by
  unfold TimingBus.checkDrain
  split
  · exact ⟨h.joined, h.left, h.time⟩
  · exact h

theorem Turn.progress {sends : List (Sending ι)} {front : ι} {rest : List ι} (ht : Turn cfg sends front b b')
    (hline : b.retryList = front :: rest) (hnow : b.curTick ≤ b.tickNextIdle) (hm : 0 < m)
    (hserved : ∀ x ∈ sends, x.accepted = true ∧ cyclesOf cfg true x.pkt ≤ m) : Progress cfg m b b' := by
  have hsize : ∀ n, (n = 1 ∨ ∃ x ∈ sends, n = cyclesOf cfg true x.pkt) → n ≤ m := by
    rintro n (rfl | ⟨x, hx, rfl⟩)
    · exact hm
    · exact (hserved x hx).2
  have hslot : b.popFront.nextSlot cfg = b.tickNextIdle := by
    rw [popFront_cons hline]
    exact nextSlot_of_le hnow
  have hleft : b.popFront.left = b.left ++ [front] := by rw [popFront_cons hline]
  have hjoined : b.popFront.joined = b.joined := by rw [popFront_cons hline]
  have htime : ∀ n, n ≤ m → b.popFront.nextSlot cfg + n * cfg.clock ≤
      b.tickNextIdle + (b.popFront.left.length - b.left.length) * (m * cfg.clock) := by
    intro n hn
    have := Nat.mul_le_mul_right cfg.clock hn
    rw [hslot, hleft, List.length_append, List.length_singleton, Nat.add_sub_cancel_left, Nat.one_mul]
    omega
  have hgrows : b.left.length ≤ b.popFront.left.length := by simp [hleft]
  cases ht with
  | leaves n heard size => exact ⟨hjoined ▸ List.prefix_refl _, hgrows, fun _ => htime n (hsize n size)⟩
  | rejoins n heard size => exact ⟨hjoined ▸ List.prefix_append _ _, hgrows, fun _ => htime n (hsize n size)⟩
  | stays n heard pos refused =>
    obtain ⟨x, hx, hrefused⟩ := refused
    exact absurd (hserved x hx).1 (Bool.eq_false_iff.1 hrefused)

theorem recvRetry_progress (h : b.Steady cfg) (hnow : b.retryList ≠ [] → b.curTick ≤ b.tickNextIdle) (hm : 0 < m)
    {sends : List (Sending ι)} (ho : ∀ p ∈ b.retryList.head?, Orderly p sends)
    (hserved : ∀ x ∈ sends, x.accepted = true ∧ cyclesOf cfg true x.pkt ≤ m) :
    Progress cfg m b (b.recvRetry cfg sends) := by
  unfold recvRetry
  refine Progress.checkDrain ?_
  split
  · exact .of_eq (List.prefix_refl _) rfl fun _ => rfl
  · rename_i front rest hline
    split
    · rename_i hidle
      exact (sendRetry_turn h hline hidle (ho front (by rw [hline]; rfl))).progress hline
        (hnow (by simp [hline])) hm hserved
    · exact .of_eq (List.prefix_refl _) rfl fun _ => rfl

/-- While somebody waits, the bus is not free before its next cycle. -/
theorem Sound.pending (h : b.Sound cfg) (hne : b.retryList ≠ []) : b.curTick ≤ b.tickNextIdle := by
  obtain ⟨t, ht⟩ := Option.isSome_iff_exists.1 (h.awake (.inl hne))
  obtain ⟨rfl, hle⟩ := h.scheduled t ht
  exact hle

theorem send_progress (h : b.Sound cfg) {x : BusSend ι} (hen : b.Enabled (.send x)) :
    Progress cfg m b (b.recvTiming cfg x).1 := by
  obtain ⟨hs, ⟨hx, ha⟩ | ⟨hx, hsrc, -⟩⟩ := hen
  · obtain ⟨heard, heq⟩ := recvTiming_express cfg hx ha hs h.between
    rw [heq]
    exact .of_eq (List.prefix_refl _) rfl fun _ => rfl
  · have hadd := h.toSteady.addToRetryList hsrc
    cases hno : b.refuses x with
    | true =>
      rw [recvTiming_refused hno, hadd]
      exact .of_eq (List.prefix_append _ _) rfl fun _ => rfl
    | false =>
      -- nobody is in line
      have hempty : b.retryList = [] := by
        by_contra hne
        simp [refuses, hx, h.between, hne] at hno
      have hdone : b.joined.length = b.left.length := by simp [h.order, hempty]
      obtain ⟨sent, heard, -, heq⟩ := recvTiming_granted cfg hno hx hs
      rw [heq]
      unfold settled
      simp only [h.between, Bool.false_eq_true, if_false, hadd]
      split
      · exact .of_eq (List.prefix_refl _) rfl fun hlt => absurd hdone (Nat.ne_of_gt hlt)
      · exact .of_eq (List.prefix_append _ _) rfl fun hlt => absurd hdone (Nat.ne_of_gt hlt)

theorem step_progress (hm : 0 < m) (h : b.Sound cfg) {a : Action ι} (hen : b.Enabled a) (hserved : Served cfg m a) :
    Progress cfg m b (step cfg b a) := by
  cases a with
  | tick n => exact .of_eq (List.prefix_refl _) rfl fun _ => rfl
  | send x => exact send_progress h hen
  | idle sends =>
    obtain ⟨hfires, ho⟩ := hen
    show Progress cfg m b (busFree cfg sends b)
    unfold busFree
    rw [decide_eq_true hfires, require_true]
    have hsteady : Steady cfg { b with busIdle := none } :=
      ⟨⟨h.nodup, h.flags, h.order⟩, ⟨h.aligned, by simp, h.apart, h.within⟩, h.fine, h.between⟩
    obtain ⟨h1, h2, h3⟩ := recvRetry_progress hsteady h.pending hm ho hserved
    exact ⟨h1, h2, h3⟩
  | retry sends => exact recvRetry_progress h.toSteady h.pending hm hen hserved
  | drain =>
    show Progress cfg m b b.drain.1
    unfold drain
    split
    · exact .of_eq (List.prefix_refl _) rfl fun _ => rfl
    · exact .of_eq (List.prefix_refl _) rfl fun _ => rfl

theorem run_progress (hm : 0 < m) : ∀ (as : List (Action ι)) (b : TimingBus ι), b.Sound cfg →
    Runs.Guarded (step cfg) Enabled b as → (∀ a ∈ as, Served cfg m a) → Progress cfg m b (Runs.exec (step cfg) b as)
  | [], _, _, _, _ => .of_eq (List.prefix_refl _) rfl fun _ => rfl
  | a :: as, b, h, hrun, hserved => by
    have hstep := step_progress hm h hrun.1 (hserved a List.mem_cons_self)
    have hrest := run_progress hm as _ (step_sound b a h hrun.1) hrun.2 fun a' ha' =>
      hserved a' (List.mem_cons_of_mem a ha')
    exact hstep.trans hrest

/-- Where no target refuses and no packet takes more than `m` cycles, a port with `k` others
before it waits for at most `k * m` cycles from the end of the current one on. -/
theorem bounded_waiting (cfg : BusConfig ι) (now m k : Nat) (hm : 0 < m) (as bs : List (Action ι))
    (hrun : Runs.Guarded (step cfg) Enabled (initial cfg now) (as ++ bs)) (hserved : ∀ a ∈ bs, Served cfg m a)
    (hk : k < (Runs.exec (step cfg) (initial cfg now) as).retryList.length)
    (hlate : (Runs.exec (step cfg) (initial cfg now) as).tickNextIdle + k * (m * cfg.clock) <
      (Runs.exec (step cfg) (initial cfg now) (as ++ bs)).curTick) :
    (Runs.exec (step cfg) (initial cfg now) as).left ++
        (Runs.exec (step cfg) (initial cfg now) as).retryList.take (k + 1)
      <+: (Runs.exec (step cfg) (initial cfg now) (as ++ bs)).left := by
  obtain ⟨hfirst, hrest⟩ := (Runs.guarded_append ..).1 hrun
  rw [Runs.exec_append] at hlate ⊢
  have h := Runs.exec_invariant step_sound as _ (initial_sound cfg now) hfirst
  have h' := Runs.exec_invariant step_sound bs _ h hrest
  have hprogress := run_progress hm bs _ h hrest hserved
  generalize Runs.exec (step cfg) (initial cfg now) as = b at *
  generalize Runs.exec (step cfg) b bs = b' at *
  have hlen : b.joined.length = b.left.length + b.retryList.length := by rw [h.order, List.length_append]
  have hdone : b.left.length + (k + 1) ≤ b'.left.length := by
    by_contra hless
    have hwaits : b'.retryList ≠ [] := by
      intro hempty
      have := hprogress.joined.length_le
      rw [h'.order, hempty, List.append_nil] at this
      omega
    have hpending := h'.pending hwaits
    have htime := hprogress.time (by omega)
    have := Nat.mul_le_mul_right (m * cfg.clock) (show b'.left.length - b.left.length ≤ k by omega)
    omega
  have hbefore : b.left ++ b.retryList.take (k + 1) <+: b'.joined := by
    refine List.IsPrefix.trans ?_ hprogress.joined
    rw [h.order]
    exact (List.prefix_append_right_inj _).2 (List.take_prefix _ _)
  refine List.prefix_of_prefix_length_le hbefore (h'.order ▸ List.prefix_append _ _) ?_
  rw [List.length_append, List.length_take]
  omega

theorem bounded_waiting_two_reads :
    [2, 0] <+: (Runs.exec (step twoCaches) (initial twoCaches 0) (twoReads ++
      [.idle [(lineRead 2).toSending], .tick 2, .idle [(lineData 1).toSending], .tick 5])).left :=
  bounded_waiting twoCaches 0 3 1 (by decide) twoReads _ (by decide) (by decide) (by decide) (by decide)

/-! ## A start between two cycles -/

/-- Nothing has been sent, `p` is at the head of the list and the bus is asleep. -/
structure Stalled (p : ι) (b : TimingBus ι) : Prop where
  asleep : b.busIdle = none
  between : b.inRetry = false
  waits : b.retryList.head? = some p
  none_left : b.left = []
  unused : b.occupied = []

/-- Events come when they are scheduled, and no device asks the bus for a retry. -/
def Quiet (b : TimingBus ι) : Action ι → Prop
  | .idle _ => b.busIdle = some b.curTick
  | .retry _ => False
  | _ => True

instance (b : TimingBus ι) : DecidablePred b.Quiet := by
  rintro ⟨⟩ <;> dsimp only [Quiet] <;> infer_instance

theorem Stalled.addToRetryList {p : ι} (h : b.Stalled p) (q : ι) : (b.addToRetryList q).Stalled p := by
  unfold TimingBus.addToRetryList
  rw [h.between, if_neg Bool.false_ne_true]
  refine ⟨h.asleep, h.between, ?_, h.none_left, h.unused⟩
  show (b.retryList ++ [q]).head? = some p
  rw [List.head?_append, h.waits]
  rfl

theorem Stalled.recvTiming {p : ι} (h : b.Stalled p) (x : BusSend ι) : (b.recvTiming cfg x).1.Stalled p := by
  have hne : b.retryList ≠ [] := by
    intro hempty
    have := h.waits
    simp [hempty] at this
  have hframe : ∀ (c : Bool) heard, ({ b.require c with heard } : TimingBus ι).Stalled p := fun c heard =>
    ⟨h.asleep, h.between, h.waits, h.none_left, h.unused⟩
  have htaken : ∀ {b : TimingBus ι}, b.Stalled p → (b.taken 0).Stalled p := fun hb => by
    simp only [taken, occupyBus, if_true, hb.between, Bool.false_eq_true, if_false]
    exact hb
  unfold TimingBus.recvTiming
  cases hx : x.pkt.expressSnoop with
  | false =>
    have hno : b.refuses x = true := by simp [refuses, hx, h.between, hne]
    rw [if_pos hno]
    exact h.addToRetryList x.src
  | true =>
    have hno : b.refuses x = false := by simp [refuses, hx]
    rw [hno, if_neg Bool.false_ne_true]
    simp only [if_true, hx]
    split
    · exact htaken (hframe _ _)
    · split
      · exact htaken (hframe _ _)
      · simp only [occupyBus, if_true]
        refine Stalled.addToRetryList ?_ x.src
        exact ⟨h.asleep, h.between, h.waits, h.none_left, h.unused⟩

theorem Stalled.step {p : ι} (b : TimingBus ι) (a : Action ι) (h : b.Stalled p) (hquiet : b.Quiet a) :
    (step cfg b a).Stalled p := by
  cases a with
  | tick n => exact ⟨h.asleep, h.between, h.waits, h.none_left, h.unused⟩
  | send x => exact h.recvTiming x
  | idle sends =>
    have : b.busIdle = some b.curTick := hquiet
    rw [h.asleep] at this
    cases this
  | retry sends => exact hquiet.elim
  | drain =>
    show b.drain.1.Stalled p
    unfold drain
    split
    · exact ⟨h.asleep, h.between, h.waits, h.none_left, h.unused⟩
    · exact h

/-- A bus that is started later than at tick 0 is busy until its next cycle without an
event for its end: a device that sends a packet before is put in line, and so is everybody
after it, and no packet is sent any more unless a device happens to ask for a retry. -/
theorem startup_stall (cfg : BusConfig ι) (now n : Nat) (hnow : 0 < now)
    (hearly : now + n < now / cfg.clock * cfg.clock + cfg.clock) (x : BusSend ι) (hx : x.pkt.expressSnoop = false)
    (as : List (Action ι))
    (hquiet : Runs.Guarded (step cfg) Quiet (Runs.exec (step cfg) (initial cfg now) [.tick n, .send x]) as) :
    Runs.Along (step cfg) (Stalled x.src) (Runs.exec (step cfg) (initial cfg now) [.tick n, .send x]) as := by
  refine Runs.along_of_guarded Stalled.step as _ ?_ hquiet
  have hbus : initial cfg now =
      { curTick := now, tickNextIdle := now / cfg.clock * cfg.clock + cfg.clock } := if_pos hnow
  have hno : refuses x ({ curTick := now + n, tickNextIdle := now / cfg.clock * cfg.clock + cfg.clock } : TimingBus ι) =
      true := by
    simp [refuses, hx, hearly]
  show (TimingBus.recvTiming cfg x { initial cfg now with curTick := (initial cfg now).curTick + n }).1.Stalled x.src
  rw [hbus, recvTiming_refused hno]
  exact ⟨rfl, rfl, rfl, rfl, rfl⟩

theorem startup_stall_first_read :
    Runs.Along (step twoCaches) (Stalled 1)
      (Runs.exec (step twoCaches) (initial twoCaches 5) [.tick 0, .send (lineRead 1)])
      [.tick 1, .send (lineRead 2), .tick 100] :=
  startup_stall twoCaches 5 0 (by decide) (by decide) (lineRead 1) rfl _ (by decide)

end PrefetchSim.TimingBus
