import DataflowSim.Execution.LseOrder

/-!
# Out-of-order load and store elements

With `lse_O3` the loop of `pushChannel` is meant to look for a response that is ready, but it
moves `sendChanPtr` only after a push. All its turns look at the same slot, and one that is ready
elsewhere has to wait.
-/

namespace DataflowSim.Execution.Lse

open Memory (MemReq)

variable {c : ChanConfig} {lc : LseConfig} {x y : Lse}

/-- The slot holds a response that has not been pushed. -/
def pushable (x : Lse) (index : Nat) : Bool :=
  (x.reqQueue index).1.valid && (x.reqQueue index).1.ready && !(x.reqQueue index).1.hasPushChan

/-- `pushChannel` pushes the response of a slot, and of no other. -/
structure Pushes (e : Clock) (x y : Lse) (index : Nat) : Prop where
  pushable : x.pushable index = true
  channel : y.channel = x.channel ++ [{ (x.reqQueue index).2 with cycle := e.clk }]
  slot : (y.reqQueue index).1.hasPushChan = true
  others : ∀ i ≠ index, y.reqQueue i = x.reqQueue i

/-- Where a response waits and the output channel has room, one is pushed. -/
def Progress (c : ChanConfig) (lc : LseConfig) (e : Clock) (x : Lse) : Prop :=
  (∃ i < lc.reqQueueSize, x.pushable i = true) → x.channel.length < c.size →
    ∃ i < lc.reqQueueSize, Pushes e x (pushChannel c lc e x) i

theorem pushChannel_pushes (e : Clock) (room : x.channel.length < c.size)
    (slots : 0 < lc.reqQueueSize) (here : x.pushable x.sendChanPtr = true) :
    Pushes e x (pushChannel c lc e x) x.sendChanPtr := by
  have ready : (decide (x.channel.length < c.size) && (!lc.lseO3 || decide (0 < lc.reqQueueSize)) &&
      sendable { x with pushChannelSuccess := false }) = true := by
    have here' : sendable { x with pushChannelSuccess := false } = true := here
    simp [room, slots, here']
  unfold pushChannel
  dsimp only
  rw [if_pos ready]
  refine ⟨here, rfl, by simp [setSlot], fun i other => ?_⟩
  simp [setSlot, other]

theorem pushChannel_stays (e : Clock) (waits : x.pushable x.sendChanPtr = false) :
    (pushChannel c lc e x).channel = x.channel := by
  have stays : sendable { x with pushChannelSuccess := false } = false := waits
  unfold pushChannel
  simp [stays]

/-- There is progress unless the response at the pointer is not ready and another one is. -/
theorem progress_iff (e : Clock) (ptr : x.sendChanPtr < lc.reqQueueSize) :
    Progress c lc e x ↔ (∀ i < lc.reqQueueSize, x.pushable i = false) ∨
      c.size ≤ x.channel.length ∨ x.pushable x.sendChanPtr = true := by
  constructor
  · intro progress
    by_contra other
    push Not at other
    obtain ⟨⟨i, bound, some⟩, room, waits⟩ := other
    obtain ⟨j, -, pushed⟩ := progress ⟨i, bound, by simpa using some⟩ room
    have channel := pushed.channel
    rw [pushChannel_stays e (by simpa using waits)] at channel
    simp at channel
  · rintro (none | full | here) ⟨i, bound, some⟩ room
    · simp [none i bound] at some
    · omega
    · exact ⟨x.sendChanPtr, ptr, pushChannel_pushes e room (by omega) here⟩

/-! ## Once for each request -/

/-- The requests that have entered the output channel are different, and are those that the slots
say were pushed. -/
structure Once (entered : List Nat) (v : OrderView) : Prop where
  nodup : entered.Nodup
  old : ∀ k ∈ entered, k < v.orderId
  fresh : ∀ i, (v.slot i).1 = true → (v.slot i).2.1 < v.orderId ∧
    ((v.slot i).2.2.1 = false → (v.slot i).2.1 ∉ entered)
  distinct : ∀ i k, i ≠ k → (v.slot i).1 = true → (v.slot k).1 = true →
    (v.slot i).2.1 ≠ (v.slot k).2.1

variable {entered : List Nat}

/-- A slot that becomes free. -/
theorem Once.release {v w : OrderView} (h : Once entered v) {i : Nat}
    (slot : w.slot = Function.update v.slot i (false, (v.slot i).2)) (order : w.orderId = v.orderId) :
    Once entered w := by
  obtain ⟨nodup, old, fresh, distinct⟩ := h
  refine ⟨nodup, order ▸ old, fun k => ?_, fun k l => ?_⟩
  · rw [slot, order]
    by_cases here : k = i
    · simp [here]
    · rw [Function.update_of_ne here]
      exact fresh k
  · rw [slot]
    by_cases hk : k = i
    · simp [hk]
    · by_cases hl : l = i
      · simp [hl]
      · rw [Function.update_of_ne hk, Function.update_of_ne hl]
        exact distinct k l

/-- A slot that gets a new request. -/
theorem Once.accept {v w : OrderView} (h : Once entered v) {i j : Nat}
    (slot : w.slot = Function.update v.slot i (true, v.orderId, false, j))
    (order : w.orderId = v.orderId + 1) : Once entered w := by
  obtain ⟨nodup, old, fresh, distinct⟩ := h
  refine ⟨nodup, fun k mem => ?_, fun k => ?_, fun k l ne => ?_⟩
  · exact order ▸ (old k mem).trans (Nat.lt_succ_self _)
  · rw [slot, order]
    by_cases here : k = i
    · rw [here, Function.update_self]
      exact fun _ => ⟨Nat.lt_succ_self _, fun _ mem => (old _ mem).false⟩
    · rw [Function.update_of_ne here]
      exact fun valid => ⟨(fresh k valid).1.trans (Nat.lt_succ_self _), (fresh k valid).2⟩
  · rw [slot]
    -- no older request has the new count
    have new (m : Nat) (valid : (v.slot m).1 = true) : v.orderId ≠ (v.slot m).2.1 :=
      (fresh m valid).1.ne'
    by_cases hk : k = i
    · rw [hk, Function.update_self, Function.update_of_ne (hk ▸ ne.symm)]
      exact fun _ => new l
    · by_cases hl : l = i
      · rw [hl, Function.update_self, Function.update_of_ne hk]
        exact fun valid _ => (new k valid).symm
      · rw [Function.update_of_ne hk, Function.update_of_ne hl]
        exact distinct k l ne

/-- A slot whose response enters the output channel. -/
theorem Once.enter {v w : OrderView} (h : Once entered v) {i : Nat} (valid : (v.slot i).1 = true)
    (waits : (v.slot i).2.2.1 = false)
    (slot : w.slot = Function.update v.slot i
      ((v.slot i).1, (v.slot i).2.1, true, (v.slot i).2.2.2)) (order : w.orderId = v.orderId) :
    Once (entered ++ [(v.slot i).2.1]) w := by
  obtain ⟨nodup, old, fresh, distinct⟩ := h
  obtain ⟨bound, new⟩ := fresh i valid
  refine ⟨nodup.append (List.nodup_singleton _) (by simpa using new waits), ?_, fun k => ?_,
    fun k l ne => ?_⟩
  · rw [order]
    exact List.forall_mem_append.mpr ⟨old, by simpa using bound⟩
  · rw [slot, order]
    by_cases here : k = i
    · rw [here, Function.update_self]
      exact fun _ => ⟨bound, fun pushed => by cases pushed⟩
    · rw [Function.update_of_ne here]
      refine fun there => ⟨(fresh k there).1, fun waits mem => ?_⟩
      rcases List.mem_append.mp mem with before | now
      · exact (fresh k there).2 waits before
      · exact distinct k i here there valid (List.mem_singleton.mp now)
  · rw [slot]
    by_cases hk : k = i
    · rw [hk, Function.update_self, Function.update_of_ne (hk ▸ ne.symm)]
      exact fun _ there => distinct i l (hk ▸ ne) valid there
    · by_cases hl : l = i
      · rw [hl, Function.update_self, Function.update_of_ne hk]
        exact fun there _ => distinct k i hk there valid
      · rw [Function.update_of_ne hk, Function.update_of_ne hl]
        exact distinct k l ne

theorem Once.pop (h : Once entered x.orderView) : Once entered (Lse.pop lc x).orderView := by
  cases valid : x.valid with
  | false => simpa [Lse.pop, valid] using h
  | true =>
    rw [Lse.pop, if_pos valid]
    exact h.release (setSlot_slot x (x.channel.headD {}).lseReqQueueIndex _) rfl

theorem Once.selected (h : Once entered y.orderView) (e : Clock) :
    Once entered (Lse.selected c lc e y).orderView := by
  rw [Lse.selected, select_orderView]
  split_ifs
  · cases free : (y.reqQueue y.pushQueuePtr).1.valid with
    | false =>
      rw [pushReqQ_orderView e free]
      exact h.accept rfl rfl
    | true => simpa [Lse.pushReqQ, free] using h
  · exact h

theorem Once.pushChannel (h : Once entered x.orderView) (e : Clock) :
    Once (if enters c lc x then entered ++ [x.countAt x.sendChanPtr] else entered)
      (Lse.pushChannel c lc e x).orderView := by
  rw [pushChannel_orderView e]
  cases ready : enters c lc x with
  | false => exact h
  | true =>
    have here : x.pushable x.sendChanPtr = true := by
      simp only [enters, Bool.and_eq_true] at ready
      exact ready.2
    simp only [pushable, Bool.and_eq_true, Bool.not_eq_true'] at here
    exact h.enter here.1.1 here.2 rfl rfl

/-! ## The law -/

structure JournalOnce (lc : LseConfig) (j : Journal) : Prop where
  lse : Once j.entered j.lse.orderView
  accepted : j.accepted.map Prod.fst = List.range j.lse.orderId
  sendChanPtr : j.lse.sendChanPtr < lc.reqQueueSize

theorem pop_ptrs (x : Lse) :
    (Lse.pop lc x).orderId = x.orderId ∧ (Lse.pop lc x).sendChanPtr = x.sendChanPtr := by
  unfold Lse.pop
  split_ifs <;> exact ⟨rfl, rfl⟩

theorem JournalOnce.between {j : Journal} (h : JournalOnce lc j)
    (same : y.orderView = j.lse.orderView) : JournalOnce lc { j with lse := y } := by
  have order : y.orderId = j.lse.orderId := congrArg OrderView.orderId same
  have ptr : y.sendChanPtr = j.lse.sendChanPtr := congrArg OrderView.sendChanPtr same
  exact ⟨same ▸ h.lse, order ▸ h.accepted, ptr ▸ h.sendChanPtr⟩

theorem selected_ptrs (e : Clock) (y : Lse) :
    (Lse.selected c lc e y).orderId = (if accepts c e y then y.orderId + 1 else y.orderId) ∧
      (Lse.selected c lc e y).sendChanPtr = y.sendChanPtr := by
  have same := @select_orderView c lc e (if Chan.checkDataMatch c e y.toChan then (pushReqQ c lc e y).1 else y)
  have order := congrArg OrderView.orderId same
  have ptr := congrArg OrderView.sendChanPtr same
  simp only [orderView] at order ptr
  rw [Lse.selected, order, ptr]
  cases matched : Chan.checkDataMatch c e y.toChan with
  | false => simp [accepts, matched]
  | true =>
    cases free : (y.reqQueue y.pushQueuePtr).1.valid with
    | false =>
      have view := @pushReqQ_orderView c lc y e free
      simp only [accepts, matched, free, if_true, Bool.not_false, Bool.and_self]
      exact ⟨congrArg OrderView.orderId view, congrArg OrderView.sendChanPtr view⟩
    | true => simp [accepts, matched, free, Lse.pushReqQ]

theorem nextAccepted_range {j : Journal} (h : j.accepted.map Prod.fst = List.range y.orderId)
    (e : Clock) : (nextAccepted c e y j).map Prod.fst =
      List.range (if accepts c e y then y.orderId + 1 else y.orderId) := by
  unfold nextAccepted
  split_ifs
  · simp [h, List.range_succ]
  · exact h

theorem pushChannel_ptrs (e : Clock) (z : Lse) (ptr : z.sendChanPtr < lc.reqQueueSize) :
    (Lse.pushChannel c lc e z).orderId = z.orderId ∧
      (Lse.pushChannel c lc e z).sendChanPtr < lc.reqQueueSize := by
  have view := @pushChannel_orderView c lc z e
  cases ready : enters c lc z with
  | true =>
    rw [if_pos ready] at view
    have next : (Lse.pushChannel c lc e z).sendChanPtr = (z.sendChanPtr + 1) % lc.reqQueueSize :=
      congrArg OrderView.sendChanPtr view
    exact ⟨congrArg OrderView.orderId view, next ▸ Nat.mod_lt _ (by omega)⟩
  | false =>
    rw [if_neg (by simp [ready])] at view
    have same : (Lse.pushChannel c lc e z).sendChanPtr = z.sendChanPtr :=
      congrArg OrderView.sendChanPtr view
    exact ⟨congrArg OrderView.orderId view, same ▸ ptr⟩

theorem JournalOnce.get {j j' : Journal} (h : JournalOnce lc j) (e : Clock) (up : Nat → Upstream)
    (sendable : Bool) (done : step c lc j (.get e up sendable) = some j') : JournalOnce lc j' := by
  set x : Lse := { j.lse with toChan := Chan.parallelize c e j.lse.toChan } with hx
  have view := @arrived_orderView c lc e up j.lse
  set y := Lse.arrived c lc e up j.lse with hy
  have popped : Once j.entered y.orderView := by
    rw [view]
    exact Once.pop ((orderView_toChan j.lse (parallelize_kept e j.lse.toChan).1).symm ▸ h.lse)
  have order : y.orderId = j.lse.orderId :=
    (congrArg OrderView.orderId view).trans (@pop_ptrs lc x).1
  have ptr : y.sendChanPtr = j.lse.sendChanPtr :=
    (congrArg OrderView.sendChanPtr view).trans (@pop_ptrs lc x).2
  have accepted : j.accepted.map Prod.fst = List.range y.orderId := order ▸ h.accepted
  have inside : y.sendChanPtr < lc.reqQueueSize := ptr ▸ h.sendChanPtr
  simp only [Lse.step, ← hy, get_fst] at done
  by_cases updated : y.currId ≤ c.speedup ∨ e.clkAdd = true
  · simp only [if_pos updated] at done
    split_ifs at done with throws
    obtain rfl := Option.some.inj done
    obtain ⟨selectedOrder, selectedPtr⟩ := @selected_ptrs c lc e y
    obtain ⟨pushedOrder, pushedPtr⟩ := @pushChannel_ptrs c lc e (Lse.selected c lc e y)
      (selectedPtr ▸ inside)
    rw [statusUpdate_fst]
    refine ⟨(popped.selected e).pushChannel e, ?_, pushedPtr⟩
    exact (nextAccepted_range accepted e).trans (by rw [← selectedOrder, ← pushedOrder])
  · simp only [if_neg updated] at done
    obtain rfl := Option.some.inj done
    exact ⟨popped, accepted, inside⟩

theorem JournalOnce.step {j j' : Journal} (h : JournalOnce lc j) (event : LseEvent) (done : step c lc j event = some j') : JournalOnce lc j' := by
  cases event with
  | get e up sendable => exact h.get e up sendable done
  | visit taken =>
    cases done
    exact h.between (visit_orderView j.lse taken)
  | ackCallback req =>
    cases done
    exact h.between (ackCallback_orderView j.lse req)
  | edit change =>
    cases done
    exact h.between (orderView_toChan j.lse (by cases change <;> rfl))

theorem run_once (slots : 0 < lc.reqQueueSize) {events : List LseEvent} {j : Journal}
    (done : run c lc events = some j) : JournalOnce lc j := by
  have start : JournalOnce lc {} := by
    refine ⟨⟨List.nodup_nil, by simp, ?_, ?_⟩, rfl, slots⟩ <;> simp [orderView, slotView]
  exact Run.invariant (fun j event j' h one => h.step event one) start done

/-- Out of order a call of `pushChannel` pushes a waiting response exactly when the one at
`sendChanPtr` is ready. In every run each request is pushed at most once. -/
theorem pushChannel_outOfOrder (c : ChanConfig) (lc : LseConfig) (outOfOrder : lc.lseO3 = true)
    (slots : 0 < lc.reqQueueSize) :
    (∀ e x, x.sendChanPtr < lc.reqQueueSize → (Progress c lc e x ↔
      (∀ i < lc.reqQueueSize, x.pushable i = false) ∨ c.size ≤ x.channel.length ∨
        x.pushable x.sendChanPtr = true)) ∧
    ∀ events, ∃ j, run c lc events = some j ∧ j.accepted.map Prod.fst = List.range j.lse.orderId ∧
      j.entered.Nodup ∧ j.lse.sendChanPtr < lc.reqQueueSize := by
  refine ⟨fun e x ptr => progress_iff e ptr, fun events => ?_⟩
  have goes (j : Journal) (event : LseEvent) : ∃ j', step c lc j event = some j' := by
    cases event with
    | get e up sendable =>
      simp only [step, inconsistent, outOfOrder, Bool.not_true, Bool.false_and, Bool.false_eq_true,
        if_false]
      split_ifs <;> exact ⟨_, rfl⟩
    | visit taken => exact ⟨_, rfl⟩
    | ackCallback req => exact ⟨_, rfl⟩
    | edit change => exact ⟨_, rfl⟩
  obtain ⟨j, done, -⟩ := @Run.total _ _ (step c lc) (fun _ _ => True) events
    (fun _ event _ j _ _ => (goes j event).imp fun _ one => ⟨one, trivial⟩) {} trivial
  have once := run_once slots done
  exact ⟨j, done, once.accepted, once.lse.nodup, once.sendChanPtr⟩

/-- A load with two slots. -/
def load : ChanConfig := { size := 2, upNum := 1 }

def loadSlots : LseConfig := { reqQueueSize := 2, lseO3 := true }

theorem pushChannel_outOfOrder_load :
    (∀ e x, x.sendChanPtr < 2 → (Progress load loadSlots e x ↔
      (∀ i < 2, x.pushable i = false) ∨ 2 ≤ x.channel.length ∨ x.pushable x.sendChanPtr = true)) ∧
    ∀ events, ∃ j, run load loadSlots events = some j ∧
      j.accepted.map Prod.fst = List.range j.lse.orderId ∧ j.entered.Nodup ∧ j.lse.sendChanPtr < 2 :=
  pushChannel_outOfOrder load loadSlots rfl (by decide)

/-- Two requests are accepted and handed to the memory, and the second one is acknowledged. -/
def secondAcked : List LseEvent :=
  let call (clk : Nat) : LseEvent := .get { clk := clk } (fun _ => { valid := true, value := 7 }) true
  let first : MemReq := { valid := true, addr := 7 }
  let second : MemReq := { first with cnt := 1, lseReqQueueIndex := 1 }
  [call 0, .visit (some first), call 1, .visit (some second), .ackCallback { second with ready := true }]

/-- The memory has both, the second response is ready, the channel is empty, and nothing is pushed. -/
theorem second_response_waits : ∃ j, run load loadSlots secondAcked = some j ∧
    (j.lse.reqQueue 0).1.inflight = true ∧ j.lse.pushable 1 = true ∧ j.lse.channel = [] ∧
    (pushChannel load loadSlots { clk := 2 } j.lse).channel = [] ∧
    ¬ Progress load loadSlots { clk := 2 } j.lse := by
  obtain ⟨j, done⟩ : ∃ j, run load loadSlots secondAcked = some j := ⟨_, rfl⟩
  have views : (run load loadSlots secondAcked).map (fun j => ((j.lse.reqQueue 0).1.inflight,
      j.lse.pushable 1, j.lse.channel, (pushChannel load loadSlots { clk := 2 } j.lse).channel)) =
      some (true, true, [], []) := by
    decide +kernel
  rw [done] at views
  simp only [Option.map_some, Option.some.injEq, Prod.mk.injEq] at views
  obtain ⟨inflight, ready, room, stays⟩ := views
  refine ⟨j, done, inflight, ready, room, stays, fun progress => ?_⟩
  obtain ⟨i, -, pushed⟩ := progress ⟨1, by decide, ready⟩ (by rw [room]; decide)
  have channel := pushed.channel
  simp [stays, room] at channel

end DataflowSim.Execution.Lse
