import DataflowSim.Execution.LseRun

/-!
# In-order load and store elements

Without `lse_O3` the pushing pointer, the pointer to the output channel and the slot of the
response that leaves next go around `reqQueue` one behind the other. Request `k` is in slot `k`
modulo the number of slots from its acceptance until its response has left.
-/

namespace DataflowSim.Execution.Lse

open Memory (MemReq)

variable {c : ChanConfig} {lc : LseConfig} {x y : Lse}

/-! ## What the order rests on -/

/-- The part of a slot that only `pushReqQ`, `pushChannel` and `pop` write. -/
def slotView (slot : MemReq × Data) : Bool × Nat × Bool × Nat :=
  (slot.1.valid, slot.1.cnt, slot.1.hasPushChan, slot.2.lseReqQueueIndex)

structure OrderView where
  slot : Nat → Bool × Nat × Bool × Nat
  pushQueuePtr : Nat
  sendChanPtr : Nat
  orderId : Nat
  currReqId : Nat
  channel : List Data
  valueQueue : List Int

def orderView (x : Lse) : OrderView :=
  ⟨fun i => slotView (x.reqQueue i), x.pushQueuePtr, x.sendChanPtr, x.orderId, x.currReqId,
    x.channel, x.valueQueue⟩

theorem setSlot_orderView (x : Lse) (i : Nat) {slot : MemReq × Data}
    (same : slotView slot = slotView (x.reqQueue i)) :
    (x.setSlot i slot).orderView = x.orderView := by
  have slots : (fun j => slotView ((x.setSlot i slot).reqQueue j)) =
      fun j => slotView (x.reqQueue j) := by
    funext j
    by_cases here : j = i
    · subst here
      simp [setSlot, same]
    · simp [setSlot, here]
  simp only [orderView, slots]
  rfl

theorem ackCallback_orderView (x : Lse) (req : MemReq) :
    (ackCallback x req).orderView = x.orderView := setSlot_orderView x _ rfl

theorem setInflight_orderView (x : Lse) (req : MemReq) :
    (setInflight x req).orderView = x.orderView := by
  unfold setInflight
  dsimp only
  split_ifs
  · rfl
  · exact setSlot_orderView x.access _ rfl

theorem visit_orderView (x : Lse) (taken : Option MemReq) :
    (visit x taken).orderView = x.orderView := by
  unfold visit
  split
  · exact setInflight_orderView x.access _
  · rfl

theorem select_orderView (e : Clock) (x : Lse) : (select c lc e x).orderView = x.orderView := by
  let req : MemReq := { (x.reqQueue x.sendMemPtr).1 with lseReqQueueIndex := x.sendMemPtr }
  let y := x.access.setSlot x.sendMemPtr (req, (x.reqQueue x.sendMemPtr).2)
  let z := y.setSlot x.sendMemPtr ({ req with inflight := true }, (x.reqQueue x.sendMemPtr).2)
  have chosen : y.orderView = x.orderView := setSlot_orderView x.access _ rfl
  have answered : (ackCallback z req).orderView = x.orderView :=
    (ackCallback_orderView z req).trans ((setSlot_orderView y _ (by simp [y, setSlot, slotView])).trans chosen)
  unfold select
  dsimp only
  split_ifs
  · exact answered
  · exact chosen
  · rfl

theorem setSlot_slot (x : Lse) (i : Nat) (slot : MemReq × Data) :
    (x.setSlot i slot).orderView.slot = Function.update x.orderView.slot i (slotView slot) := by
  funext j
  by_cases here : j = i
  · subst here
    simp [orderView, setSlot]
  · simp [orderView, setSlot, here]

theorem pushReqQ_orderView (e : Clock) (free : (x.reqQueue x.pushQueuePtr).1.valid = false) :
    (Lse.pushReqQ c lc e x).1.orderView = { x.orderView with
      slot := Function.update x.orderView.slot x.pushQueuePtr (true, x.orderId, false, x.pushQueuePtr)
      pushQueuePtr := (x.pushQueuePtr + 1) % lc.reqQueueSize
      orderId := x.orderId + 1
      valueQueue := if lc.isWrite then x.valueQueue ++ [((x.chanBuffer 1).headD {}).value]
        else x.valueQueue } := by
  unfold Lse.pushReqQ
  simp only [free, Bool.false_eq_true, if_false]
  have slots (slot : MemReq × Data) (same : slotView slot = (true, x.orderId, false, x.pushQueuePtr)) :
      (x.setSlot x.pushQueuePtr slot).orderView.slot =
        Function.update x.orderView.slot x.pushQueuePtr (true, x.orderId, false, x.pushQueuePtr) :=
    same ▸ setSlot_slot x _ slot
  exact congrArg (fun f => OrderView.mk f _ _ _ _ _ _) (slots _ rfl)

theorem pushChannel_orderView (e : Clock) : (Lse.pushChannel c lc e x).orderView =
      if enters c lc x then { x.orderView with
        slot := Function.update x.orderView.slot x.sendChanPtr
          ((x.orderView.slot x.sendChanPtr).1, (x.orderView.slot x.sendChanPtr).2.1, true,
            (x.orderView.slot x.sendChanPtr).2.2.2)
        channel := x.channel ++ [{ (x.reqQueue x.sendChanPtr).2 with cycle := e.clk }]
        currReqId := if lc.lseO3 then x.currReqId else x.currReqId + 1
        sendChanPtr := (x.sendChanPtr + 1) % lc.reqQueueSize }
      else x.orderView := by
  let y : Lse := { x with pushChannelSuccess := false }
  have pushes : (decide (x.channel.length < c.size) && (!lc.lseO3 || decide (0 < lc.reqQueueSize)) &&
      sendable { x with pushChannelSuccess := false }) = enters c lc x := rfl
  unfold Lse.pushChannel
  dsimp only
  rw [pushes]
  cases enters c lc x with
  | true =>
    have slots (slot : MemReq × Data) (same : slotView slot = ((x.orderView.slot x.sendChanPtr).1,
        (x.orderView.slot x.sendChanPtr).2.1, true, (x.orderView.slot x.sendChanPtr).2.2.2)) :=
      same ▸ setSlot_slot y y.sendChanPtr slot
    simp only [if_true]
    exact congrArg (fun f => OrderView.mk f _ _ _ _ _ _) (slots _ rfl)
  | false => rfl

/-- The slots of a window of requests are different. -/
theorem mod_ne_of_window {n a b : Nat} (lt : a < b) (near : b < a + n) : a % n ≠ b % n := by
  intro same
  have dvd : n ∣ b - a := (Nat.modEq_iff_dvd' lt.le).mp same
  have big := Nat.le_of_dvd (by omega) dvd
  omega

/-! ## The invariant -/

/-- `values` are those of the accepted requests, of which `entered` have entered the output channel
and `left` have left it. -/
structure InOrder (lc : LseConfig) (values : List Int) (left entered : Nat) (v : OrderView) :
    Prop where
  behind : left ≤ entered
  accepted : entered ≤ values.length
  room : values.length ≤ left + lc.reqQueueSize
  orderId : v.orderId = values.length
  currReqId : v.currReqId = entered
  pushQueuePtr : v.pushQueuePtr = values.length % lc.reqQueueSize
  sendChanPtr : v.sendChanPtr = entered % lc.reqQueueSize
  held : ∀ k, left ≤ k → k < values.length → v.slot (k % lc.reqQueueSize) =
    (true, k, decide (k < entered), k % lc.reqQueueSize)
  free : ∀ k, values.length ≤ k → k < left + lc.reqQueueSize →
    (v.slot (k % lc.reqQueueSize)).1 = false
  channel : v.channel.map Data.lseReqQueueIndex =
    (List.range' left (entered - left)).map (· % lc.reqQueueSize)
  valueQueue : lc.isWrite = true → v.valueQueue = values.drop left

variable {values : List Int} {left entered : Nat}

theorem inOrder_init : InOrder lc [] 0 0 ({} : Lse).orderView := by
  constructor <;> simp [orderView, slotView]

/-- The response at the front is that of the oldest request in the queue. -/
theorem InOrder.front (h : InOrder lc values left entered x.orderView) {front : Data} {rest : List Data}
    (here : x.channel = front :: rest) : left < entered ∧
      front.lseReqQueueIndex = left % lc.reqQueueSize ∧
      rest.map Data.lseReqQueueIndex =
        (List.range' (left + 1) (entered - (left + 1))).map (· % lc.reqQueueSize) ∧
      x.countAt front.lseReqQueueIndex = left := by
  have channel := h.channel
  have behind := h.behind
  have accepted := h.accepted
  simp only [orderView, here, List.map_cons] at channel
  obtain ⟨m, more⟩ : ∃ m, entered - left = m + 1 := by
    refine Nat.exists_eq_succ_of_ne_zero fun none => ?_
    simp [none] at channel
  rw [more, List.range'_succ, List.map_cons, List.cons.injEq] at channel
  have next : m = entered - (left + 1) := by omega
  refine ⟨by omega, channel.1, next ▸ channel.2, ?_⟩
  have slot := h.held left le_rfl (by omega)
  rw [channel.1]
  exact congrArg (fun s => s.2.1) slot

/-! ## One step -/

theorem InOrder.pop (h : InOrder lc values left entered x.orderView) (valid : x.valid = true)
    (some : x.channel ≠ []) : InOrder lc values (left + 1) entered (Lse.pop lc x).orderView := by
  obtain ⟨front, rest, here⟩ := List.exists_cons_of_ne_nil some
  obtain ⟨more, index, tail, -⟩ := h.front here
  have room := h.room
  have accepted := h.accepted
  have oldest := h.held left le_rfl (by omega)
  set n := lc.reqQueueSize
  -- the slot of the response that leaves becomes free
  have slot : (Lse.pop lc x).orderView.slot =
      Function.update x.orderView.slot (left % n) (false, left, true, left % n) := by
    have kept : slotView (x.reqQueue (left % n)) = (true, left, true, left % n) := by
      rw [decide_eq_true more] at oldest
      exact oldest
    simp only [slotView, Prod.mk.injEq] at kept
    simp only [Lse.pop, valid, if_true, here, List.headD_cons, index]
    refine (setSlot_slot x _ _).trans ?_
    simp [slotView, kept]
  have other (k : Nat) (low : left < k) (high : k < left + n) :
      (Lse.pop lc x).orderView.slot (k % n) = x.orderView.slot (k % n) := by
    rw [slot, Function.update_of_ne (mod_ne_of_window low high).symm]
  have channel : (Lse.pop lc x).orderView.channel = rest := by
    simp [Lse.pop, valid, orderView, here]
  have queue : (Lse.pop lc x).orderView.valueQueue =
      if lc.isWrite then x.valueQueue.tail else x.valueQueue := by
    simp [Lse.pop, valid, orderView]
  have rest_eq : (Lse.pop lc x).orderView.pushQueuePtr = x.orderView.pushQueuePtr ∧
      (Lse.pop lc x).orderView.sendChanPtr = x.orderView.sendChanPtr ∧
      (Lse.pop lc x).orderView.orderId = x.orderView.orderId ∧
      (Lse.pop lc x).orderView.currReqId = x.orderView.currReqId := by
    simp only [Lse.pop, valid, if_true]
    exact ⟨rfl, rfl, rfl, rfl⟩
  obtain ⟨push, send, order, curr⟩ := rest_eq
  refine ⟨more, accepted, by omega, order.trans h.orderId, curr.trans h.currReqId,
    push.trans h.pushQueuePtr, send.trans h.sendChanPtr, ?_, ?_, ?_, ?_⟩
  · intro k low high
    rw [other k low (by omega)]
    exact h.held k (by omega) high
  · intro k low high
    rcases Nat.lt_or_ge k (left + n) with old | new
    · rw [other k (by omega) old]
      exact h.free k low old
    · obtain rfl : k = left + n := by omega
      rw [Nat.add_mod_right, slot, Function.update_self]
  · rw [channel, tail]
  · intro write
    have values := h.valueQueue write
    rw [queue, if_pos write]
    simp only [orderView] at values
    rw [values, List.tail_drop]

/-- With all slots in use the next one holds the oldest request. -/
theorem InOrder.room_of_free (h : InOrder lc values left entered x.orderView)
    (free : (x.reqQueue x.pushQueuePtr).1.valid = false) (slots : 0 < lc.reqQueueSize) :
    values.length < left + lc.reqQueueSize := by
  refine lt_of_le_of_ne h.room fun full => ?_
  have oldest := h.held left le_rfl (by omega)
  have same : left % lc.reqQueueSize = x.pushQueuePtr := by
    have ptr := h.pushQueuePtr
    rw [full, Nat.add_mod_right] at ptr
    exact ptr.symm
  rw [same] at oldest
  have valid := congrArg Prod.fst oldest
  simp [orderView, slotView, free] at valid

/-- A request is accepted into the slot of the next count. -/
theorem InOrder.pushReqQ (h : InOrder lc values left entered x.orderView) (e : Clock)
    (free : (x.reqQueue x.pushQueuePtr).1.valid = false) (slots : 0 < lc.reqQueueSize) :
    InOrder lc (values ++ [((x.chanBuffer 1).headD {}).value]) left entered
      (Lse.pushReqQ c lc e x).1.orderView := by
  have open_ := h.room_of_free free slots
  have behind := h.behind
  have accepted := h.accepted
  have order : x.orderId = values.length := h.orderId
  have ptr : x.pushQueuePtr = values.length % lc.reqQueueSize := h.pushQueuePtr
  set n := lc.reqQueueSize with hn
  set value := ((x.chanBuffer 1).headD {}).value
  have view : (Lse.pushReqQ c lc e x).1.orderView =
      { x.orderView with
        slot := Function.update x.orderView.slot (values.length % n)
          (true, values.length, false, values.length % n)
        pushQueuePtr := (values.length + 1) % n
        orderId := values.length + 1
        valueQueue := if lc.isWrite then x.valueQueue ++ [value] else x.valueQueue } := by
    rw [pushReqQ_orderView e free, order, ptr, Nat.mod_add_mod]
  have other (k : Nat) (low : k < values.length) (near : values.length < k + n) :
      Function.update x.orderView.slot (values.length % n)
        (true, values.length, false, values.length % n) (k % n) = x.orderView.slot (k % n) :=
    Function.update_of_ne (mod_ne_of_window low near) _ _
  rw [view]
  refine ⟨behind, by simp; omega, by simp; omega, by simp, h.currReqId, by simp [hn], h.sendChanPtr,
    ?_, ?_, h.channel, ?_⟩
  · intro k low high
    dsimp only
    rcases Nat.lt_or_ge k values.length with old | new
    · rw [other k old (by omega)]
      exact h.held k low old
    · obtain rfl : k = values.length := by simp at high; omega
      rw [Function.update_self, decide_eq_false (by omega)]
  · intro k low high
    have later : values.length < k := by simp at low; omega
    dsimp only
    rw [Function.update_of_ne (mod_ne_of_window later (by omega)).symm]
    exact h.free k later.le high
  · intro write
    have queue : x.valueQueue = values.drop left := h.valueQueue write
    simp only [write, if_true, queue]
    rw [List.drop_append_of_le_length (by omega)]

/-- What can enter the channel is the next request. -/
theorem InOrder.next (h : InOrder lc values left entered x.orderView) (slots : 0 < lc.reqQueueSize)
    (ready : x.sendable = true) : entered < values.length := by
  refine lt_of_le_of_ne h.accepted fun all => ?_
  have ptr : x.sendChanPtr = entered % lc.reqQueueSize := h.sendChanPtr
  simp only [sendable, ptr, Bool.and_eq_true, Bool.not_eq_true'] at ready
  obtain ⟨⟨valid, -⟩, unpushed⟩ := ready
  rcases Nat.lt_or_ge values.length (left + lc.reqQueueSize) with room | full
  · -- the slot behind the last request is free
    have free := h.free values.length le_rfl room
    rw [← all] at free
    simp [orderView, slotView, valid] at free
  · -- all slots are in use, and the oldest request has entered
    have oldest := h.held left le_rfl (by omega)
    have round := h.room
    have wrapped : entered = left + lc.reqQueueSize := by omega
    rw [decide_eq_true (by omega), ← Nat.add_mod_right left, ← wrapped] at oldest
    have pushed := congrArg (fun s => s.2.2.1) oldest
    simp [orderView, slotView, unpushed] at pushed

theorem InOrder.pushChannel (h : InOrder lc values left entered x.orderView) (e : Clock)
    (inOrder : lc.lseO3 = false) (slots : 0 < lc.reqQueueSize) (ready : enters c lc x = true) :
    InOrder lc values left (entered + 1) (Lse.pushChannel c lc e x).orderView := by
  have more := h.next slots (by simp only [enters, Bool.and_eq_true] at ready; exact ready.2)
  have behind := h.behind
  have room := h.room
  have ptr : x.sendChanPtr = entered % lc.reqQueueSize := h.sendChanPtr
  have curr : x.currReqId = entered := h.currReqId
  have slot : x.orderView.slot (entered % lc.reqQueueSize) =
      (true, entered, false, entered % lc.reqQueueSize) := by
    simpa using h.held entered behind more
  rw [pushChannel_orderView e, if_pos ready, ptr, slot, curr, Nat.mod_add_mod, inOrder,
    if_neg Bool.false_ne_true]
  set n := lc.reqQueueSize
  have other (k : Nat) (apart : k % n ≠ entered % n) :
      Function.update x.orderView.slot (entered % n) (true, entered, true, entered % n) (k % n) =
        x.orderView.slot (k % n) := Function.update_of_ne apart _ _
  refine ⟨by omega, more, room, h.orderId, rfl, h.pushQueuePtr, rfl, ?_, ?_, ?_, h.valueQueue⟩
  · intro k low high
    dsimp only
    rcases Nat.lt_trichotomy k entered with old | rfl | later
    · rw [other k (mod_ne_of_window old (by omega)), h.held k low high, decide_eq_true old,
        decide_eq_true (by omega)]
    · rw [Function.update_self, decide_eq_true (by omega)]
    · rw [other k (mod_ne_of_window later (by omega)).symm, h.held k low high,
        decide_eq_false (by omega), decide_eq_false (by omega)]
  · intro k low high
    dsimp only
    rw [other k (mod_ne_of_window (show entered < k by omega) (by omega)).symm]
    exact h.free k low high
  · have index : (x.reqQueue (entered % n)).2.lseReqQueueIndex = entered % n :=
      congrArg (fun s => s.2.2.2) slot
    have channel : x.channel.map Data.lseReqQueueIndex =
        (List.range' left (entered - left)).map (· % n) := h.channel
    have grown : entered + 1 - left = entered - left + 1 := by omega
    have last : left + (entered - left) = entered := by omega
    rw [grown, List.range'_1_concat, last, List.map_append, List.map_append, channel]
    simp only [List.map_cons, List.map_nil, index, n]

/-! ## One call -/

theorem orderView_toChan (x : Lse) {chan : Chan} (same : chan.channel = x.channel) :
    ({ x with toChan := chan } : Lse).orderView = x.orderView := by
  simp [orderView, same]

theorem InOrder.selected (h : InOrder lc values left entered y.orderView) (e : Clock)
    (slots : 0 < lc.reqQueueSize) :
    InOrder lc (if accepts c e y then values ++ [((y.chanBuffer 1).headD {}).value] else values)
      left entered (Lse.selected c lc e y).orderView := by
  rw [Lse.selected, select_orderView]
  cases matched : Chan.checkDataMatch c e y.toChan with
  | false => simpa [accepts, matched] using h
  | true =>
    cases free : (y.reqQueue y.pushQueuePtr).1.valid with
    | false => simpa [accepts, matched, free] using h.pushReqQ e free slots
    | true => simpa [accepts, matched, free, Lse.pushReqQ] using h

theorem InOrder.entering (h : InOrder lc values left entered x.orderView) (slots : 0 < lc.reqQueueSize)
    (ready : enters c lc x = true) : x.countAt x.sendChanPtr = entered := by
  have more := h.next slots (by simp only [enters, Bool.and_eq_true] at ready; exact ready.2)
  have ptr : x.sendChanPtr = entered % lc.reqQueueSize := h.sendChanPtr
  rw [ptr]
  exact congrArg (fun s => s.2.1) (h.held entered h.behind more)

/-- The double check finds nothing. -/
theorem InOrder.consistent (h : InOrder lc values left entered x.orderView)
    (slots : 0 < lc.reqQueueSize) : inconsistent c lc x = false := by
  cases ready : enters c lc x with
  | false => simp [inconsistent, ready]
  | true =>
    have curr : x.currReqId = entered := h.currReqId
    simp [inconsistent, h.entering slots ready, curr]

theorem statusUpdate_fst (e : Clock) (sendable : Bool) (y : Lse) :
    (Lse.statusUpdate c lc e sendable y).1 =
      let w := Lse.pushChannel c lc e (Lse.selected c lc e y)
      let valid := !w.channel.isEmpty && (c.noDownstream || sendable)
      { w with
        valid := valid
        chanDataCnt := if valid then w.chanDataCnt + 1 else w.chanDataCnt
        statusUpdates := w.statusUpdates + 1 } := by
  unfold Lse.statusUpdate Lse.selected
  split_ifs <;> rfl

theorem InOrder.statusUpdate {e : Clock} (h : InOrder lc values left entered (Lse.selected c lc e y).orderView)
    (sendable : Bool) (inOrder : lc.lseO3 = false) (slots : 0 < lc.reqQueueSize) :
    InOrder lc values left (if enters c lc (Lse.selected c lc e y) then entered + 1 else entered)
      (Lse.statusUpdate c lc e sendable y).1.orderView ∧
    ((Lse.statusUpdate c lc e sendable y).1.valid = true →
      (Lse.statusUpdate c lc e sendable y).1.channel ≠ []) := by
  rw [statusUpdate_fst]
  refine ⟨?_, ?_⟩
  · change InOrder lc values left _ (Lse.pushChannel c lc e (Lse.selected c lc e y)).orderView
    split_ifs with ready
    · exact h.pushChannel e inOrder slots ready
    · rwa [pushChannel_orderView e, if_neg ready]
  · intro valid
    simp only [Bool.and_eq_true, Bool.not_eq_true', List.isEmpty_eq_false_iff] at valid
    exact valid.1

/-! ## The law -/

structure JournalInOrder (lc : LseConfig) (j : Journal) : Prop where
  lse : InOrder lc (j.accepted.map Prod.snd) j.left.length j.entered.length j.lse.orderView
  accepted : j.accepted.map Prod.fst = List.range j.accepted.length
  entered : j.entered = List.range j.entered.length
  left : j.left = List.range j.left.length
  valid : j.lse.valid = true → j.lse.channel ≠ []

theorem range_concat {l : List Nat} (h : l = List.range l.length) :
    l ++ [l.length] = List.range (l ++ [l.length]).length := by
  conv_lhs => rw [h]
  simp [List.range_succ]

/-- Between two calls of `get`. -/
theorem JournalInOrder.between {j : Journal} (h : JournalInOrder lc j)
    (same : y.orderView = j.lse.orderView) (valid : y.valid = true → j.lse.valid = true) :
    JournalInOrder lc { j with lse := y } := by
  have channel : y.channel = j.lse.channel := congrArg OrderView.channel same
  exact { h with lse := same ▸ h.lse, valid := fun now => channel ▸ h.valid (valid now) }

theorem visit_valid (x : Lse) (taken : Option MemReq) : (visit x taken).valid = x.valid := by
  unfold visit setInflight
  dsimp only
  split
  · split_ifs <;> rfl
  · rfl

theorem parallelize_kept (e : Clock) (x : Chan) :
    (Chan.parallelize c e x).channel = x.channel ∧ (Chan.parallelize c e x).valid = x.valid := by
  unfold Chan.parallelize
  split_ifs <;> exact ⟨rfl, rfl⟩

theorem arrived_orderView (e : Clock) (up : Nat → Upstream) (x : Lse) :
    (Lse.arrived c lc e up x).orderView =
      (Lse.pop lc { x with toChan := Chan.parallelize c e x.toChan }).orderView :=
  orderView_toChan _ (Chan.pushAll_filled c e up _ _).channel

/-- The start of a call of `get`: the response at the front leaves. -/
theorem JournalInOrder.arrived {j : Journal} (h : JournalInOrder lc j) (e : Clock)
    (up : Nat → Upstream) : nextLeft j = List.range (nextLeft j).length ∧
      InOrder lc (j.accepted.map Prod.snd) (nextLeft j).length j.entered.length
        (Lse.arrived c lc e up j.lse).orderView := by
  set x : Lse := { j.lse with toChan := Chan.parallelize c e j.lse.toChan } with hx
  have parallel := @parallelize_kept c e j.lse.toChan
  have start : InOrder lc (j.accepted.map Prod.snd) j.left.length j.entered.length x.orderView :=
    (orderView_toChan j.lse parallel.1) ▸ h.lse
  rw [arrived_orderView, ← hx, nextLeft]
  cases valid : j.lse.valid with
  | false =>
    have stays : Lse.pop lc x = x := by simp [Lse.pop, hx, parallel.2, valid]
    simp only [Bool.false_eq_true, if_false, stays]
    exact ⟨h.left, start⟩
  | true =>
    obtain ⟨front, rest, here⟩ := List.exists_cons_of_ne_nil (h.valid valid)
    have count : j.lse.countAt front.lseReqQueueIndex = j.left.length := (h.lse.front here).2.2.2
    have popped := start.pop (parallel.2.trans valid) (by simp [hx, parallel.1, here])
    simp only [if_true, here, List.headD_cons, count, List.length_append, List.length_singleton]
    exact ⟨by simpa using range_concat h.left, popped⟩

theorem nextAccepted_inOrder {j : Journal} (h : JournalInOrder lc j) (e : Clock)
    (order : y.orderId = j.accepted.length) :
    (nextAccepted c e y j).map Prod.fst = List.range (nextAccepted c e y j).length ∧
      (nextAccepted c e y j).map Prod.snd = if accepts c e y then
        j.accepted.map Prod.snd ++ [((y.chanBuffer 1).headD {}).value]
        else j.accepted.map Prod.snd := by
  unfold nextAccepted
  split_ifs
  · simp [List.range_succ, h.accepted, order]
  · exact ⟨h.accepted, rfl⟩

theorem nextEntered_inOrder {j : Journal} (h : JournalInOrder lc j)
    (next : enters c lc x = true → x.countAt x.sendChanPtr = j.entered.length) :
    nextEntered c lc x j = List.range (nextEntered c lc x j).length ∧
      (nextEntered c lc x j).length =
        if enters c lc x then j.entered.length + 1 else j.entered.length := by
  unfold nextEntered
  split_ifs with ready
  · rw [next ready]
    exact ⟨range_concat h.entered, by simp⟩
  · exact ⟨h.entered, rfl⟩

theorem JournalInOrder.get {j : Journal} (h : JournalInOrder lc j) (slots : 0 < lc.reqQueueSize)
    (inOrder : lc.lseO3 = false) (e : Clock) (up : Nat → Upstream) (sendable : Bool) :
    ∃ j', step c lc j (.get e up sendable) = some j' ∧ JournalInOrder lc j' := by
  obtain ⟨left, arrived⟩ := @JournalInOrder.arrived c lc j h e up
  set y := Lse.arrived c lc e up j.lse with hy
  by_cases updated : y.currId ≤ c.speedup ∨ e.clkAdd = true
  · have selected := @InOrder.selected c lc y _ _ _ arrived e slots
    have order : y.orderId = j.accepted.length := by simpa [orderView] using arrived.orderId
    obtain ⟨accepted, values⟩ := @nextAccepted_inOrder c lc y j h e order
    rw [← values] at selected
    obtain ⟨entered, count⟩ := @nextEntered_inOrder c lc _ j h (selected.entering slots)
    obtain ⟨final, valid⟩ := selected.statusUpdate sendable inOrder slots
    rw [← count] at final
    have consistent := @InOrder.consistent c lc _ _ _ _ selected slots
    refine ⟨⟨(Lse.get c lc e up sendable j.lse).1, nextAccepted c e y j,
      nextEntered c lc (Lse.selected c lc e y) j, nextLeft j⟩,
      by simp only [step, ← hy, if_pos updated, consistent, Bool.false_eq_true, if_false],
      ?_, accepted, entered, left, ?_⟩
    · simp only [get_fst, ← hy, if_pos updated]
      exact final
    · simp only [get_fst, ← hy, if_pos updated]
      exact valid
  · refine ⟨{ j with lse := (Lse.get c lc e up sendable j.lse).1, left := nextLeft j },
      by simp only [step, ← hy, if_neg updated], ?_, h.accepted, h.entered, left, ?_⟩
    · simp only [get_fst, ← hy, if_neg updated]
      exact arrived
    · simp only [get_fst, ← hy, if_neg updated]
      exact fun now => absurd now Bool.false_ne_true

theorem JournalInOrder.step {j : Journal} (h : JournalInOrder lc j) (slots : 0 < lc.reqQueueSize)
    (inOrder : lc.lseO3 = false) (event : LseEvent) :
    ∃ j', step c lc j event = some j' ∧ JournalInOrder lc j' := by
  cases event with
  | get e up sendable => exact h.get slots inOrder e up sendable
  | visit taken =>
    exact ⟨_, rfl, h.between (visit_orderView j.lse taken) fun now => (visit_valid j.lse taken) ▸ now⟩
  | ackCallback req =>
    exact ⟨_, rfl, h.between (ackCallback_orderView j.lse req) fun now => now⟩
  | edit change =>
    refine ⟨_, rfl, h.between (orderView_toChan j.lse ?_) ?_⟩
    · cases change <;> rfl
    · cases change with
      | invalidate => exact fun now => absurd now Bool.false_ne_true
      | lastTag => exact fun now => now
      | enable => exact fun now => now
      | pushBufferEnable => exact fun now => now
      | value => exact fun now => now

theorem run_journal (slots : 0 < lc.reqQueueSize) (inOrder : lc.lseO3 = false)
    (events : List LseEvent) : ∃ j, run c lc events = some j ∧ JournalInOrder lc j := by
  have start : JournalInOrder lc {} := ⟨inOrder_init, rfl, rfl, rfl, fun now => by cases now⟩
  exact Run.total (P := fun _ j => JournalInOrder lc j)
    (fun _ event _ _ _ h => h.step slots inOrder event) start

theorem range_isPrefix {a b : Nat} (le : a ≤ b) : List.range a <+: List.range b := by
  obtain ⟨d, rfl⟩ := Nat.exists_eq_add_of_le le
  exact ⟨_, List.range_add.symm⟩

/-- In a run of an LSE in order the double check of the counts never fails; the responses enter
the output channel and leave it in the order of acceptance; a slot holds its request until the
response has left; and the value at the front belongs to the request at the front. -/
theorem run_inOrder (c : ChanConfig) (lc : LseConfig) (slots : 0 < lc.reqQueueSize)
    (inOrder : lc.lseO3 = false) (events : List LseEvent) :
    ∃ j, run c lc events = some j ∧
      j.accepted.map Prod.fst = List.range j.accepted.length ∧
      j.entered <+: j.accepted.map Prod.fst ∧ j.left <+: j.entered ∧
      (∀ k, j.left.length ≤ k → k < j.accepted.length →
        (j.lse.reqQueue (k % lc.reqQueueSize)).1.valid = true ∧
          j.lse.countAt (k % lc.reqQueueSize) = k) ∧
      ∀ front rest, j.lse.channel = front :: rest →
        j.lse.countAt front.lseReqQueueIndex = j.left.length ∧
          (lc.isWrite = true → j.lse.valueQueue.head? = j.accepted[j.left.length]?.map Prod.snd) := by
  obtain ⟨j, done, h⟩ := @run_journal c lc slots inOrder events
  have accepted : j.entered.length ≤ j.accepted.length := by simpa using h.lse.accepted
  refine ⟨j, done, h.accepted, ?_, ?_, ?_, ?_⟩
  · rw [h.entered, h.accepted]
    exact range_isPrefix accepted
  · rw [h.left, h.entered]
    exact range_isPrefix h.lse.behind
  · intro k low high
    have slot := h.lse.held k low (by simpa using high)
    exact ⟨congrArg Prod.fst slot, congrArg (fun s => s.2.1) slot⟩
  · intro front rest here
    refine ⟨(h.lse.front here).2.2.2, fun write => ?_⟩
    have queue : j.lse.valueQueue = (j.accepted.map Prod.snd).drop j.left.length :=
      h.lse.valueQueue write
    rw [queue, List.head?_drop, List.getElem?_map]

/-- A store with two slots, one datum in each buffer at each of the first two clocks. -/
def store : ChanConfig := { size := 2, upNum := 2 }

def storeSlots : LseConfig := { reqQueueSize := 2, isWrite := true }

/-- Both requests are accepted, and the second one is acknowledged first. -/
def ackedInReverse : List LseEvent :=
  let operands (v : Int) : Nat → Upstream := fun _ => { valid := true, value := v }
  let call (clk : Nat) (up : Nat → Upstream) : LseEvent := .get { clk := clk } up true
  [call 0 (operands 7), call 1 (operands 8), .ackCallback { lseReqQueueIndex := 1 },
    call 2 fun _ => {}, .ackCallback { lseReqQueueIndex := 0 }, call 3 fun _ => {}, call 4 fun _ => {}]

example : (run store storeSlots ackedInReverse).map (fun j => (j.accepted, j.entered, j.left)) =
    some ([(0, 7), (1, 8)], [0, 1], [0]) := by decide +kernel

theorem run_inOrder_store : ∃ j, run store storeSlots ackedInReverse = some j ∧
      j.accepted.map Prod.fst = List.range j.accepted.length ∧
      j.entered <+: j.accepted.map Prod.fst ∧ j.left <+: j.entered ∧
      (∀ k, j.left.length ≤ k → k < j.accepted.length →
        (j.lse.reqQueue (k % 2)).1.valid = true ∧ j.lse.countAt (k % 2) = k) ∧
      ∀ front rest, j.lse.channel = front :: rest →
        j.lse.countAt front.lseReqQueueIndex = j.left.length ∧
          (storeSlots.isWrite = true →
            j.lse.valueQueue.head? = j.accepted[j.left.length]?.map Prod.snd) :=
  run_inOrder store storeSlots (by decide) rfl ackedInReverse

end DataflowSim.Execution.Lse
