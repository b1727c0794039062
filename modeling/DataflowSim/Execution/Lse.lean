import DataflowSim.Execution.Channel
import DataflowSim.Memory.Request

/-!
# Load and store elements

`Lse.cpp`: a channel whose operands become memory requests. A request waits in a slot of
`reqQueue`, is suspended in the position of one thread, is taken by the memory system and
acknowledged, and leaves through the output channel, which frees its slot.

`accesses` records the thread id of each access of `suspendReqVec`, which has one position
for each thread and is indexed by the thread id less one. No function reads it.
-/

namespace DataflowSim.Execution

open Memory (MemReq)

structure LseConfig where
  /-- The number of slots, fixed by `Registry::initLse`. -/
  reqQueueSize : Nat
  lseId : Nat := 0
  isWrite : Bool := false
  baseAddr : Nat := 0
  /-- `Global::data_precision / 8`. -/
  dataBytes : Nat := 1
  /-- `Global::no_memory` or `noLatencyMode`. -/
  noMemory : Bool := false
  /-- `Global::lse_O3`. -/
  lseO3 : Bool := false

structure Lse extends Chan where
  reqQueue : Nat → MemReq × Data := fun _ => ({}, {})
  suspendReqVec : Nat → Option MemReq := fun _ => none
  pushQueuePtr : Nat := 0
  sendChanPtr : Nat := 0
  sendMemPtr : Nat := 0
  orderId : Nat := 0
  currReqId : Nat := 0
  valueQueue : List Int := []
  accesses : List Nat := []

namespace Lse

variable (c : ChanConfig) (lc : LseConfig) (e : Clock) (up : Nat → Upstream)

def setSlot (x : Lse) (index : Nat) (slot : MemReq × Data) : Lse :=
  { x with reqQueue := Function.update x.reqQueue index slot }

/-- Leave with the head of the output channel, and free its slot. -/
def pop (x : Lse) : Lse :=
  if x.valid then
    let index := (x.channel.headD {}).lseReqQueueIndex
    let slot := x.reqQueue index
    { x.setSlot index ({ slot.1 with valid := false }, { slot.2 with valid := false }) with
      channel := x.channel.tail
      valueQueue := if lc.isWrite then x.valueQueue.tail else x.valueQueue }
  else x

def popChanBuffer (x : Lse) : Lse :=
  { x with
    chanBuffer := fun i => if i < c.arity then (x.chanBuffer i).tail else x.chanBuffer i
    consumed := x.consumed ++ [Chan.fronts c x.toChan] }

/-- The datum of a request: the head of the first buffer with the flags of all heads. -/
def reqData (x : Lse) : Data :=
  (List.range c.arity).foldl (fun data i =>
    let front := (x.chanBuffer i).headD {}
    { data with
      last := data.last || front.last
      lastOuter := data.lastOuter || front.lastOuter
      graphSwitch := data.graphSwitch || front.graphSwitch })
    { (x.chanBuffer 0).headD {} with valid := true, last := false, cycle := e.clk }

/-- Write the operands into the next slot if it is free. The second result is the number of
calls of `sendLastTag`, which comes before the check of the slot. -/
def pushReqQ (x : Lse) : Lse × Nat :=
  let data := reqData c e x
  let tags := if data.last then 1 else 0
  if (x.reqQueue x.pushQueuePtr).1.valid then (x, tags)
  else
    let req : MemReq :=
      { valid := true
        addr := ((((x.chanBuffer 0).headD {}).value * lc.dataBytes + lc.baseAddr) % 2 ^ 64).toNat
        isWrite := lc.isWrite
        lseId := lc.lseId
        lseReqQueueIndex := x.pushQueuePtr
        cnt := x.orderId
        origin := .core }
    let x :=
      { x.setSlot x.pushQueuePtr (req, { data with lseReqQueueIndex := x.pushQueuePtr }) with
        orderId := x.orderId + 1
        valueQueue :=
          if lc.isWrite then x.valueQueue ++ [((x.chanBuffer 1).headD {}).value]
          else x.valueQueue }
    let x := popChanBuffer c x
    ({ x with pushQueuePtr := (x.pushQueuePtr + 1) % lc.reqQueueSize }, tags)

def ackCallback (x : Lse) (req : MemReq) : Lse :=
  let slot := x.reqQueue req.lseReqQueueIndex
  x.setSlot req.lseReqQueueIndex ({ slot.1 with ready := true, inflight := false }, slot.2)

def access (x : Lse) : Lse := { x with accesses := x.accesses ++ [x.currId] }

/-- Suspend the request of the next slot in the position of the current thread, or answer it
at once. -/
def select (x : Lse) : Lse :=
  let x := x.access
  let id := x.currId - 1
  let slot := x.reqQueue x.sendMemPtr
  if (x.suspendReqVec id).isNone && slot.1.valid && !slot.1.inflight && !slot.1.ready &&
      decide (slot.2.cycle ≤ e.clk) then
    let req := { slot.1 with lseReqQueueIndex := x.sendMemPtr }
    let x := x.setSlot x.sendMemPtr (req, slot.2)
    let x :=
      if lc.noMemory || (c.branchMode && !slot.2.cond) then
        ackCallback (x.setSlot x.sendMemPtr ({ req with inflight := true }, slot.2)) req
      else { x with suspendReqVec := Function.update x.suspendReqVec id (some req) }
    { x with sendMemPtr := (x.sendMemPtr + 1) % lc.reqQueueSize }
  else x

/-- Whether the request of the slot can go to the output channel. -/
def sendable (x : Lse) : Bool :=
  let slot := x.reqQueue x.sendChanPtr
  slot.1.valid && slot.1.ready && !slot.1.hasPushChan

def pushChannel (x : Lse) : Lse :=
  let x := { x with pushChannelSuccess := false }
  -- out of order, the loop stays at the same slot
  if x.channel.length < c.size && (!lc.lseO3 || 0 < lc.reqQueueSize) && x.sendable then
    let slot := x.reqQueue x.sendChanPtr
    let data := { slot.2 with cycle := e.clk }
    { x.setSlot x.sendChanPtr ({ slot.1 with hasPushChan := true }, data) with
      channel := x.channel ++ [data]
      currReqId := if lc.lseO3 then x.currReqId else x.currReqId + 1
      sendChanPtr := (x.sendChanPtr + 1) % lc.reqQueueSize
      pushChannelSuccess := true }
  else x

def statusUpdate (sendable : Bool) (x : Lse) : Lse × Nat :=
  let (x, tags) := if Chan.checkDataMatch c e x.toChan then pushReqQ c lc e x else (x, 0)
  let x := pushChannel c lc e (select c lc e x)
  let valid := !x.channel.isEmpty && (c.noDownstream || sendable)
  ({ x with
      valid := valid
      chanDataCnt := if valid then x.chanDataCnt + 1 else x.chanDataCnt
      statusUpdates := x.statusUpdates + 1 }, tags)

/-- `Channel::get()` of an LSE. -/
def get (sendable : Bool) (x : Lse) : Lse × Nat :=
  let x := pop lc { x with toChan := Chan.parallelize c e x.toChan }
  let (chan, tags) := Chan.pushAll c e up x.toChan
    ((List.range c.upNum).map fun i => ((up i).value, i))
  let x := { x with toChan := chan }
  let (x, more) :=
    if x.currId ≤ c.speedup ∨ e.clkAdd = true then statusUpdate c lc e sendable x
    else ({ x with valid := false, pushChannelSuccess := false }, 0)
  ({ x with toChan := Chan.bpUpdate c x.toChan }, tags + more)

/-! ## The side of the memory system -/

def peekReqQueue (x : Lse) : Option MemReq := x.suspendReqVec (x.currId - 1)

def setInflight (x : Lse) (req : MemReq) : Lse :=
  let x := x.access
  if (x.suspendReqVec (x.currId - 1)).isNone then x
  else
    let slot := x.reqQueue req.lseReqQueueIndex
    { x.setSlot req.lseReqQueueIndex
        ({ slot.1 with inflight := true, coalesced := req.coalesced }, slot.2) with
      suspendReqVec := Function.update x.suspendReqVec (x.currId - 1) none }

/-- The memory system looks at the request of the current thread, and may take it. -/
def visit (x : Lse) (taken : Option MemReq) : Lse :=
  match x.peekReqQueue, taken with
  | some _, some req => x.access.setInflight req
  | _, _ => x.access

end Lse

end DataflowSim.Execution
