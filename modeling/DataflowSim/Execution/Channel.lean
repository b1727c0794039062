import Mathlib

/-!
# Channels

`Channel`, `ChanBase` and `ChanDGSF` of `Channel.h` and `Channel.cpp`. A channel sees of an
upstream its `valid` bit, its `value` and the head of its output channel, and of a
downstream whether it can be sent to; everything else is its own state. The clock is an
argument: a call of `parallelize` may stall it, so the caller decides when it advances.

`received` and `consumed` record what was pushed into each buffer and which operands were
popped together, and `statusUpdates` how often `statusUpdate` was called. No function reads
them.
-/

namespace DataflowSim.Execution

structure Data where
  value : Int := 0
  valid : Bool := false
  cond : Bool := true
  last : Bool := false
  lastOuter : Bool := false
  cycle : Nat := 0
  graphSwitch : Bool := false
  tag : Nat := 0
  lseReqQueueIndex : Nat := 0
  deriving DecidableEq, Repr

inductive ChanType where
  | Chan_Base | Chan_DGSF | Chan_Lse
  deriving DecidableEq, Repr

/-- What is configured before the simulation starts. -/
structure ChanConfig where
  size : Nat
  cycle : Nat := 0
  speedup : Nat := 1
  chanType : ChanType := .Chan_Base
  /-- The number of upstreams. -/
  upNum : Nat
  noUpstream : Bool := false
  noDownstream : Bool := false
  keepMode : Bool := false
  drainMode : Bool := false
  isLoopVar : Bool := false
  isCond : Bool := false
  branchMode : Bool := false
  channelCond : Bool := true

/-- The number of buffers, as `Registry::initChanBuffer` resizes them. -/
def ChanConfig.arity (c : ChanConfig) : Nat := if c.noUpstream then 1 else c.upNum

structure Chan where
  chanBuffer : Nat → List Data := fun _ => []
  channel : List Data := []
  bp : Nat → Bool := fun _ => false
  /-- The number of tags that each downstream has sent and that were not popped. -/
  lastTagQueue : Nat → Nat := fun _ => 0
  getTheLastData : Nat → Bool := fun _ => false
  valid : Bool := false
  /-- `popChannelEnable` of a `ChanDGSF` is another name of this field. -/
  enable : Bool := true
  pushBufferEnable : Bool := false
  currId : Nat := 1
  lastPopVal : Nat → Int := fun _ => 0
  value : Int := 0
  chanDataCnt : Nat := 0
  pushChannelSuccess : Bool := false
  received : Nat → List Data := fun _ => []
  consumed : List (List Data) := []
  statusUpdates : Nat := 0

/-- What a channel reads of one of its upstreams. -/
structure Upstream where
  valid : Bool := false
  value : Int := 0
  front : Data := {}
  keepMode : Bool := false
  isCond : Bool := false

structure Clock where
  clk : Nat
  clkAdd : Bool := true

namespace Chan

variable (c : ChanConfig) (e : Clock) (up : Nat → Upstream)

/-- The state that the constructors leave. -/
def initial : Chan :=
  match c.chanType with
  | .Chan_DGSF => { enable := false, pushBufferEnable := false }
  | _ => {}

def setBuffer (x : Chan) (bufferId : Nat) (l : List Data) : Chan :=
  { x with chanBuffer := Function.update x.chanBuffer bufferId l }

/-- Put a datum behind the others of its buffer. -/
def store (x : Chan) (bufferId : Nat) (d : Data) : Chan :=
  { x.setBuffer bufferId (x.chanBuffer bufferId ++ [d]) with
    received := Function.update x.received bufferId (x.received bufferId ++ [d]) }

def parallelize (x : Chan) : Chan :=
  if 1 < c.speedup then
    { x with
      currId := if e.clkAdd then 1 else if x.currId ≤ c.speedup then x.currId + 1 else x.currId }
  else x

/-! ## Push -/

def checkUpstream (x : Chan) (bufferId : Nat) : Bool :=
  if c.noUpstream then (x.chanBuffer bufferId).length != c.size
  else (up bufferId).valid && (!c.drainMode || (up bufferId).front.last)

/-- The datum that is pushed: the head of the upstream with the new value and cycle. -/
def pushData (data : Int) (bufferId : Nat) : Data :=
  let front := (up bufferId).front
  let cond :=
    if (up bufferId).isCond && c.branchMode then
      front.cond && (if c.channelCond then (1 : Int) else 0) == data
    else front.cond
  { front with
    value := data
    cond := cond
    cycle :=
      if (up bufferId).keepMode then e.clk
      else if c.branchMode && !cond then e.clk
      else e.clk + c.cycle }

def hasUpstreamInKeepMode : Bool := (List.range c.upNum).any fun i => (up i).keepMode

/-- `Channel::pushBuffer`; the second result is the number of calls of `sendLastTag`. -/
def pushBuffer (x : Chan) (data : Int) (bufferId : Nat) : Chan × Nat :=
  if c.noUpstream then
    (x.store bufferId { valid := true, value := data, cycle := e.clk + c.cycle }, 0)
  else
    let d := pushData c e up data bufferId
    if !hasUpstreamInKeepMode c up then (x.store bufferId d, 0)
    else if c.isLoopVar then
      -- a loop variable sends its last tag when it is popped
      if (x.chanBuffer bufferId).isEmpty then (x.store bufferId d, 0) else (x, 0)
    else if c.upNum ≠ 2 then (x, 0)
    else if !(up bufferId).keepMode then (x.store bufferId d, if d.last then 1 else 0)
    else
      let other := (bufferId + 1) % 2
      if (x.chanBuffer bufferId).length < (x.chanBuffer other).length ∨
          (up other).valid = true ∨ (x.chanBuffer bufferId).length < 1 then
        (x.store bufferId d, 0)
      else (x, 0)

def checkGetLastData (x : Chan) (bufferId : Nat) : Bool :=
  match (x.chanBuffer bufferId).getLast? with
  | some d => d.lastOuter && d.last
  | none => false

def updateGetTheLastData (x : Chan) (bufferId : Nat) : Chan :=
  { x with
    getTheLastData := Function.update x.getTheLastData bufferId (x.checkGetLastData bufferId) }

/-- `Channel::push`, and `ChanDGSF::push`, which does nothing while it is disabled or after
the last datum. -/
def push (x : Chan) (data : Int) (bufferId : Nat) : Chan × Nat :=
  match c.chanType with
  | .Chan_DGSF =>
    if x.pushBufferEnable && checkUpstream c up x bufferId && !x.getTheLastData bufferId then
      let (x, tags) := pushBuffer c e up x data bufferId
      (x.updateGetTheLastData bufferId, tags)
    else (x, 0)
  | _ =>
    if checkUpstream c up x bufferId then
      let (x, tags) := pushBuffer c e up x data bufferId
      (x.updateGetTheLastData bufferId, tags)
    else (x, 0)

/-- The pushes of one `get`, one for each datum. -/
def pushAll (x : Chan) (inputs : List (Int × Nat)) : Chan × Nat :=
  inputs.foldl (fun s input =>
    let (x, tags) := push c e up s.1 input.1 input.2
    (x, s.2 + tags)) (x, 0)

/-! ## Pop -/

/-- Every downstream of a channel in keep mode has sent a tag. -/
def popLastCheck (downstream : List Nat) (x : Chan) : Bool :=
  c.noDownstream || !c.keepMode || downstream.all fun d => 0 < x.lastTagQueue d

/-- The heads of all buffers. -/
def fronts (x : Chan) : List Data :=
  (List.range c.arity).map fun i => (x.chanBuffer i).headD {}

/-- `ChanBase::popChannel`. -/
def popChannel (x : Chan) (popReady popLastReady : Bool) : Chan :=
  if popReady && (!c.keepMode || popLastReady) then
    { x with
      channel := x.channel.tail
      lastPopVal := fun i => if i < c.arity then ((x.chanBuffer i).headD {}).value else x.lastPopVal i
      chanBuffer := fun i => if i < c.arity then (x.chanBuffer i).tail else x.chanBuffer i
      lastTagQueue := if c.keepMode then fun d => x.lastTagQueue d - 1 else x.lastTagQueue
      consumed := x.consumed ++ [fronts c x] }
  else x

def pop (downstream : List Nat) (x : Chan) : Chan :=
  popChannel c x x.valid (popLastCheck c downstream x)

/-! ## Status -/

def updateDataStatus (x : Chan) (data : Data) : Data :=
  (List.range c.arity).foldl (fun data i =>
    let front := (x.chanBuffer i).headD {}
    let data :=
      if !(up i).keepMode && !c.drainMode then
        { data with last := data.last || front.last, lastOuter := data.lastOuter || front.lastOuter }
      else if front.last && front.lastOuter && c.isLoopVar then { data with lastOuter := true }
      else data
    { data with graphSwitch := data.graphSwitch || front.graphSwitch }) data

/-- The condition of the first upstream that is one, in branch mode, and otherwise that of
the first buffer. -/
def channelCondOf (x : Chan) : Bool :=
  let condChan := if c.branchMode then (List.range c.upNum).find? fun i => (up i).isCond else none
  ((x.chanBuffer (condChan.getD 0)).headD {}).cond

def pushChannel (x : Chan) : Chan :=
  if c.noUpstream then { x with channel := x.channel ++ [{ valid := true, cycle := e.clk }] }
  else
    let data := updateDataStatus c up x { valid := true, tag := ((x.chanBuffer 0).headD {}).tag }
    { x with channel := x.channel ++ [{ data with cond := channelCondOf c up x }] }

def checkDataMatch (x : Chan) : Bool :=
  (List.range c.arity).all fun i =>
    match x.chanBuffer i with
    | [] => false
    | d :: _ => d.cycle ≤ e.clk

/-- `ChanBase::statusUpdate`; `sendable` tells whether no downstream has its back-pressure
flag set. -/
def statusUpdate (sendable : Bool) (x : Chan) : Chan :=
  let success := checkDataMatch c e x && x.channel.isEmpty
  let x := if success then pushChannel c e up x else x
  let valid := !x.channel.isEmpty && x.enable && (c.noDownstream || c.keepMode || sendable)
  { x with
    pushChannelSuccess := success
    valid := valid
    channel :=
      if valid then
        match x.channel with
        | [] => []
        | d :: rest => { d with cycle := e.clk } :: rest
      else x.channel
    chanDataCnt := if valid then x.chanDataCnt + 1 else x.chanDataCnt
    statusUpdates := x.statusUpdates + 1 }

/-- What does not depend on the clock of the first element is as before the update of the valid
flag. -/
theorem eq_of_stamped {β : Type*} {f : List Data → β}
    (same : ∀ d rest, f ({ d with cycle := e.clk } :: rest) = f (d :: rest)) (valid : Bool)
    (l : List Data) : f (if valid then
      match l with
      | [] => []
      | d :: rest => { d with cycle := e.clk } :: rest
      else l) = f l := by
  cases valid with
  | false => rfl
  | true =>
    cases l with
    | nil => rfl
    | cons d rest => exact same d rest

def bpUpdate (x : Chan) : Chan :=
  { x with
    bp := fun i =>
      if i < c.arity then
        (c.chanType = .Chan_DGSF && !x.pushBufferEnable) || !((x.chanBuffer i).length < c.size)
      else x.bp i }

/-- `Channel::get()` for channels with upstreams, and `Channel::get(data)` for the others. -/
def get (downstream : List Nat) (sendable : Bool) (data : List Int) (x : Chan) : Chan × Nat :=
  let x := pop c downstream (parallelize c e x)
  let inputs := if c.noUpstream then data.zipIdx
    else (List.range c.upNum).map fun i => ((up i).value, i)
  let (x, tags) := pushAll c e up x inputs
  let awake := x.currId ≤ c.speedup ∨ c.noUpstream = false ∧
    (e.clkAdd = true ∨ c.chanType = .Chan_DGSF)
  let x :=
    if awake then statusUpdate c e up sendable x
    else { x with valid := false, pushChannelSuccess := if c.noUpstream then x.pushChannelSuccess else false }
  (bpUpdate c x, tags)

/-- `Channel::assign(bufferId)`. -/
def assign (x : Chan) (bufferId : Nat) : Int :=
  match x.chanBuffer bufferId with
  | [] => x.lastPopVal bufferId
  | d :: _ => d.value

end Chan

end DataflowSim.Execution
