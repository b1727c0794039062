import DataflowSim.Execution.Clock

/-!
# The graph scheduler

`GraphScheduler.cpp`: subgraphs take turns. The channels between subgraphs are `ChanDGSF`s;
those that feed the current subgraph (its producers) may send, and those that it fills (its
consumers) only store. `graphUpdate` decides whether the turn of the current subgraph is over
and then selects the next one, sets the enables of all channels and clears the counters of
the channels of the new subgraph.

`sent` counts what each channel has sent in the whole run, and `activated` is its value when
the present turn began. No function reads them.
-/

namespace DataflowSim.Execution

structure SchedulerConfig where
  /-- The subgraphs are the numbers below. -/
  num : Nat
  producers : Nat → List Nat
  consumers : Nat → List Nat
  /-- The common, true path and false path channels of a branch divergence subgraph. -/
  divergenceGraph : Nat → Option (List Nat × List Nat × List Nat) := fun _ => none
  graphSwitchO3 : Bool := true
  /-- `Global::DGSF_input_buffer_size`. -/
  inputBufferSize : Nat
  chan : Nat → ChanConfig
  downstream : Nat → List Nat

structure Scheduler where
  currSubgraphId : Nat := 0
  subgraphIsOver : Nat → Bool := fun _ => false
  subgraphTimeout : Nat := 0
  subgraphActiveCnt : Nat → Nat := fun _ => 0
  chans : Nat → Chan
  sent : Nat → Nat := fun _ => 0
  activated : Nat → Nat := fun _ => 0

namespace Scheduler

variable (cfg : SchedulerConfig)

def buffers (s : Scheduler) (c : Nat) : List (List Data) :=
  (List.range (cfg.chan c).arity).map (s.chans c).chanBuffer

/-! ## Checks -/

/-- A channel that has got its last datum counts as full. -/
def checkProducerChanIsFull (s : Scheduler) (chans : List Nat) : Bool :=
  chans.all fun c => (s.chans c).getTheLastData 0 ||
    (buffers cfg s c).all fun buffer => (cfg.chan c).size ≤ buffer.length

def checkProducerChanNotEmpty (s : Scheduler) (chans : List Nat) : Bool :=
  chans.all fun c => (buffers cfg s c).all fun buffer => !buffer.isEmpty

def checkProducerChanAllEmpty (s : Scheduler) (chans : List Nat) : Bool :=
  chans.all fun c => (buffers cfg s c).all fun buffer => buffer.isEmpty

def checkProducerDownstreamChanAllEnable (s : Scheduler) (chans : List Nat) : Bool :=
  chans.all fun c => (cfg.downstream c).all fun d => (s.chans d).enable

def checkConsumerChanNotFull (s : Scheduler) (chans : List Nat) : Bool :=
  chans.isEmpty || chans.any fun c =>
    (buffers cfg s c).any fun buffer => buffer.length < (cfg.chan c).size

/-- The producers of a subgraph with consumers are finished when each buffer is empty or its
channel has sent less than the input buffer size; without consumers, when all are empty. -/
def checkProducerChanFinish (s : Scheduler) (chans : List Nat) : Bool :=
  if (cfg.consumers s.currSubgraphId).isEmpty then
    chans.all fun c => (buffers cfg s c).all fun buffer => buffer.isEmpty
  else
    chans.all fun c => (buffers cfg s c).all fun buffer =>
      buffer.isEmpty || (s.chans c).chanDataCnt < cfg.inputBufferSize

def checkConsumerChanFinish (s : Scheduler) (chans : List Nat) : Bool :=
  !chans.isEmpty && chans.all fun c => (buffers cfg s c).all fun buffer =>
    match buffer.getLast? with
    | some d => (d.lastOuter && d.last) || (cfg.chan c).size ≤ buffer.length
    | none => (s.chans c).getTheLastData 0

def checkConsumerChanGetLastData (s : Scheduler) (chans : List Nat) : Bool :=
  !chans.isEmpty && chans.all fun c =>
    (List.range (cfg.chan c).arity).all (s.chans c).getTheLastData

def checkSubgraphIsOver (s : Scheduler) (g : Nat) : Bool :=
  if (cfg.consumers g).isEmpty then false
  else
    match cfg.divergenceGraph s.currSubgraphId with
    | none =>
      checkConsumerChanGetLastData cfg s (cfg.consumers g) &&
        checkProducerChanAllEmpty cfg s (cfg.producers g)
    | some (common, truePath, falsePath) =>
      let commonChanIsOver := checkConsumerChanGetLastData cfg s common
      if truePath.isEmpty && falsePath.isEmpty then commonChanIsOver
      else commonChanIsOver && (checkConsumerChanGetLastData cfg s truePath ||
        checkConsumerChanGetLastData cfg s falsePath)

/-! ## Selection -/

/-- The subgraphs after the given one, round robin. -/
def following (n g : Nat) : List Nat := (List.range n).map fun i => (g + 1 + i) % cfg.num

/-- The outer result is `none` when no subgraph is enabled, where the source returns nothing. -/
def selectSubgraphInOrder (s : Scheduler) (g : Nat) : Option Nat :=
  (following cfg cfg.num g).find? fun g =>
    checkProducerDownstreamChanAllEnable cfg s (cfg.producers g)

def selectSubgraphO3 (s : Scheduler) (g : Nat) : Nat :=
  let ready g := !s.subgraphIsOver g &&
    (checkProducerChanIsFull cfg s (cfg.producers g) ||
      checkProducerChanNotEmpty cfg s (cfg.producers g)) &&
    checkProducerDownstreamChanAllEnable cfg s (cfg.producers g) &&
    checkConsumerChanNotFull cfg s (cfg.consumers g)
  match (following cfg (cfg.num - 1) g).find? ready with
  | some g => g
  | none =>
    if s.subgraphIsOver g then
      ((following cfg (cfg.num - 1) g).find? fun g => !s.subgraphIsOver g).getD s.currSubgraphId
    else s.currSubgraphId

def setEnable (push pop : Bool) (s : Scheduler) (c : Nat) : Scheduler :=
  { s with
    chans := Function.update s.chans c
      { s.chans c with pushBufferEnable := push, enable := pop } }

/-- A channel that keeps its data for other than a loop variable sends in any turn. -/
def sendsAlways (c : Nat) : Bool :=
  (cfg.chan c).keepMode && match cfg.downstream c with
    | [] => true
    | d :: _ => !(cfg.chan d).isLoopVar

def configOther (g : Nat) (s : Scheduler) (id : Nat) : Scheduler :=
  if id = g then s
  else if (cfg.producers id).isEmpty then
    (cfg.consumers id).foldl (fun s c => setEnable false (sendsAlways cfg c) s c) s
  else
    (cfg.producers id ++ cfg.consumers id).foldl
      (fun s c => setEnable true (sendsAlways cfg c) s c) s

def closeOther (g : Nat) (s : Scheduler) (id : Nat) : Scheduler :=
  if id ≠ g ∧ (cfg.producers id).isEmpty then
    (cfg.consumers id).foldl (fun s c => setEnable false (s.chans c).enable s c) s
  else s

def configChan (s : Scheduler) (g : Nat) : Scheduler :=
  let s := (List.range cfg.num).foldl (configOther cfg g) s
  let s := (cfg.producers g).foldl (setEnable true true) s
  let s := (cfg.consumers g).foldl (setEnable true false) s
  (List.range cfg.num).foldl (closeOther cfg g) s

def resetSubgraph (s : Scheduler) (g : Nat) : Scheduler :=
  { s with
    chans := (cfg.producers g ++ cfg.consumers g).foldl
      (fun chans c => Function.update chans c { chans c with chanDataCnt := 0 }) s.chans
    activated := s.sent }

def schedulerInit : Scheduler :=
  configChan cfg { chans := fun c => Chan.initial (cfg.chan c) } 0

/-! ## Update -/

def producerChanFinish (s : Scheduler) : Bool :=
  !(cfg.producers s.currSubgraphId).isEmpty &&
    checkProducerChanFinish cfg s (cfg.producers s.currSubgraphId)

def consumerChanFinish (s : Scheduler) : Bool :=
  if (cfg.consumers s.currSubgraphId).isEmpty then false
  else
    match cfg.divergenceGraph s.currSubgraphId with
    | none => checkConsumerChanFinish cfg s (cfg.consumers s.currSubgraphId)
    | some (common, truePath, falsePath) =>
      let commonChanIsFinish := checkConsumerChanFinish cfg s common
      if truePath.isEmpty && falsePath.isEmpty then commonChanIsFinish
      else commonChanIsFinish && (checkConsumerChanFinish cfg s truePath ||
        checkConsumerChanFinish cfg s falsePath)

/-- The turn of the current subgraph ends and another turn begins. -/
def switchSubgraph (s : Scheduler) : Option Scheduler :=
  let s := { s with
    subgraphIsOver := Function.update s.subgraphIsOver s.currSubgraphId
      (checkSubgraphIsOver cfg s s.currSubgraphId) }
  let selected :=
    if cfg.graphSwitchO3 then some (selectSubgraphO3 cfg s s.currSubgraphId)
    else selectSubgraphInOrder cfg s s.currSubgraphId
  selected.map fun g =>
    { resetSubgraph cfg (configChan cfg { s with currSubgraphId := g } g) g with
      subgraphTimeout := 0 }

def countActive (s : Scheduler) : Scheduler :=
  { s with
    subgraphActiveCnt := Function.update s.subgraphActiveCnt s.currSubgraphId
      (s.subgraphActiveCnt s.currSubgraphId + 1) }

def graphUpdate (s : Scheduler) : Option Scheduler :=
  if producerChanFinish cfg s || consumerChanFinish cfg s then
    (switchSubgraph cfg s).map countActive
  else some (countActive { s with subgraphTimeout := s.subgraphTimeout + 1 })

/-! ## Runs -/

/-- `get` of one channel; a channel that is valid afterwards has sent a datum. -/
def getChan (s : Scheduler) (c : Nat) (e : Clock) (i : Input) : Scheduler :=
  let x := (Chan.get (cfg.chan c) e i.up i.downstream i.sendable i.data (s.chans c)).1
  { s with
    chans := Function.update s.chans c x
    sent := Function.update s.sent c (s.sent c + if x.valid then 1 else 0) }

def editChan (s : Scheduler) (c : Nat) (change : Edit) : Scheduler :=
  { s with chans := Function.update s.chans c (change.apply (s.chans c)) }

/-- Channels and scheduler act in any order. -/
inductive Reachable : Scheduler → Prop where
  | init : Reachable (schedulerInit cfg)
  | get {s : Scheduler} (reached : Reachable s) (c : Nat) (e : Clock) (i : Input) :
      Reachable (getChan cfg s c e i)
  | edit {s : Scheduler} (reached : Reachable s) (c : Nat) (change : Edit) :
      Reachable (editChan s c change)
  | update {s t : Scheduler} (reached : Reachable s) (updated : graphUpdate cfg s = some t) :
      Reachable t

end Scheduler

end DataflowSim.Execution
