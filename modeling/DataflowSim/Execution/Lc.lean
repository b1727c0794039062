import DataflowSim.Execution.Buffers

/-!
# Loop controllers

`Mux` and `Lc` of `Mux.cpp` and `Lc.cpp`. `trueChan` and `falseChan` of a mux never get any
data: of them only the upstreams and the back-pressure flags matter. A loop controller owns
the channels `loopVar`, `getEnd` and `sendEnd`; a call of `lcUpdate` reads the upstreams of
`getEnd` and whether the downstreams of `sendEnd` can take a token.
-/

namespace DataflowSim.Execution

/-- What a mux reads of an upstream; `front` is that of its output channel, if there is one. -/
structure MuxUpstream extends Upstream where
  isFeedback : Bool := false

/-- What a mux reads of a downstream of `outChan`. -/
structure MuxDownstream where
  isFeedback : Bool := false
  bp : Bool := false

structure Mux where
  sel : Bool := false
  muxSuccess : Bool := false
  upstreamDataStatus : Data := {}
  outChan : Chan := {}
  /-- The flags of the buffers of `trueChan` and `falseChan`, which are set together. -/
  bp : Bool := false

namespace Mux

/-- `outChan` is constructed without cycle and speedup. -/
def outConfig (size : Nat) : ChanConfig where
  size := size
  upNum := 0
  noUpstream := true

def mux (trueData falseData : Int) (sel : Bool) : Int := if sel then trueData else falseData

/-- With the initial value selected the feedback channels are ignored. -/
def checkUpstream (sel : Bool) (upstream : List MuxUpstream) : Bool :=
  upstream.all fun chan => chan.valid || (!sel && chan.isFeedback)

def recordDataStatus (upstream : List MuxUpstream) (m : Mux) : Mux :=
  if upstream.isEmpty then m
  else { m with upstreamDataStatus := { m.upstreamDataStatus with
    last := upstream.any (·.front.last)
    lastOuter := upstream.any (·.front.lastOuter)
    graphSwitch := upstream.any (·.front.graphSwitch) } }

variable (size : Nat) (e : Clock)

/-- `outChan` gets a token, whose flags are those of the upstreams. -/
def pushOutChan (sendable : Bool) (m : Mux) : Mux :=
  let out := (Chan.get (outConfig size) e (fun _ => {}) [] sendable [1] m.outChan).1
  let flagged (d : Data) := { d with
    last := m.upstreamDataStatus.last
    lastOuter := m.upstreamDataStatus.lastOuter
    graphSwitch := m.upstreamDataStatus.graphSwitch }
  { m with outChan := { out with
      channel := out.channel.dropLast ++ out.channel.getLast?.toList.map flagged } }

def muxUpdate (trueUp falseUp : List MuxUpstream) (downstream : List MuxDownstream) (sel : Bool)
    (m : Mux) : Mux :=
  let sendable := downstream.all fun chan => !chan.bp
  let out := Chan.statusUpdate (outConfig size) e (fun _ => {}) sendable
    (Chan.pop (outConfig size) [] m.outChan)
  let m := { m with sel := sel, outChan := out, muxSuccess := false }
  let upstream := if sel then trueUp else falseUp
  let m :=
    if checkUpstream sel upstream then
      { pushOutChan size e sendable (recordDataStatus upstream m) with muxSuccess := true }
    else m
  { m with bp := downstream.any fun chan => !chan.isFeedback && chan.bp }

end Mux

structure LcConfig where
  /-- The size of `mux->outChan`. -/
  outSize : Nat := 2
  loopVar : ChanConfig
  getEnd : ChanConfig
  /-- The size of `sendEnd`. -/
  endSize : Nat := 2
  isOuterMostLoop : Bool := false

/-- `sendEnd` has no upstreams, and is constructed without cycle and speedup. -/
def LcConfig.sendEnd (cfg : LcConfig) : ChanConfig where
  size := cfg.endSize
  upNum := 0
  noUpstream := true

/-- `loopNums` records what was put into `loopNumQ`, and `lastTags` the calls of `sendLastTag`. -/
structure Lc where
  sel : Bool := false
  loopNum : Nat := 0
  loopEnd : Nat := 0
  loopNumQ : List Nat := []
  var : Int := 0
  mux : Mux := {}
  loopVar : Chan := {}
  getEnd : Chan := {}
  sendEnd : Chan := {}
  loopNums : List Nat := []
  lastTags : Nat := 0

namespace Lc

variable (cfg : LcConfig) (e : Clock)

def selUpdate (newSel : Bool) (lc : Lc) : Lc :=
  if lc.mux.muxSuccess || !lc.loopVar.channel.isEmpty then { lc with sel := newSel } else lc

/-- Put the flags of the last datum of an instance on the head of the channel. -/
def markLast (isOuterMostLoop : Bool) : List Data → List Data
  | [] => []
  | d :: rest => { d with last := true, lastOuter := d.lastOuter || isOuterMostLoop } :: rest

/-- Count the value that the loop variable sends, and at the last one the instance. -/
def countLoop (lc : Lc) : Lc :=
  if !lc.loopVar.valid then lc
  else if lc.sel then { lc with loopNum := lc.loopNum + 1 }
  else { lc with
    loopNumQ := lc.loopNumQ ++ [lc.loopNum + 1]
    loopNums := lc.loopNums ++ [lc.loopNum + 1]
    loopNum := 0 }

def loopUpdate (lc : Lc) : Lc :=
  let lc := countLoop lc
  let channel :=
    if lc.sel then lc.loopVar.channel else markLast cfg.isOuterMostLoop lc.loopVar.channel
  { lc with
    loopVar := { lc.loopVar with channel := channel }
    lastTags :=
      if lc.loopVar.valid && (channel.headD {}).last then lc.lastTags + 1 else lc.lastTags }

def getEndUpdate (up : Nat → Upstream) (lc : Lc) : Lc :=
  let getEnd := (Chan.get cfg.getEnd e up [] true [] lc.getEnd).1
  { lc with
    getEnd := getEnd
    loopEnd := if getEnd.channel.isEmpty then lc.loopEnd else lc.loopEnd + 1 }

/-- All ends of the first instance of `loopNumQ` have arrived. -/
def complete (lc : Lc) : Bool :=
  match lc.loopNumQ with
  | [] => false
  | n :: _ => lc.loopEnd == n

def sendEndUpdate (sendable : Bool) (lc : Lc) : Lc :=
  let lc :=
    if lc.sendEnd.valid && lc.sendEnd.enable then
      let popped := Chan.pop cfg.sendEnd [] lc.sendEnd
      { lc with sendEnd := Chan.statusUpdate cfg.sendEnd e (fun _ => {}) sendable popped }
    else lc
  if complete lc then
    { lc with
      sendEnd := (Chan.get cfg.sendEnd e (fun _ => {}) [] sendable [1] lc.sendEnd).1
      loopNumQ := lc.loopNumQ.tail
      loopEnd := 0 }
  else lc

def lcUpdate (newSel : Bool) (up : Nat → Upstream) (sendable : Bool) (lc : Lc) : Lc :=
  sendEndUpdate cfg e sendable (getEndUpdate cfg e up (loopUpdate cfg (selUpdate newSel lc)))

/-! ## What each function changes -/

variable (newSel : Bool) (up : Nat → Upstream) (sendable : Bool) (lc : Lc)

theorem selUpdate_eq : selUpdate newSel lc = { lc with
    sel := if lc.mux.muxSuccess || !lc.loopVar.channel.isEmpty then newSel else lc.sel } := by
  simp only [selUpdate]
  split_ifs <;> rfl

/-- What the loop itself has done in a call. -/
structure Looped (cfg : LcConfig) (lc t : Lc) : Prop where
  mux : t.mux = lc.mux
  var : t.var = lc.var
  sel : t.sel = lc.sel
  loopVar : t.loopVar = { lc.loopVar with channel :=
    if lc.sel then lc.loopVar.channel else markLast cfg.isOuterMostLoop lc.loopVar.channel }
  loopNum : t.loopNum =
    if !lc.loopVar.valid then lc.loopNum else if lc.sel then lc.loopNum + 1 else 0
  loopNums : t.loopNums =
    lc.loopNums ++ if lc.loopVar.valid && !lc.sel then [lc.loopNum + 1] else []

theorem loopUpdate_looped : Looped cfg lc (loopUpdate cfg lc) := by
  have same : (countLoop lc).mux = lc.mux ∧ (countLoop lc).var = lc.var ∧
      (countLoop lc).sel = lc.sel ∧ (countLoop lc).loopVar = lc.loopVar := by
    unfold countLoop
    split_ifs <;> exact ⟨rfl, rfl, rfl, rfl⟩
  obtain ⟨mux, var, sel, loopVar⟩ := same
  refine ⟨mux, var, sel, ?_, ?_, ?_⟩
  · simp only [loopUpdate, sel, loopVar]
  · simp only [loopUpdate, countLoop]
    split_ifs <;> rfl
  · simp only [loopUpdate, countLoop]
    split_ifs <;> simp_all

theorem loopUpdate_queue : (loopUpdate cfg lc).loopNumQ =
    lc.loopNumQ ++ if lc.loopVar.valid && !lc.sel then [lc.loopNum + 1] else [] := by
  simp only [loopUpdate, countLoop]
  split_ifs <;> simp_all

theorem loopUpdate_ends : (loopUpdate cfg lc).getEnd = lc.getEnd ∧
    (loopUpdate cfg lc).sendEnd = lc.sendEnd ∧ (loopUpdate cfg lc).loopEnd = lc.loopEnd := by
  simp only [loopUpdate, countLoop]
  split_ifs <;> exact ⟨rfl, rfl, rfl⟩

/-- Between the two halves of `sendEndUpdate` only `sendEnd` differs. -/
theorem popped_eq : ∃ x, (if (lc.sendEnd.valid && lc.sendEnd.enable) = true then
      let popped := Chan.pop cfg.sendEnd [] lc.sendEnd
      { lc with sendEnd := Chan.statusUpdate cfg.sendEnd e (fun _ => {}) sendable popped }
    else lc) = { lc with sendEnd := x } := by
  split_ifs <;> exact ⟨_, rfl⟩

theorem sendEndUpdate_eq : sendEndUpdate cfg e sendable lc = { lc with
    sendEnd := (sendEndUpdate cfg e sendable lc).sendEnd
    loopNumQ := if complete lc then lc.loopNumQ.tail else lc.loopNumQ
    loopEnd := if complete lc then 0 else lc.loopEnd } := by
  obtain ⟨x, eq⟩ := popped_eq cfg e sendable lc
  simp only [sendEndUpdate, eq]
  by_cases done : complete lc = true
  · rw [if_pos (show complete { lc with sendEnd := x } = true from done), if_pos done, if_pos done]
  · rw [if_neg (show ¬complete { lc with sendEnd := x } = true from done), if_neg done, if_neg done]

/-- The end channels do not touch what the loop itself does. -/
theorem lcUpdate_looped :
    Looped cfg (selUpdate newSel lc) (lcUpdate cfg e newSel up sendable lc) := by
  have looped := loopUpdate_looped cfg (selUpdate newSel lc)
  rw [lcUpdate, sendEndUpdate_eq]
  exact ⟨looped.mux, looped.var, looped.sel, looped.loopVar, looped.loopNum, looped.loopNums⟩

end Lc

end DataflowSim.Execution
