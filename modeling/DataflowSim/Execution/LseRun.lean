import DataflowSim.Execution.Buffers
import DataflowSim.Execution.Clock
import DataflowSim.Library.Run

/-!
# Runs of a load or store element

An LSE is called by its driver and by the memory system, in any order. The journal of a run lists
the requests that were accepted into `reqQueue`, those whose responses entered the output channel,
and those that left it, by the counts that the requests carry. A step has no result where
`pushChannel` reports that `sendChanPtr` is not consistent with `currReqId`.
-/

namespace DataflowSim.Execution

open Memory (MemReq)

inductive LseEvent where
  | get (e : Clock) (up : Nat → Upstream) (sendable : Bool)
  | visit (taken : Option MemReq)
  | ackCallback (req : MemReq)
  | edit (change : Edit)

structure Journal where
  lse : Lse := {}
  /-- The counts of the requests with the second operands, which are the values of a store. -/
  accepted : List (Nat × Int) := []
  entered : List Nat := []
  left : List Nat := []

namespace Lse

variable (c : ChanConfig) (lc : LseConfig)

/-! ## The parts of a call of `get` -/

/-- The LSE when `get` has popped and pushed. -/
def arrived (e : Clock) (up : Nat → Upstream) (x : Lse) : Lse :=
  let x := pop lc { x with toChan := Chan.parallelize c e x.toChan }
  { x with toChan :=
      (Chan.pushAll c e up x.toChan ((List.range c.upNum).map fun i => ((up i).value, i))).1 }

/-- Whether `statusUpdate` accepts a request. -/
def accepts (e : Clock) (y : Lse) : Bool :=
  Chan.checkDataMatch c e y.toChan && !(y.reqQueue y.pushQueuePtr).1.valid

/-- The LSE when `statusUpdate` calls `pushChannel`. -/
def selected (e : Clock) (y : Lse) : Lse :=
  select c lc e (if Chan.checkDataMatch c e y.toChan then (pushReqQ c lc e y).1 else y)

/-- Whether `pushChannel` pushes. -/
def enters (z : Lse) : Bool :=
  z.channel.length < c.size && (!lc.lseO3 || 0 < lc.reqQueueSize) && z.sendable

def countAt (x : Lse) (index : Nat) : Nat := (x.reqQueue index).1.cnt

/-- The double check of `pushChannel`, which is made when the requests go in order. -/
def inconsistent (z : Lse) : Bool :=
  !lc.lseO3 && enters c lc z && z.countAt z.sendChanPtr != z.currReqId

theorem get_fst (e : Clock) (up : Nat → Upstream) (sendable : Bool) (x : Lse) :
    (get c lc e up sendable x).1 =
      let y := arrived c lc e up x
      let z :=
        if y.currId ≤ c.speedup ∨ e.clkAdd = true then (statusUpdate c lc e sendable y).1
        else { y with valid := false, pushChannelSuccess := false }
      { z with toChan := Chan.bpUpdate c z.toChan } := by
  unfold get arrived
  dsimp only
  split_ifs <;> rfl

/-! ## Runs -/

/-- The entry for the response that `pop` leaves with. -/
def nextLeft (j : Journal) : List Nat :=
  if j.lse.valid then j.left ++ [j.lse.countAt (j.lse.channel.headD {}).lseReqQueueIndex] else j.left

def nextAccepted (e : Clock) (y : Lse) (j : Journal) : List (Nat × Int) :=
  if accepts c e y then j.accepted ++ [(y.orderId, ((y.chanBuffer 1).headD {}).value)]
  else j.accepted

def nextEntered (z : Lse) (j : Journal) : List Nat :=
  if enters c lc z then j.entered ++ [z.countAt z.sendChanPtr] else j.entered

def step (j : Journal) : LseEvent → Option Journal
  | .get e up sendable =>
    let y := arrived c lc e up j.lse
    let x := (get c lc e up sendable j.lse).1
    if y.currId ≤ c.speedup ∨ e.clkAdd = true then
      let z := selected c lc e y
      if inconsistent c lc z then none
      else some ⟨x, nextAccepted c e y j, nextEntered c lc z j, nextLeft j⟩
    else some { j with lse := x, left := nextLeft j }
  | .visit taken => some { j with lse := visit j.lse taken }
  | .ackCallback req => some { j with lse := ackCallback j.lse req }
  | .edit change => some { j with lse := { j.lse with toChan := change.apply j.lse.toChan } }

def run (events : List LseEvent) : Option Journal := events.foldlM (step c lc) {}

end Lse

end DataflowSim.Execution
