import DataflowSim.Execution.Lse

/-!
# The clock of a design

A design is a set of channels and LSEs. In each iteration of the simulator `clkUpdate` is
called first and then `get` of every module once, in any order; in between the memory system,
the scheduler and the driver act on the modules. A module of speedup above one counts its
threads in `currId` and stalls the clock until they are through.

The neighbours of a module are an arbitrary input of its `get`: nothing below depends on
them.
-/

namespace DataflowSim.Execution

open Memory (MemReq)

/-- `ClkDomain`, with the stalls since the last `clkUpdate`. -/
structure ClkDomain extends Clock where
  clkStall : List Bool := []

namespace ClkDomain

def initial : ClkDomain := { clk := 0, clkAdd := false }

def clkUpdate (d : ClkDomain) : ClkDomain :=
  if d.clkStall.isEmpty then { clk := d.clk + 1, clkAdd := true }
  else { clk := d.clk, clkAdd := false }

def addClkStall (d : ClkDomain) : ClkDomain := { d with clkStall := d.clkStall ++ [true] }

end ClkDomain

/-- What `get` of a module sees of its neighbours, and the data of a channel without upstreams. -/
structure Input where
  up : Nat → Upstream
  downstream : List Nat
  sendable : Bool
  data : List Int

/-- What other parts of the simulator do to a channel between two calls of `get`. -/
inductive Edit where
  /-- A downstream calls `sendLastTag`. -/
  | lastTag (downstream : Nat)
  | enable (on : Bool)
  | pushBufferEnable (on : Bool)
  /-- The driver computes the value of the channel. -/
  | value (v : Int)
  /-- The driver clears `valid` of a begin channel. -/
  | invalidate

def Edit.apply (x : Chan) : Edit → Chan
  | .lastTag d => { x with lastTagQueue := Function.update x.lastTagQueue d (x.lastTagQueue d + 1) }
  | .enable on => { x with enable := on }
  | .pushBufferEnable on => { x with pushBufferEnable := on }
  | .value v => { x with value := v }
  | .invalidate => { x with valid := false }

inductive ModuleConfig where
  | chan (c : ChanConfig)
  | lse (c : ChanConfig) (lc : LseConfig)

namespace ModuleConfig

def base : ModuleConfig → ChanConfig
  | chan c => c
  | lse c _ => c

def isLse : ModuleConfig → Bool
  | chan _ => false
  | lse _ _ => true

abbrev State : ModuleConfig → Type
  | chan _ => Chan
  | lse _ _ => Lse

/-- The part of the state that is a channel. -/
def core : (m : ModuleConfig) → m.State → Chan
  | chan _, x => x
  | lse _ _, x => x.toChan

def accesses : (m : ModuleConfig) → m.State → List Nat
  | chan _, _ => []
  | lse _ _, x => x.accesses

def initial : (m : ModuleConfig) → m.State
  | chan c => Chan.initial c
  | lse _ _ => {}

def get (e : Clock) (i : Input) : (m : ModuleConfig) → m.State → m.State
  | chan c, x => (Chan.get c e i.up i.downstream i.sendable i.data x).1
  | lse c lc, x => (Lse.get c lc e i.up i.sendable x).1

def edit (change : Edit) : (m : ModuleConfig) → m.State → m.State
  | chan _, x => change.apply x
  | lse _ _, x => { x with toChan := change.apply x.toChan }

def visit (taken : Option MemReq) : (m : ModuleConfig) → m.State → m.State
  | chan _, x => x
  | lse _ _, x => x.visit taken

def ackCallback (req : MemReq) : (m : ModuleConfig) → m.State → m.State
  | chan _, x => x
  | lse _ _, x => x.ackCallback req

end ModuleConfig

/-- Modules, each with at least one thread. -/
structure Design where
  num : Nat
  config : Nat → ModuleConfig
  threads : ∀ m, 1 ≤ (config m).base.speedup

namespace Design

variable (d : Design)

def speedup (m : Nat) : Nat := (d.config m).base.speedup

/-- The maximum of the speedups. -/
def maxSpeedup : Nat := max 1 ((Finset.range d.num).sup d.speedup)

structure System where
  clock : ClkDomain
  modules : (m : Nat) → (d.config m).State

inductive Call where
  | get (m : Nat) (i : Input)
  | edit (m : Nat) (change : Edit)
  /-- `getLseReq` peeks at the LSE and may take its request. -/
  | visit (m : Nat) (taken : Option MemReq)
  | ack (m : Nat) (req : MemReq)

def Call.updated : Call → Option Nat
  | .get m _ => some m
  | _ => none

variable {d}

namespace System

def core (s : System d) (m : Nat) : Chan := (d.config m).core (s.modules m)

def accesses (s : System d) (m : Nat) : List Nat := (d.config m).accesses (s.modules m)

def set (s : System d) (m : Nat) (x : (d.config m).State) : System d :=
  { s with modules := Function.update s.modules m x }

/-- `get` of one module; its `parallelize` stalls the clock while threads are left. -/
def getModule (s : System d) (m : Nat) (i : Input) : System d :=
  let t := s.set m ((d.config m).get s.clock.toClock i (s.modules m))
  if 1 < d.speedup m ∧ (t.core m).currId < d.speedup m then
    { t with clock := s.clock.addClkStall }
  else t

def call (s : System d) : Call → System d
  | .get m i => s.getModule m i
  | .edit m change => s.set m ((d.config m).edit change (s.modules m))
  | .visit m taken => s.set m ((d.config m).visit taken (s.modules m))
  | .ack m req => s.set m ((d.config m).ackCallback req (s.modules m))

/-- One iteration of the simulator. -/
def iterate (s : System d) (calls : List Call) : System d :=
  calls.foldl call { s with clock := s.clock.clkUpdate }

end System

variable (d)

def initial : System d where
  clock := .initial
  modules m := (d.config m).initial

def run (iterations : List (List Call)) : System d :=
  iterations.foldl System.iterate (initial d)

/-- Each module is updated once in an iteration. -/
def Complete (calls : List Call) : Prop := (calls.filterMap Call.updated).Perm (List.range d.num)

end Design

end DataflowSim.Execution
