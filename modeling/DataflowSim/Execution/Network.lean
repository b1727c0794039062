import DataflowSim.Execution.Buffers
import DataflowSim.Library.Rounds

/-!
# Networks of channels

Channels connected as `Registry` does it. In each iteration of a simulated program `get` is
called for every channel, always in the same order, and after it the value of the channel is
computed from its operands.
-/

namespace DataflowSim.Execution

structure Net (V : Type*) where
  /-- All channels, in the order of their calls. -/
  order : List V
  cfg : V → ChanConfig
  upstream : V → List V
  /-- How a program computes the value of a channel. -/
  op : V → List Int → Int
  /-- What a channel without upstreams is fed with. -/
  input : V → Nat → Option Int
  nodup : order.Nodup
  mem_order : ∀ v, v ∈ order
  upstream_nodup : ∀ v, (upstream v).Nodup
  upNum : ∀ v, (cfg v).upNum = (upstream v).length
  noUpstream : ∀ v, (cfg v).noUpstream = true ↔ upstream v = []
  noDownstream : ∀ u, (cfg u).noDownstream = true → ∀ v, u ∉ upstream v
  size_pos : ∀ v, 1 ≤ (cfg v).size

structure NetState (V : Type*) where
  chan : V → Chan
  rounds : Rounds V

namespace Net

variable {V : Type*} [DecidableEq V] (net : Net V)

def initial : NetState V where
  chan v := Chan.initial (net.cfg v)
  rounds := { todo := net.order }

/-- What the downstreams of a channel see of it. -/
def shown (s : NetState V) (u : V) : Upstream where
  valid := (s.chan u).valid
  value := (s.chan u).value
  front := (s.chan u).channel.headD {}
  keepMode := (net.cfg u).keepMode
  isCond := (net.cfg u).isCond

def upstreams (s : NetState V) (v : V) (i : Nat) : Upstream :=
  ((net.upstream v)[i]?.map (net.shown s)).getD {}

def downstream (u : V) : List V := net.order.filter fun w => u ∈ net.upstream w

/-- Under this number a channel finds its entry in `lastTagQueue`. -/
def moduleId (v : V) : Nat := net.order.idxOf v

/-- No downstream has set the back-pressure flag of this channel. -/
def sendable (s : NetState V) (u : V) : Bool :=
  (net.downstream u).all fun w => !(s.chan w).bp ((net.upstream w).idxOf u)

/-- The next datum for a channel without upstreams, if there is one now. -/
def fed (s : NetState V) (feed : Bool) (v : V) : List Int :=
  if feed then (net.input v ((s.chan v).received 0).length).toList else []

/-- `Channel::assign(bufferId)` for all buffers. -/
def operands (v : V) (x : Chan) : List Int := (List.range (net.cfg v).arity).map x.assign

/-- A call of `get`, after which the value is computed; the second result is the number of
last tags sent to the upstreams. -/
def get (e : Clock) (feed : Bool) (s : NetState V) (v : V) : Chan × Nat :=
  let (x, tags) := Chan.get (net.cfg v) e (net.upstreams s v)
    ((net.downstream v).map net.moduleId) (net.sendable s v) (net.fed s feed v) (s.chan v)
  ({ x with value := net.op v (operands net v x) }, tags)

/-- `Channel::sendLastTag`. -/
def tagged (v : V) (tags : Nat) (u : V) (x : Chan) : Chan :=
  if (net.cfg u).keepMode ∧ u ∈ net.upstream v then
    { x with
      lastTagQueue :=
        Function.update x.lastTagQueue (net.moduleId v) (x.lastTagQueue (net.moduleId v) + tags) }
  else x

/-- The next channel is called. -/
def call (e : Clock) (feed : Bool) (s : NetState V) : NetState V where
  chan := match s.rounds.todo with
    | [] => s.chan
    | v :: _ =>
      let (x, tags) := net.get e feed s v
      fun u => if u = v then x else net.tagged v tags u (s.chan u)
  rounds := s.rounds.next net.order

/-- What may happen to a channel between two calls: other parts of the program may change
fields that hold no data. -/
structure Outside (x y : Chan) : Prop where
  chanBuffer : y.chanBuffer = x.chanBuffer
  channel : y.channel.length = x.channel.length
  valid : y.valid = x.valid
  bp : y.bp = x.bp
  received : y.received = x.received
  consumed : y.consumed = x.consumed

/-- The runs whose calls are all allowed, from the state after the registration. In a closed
network nothing else happens. -/
inductive Reachable (closed : Bool) (P : NetState V → Prop) : NetState V → Prop
  | init : Reachable closed P net.initial
  | call {s} (e : Clock) (feed : Bool) (allowed : P s) :
      Reachable closed P s → Reachable closed P (net.call e feed s)
  | outside {s} (v : V) (y : Chan) (isOpen : closed = false) (change : Outside (s.chan v) y) :
      Reachable closed P s → Reachable closed P { s with chan := Function.update s.chan v y }

variable {net} {s : NetState V} {closed : Bool} {P : NetState V → Prop} {v : V}

omit [DecidableEq V] in
theorem arity_eq (has : net.upstream v ≠ []) : (net.cfg v).arity = (net.upstream v).length := by
  have up : (net.cfg v).noUpstream = false := by simpa using (net.noUpstream v).not.mpr has
  simp [ChanConfig.arity, up, net.upNum]

theorem call_idle (e : Clock) (feed : Bool) (todo : s.rounds.todo = []) :
    (net.call e feed s).chan = s.chan := by
  simp only [call, todo]

theorem call_chan {e : Clock} {feed : Bool} {rest : List V} (todo : s.rounds.todo = v :: rest)
    (u : V) : (net.call e feed s).chan u =
      if u = v then (net.get e feed s v).1 else net.tagged v (net.get e feed s v).2 u (s.chan u) := by
  simp only [call, todo]

omit [DecidableEq V] in
theorem upstreams_some {i : Nat} {u : V} (at_i : (net.upstream v)[i]? = some u) :
    net.upstreams s v i = net.shown s u := by
  simp [upstreams, at_i]

/-- A channel may send when none of the buffers that it feeds has set its flag. -/
theorem bp_of_sendable {u : V} {i : Nat} (sendable : net.sendable s u = true)
    (at_i : (net.upstream v)[i]? = some u) : (s.chan v).bp i = false := by
  have index : (net.upstream v).idxOf u = i := by
    obtain ⟨lt, rfl⟩ := List.getElem?_eq_some_iff.mp at_i
    exact (net.upstream_nodup v).idxOf_getElem i lt
  have free := List.all_eq_true.mp sendable v
    (List.mem_filter.mpr ⟨net.mem_order v, by simpa using List.mem_of_getElem? at_i⟩)
  simpa [index] using free

theorem Reachable.fair (reachable : Reachable net closed P s) : s.rounds.Fair net.order := by
  induction reachable with
  | init => exact .start _
  | call _ _ _ _ fair => exact fair.next net.nodup
  | outside _ _ _ _ _ fair => exact fair

end Net

end DataflowSim.Execution
