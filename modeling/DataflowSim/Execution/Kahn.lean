import DataflowSim.Execution.Flow
import DataflowSim.Library.Dataflow

/-!
# Determinism of channel networks

In an acyclic network without keep mode, drain mode and branches every channel consumes the
positional join of the streams of its upstreams, whatever the sizes, the delays, the speedups
and the order of the calls are.
-/

namespace DataflowSim.Execution

/-! ## A plain channel -/

namespace Chan

/-- A channel of class `ChanBase` without any modes. -/
structure Plain (c : ChanConfig) : Prop where
  base : c.chanType = .Chan_Base
  keepMode : c.keepMode = false
  drainMode : c.drainMode = false

end Chan

/-! ## The network -/

/-- An acyclic network of plain channels. -/
structure KahnNet (V : Type*) extends Net V where
  rank : V → Nat
  acyclic : ∀ v, ∀ u ∈ upstream v, rank u < rank v
  plain : ∀ v, Chan.Plain (cfg v)

namespace KahnNet

variable {V : Type*} [DecidableEq V] (net : KahnNet V)

/-- What the network computes; sizes, delays, speedups and the order of the calls are no part of
it. -/
def graph : Dataflow V Int where
  upstream := net.upstream
  op := net.op
  input := net.input
  rank := net.rank
  acyclic := net.acyclic

/-- Everything so far is the beginning of the streams of the graph. -/
structure Law (s : NetState V) : Prop where
  consumed : ∀ v k operands, (s.chan v).consumed[k]? = some operands →
    net.graph.operands v k = some (operands.map (·.value))
  delivered : ∀ v i u, (net.upstream v)[i]? = some u → ∀ k d,
    ((s.chan v).received i)[k]? = some d → net.graph.stream u k = some d.value
  /-- Of what a channel has popped, nothing is missing at its downstreams. -/
  complete : ∀ v i u, (net.upstream v)[i]? = some u →
    (s.chan u).consumed.length ≤ ((s.chan v).received i).length ∧
      ((s.chan v).received i).length ≤ (s.chan u).consumed.length + 1

variable {net} {s : NetState V}

/-- A channel without enables loses nothing. -/
def calm (net : KahnNet V) : CalmNet V where
  toNet := net.toNet
  rank := net.rank
  acyclic := net.acyclic
  calm v := ⟨(net.plain v).keepMode, .inl (net.plain v).base⟩

omit [DecidableEq V] in
/-- The data at one position of the buffers are the operands at that position. -/
theorem operands_at {v : V} {x : Chan} {k : Nat}
    (delivered : ∀ i u, (net.upstream v)[i]? = some u → ∀ d,
      (x.received i)[k]? = some d → net.graph.stream u k = some d.value)
    (fed : net.upstream v = [] → ∀ d, (x.received 0)[k]? = some d → net.input v k = some d.value)
    (there : ∀ i < (net.cfg v).arity, k < (x.received i).length) :
    net.graph.operands v k = some ((List.range (net.cfg v).arity).map fun i =>
      ((x.received i)[k]?.getD {}).value) := by
  by_cases source : net.upstream v = []
  · have none := (net.noUpstream v).mpr source
    have one : (net.cfg v).arity = 1 := by simp [ChanConfig.arity, none]
    have lt := there 0 (by omega)
    rw [Dataflow.operands_source source, show net.graph.input v k = net.input v k from rfl,
      fed source _ (List.getElem?_eq_getElem lt), one]
    simp [List.getElem?_eq_getElem lt]
  · rw [Dataflow.operands_join source, Dataflow.mapM_eq_some]
    rw [Net.arity_eq source] at there ⊢
    refine List.ext_getElem? fun i => ?_
    have same : net.graph.upstream v = net.upstream v := rfl
    rw [same, List.getElem?_map, List.getElem?_map, List.getElem?_map]
    cases at_i : (net.upstream v)[i]? with
    | none =>
      rw [List.getElem?_eq_none (by simpa using List.getElem?_eq_none_iff.mp at_i)]
      rfl
    | some u =>
      have lt := (List.getElem?_eq_some_iff.mp at_i).1
      have held := List.getElem?_eq_getElem (there i lt)
      rw [List.getElem?_range lt, Option.map_some, delivered i u at_i _ held]
      simp [held]

omit [DecidableEq V] in
/-- What a channel has received is the beginning of the stream of its upstream: by induction on the
rank of the upstream, which has made it of what it has received. -/
theorem delivered (flow : CalmNet.Flow net.calm s) {v u : V} {i k : Nat}
    (at_i : (net.upstream v)[i]? = some u) {d : Data}
    (at_k : ((s.chan v).received i)[k]? = some d) : net.graph.stream u k = some d.value := by
  induction rank : net.rank u using Nat.strong_induction_on generalizing v u i d with
  | _ n ih =>
    have operands : net.graph.operands u k = some ((List.range (net.cfg u).arity).map fun j =>
        (((s.chan u).received j)[k]?.getD {}).value) := by
      refine operands_at (fun j w at_j d at_k => ?_) (fun source d => flow.fed u source k d)
        fun j lt => flow.known at_i (List.getElem?_eq_some_iff.mp at_k).1 lt
      exact ih _ (rank ▸ net.acyclic u w (List.mem_of_getElem? at_j)) at_j at_k rfl
    rw [Dataflow.stream, operands, (flow.delivered v i u at_i k d at_k).1]
    rfl

omit [DecidableEq V] in
/-- The values that a channel has consumed together are the join of the streams. -/
theorem law_of_flow (flow : CalmNet.Flow net.calm s) : Law net s where
  consumed v k operands at_k := by
    have tracked := (flow.sound v).tracked
    rw [tracked.joined k operands at_k, List.map_map]
    exact operands_at (fun i u at_i d => delivered flow at_i)
      (fun source d => flow.fed v source k d) fun i lt =>
        (List.getElem?_eq_some_iff.mp at_k).1.trans_le (tracked.bound i lt)
  delivered v i u at_i k d := delivered flow at_i
  complete v i u at_i := by
    have stores : (net.calm.cfg v).drainMode = false := (net.plain v).drainMode
    have le := Bool.toNat_le ((s.chan u).valid && !s.rounds.turn u v)
    rw [flow.count v i u at_i, stores, if_neg Bool.false_ne_true]
    omega

/-- In every run each channel consumes a beginning of the join of its input streams, and
delivers a beginning of its own stream to each downstream. -/
theorem kahn {P : NetState V → Prop} (reachable : Net.Reachable net.toNet true P s) :
    Law net s := by
  suffices flow : CalmNet.Flow net.calm s from law_of_flow flow
  induction reachable with
  | init =>
    have start (v : V) : net.initial.chan v = { enable := true, pushBufferEnable := false } := by
      simp [Net.initial, Chan.initial, (net.plain v).base]
    exact .start start
  | call e feed _ before flow =>
    refine flow.call before.fair (fun v _ dgsf => ?_) e feed
    exact absurd ((net.plain v).base.symm.trans dgsf) (by decide)
  | outside _ _ isOpen => contradiction

local instance sum_neZero : NeZero (2 + 1) := ⟨by decide⟩

theorem sum_upstream_nodup (v : Fin 3) : (if v = 2 then [0, 1] else [] : List (Fin 3)).Nodup := by
  revert v
  decide

/-- Two sources and their sum, which is called first and whose buffers hold one datum each. -/
def sum : KahnNet (Fin 3) where
  order := [2, 0, 1]
  cfg v := if v = 2 then { size := 1, cycle := 2, upNum := 2, noDownstream := true }
    else { size := 2, cycle := v, upNum := 0, noUpstream := true }
  upstream v := if v = 2 then [0, 1] else []
  op _ operands := operands.sum
  input v k := if k < 3 then some (k + 10 * v) else none
  nodup := by decide
  mem_order := by decide
  upstream_nodup := sum_upstream_nodup
  upNum := by decide
  noUpstream := by decide
  noDownstream := by decide
  size_pos := by decide
  rank := Fin.val
  acyclic := by decide
  plain v := by
    split_ifs <;> exact ⟨rfl, rfl, rfl⟩

/-- Ten iterations, one for each clock. -/
def summed : NetState (Fin 3) :=
  (List.range 30).foldl (fun s k => sum.call { clk := k / 3 } true s) sum.initial

theorem summed_reachable : Net.Reachable sum.toNet true (fun _ => True) summed :=
  List.foldlRecOn (motive := Net.Reachable sum.toNet true fun _ => True) _ _ .init
    fun _ reachable _ _ => reachable.call _ _ trivial

theorem kahn_sum : Net.Reachable sum.toNet true (fun _ => True) summed ∧ Law sum summed :=
  ⟨summed_reachable, kahn summed_reachable⟩

example : (summed.chan 2).consumed.map (·.map (·.value)) = [[0, 10], [1, 11]] := by
  decide +kernel

end KahnNet

end DataflowSim.Execution
