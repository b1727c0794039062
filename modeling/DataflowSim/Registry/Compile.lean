import DataflowSim.Execution.Progress
import DataflowSim.Graph.AddChanDGSF
import DataflowSim.Registry.GenChan

/-!
# From a channel graph to the network

A graph of `ChanBase` channels is cut at its subgraphs by `addChanDGSF`, and the registry makes,
connects and sets up the channels. The network that is simulated computes what the graph says, which
knows neither subgraphs nor buffers, unless a branch inside another one is cut at its condition.
-/

open DataflowSim.Graph DataflowSim.Execution

namespace DataflowSim.Registry

/-! ## The meaning of a graph -/

/-- How a program computes the value of a channel, and what it feeds to one without upstreams. -/
structure Program where
  op : String → List Int → Int
  input : String → Nat → Option Int

/-- A graph without cycles. -/
structure Ranked (g : ChanGraph) where
  rank : String → Nat
  acyclic : ∀ n ∈ g.nodes, ∀ p ∈ (g.node n).allPre, rank p < rank n

section
variable (g : ChanGraph) (s : Setting) (prog : Program) (n : String)

def operandsOf : List String :=
  if n ∈ g.nodes then Adjacency.distinct (g.node n).allPre else []

/-- The condition under which the node takes an element of its operand `p`. -/
def admits (p : String) (a : Int × Bool) : Bool :=
  if isCond g p && branchMode g n then
    a.2 && (if channelCond g s n then (1 : Int) else 0) == a.1
  else a.2

/-- What the node takes of the elements that its operands emit. -/
def taken (l : List (Int × Bool)) : List (Int × Bool) :=
  if (operandsOf g n).isEmpty then l
  else (operandsOf g n).zipWith (fun p a => (a.1, admits g s n p a)) l

/-- The operand with the condition of a branch, or else the first one. -/
def condOperand : Nat :=
  if branchMode g n then ((operandsOf g n).findIdx? (isCond g)).getD 0 else 0

def emits (l : List (Int × Bool)) : Int × Bool :=
  (prog.op n (l.map Prod.fst), (l[condOperand g n]?.getD (0, true)).2)

end

/-- What a program computes with a graph. -/
def meaning {g : ChanGraph} (r : Ranked g) (s : Setting) (prog : Program) :
    Dataflow String (Int × Bool) where
  upstream := operandsOf g
  op n l := emits g prog n (taken g s n l)
  input n k := (prog.input n k).map (·, true)
  rank := r.rank
  acyclic n p mem := by
    unfold operandsOf at mem
    split_ifs at mem with there
    · exact r.acyclic n there p (Adjacency.mem_distinct.mp mem)
    · cases mem

/-! ## The network -/

/-- The channels of a cut graph are connected and set up, and a program calls them in some order. -/
structure Built (h : ChanGraph) (s : Setting) (w : Wiring) (chans : ChanId → ChanConfig)
    (calls : List String) : Prop where
  cut : CutGraph h
  wired : ChansWired h w
  setUp : ∀ n ∈ h.nodes, chans (.node n) = chanOf h s w n (modesOf h n)
  calls : calls.Perm h.nodes
  sized : ∀ n ∈ h.nodes, 1 ≤ (chans (.node n)).size
  quiet : ∀ n ∈ h.nodes, (h.node n).chanMode ≠ .Keep_mode

/-- The channel of a node. -/
def asNode (h : ChanGraph) : ChanId → Option {n // n ∈ h.nodes}
  | .node n => if mem : n ∈ h.nodes then some ⟨n, mem⟩ else none
  | _ => none

variable {g h : ChanGraph} {s : Setting} {w : Wiring} {chans : ChanId → ChanConfig}
  {calls : List String}

theorem filterMap_asNode {names : List String} (known : ∀ n ∈ names, n ∈ h.nodes) :
    ((names.map .node).filterMap (asNode h)).unattach = names := by
  induction names with
  | nil => rfl
  | cons n names ih =>
    obtain ⟨here, rest⟩ := List.forall_mem_cons.mp known
    have found : asNode h (.node n) = some ⟨n, here⟩ := dif_pos here
    rw [List.map_cons, List.filterMap_cons_some found, List.unattach_cons, ih rest]

section
variable (built : Built h s w chans calls)
include built

/-- The upstream channels that are read off the connections. -/
theorem Built.unattach_upstream {n : String} (mem : n ∈ h.nodes) :
    ((w.upstream (.node n)).filterMap (asNode h)).unattach =
      Adjacency.distinct (h.node n).allPre := by
  rw [built.wired.upstream n mem]
  exact filterMap_asNode fun p there =>
    pre_known built.cut.toNamed mem p (Adjacency.mem_distinct.mp there)

theorem Built.mem_upstream {n : String} (mem : n ∈ h.nodes) {u : {n // n ∈ h.nodes}} :
    u ∈ (w.upstream (.node n)).filterMap (asNode h) ↔ u.1 ∈ (h.node n).allPre := by
  have listed : u.1 ∈ ((w.upstream (.node n)).filterMap (asNode h)).unattach ↔
      u ∈ (w.upstream (.node n)).filterMap (asNode h) := by
    simp only [List.mem_unattach, Subtype.coe_eta, exists_prop, u.2, true_and]
  rw [← listed, built.unattach_upstream mem, Adjacency.mem_distinct]

theorem Built.upstream_eq_nil {n : String} (mem : n ∈ h.nodes) :
    (w.upstream (.node n)).filterMap (asNode h) = [] ↔ (h.node n).allPre = [] := by
  simp only [List.eq_nil_iff_forall_not_mem, Subtype.forall, built.mem_upstream mem]
  exact ⟨fun none p there => none p (pre_known built.cut.toNamed mem p there) there,
    fun none p _ => none p⟩

end

/-- The network, in which `updateChanDGSF` computes the values of the channels between subgraphs. -/
def network (built : Built h s w chans calls) (r : Ranked h) (prog : Program) :
    CalmNet {n // n ∈ h.nodes} where
  order := calls.attachWith (· ∈ h.nodes) fun _ => built.calls.mem_iff.mp
  cfg v := chans (.node v)
  upstream v := (w.upstream (.node v)).filterMap (asNode h)
  op v := if isDGSF h v then fun l => l.headD 0 else prog.op v
  input v := prog.input v
  nodup := by
    refine .of_map Subtype.val ?_
    rw [List.attachWith_map_subtype_val]
    exact built.calls.nodup_iff.mpr h.nodup
  mem_order v := by simp [built.calls.mem_iff, v.2]
  upstream_nodup v := by
    refine .of_map Subtype.val ?_
    rw [← List.unattach, built.unattach_upstream v.2]
    exact Adjacency.nodup_distinct _
  upNum v := by
    rw [built.setUp v v.2, ← List.length_unattach, built.unattach_upstream v.2, chanOf,
      built.wired.upstream v v.2, List.length_map]
  noUpstream v := by
    rw [built.setUp v v.2, built.upstream_eq_nil v.2, chanOf, built.wired.noUpstream v v.2,
      List.isEmpty_iff]
  noDownstream u none v there := by
    rw [built.setUp u u.2, chanOf, built.wired.noDownstream u u.2, List.isEmpty_iff] at none
    have after := (mem_allNext_iff built.cut.toConnected u.2 v.2).mpr
      ((built.mem_upstream v.2).mp there)
    rw [none] at after
    cases after
  size_pos v := built.sized v v.2
  rank v := r.rank v
  acyclic v u there := r.acyclic v v.2 u ((built.mem_upstream v.2).mp there)
  calm v := by
    rw [built.setUp v v.2]
    refine ⟨by simp [chanOf, built.quiet v v.2], ?_⟩
    rcases built.cut.type v v.2 with base | ⟨dgsf, u, -, only, -⟩
    · exact .inl (by simp [chanOf, isDGSF, base])
    · refine .inr ⟨by simp [chanOf, isDGSF, dgsf], ?_⟩
      simp [chanOf, built.wired.noUpstream v v.2, only]

/-! ## Lists -/

theorem find?_range_eq {β : Type*} (l : List β) (p : β → Bool) :
    (List.range l.length).find? (fun i => (l[i]?.map p).getD false) = l.findIdx? p := by
  induction l using List.reverseRecOn with
  | nil => rfl
  | append_singleton l b ih =>
    have before : (List.range l.length).find? (fun i => ((l ++ [b])[i]?.map p).getD false) =
        (List.range l.length).find? (fun i => (l[i]?.map p).getD false) := by
      refine List.find?_congr fun i mem => ?_
      rw [List.getElem?_append_left (List.mem_range.mp mem)]
    rw [List.length_append, List.length_singleton, List.range_succ, List.find?_append, before, ih,
      List.findIdx?_append]
    cases here : p b <;> simp [here]

theorem zipWith_forall₂ {α β γ δ : Type*} {R : α → β → Prop} {l : List α} {l' : List β}
    {f : α → γ → δ} {f' : β → γ → δ} (rel : List.Forall₂ R l l')
    (same : ∀ a b, R a b → ∀ c, f a c = f' b c) (k : List γ) : l.zipWith f k = l'.zipWith f' k := by
  induction rel generalizing k with
  | nil => rfl
  | cons here _ ih =>
    cases k with
    | nil => rfl
    | cons c k => rw [List.zipWith_cons_cons, List.zipWith_cons_cons, same _ _ here, ih]

theorem findIdx?_forall₂ {α β : Type*} {R : α → β → Prop} {l : List α} {l' : List β}
    {p : α → Bool} {q : β → Bool} (rel : List.Forall₂ R l l') (same : ∀ a b, R a b → p a = q b) :
    l.findIdx? p = l'.findIdx? q := by
  induction rel with
  | nil => rfl
  | cons here _ ih => rw [List.findIdx?_cons, List.findIdx?_cons, same _ _ here, ih]

theorem forall₂_unattach {α β : Type*} {P : α → Prop} {S : α → β → Prop} {l : List {a // P a}}
    {l' : List β} {f : β → α} (eq : l.unattach = l'.map f) (stands : ∀ b ∈ l', S (f b) b) :
    List.Forall₂ (fun v b => S v.1 b) l l' := by
  have named : List.Forall₂ S l.unattach l' := by
    rw [eq, List.forall₂_map_left_iff]
    exact List.forall₂_same.mpr stands
  exact List.forall₂_map_left_iff.mp named
/-! ## Graphs that are cut -/

/-- The registry treats all nodes alike, and no size is an overflow. -/
structure Compilable (g : ChanGraph) (s : Setting) (size : Nat) : Prop
    extends ChanGraph.DgsfReady g where
  base : ∀ n ∈ g.nodes, (g.node n).nodeType = .ChanBase
  name : ∀ n ∈ g.nodes, n ≠ "Chan_begin" ∧ n ≠ "Chan_end"
  mode : ∀ n ∈ g.nodes, (g.node n).chanMode ≠ .Keep_mode ∧ (g.node n).chanMode ≠ .Drain_mode
  size_pos : 1 ≤ size
  speedup : ∀ n, 1 ≤ s.speedup n
  fits : ∀ n ∈ g.nodes, 10 * max (nodeDelay s.delays (g.node n)) 1 * s.speedup n < 2 ^ 64

/-- No condition that is computed inside of a branch is used in another subgraph. -/
def OuterConditions (g : ChanGraph) : Prop :=
  ∀ u ∈ g.nodes, g.crosses u = true → (isCond g u && branchMode g u) = false

/-- The graph behind `addChanDGSF`. -/
structure Cut (g : ChanGraph) (size : Nat) (h : ChanGraph) : Prop extends g.Split size h where
  kept : ∀ n ∈ g.nodes, ∃ done, h.node n = g.rewired done n
  regions : h.controlTree.regions = g.controlTree.regions
  types : ChanGraph.SameTypes g.controlTree h.controlTree

open ChanGraph (dgsfName)

variable {size : Nat}

theorem addChanDGSF_cut (ready : g.DgsfReady) (size : Nat) {ids : List Nat} (distinct : ids.Nodup)
    (all : ∀ n ∈ g.nodes, (g.node n).subgraphId ∈ ids) :
    ∃ h, ChanGraph.addChanDGSF size ids g = some h ∧ Cut g size h := by
  have visited : (g.traversal ids).Perm g.nodes := Adjacency.perm_flatMap_filter distinct g.nodup all
  have start : ChanGraph.Progress g size [] g := ChanGraph.start_progress
  obtain ⟨h, run, progress⟩ := ChanGraph.visit_all ready start
    (fun n mem => visited.mem_iff.mp mem) (visited.nodup_iff.mpr g.nodup)
  exact ⟨h, run, progress.split ready fun n => visited.mem_iff, fun n mem => ⟨_, progress.kept n mem⟩,
    progress.regions, ChanGraph.addChanDGSF_sameTypes run⟩

theorem dgsfName_ne_special (u : String) : dgsfName u ≠ "Chan_begin" ∧ dgsfName u ≠ "Chan_end" := by
  constructor <;> intro same <;> have last := congrArg (fun s => s.toList.getLast?) same <;>
    simp [dgsfName] at last

section
variable (ready : Compilable g s size) (cut : Cut g size h)
include cut

theorem Cut.mem {n : String} (mem : n ∈ g.nodes) : n ∈ h.nodes := (cut.mem_nodes n).mpr (.inl mem)

theorem Cut.dgsf_mem {u : String} (mem : u ∈ g.nodes) (crosses : g.crosses u = true) :
    dgsfName u ∈ h.nodes := (cut.mem_nodes _).mpr (.inr ⟨u, mem, crosses, rfl⟩)

/-- What the passes over the graph leave alone. -/
theorem Cut.node {n : String} (mem : n ∈ g.nodes) : (h.node n).nodeType = (g.node n).nodeType ∧
    (h.node n).nodeOp = (g.node n).nodeOp ∧
    (h.node n).controlRegionName = (g.node n).controlRegionName ∧ (h.node n).size = (g.node n).size := by
  obtain ⟨done, same⟩ := cut.kept n mem
  rw [same]
  exact ⟨rfl, rfl, rfl, rfl⟩

theorem Cut.chanMode {n : String} (mem : n ∈ g.nodes) (mode : (g.node n).chanMode ≠ .Keep_mode) :
    (h.node n).chanMode = (g.node n).chanMode := by
  obtain ⟨done, same⟩ := cut.kept n mem
  rw [same]
  exact if_neg fun passes => mode passes.2.2

theorem Cut.dgsf_allPre {u : String} (mem : u ∈ g.nodes) (crosses : g.crosses u = true) :
    (h.node (dgsfName u)).allPre = [u] := by
  rw [cut.dgsf u mem crosses]
  rfl

include ready

theorem Cut.cutGraph : CutGraph h where
  toConnected := cut.toSplit.connected ready.toDgsfReady
  type n mem := by
    obtain old | ⟨u, hu, crosses, rfl⟩ := (cut.mem_nodes n).mp mem
    · exact .inl ((cut.node old).1.trans (ready.base n old))
    · refine .inr ⟨?_, u, cut.mem hu, cut.dgsf_allPre hu crosses, ?_⟩
      · rw [cut.dgsf u hu crosses]
        rfl
      · exact (cut.node hu).1.trans (ready.base u hu)
  name n mem := by
    obtain old | ⟨u, hu, crosses, rfl⟩ := (cut.mem_nodes n).mp mem
    · exact ready.name n old
    · exact dgsfName_ne_special u
  placed n mem := by
    rw [cut.regions]
    obtain old | ⟨u, hu, crosses, rfl⟩ := (cut.mem_nodes n).mp mem
    · rw [(cut.node old).2.2.1]
      exact ready.placed n old
    · rw [cut.dgsf u hu crosses]
      exact ready.placed u hu

end

/-- The channel that is in the place of the operand `p`. -/
def place (g : ChanGraph) (n p : String) : String := if g.other p n = true then dgsfName p else p

/-- A channel stands for the node that it was made for. -/
def StandsFor (g : ChanGraph) (m n : String) : Prop :=
  n ∈ g.nodes ∧ (m = n ∨ m = dgsfName n ∧ g.crosses n = true)

section
variable (ready : Compilable g s size) (cut : Cut g size h) {n : String} (mem : n ∈ g.nodes)

include ready mem in
theorem place_stands {p : String} (operand : p ∈ (g.node n).allPre) : StandsFor g (place g n p) p := by
  have hp := pre_known ready.toNamed mem p operand
  refine ⟨hp, ?_⟩
  unfold place
  split_ifs with other
  · obtain data | active := List.mem_append.mp operand
    · exact .inr ⟨rfl, ready.crosses_of_pre hp mem data other⟩
    · exact .inr ⟨rfl, ready.crosses_of_pre hp mem active other⟩
  · exact .inl rfl

include ready in
/-- No channel stands for two nodes. -/
theorem StandsFor.unique {m p q : String} (first : StandsFor g m p) (second : StandsFor g m q) :
    p = q := by
  obtain ⟨hp, rfl | ⟨rfl, crossesP⟩⟩ := first <;> obtain ⟨hq, eq | ⟨eq, crossesQ⟩⟩ := second
  · exact eq
  · exact absurd (eq ▸ hp) (ready.fresh q hq crossesQ)
  · exact absurd (eq ▸ hq) (ready.fresh p hp crossesP)
  · exact ChanGraph.dgsfName_inj.mp eq

include cut mem in
theorem Cut.allPre : (h.node n).allPre = (g.node n).allPre.map (place g n) := by
  have pre := cut.pre n mem
  unfold ChanGraph.pre at pre
  rw [ChanNode.allPre, pre, pre, ChanNode.allPre, List.map_append]
  rfl

include ready cut mem in
/-- The operands of a node are in their places. -/
theorem Cut.operands : Adjacency.distinct (h.node n).allPre = (operandsOf g n).map (place g n) := by
  rw [cut.allPre mem, operandsOf, if_pos mem]
  refine Adjacency.distinct_map fun p hp q hq same => ?_
  exact (place_stands ready mem hp).unique ready (same ▸ place_stands ready mem hq)

end

/-- The channel behind a node comes between it and what depends on it. -/
def Ranked.cut (r : Ranked g) (ready : Compilable g s size) (cut : Cut g size h) : Ranked h where
  rank n :=
    if n ∈ g.nodes then 2 * r.rank n else 2 * r.rank ((h.node n).allPre.headD "") + 1
  acyclic n mem p before := by
    obtain old | ⟨u, hu, crosses, rfl⟩ := (cut.mem_nodes n).mp mem
    · rw [cut.allPre old] at before
      obtain ⟨q, operand, rfl⟩ := List.mem_map.mp before
      have less := r.acyclic n old q operand
      obtain ⟨hq, eq | ⟨eq, crosses⟩⟩ := place_stands ready old operand
      · simp only [eq, hq, old, if_true]
        omega
      · have new := ready.fresh q hq crosses
        simp only [eq, new, old, if_true, if_false, cut.dgsf_allPre hq crosses, List.headD_cons]
        omega
    · have new := ready.fresh u hu crosses
      rw [cut.dgsf_allPre hu crosses, List.mem_singleton] at before
      simp [before, hu, new, cut.dgsf_allPre hu crosses]

/-! ## The network computes what the graph says -/

section
variable (ready : Compilable g s size) (cut : Cut g size h) {m n p : String}
include ready cut

theorem Cut.isDGSF_eq (mem : n ∈ g.nodes) : isDGSF h n = false := by
  simp [isDGSF, (cut.node mem).1, ready.base n mem]

omit ready in
theorem Cut.isDGSF_dgsf (mem : n ∈ g.nodes) (crosses : g.crosses n = true) :
    isDGSF h (dgsfName n) = true := by
  rw [isDGSF, cut.dgsf n mem crosses]
  rfl

theorem Cut.modesOf_eq (stands : StandsFor g m n) : modesOf h m = n := by
  obtain ⟨mem, rfl | ⟨rfl, crosses⟩⟩ := stands
  · rw [modesOf, cut.isDGSF_eq ready mem, if_neg Bool.false_ne_true]
  · rw [modesOf, cut.isDGSF_dgsf mem crosses, if_pos rfl, cut.dgsf_allPre mem crosses]
    rfl

omit ready in
theorem Cut.modes (mem : n ∈ g.nodes) : isCond h n = isCond g n ∧ branchMode h n = branchMode g n ∧
    channelCond h s n = channelCond g s n := by
  obtain ⟨-, op, region, -⟩ := cut.node mem
  have branch : branchMode h n = branchMode g n := by
    rw [branchMode, region, cut.types, branchMode]
  exact ⟨by rw [isCond, op, isCond], branch, by rw [channelCond, branch, region, channelCond]⟩

variable (built : Built h s w chans calls) (r : Ranked h) (prog : Program)
include built

theorem Built.modes (inside : m ∈ h.nodes) (stands : StandsFor g m n) :
    (chans (.node m)).isCond = isCond g n ∧ (chans (.node m)).branchMode = branchMode g n ∧
      (chans (.node m)).channelCond = channelCond g s n := by
  rw [built.setUp m inside, cut.modesOf_eq ready stands]
  exact cut.modes stands.1

theorem Built.admitted {u v : {x // x ∈ h.nodes}} (standsU : StandsFor g u p)
    (standsV : StandsFor g v n) (a : Int × Bool) :
    (network built r prog).admitted u v a = admits g s n p a := by
  obtain ⟨cond, -, -⟩ := built.modes ready cut u.2 standsU
  obtain ⟨-, branch, path⟩ := built.modes ready cut v.2 standsV
  have cfg (x : {x // x ∈ h.nodes}) : (network built r prog).cfg x = chans (.node x) := rfl
  rw [CalmNet.admitted, cfg, cfg, cond, branch, path, admits]

/-- The upstreams of the channel of a node stand for its operands. -/
theorem Built.upstream_stands {v : {x // x ∈ h.nodes}} (mem : v.1 ∈ g.nodes) :
    List.Forall₂ (fun u p => StandsFor g u.1 p) ((network built r prog).upstream v)
      (operandsOf g v) := by
  refine forall₂_unattach ((built.unattach_upstream v.2).trans (cut.operands ready mem)) ?_
  intro p operand
  rw [operandsOf, if_pos mem, Adjacency.mem_distinct] at operand
  exact place_stands ready mem operand

theorem Built.stored_eq {v : {x // x ∈ h.nodes}} (mem : v.1 ∈ g.nodes) (l : List (Int × Bool)) :
    (network built r prog).stored v l = taken g s v l := by
  have stands := built.upstream_stands ready cut r prog mem
  have none : ((network built r prog).upstream v).isEmpty = (operandsOf g v).isEmpty := by
    rw [Bool.eq_iff_iff, List.isEmpty_iff_length_eq_zero, List.isEmpty_iff_length_eq_zero,
      stands.length_eq]
  rw [CalmNet.stored, none, taken, zipWith_forall₂ stands fun u p behind a =>
    congrArg (a.1, ·) (built.admitted ready cut r prog behind ⟨mem, .inl rfl⟩ a)]

theorem Built.condBuffer_eq {v : {x // x ∈ h.nodes}} (mem : v.1 ∈ g.nodes) :
    (network built r prog).condBuffer v = condOperand g v := by
  obtain ⟨-, branch, -⟩ := built.modes ready cut v.2 ⟨mem, .inl rfl⟩
  have found := find?_range_eq ((network built r prog).upstream v) fun u => (chans (.node u)).isCond
  have same := findIdx?_forall₂ (built.upstream_stands ready cut r prog mem) fun u p behind =>
    (built.modes ready cut u.2 behind).1
  rw [same] at found
  have num : (chans (.node v)).upNum = ((network built r prog).upstream v).length :=
    (network built r prog).upNum v
  have cfg (x : {x // x ∈ h.nodes}) : (network built r prog).cfg x = chans (.node x) := rfl
  simp only [CalmNet.condBuffer, cfg, branch, num, found, condOperand]
  split_ifs <;> rfl

theorem Built.copies (r₀ : Ranked g) {v : {x // x ∈ h.nodes}} (mem : v.1 ∈ g.nodes) :
    Dataflow.Copies (network built r prog).graph (meaning r₀ s prog) (fun u p => StandsFor g u.1 p)
      v v where
  upstream := built.upstream_stands ready cut r prog mem
  op := by
    funext l
    have op : (network built r prog).op v = prog.op v := if_neg (by simp [cut.isDGSF_eq ready mem])
    change (network built r prog).emit v ((network built r prog).stored v l) =
      emits g prog v (taken g s v l)
    rw [CalmNet.emit, op, built.stored_eq ready cut r prog mem,
      built.condBuffer_eq ready cut r prog mem, emits]
  input _ := rfl

omit ready in
/-- The channel behind a node has one buffer, and its value is what stands at the head of it. -/
theorem Built.dgsf {v : {x // x ∈ h.nodes}} (mem : n ∈ g.nodes) (crosses : g.crosses n = true)
    (behind : v.1 = dgsfName n) : (network built r prog).upstream v = [⟨n, cut.mem mem⟩] ∧
      (network built r prog).op v = (fun l => l.headD 0) ∧
      (network built r prog).condBuffer v = 0 := by
  have up : (network built r prog).upstream v = [⟨n, cut.mem mem⟩] := by
    have only : (h.node v).allPre = [n] := behind ▸ cut.dgsf_allPre mem crosses
    have names : ((network built r prog).upstream v).unattach = Adjacency.distinct (h.node v).allPre :=
      built.unattach_upstream v.2
    rw [only] at names
    exact List.map_injective_iff.mpr Subtype.val_injective names
  have lt : (network built r prog).condBuffer v < ((network built r prog).cfg v).arity :=
    CalmNet.condBuffer_lt v
  rw [Net.arity_eq (by simp [up]), up] at lt
  exact ⟨up, if_pos (by rw [behind, cut.isDGSF_dgsf mem crosses]), Nat.lt_one_iff.mp lt⟩

/-- It hands on what the node emits: it has the modes of the node, and is asked for a condition only
when the node is. -/
theorem Built.relays (outer : OuterConditions g) {v : {x // x ∈ h.nodes}} (mem : n ∈ g.nodes)
    (crosses : g.crosses n = true) (behind : v.1 = dgsfName n) :
    Dataflow.Relays (network built r prog).graph (fun u p => StandsFor g u.1 p) v n := by
  obtain ⟨up, op, first⟩ := built.dgsf cut r prog mem crosses behind
  refine ⟨_, up, ⟨mem, .inl rfl⟩, fun a => ?_⟩
  have admitted := built.admitted ready cut r prog (u := ⟨n, cut.mem mem⟩) (v := v) ⟨mem, .inl rfl⟩
    ⟨mem, .inr ⟨behind, crosses⟩⟩ a
  rw [admits, outer n mem crosses, if_neg Bool.false_ne_true] at admitted
  change (network built r prog).emit v ((network built r prog).stored v [a]) = a
  rw [CalmNet.stored, up, CalmNet.emit, first, op]
  simp [admitted]

theorem Built.implements (outer : OuterConditions g) (r₀ : Ranked g) : Dataflow.Implements (network built r prog).graph
    (meaning r₀ s prog) fun v n => StandsFor g v.1 n := by
  intro v n
  rintro ⟨mem, rfl | ⟨behind, crosses⟩⟩
  · exact .inl (built.copies ready cut r prog r₀ mem)
  · exact .inr (built.relays ready cut r prog outer mem crosses behind)

end

/-- What the channels of the nodes have consumed together is what the nodes take of their operands. -/
def Agrees (r : Ranked g) (s : Setting) (prog : Program) (t : NetState {n // n ∈ h.nodes}) : Prop :=
  ∀ v : {n // n ∈ h.nodes}, v.1 ∈ g.nodes → ∀ k operands,
    (t.chan v).consumed[k]? = some operands →
      ((meaning r s prog).operands v k).map (taken g s v) =
        some (operands.map fun d => (d.value, d.cond))

structure Computes (net : CalmNet {n // n ∈ h.nodes}) (r : Ranked g) (s : Setting) (prog : Program) :
    Prop where
  /-- Whenever the enables change, nothing else is consumed, unless a channel is called that may not
  store what it is offered. -/
  sound : ∀ t, CalmNet.SafeRun net t → Agrees r s prog t
  /-- With all enables on, all that the sources are fed with gets through. -/
  complete : ∀ e feed t, CalmNet.Started net t → CalmNet.Schedule net e feed → ∀ K,
    (∀ n ∈ g.nodes, (g.node n).allPre = [] → ∀ k < K, (prog.input n k).isSome) →
      ∀ᶠ i in Filter.atTop, Agrees r s prog (net.after e feed t i) ∧
        ∀ v : {n // n ∈ h.nodes}, v.1 ∈ g.nodes → K ≤ ((net.after e feed t i).chan v).consumed.length

section
variable (ready : Compilable g s size) (cut : Cut g size h)
include ready cut

theorem Cut.quiet {n : String} (mem : n ∈ h.nodes) :
    (h.node n).chanMode ≠ .Keep_mode ∧ (h.node n).chanMode ≠ .Drain_mode := by
  obtain old | ⟨u, hu, crosses, rfl⟩ := (cut.mem_nodes n).mp mem
  · rw [cut.chanMode old (ready.mode n old).1]
    exact ready.mode n old
  · rw [cut.dgsf u hu crosses]
    simp [ChanGraph.inserted, (ready.mode u hu).1]

theorem Cut.sized {n : String} (mem : n ∈ h.nodes) (u : String) : 1 ≤ (chanOf h s w n u).size := by
  obtain old | ⟨u, hu, crosses, rfl⟩ := (cut.mem_nodes n).mp mem
  · obtain ⟨type, op, -, -⟩ := cut.node old
    have delay : nodeDelay s.delays (h.node n) = nodeDelay s.delays (g.node n) := by
      unfold nodeDelay
      rw [type, op]
    simp only [chanOf, cut.isDGSF_eq ready old, Bool.false_eq_true, if_false, delay,
      Nat.mod_eq_of_lt (ready.fits n old)]
    have speedup := ready.speedup n
    have cycle := Nat.le_max_right (nodeDelay s.delays (g.node n)) 1
    exact Nat.mul_pos (by omega) speedup
  · simp only [chanOf, cut.isDGSF_dgsf hu crosses, if_true]
    rw [cut.dgsf u hu crosses]
    exact ready.size_pos

variable (built : Built h s w chans calls) (r' : Ranked h) (prog : Program)
  (outer : OuterConditions g)
include outer

theorem Built.agrees (r : Ranked g) {t : NetState {n // n ∈ h.nodes}}
    (flow : CalmNet.Flow (network built r' prog) t) : Agrees r s prog t := by
  intro v mem k operands there
  have row := flow.consumed_row there
  rw [(built.implements ready cut r' prog outer r).operands (built.copies ready cut r' prog r mem)] at row
  rwa [funext (built.stored_eq ready cut r' prog mem)] at row

theorem Built.computes (r : Ranked g) : Computes (network built r' prog) r s prog where
  sound t run := built.agrees ready cut r' prog outer r run.flow.1
  complete e feed t started schedule K fed := by
    have stores (v : {n // n ∈ h.nodes}) : ((network built r' prog).cfg v).drainMode = false := by
      change (chans (.node v)).drainMode = false
      rw [built.setUp v v.2]
      simp [chanOf, (cut.quiet ready v.2).2]
    have speedup (v : {n // n ∈ h.nodes}) : 1 ≤ ((network built r' prog).cfg v).speedup := by
      change 1 ≤ (chans (.node v)).speedup
      rw [built.setUp v v.2]
      exact ready.speedup v
    have sources (v : {n // n ∈ h.nodes}) (source : (network built r' prog).upstream v = []) :
        ∀ k < K, ((network built r' prog).input v k).isSome := by
      have none := (built.upstream_eq_nil v.2).mp source
      obtain old | ⟨u, hu, crosses, behind⟩ := (cut.mem_nodes v).mp v.2
      · rw [cut.allPre old, List.map_eq_nil_iff] at none
        exact fed v old none
      · rw [behind, cut.dgsf_allPre hu crosses] at none
        cases none
    refine (started.progress schedule stores speedup sources).mono fun i all => ⟨?_, fun v _ => all v⟩
    exact built.agrees ready cut r' prog outer r (started.live.run e feed i).flow

end

theorem compiles (ready : Compilable g s size) {ids : List Nat} (distinct : ids.Nodup)
    (all : ∀ n ∈ g.nodes, (g.node n).subgraphId ∈ ids) :
    ∃ h, ChanGraph.addChanDGSF size ids g = some h ∧ Cut g size h ∧ ∀ order, order.Perm h.nodes →
      ∃ w chans, genConnect h order = some w ∧ setUp h s order w = some chans ∧
        ∀ calls, calls.Perm h.nodes → Built h s w chans calls := by
  obtain ⟨h, run, cut⟩ := addChanDGSF_cut ready.toDgsfReady size distinct all
  have cutGraph := cut.cutGraph ready
  refine ⟨h, run, cut, fun order perm => ?_⟩
  obtain ⟨w, connects, wired⟩ := genConnect_chans cutGraph.onlyChans cutGraph.toConnected perm
  obtain ⟨chans, sets, made⟩ := setUp_eq (s := s) cutGraph wired perm
  refine ⟨w, chans, connects, sets, fun calls perm' => ⟨cutGraph, wired, made, perm', fun n mem => ?_,
    fun n mem => (cut.quiet ready mem).1⟩⟩
  rw [made n mem]
  exact cut.sized ready mem _

/-- However the map lists the subgraphs, in whatever order the channels are registered and called:
the graph can be cut, connected and set up, and the network computes what the graph says. -/
theorem compile_computes (r : Ranked g) (prog : Program) (ready : Compilable g s size)
    (outer : OuterConditions g) {ids : List Nat} (distinct : ids.Nodup)
    (all : ∀ n ∈ g.nodes, (g.node n).subgraphId ∈ ids) :
    ∃ h, ChanGraph.addChanDGSF size ids g = some h ∧ ∀ order, order.Perm h.nodes →
      ∃ w chans, genConnect h order = some w ∧ setUp h s order w = some chans ∧
        ∀ calls, calls.Perm h.nodes → ∃ (built : Built h s w chans calls) (r' : Ranked h),
          Computes (network built r' prog) r s prog := by
  obtain ⟨h, run, cut, builds⟩ := compiles ready distinct all
  refine ⟨h, run, fun order perm => ?_⟩
  obtain ⟨w, chans, connects, sets, built⟩ := builds order perm
  exact ⟨w, chans, connects, sets, fun calls perm' => ⟨built calls perm', r.cut ready cut,
    (built calls perm').computes ready cut (r.cut ready cut) prog outer r⟩⟩

/-! ## Conditions inside of branches -/

section
variable (ready : Compilable g s size) (cut : Cut g size h) (built : Built h s w chans calls)
  (r : Ranked h) (prog : Program) {u : String} {i : Nat}
include ready cut

/-- An operand in another subgraph is read from the channel behind it, which has taken it for itself
before. -/
theorem Built.cut_operand (mem : u ∈ g.nodes) (crosses : g.crosses u = true)
    {t : NetState {x // x ∈ h.nodes}} (flow : CalmNet.Flow (network built r prog) t)
    {v d : {x // x ∈ h.nodes}} (here : v.1 ∈ g.nodes) (behind : d.1 = dgsfName u)
    (operand : ((network built r prog).upstream v)[i]? = some d) {x : Data}
    (received : x ∈ (t.chan v).received i) :
    ∃ a, x.value = a.1 ∧ x.cond = admits g s v u (a.1, admits g s u u a) := by
  obtain ⟨up, op, first⟩ := built.dgsf cut r prog mem crosses behind
  obtain ⟨k, lt, rfl⟩ := List.getElem_of_mem received
  have one : ((network built r prog).cfg d).arity = 1 := by
    rw [Net.arity_eq (by simp [up]), up, List.length_singleton]
  have stands : StandsFor g d u := ⟨mem, .inr ⟨behind, crosses⟩⟩
  have before := List.getElem?_eq_getElem (flow.known operand lt (one.symm ▸ Nat.one_pos))
  obtain ⟨value, cond⟩ := flow.delivered v i d operand k _ (List.getElem?_eq_getElem lt)
  obtain ⟨value', cond'⟩ := flow.delivered d 0 _ (by rw [up]; rfl) k _ before
  rw [built.admitted ready cut r prog stands ⟨here, .inl rfl⟩] at cond
  rw [built.admitted ready cut r prog ⟨mem, .inl rfl⟩ stands] at cond'
  generalize (network built r prog).element ⟨u, cut.mem mem⟩
    (CalmNet.column t ⟨u, cut.mem mem⟩ k) = a at value' cond'
  refine ⟨a, ?_, ?_⟩
  · rw [value, CalmNet.element, op, one]
    simpa [CalmNet.column, before] using value'
  · rw [cond, CalmNet.element, op, first, one]
    simp [CalmNet.column, before, value', cond']

end

/-- A condition inside of one path of a branch that is used in another subgraph: on the opposite path
there nothing is ever active, as long as no channel is called that may not store what it is offered. -/
theorem inner_path_lost (r : Ranked g) (prog : Program) (ready : Compilable g s size) {ids : List Nat}
    (distinct : ids.Nodup) (all : ∀ n ∈ g.nodes, (g.node n).subgraphId ∈ ids) {u n : String} {i : Nat}
    (mem : n ∈ g.nodes) (operand : (operandsOf g n)[i]? = some u) (other : g.other u n = true)
    (inner : (isCond g u && branchMode g u) = true) (branch : branchMode g n = true)
    (opposite : channelCond g s n ≠ channelCond g s u) :
    ∃ h, ChanGraph.addChanDGSF size ids g = some h ∧ ∀ order, order.Perm h.nodes →
      ∃ w chans, genConnect h order = some w ∧ setUp h s order w = some chans ∧
        ∀ calls, calls.Perm h.nodes → ∃ (built : Built h s w chans calls) (r' : Ranked h),
          ∀ t, CalmNet.SafeRun (network built r' prog) t → ∀ v : {x // x ∈ h.nodes}, v.1 = n →
            ∀ x ∈ (t.chan v).received i, x.cond = false := by
  obtain ⟨h, run, cut, builds⟩ := compiles ready distinct all
  refine ⟨h, run, fun order perm => ?_⟩
  obtain ⟨w, chans, connects, sets, built⟩ := builds order perm
  refine ⟨w, chans, connects, sets, fun calls perm' => ⟨built calls perm', r.cut ready cut, ?_⟩⟩
  rintro t safe v rfl x received
  have built := built calls perm'
  have before : u ∈ (g.node v).allPre := by
    have listed := List.mem_of_getElem? operand
    rwa [operandsOf, if_pos mem, Adjacency.mem_distinct] at listed
  obtain ⟨hu, -⟩ := place_stands ready mem before
  have crosses : g.crosses u = true := by
    obtain data | active := List.mem_append.mp before
    · exact ready.crosses_of_pre hu mem data other
    · exact ready.crosses_of_pre hu mem active other
  have named := (built.unattach_upstream v.2).trans (cut.operands ready mem)
  have at_i : ((network built (r.cut ready cut) prog).upstream v)[i]? =
      some ⟨dgsfName u, cut.dgsf_mem hu crosses⟩ := by
    have entry := congrArg (·[i]?) named
    simp only [List.getElem?_unattach, List.getElem?_map, operand, Option.map_some, place, other,
      if_true, Option.map_eq_some_iff] at entry
    obtain ⟨d, there, eq⟩ := entry
    exact there.trans (congrArg some (Subtype.ext eq))
  obtain ⟨a, -, cond⟩ := built.cut_operand ready cut (r.cut ready cut) prog hu crosses safe.flow.1 mem
    rfl at_i received
  obtain ⟨isCond, branchU⟩ := Bool.and_eq_true_iff.mp inner
  rw [cond, admits, admits, isCond, branch, branchU]
  -- the value would have to be on both paths
  cases path : channelCond g s v <;> cases path' : channelCond g s u <;> simp_all
  · exact fun _ on => on ▸ by decide
  · exact fun _ on => on ▸ by decide

/-! ## A branch in a branch -/

theorem nested_regions_nodup : ["Loop", "Then", "Else"].Nodup := by decide

/-- `c` decides on the region `Then`, in which `u` is computed, and `n` depends on `u` and is in another
subgraph, on the other path of `u` when that is a condition. -/
def nested (op : String) : ChanGraph where
  nodes := ["x", "c", "u", "n"]
  node
    | "x" => { controlRegionName := "Loop", nextNodes := fun | .data => ["c", "u"] | .active => [] }
    | "c" =>
      { nodeOp := "Cmp"
        controlRegionName := "Loop"
        preNodes := fun | .data => ["x"] | .active => []
        nextNodes := fun | .data => ["u"] | .active => [] }
    | "u" =>
      { nodeOp := op
        controlRegionName := "Then"
        preNodes := fun | .data => ["c", "x"] | .active => []
        nextNodes := fun | .data => ["n"] | .active => [] }
    | "n" =>
      { controlRegionName := "Else"
        preNodes := fun | .data => ["u"] | .active => []
        subgraphId := 1 }
    | _ => {}
  controlTree :=
    { regions := ["Loop", "Then", "Else"]
      region
        | "Loop" => { lowerControlRegion := ["Then"] }
        | "Then" =>
          { controlType := .Branch, upperControlRegion := "Loop", lowerControlRegion := ["Else"] }
        | "Else" => { controlType := .Branch, upperControlRegion := "Then" }
        | _ => {}
      nodup := nested_regions_nodup }
  nodup := by decide

def unitDelays : Delays := ⟨1, 1, 1, 1, 1, 1, 1⟩

def nestedSetting : Setting := ⟨unitDelays, fun _ => 1, fun R => R = "Then"⟩

/-- The source counts, and both conditions are met by the odd numbers. -/
def nestedProgram : Program where
  op n l :=
    if n = "c" then l.headD 0 % 2
    else if n = "u" then l.sum % 2
    else l.headD 0
  input n k := if n = "x" then some k else none

theorem nested_compilable (op : String) (known : op = "Cmp" ∨ op = "Add") :
    Compilable (nested op) nestedSetting 2 := by
  obtain rfl | rfl := known <;>
    exact
      { pre := by decide
        next := by decide
        symmetric := by decide
        nodupPre := by decide
        nodupNext := by decide
        placed := by unfold ChanGraph.Placed; decide
        fresh := by decide
        base := by decide
        name := by decide
        mode := by decide
        size_pos := by decide
        speedup := fun _ => le_rfl
        fits := by decide }

def nestedRanked (op : String) : Ranked (nested op) where
  rank n := if n = "x" then 0 else if n = "c" then 1 else if n = "u" then 2 else 3
  acyclic := by simp [nested, ChanNode.allPre]

theorem compile_computes_nested : ∃ h, ChanGraph.addChanDGSF 2 [1, 0] (nested "Add") = some h ∧
    ∀ order, order.Perm h.nodes → ∃ w chans, genConnect h order = some w ∧
      setUp h nestedSetting order w = some chans ∧ ∀ calls, calls.Perm h.nodes →
        ∃ (built : Built h nestedSetting w chans calls) (r' : Ranked h),
          Computes (network built r' nestedProgram) (nestedRanked "Add") nestedSetting nestedProgram :=
  compile_computes (nestedRanked "Add") nestedProgram (nested_compilable "Add" (.inr rfl))
    (by unfold OuterConditions; decide) (by decide) (by decide)

theorem inner_path_lost_nested : ∃ h, ChanGraph.addChanDGSF 2 [1, 0] (nested "Cmp") = some h ∧
    ∀ order, order.Perm h.nodes → ∃ w chans, genConnect h order = some w ∧
      setUp h nestedSetting order w = some chans ∧ ∀ calls, calls.Perm h.nodes →
        ∃ (built : Built h nestedSetting w chans calls) (r' : Ranked h),
          ∀ t, CalmNet.SafeRun (network built r' nestedProgram) t →
            ∀ v : {x // x ∈ h.nodes}, v.1 = "n" → ∀ x ∈ (t.chan v).received 0, x.cond = false :=
  inner_path_lost (nestedRanked "Cmp") nestedProgram (nested_compilable "Cmp" (.inl rfl))
    (by decide) (by decide) (by decide) (by decide) (u := "u") (by decide) (by decide) (by decide)
    (by decide)

/-- The graph says that `n` takes the zero that `u` emits at position 3. -/
example : ((meaning (nestedRanked "Cmp") nestedSetting nestedProgram).operands "n" 3).map
    (taken (nested "Cmp") nestedSetting "n") = some [(0, true)] := by
  decide +kernel

end DataflowSim.Registry
