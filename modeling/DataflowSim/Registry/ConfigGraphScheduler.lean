import DataflowSim.Library.Buckets
import DataflowSim.Registry.Compile

/-!
# The tables of the graph scheduler

`Registry::configGraphScheduler` with `addSubgraph` and `addDivergenceSubgraph`: the channels between
subgraphs are entered into the tables of the scheduler, as a consumer of their own subgraph and as a
producer of each subgraph that they feed. A channel that takes part in a branch is entered into the
divergence table of its own subgraph as well.
-/

open DataflowSim.Graph DataflowSim.Execution

namespace DataflowSim.Registry

inductive Role where
  | producer | consumer
  deriving DecidableEq, Repr

inductive PathRole where
  | common | truePath | falsePath
  deriving DecidableEq, Repr

/-- What `configGraphScheduler` changes. -/
structure Configured where
  chans : ChanId → ChanConfig
  subgraphTable : Buckets Nat Role ChanId
  divergenceGraph : Buckets Nat PathRole ChanId

def addSubgraph (t : Buckets Nat Role ChanId) (subgraphId : Nat)
    (producerChan consumerChan : List ChanId) : Buckets Nat Role ChanId :=
  t.add subgraphId fun
    | .producer => producerChan
    | .consumer => consumerChan

def addDivergenceSubgraph (t : Buckets Nat PathRole ChanId) (subgraphId : Nat)
    (commonChan truePathChan falsePathChan : List ChanId) : Buckets Nat PathRole ChanId :=
  t.add subgraphId fun
    | .common => commonChan
    | .truePath => truePathChan
    | .falsePath => falsePathChan

/-- The subgraph of a channel; those inside of multiplexers and the ends of a loop keep the default. -/
def subgraphOf (g : ChanGraph) : ChanId → Nat
  | .node n => (g.node n).subgraphId
  | .loopVar l => (g.node l).subgraphId
  | _ => 0

/-- Whether a channel feeds one on a path of a branch. -/
def feedsPath (w : Wiring) (chans : ChanId → ChanConfig) (path : Bool) (c : ChanId) : Bool :=
  (w.downstream c).any fun d => (chans d).branchMode && (chans d).channelCond == path

def addDivergence (w : Wiring) (chans : ChanId → ChanConfig) (subgraphId : Nat) (c : ChanId)
    (t : Buckets Nat PathRole ChanId) : Buckets Nat PathRole ChanId :=
  let t := if (chans c).isCond then addDivergenceSubgraph t subgraphId [c] [] [] else t
  let isTruePathChan := feedsPath w chans true c
  let isFalsePathChan := feedsPath w chans false c
  if isTruePathChan && isFalsePathChan then addDivergenceSubgraph t subgraphId [c] [] []
  else
    let t := if isTruePathChan then addDivergenceSubgraph t subgraphId [] [c] [] else t
    if isFalsePathChan then addDivergenceSubgraph t subgraphId [] [] [c] else t

/-- One entry of the loop. -/
def configEntry (g : ChanGraph) (w : Wiring) (s : Configured) (c : ChanId) : Configured :=
  if (s.chans c).chanType = .Chan_DGSF ∧ (w.upstream c).length = 1 then
    let chans := inheritModes w s.chans c
    let t := addSubgraph s.subgraphTable (subgraphOf g c) [] [c]
    { chans := chans
      subgraphTable := (w.downstream c).foldl (fun t d => addSubgraph t (subgraphOf g d) [c] []) t
      divergenceGraph := addDivergence w chans (subgraphOf g c) c s.divergenceGraph }
  else s

def configGraphScheduler (g : ChanGraph) (table : List Module) (w : Wiring)
    (chans : ChanId → ChanConfig) : Configured :=
  (channels table).foldl (configEntry g w) ⟨chans, .empty, .empty⟩

/-! ## The places of a channel -/

/-- Where a channel between subgraphs belongs. -/
def roles (g : ChanGraph) (w : Wiring) (c : ChanId) : List (Nat × Role) :=
  (subgraphOf g c, .consumer) :: (w.downstream c).map fun d => (subgraphOf g d, .producer)

def pathRoles (g : ChanGraph) (w : Wiring) (chans : ChanId → ChanConfig) (c : ChanId) :
    List (Nat × PathRole) :=
  (if (chans c).isCond then [(subgraphOf g c, .common)] else []) ++
    if feedsPath w chans true c && feedsPath w chans false c then [(subgraphOf g c, .common)]
    else
      (if feedsPath w chans true c then [(subgraphOf g c, .truePath)] else []) ++
        if feedsPath w chans false c then [(subgraphOf g c, .falsePath)] else []

variable {g : ChanGraph} {w : Wiring} {chans : ChanId → ChanConfig} {c : ChanId}

theorem addSubgraph_producer (t : Buckets Nat Role ChanId) (id : Nat) (c : ChanId) :
    addSubgraph t id [c] [] = t.add id (Buckets.single .producer c) :=
  congrArg (t.add id) (funext fun i => by cases i <;> rfl)

theorem addSubgraph_consumer (t : Buckets Nat Role ChanId) (id : Nat) (c : ChanId) :
    addSubgraph t id [] [c] = t.add id (Buckets.single .consumer c) :=
  congrArg (t.add id) (funext fun i => by cases i <;> rfl)

theorem addSubgraphs_eq (t : Buckets Nat Role ChanId) :
    (w.downstream c).foldl (fun t d => addSubgraph t (subgraphOf g d) [c] [])
      (addSubgraph t (subgraphOf g c) [] [c]) = t.file (roles g w c) c := by
  simp only [Buckets.file, roles, List.foldl_cons, List.foldl_map, addSubgraph_producer,
    addSubgraph_consumer]

theorem addDivergence_eq (t : Buckets Nat PathRole ChanId) :
    addDivergence w chans (subgraphOf g c) c t = t.file (pathRoles g w chans c) c := by
  have common (t : Buckets Nat PathRole ChanId) (id : Nat) :
      addDivergenceSubgraph t id [c] [] [] = t.add id (Buckets.single .common c) :=
    congrArg (t.add id) (funext fun i => by cases i <;> rfl)
  have truePath (t : Buckets Nat PathRole ChanId) (id : Nat) :
      addDivergenceSubgraph t id [] [c] [] = t.add id (Buckets.single .truePath c) :=
    congrArg (t.add id) (funext fun i => by cases i <;> rfl)
  have falsePath (t : Buckets Nat PathRole ChanId) (id : Nat) :
      addDivergenceSubgraph t id [] [] [c] = t.add id (Buckets.single .falsePath c) :=
    congrArg (t.add id) (funext fun i => by cases i <;> rfl)
  simp only [addDivergence, pathRoles, Buckets.file, common, truePath, falsePath]
  cases (chans c).isCond <;> cases feedsPath w chans true c <;> cases feedsPath w chans false c <;>
    rfl

theorem pathRoles_congr {chans' : ChanId → ChanConfig} (same : chans' c = chans c)
    (down : ∀ d ∈ w.downstream c, chans' d = chans d) :
    pathRoles g w chans' c = pathRoles g w chans c := by
  have feeds (path : Bool) : feedsPath w chans' path c = feedsPath w chans path c := by
    rw [feedsPath, feedsPath, Bool.eq_iff_iff, List.any_eq_true, List.any_eq_true]
    exact exists_congr fun d => and_congr_right fun mem => by rw [down d mem]
  simp only [pathRoles, same, feeds]

/-- What the loop makes of channels between subgraphs that feed other channels only. -/
theorem foldl_configEntry {cs : List ChanId} (nodup : cs.Nodup)
    (single : ∀ c ∈ cs, (chans c).chanType = .Chan_DGSF → (w.upstream c).length = 1 ∧
      (∀ u ∈ w.upstream c, (chans u).chanType ≠ .Chan_DGSF) ∧
        ∀ d ∈ w.downstream c, (chans d).chanType ≠ .Chan_DGSF) :
    let dgsfs := cs.filter fun c => (chans c).chanType = .Chan_DGSF
    cs.foldl (configEntry g w) ⟨chans, .empty, .empty⟩ =
      ⟨cs.foldl (inheritModes w) chans,
        dgsfs.foldl (fun t c => t.file (roles g w c) c) .empty,
        dgsfs.foldl (fun t c => t.file (pathRoles g w (inherited w chans) c) c) .empty⟩ := by
  induction cs using List.reverseRecOn with
  | nil => rfl
  | append_singleton cs c ih =>
    obtain ⟨before, -, new⟩ := List.nodup_append.mp nodup
    have fresh : c ∉ cs := fun old => new c old c (by simp) rfl
    have earlier := foldl_inheritModes before fun d mem dgsf =>
      (single d (List.mem_append_left _ mem) dgsf).2.1
    have kept : (cs.foldl (inheritModes w) chans) c = chans c := by
      rw [earlier]
      exact if_neg fresh
    have plain (d : ChanId) (other : (chans d).chanType ≠ .Chan_DGSF) :
        (cs.foldl (inheritModes w) chans) d = chans d ∧ inherited w chans d = chans d := by
      rw [earlier]
      refine ⟨?_, inherited_of_ne other⟩
      change (if d ∈ cs then inherited w chans d else chans d) = chans d
      rw [inherited_of_ne other, ite_self]
    simp only [List.foldl_append, List.foldl_cons, List.foldl_nil, List.filter_append]
    rw [ih before fun d mem => single d (List.mem_append_left _ mem)]
    by_cases dgsf : (chans c).chanType = .Chan_DGSF
    · obtain ⟨one, up, down⟩ := single c (by simp) dgsf
      have own : inherited w (cs.foldl (inheritModes w) chans) c = inherited w chans c :=
        inherited_congr kept fun _ u mem => (plain u (up u mem)).1
      have apart (d : ChanId) (mem : d ∈ w.downstream c) : d ≠ c := fun eq =>
        down d mem (eq ▸ dgsf)
      have places : pathRoles g w (inheritModes w (cs.foldl (inheritModes w) chans) c) c =
          pathRoles g w (inherited w chans) c := by
        refine pathRoles_congr (by rw [inheritModes, Function.update_self, own]) fun d mem => ?_
        rw [inheritModes, Function.update_of_ne (apart d mem), (plain d (down d mem)).1,
          (plain d (down d mem)).2]
      rw [configEntry, if_pos ⟨(congrArg ChanConfig.chanType kept).trans dgsf, one⟩]
      simp only [addSubgraphs_eq, addDivergence_eq, places, dgsf, decide_true, List.filter_cons,
        List.filter_nil, if_true, List.foldl_cons, List.foldl_nil]
    · have same : inheritModes w (cs.foldl (inheritModes w) chans) c =
          cs.foldl (inheritModes w) chans := by
        rw [inheritModes, inherited_of_ne (by rw [kept]; exact dgsf), Function.update_eq_self]
      rw [configEntry, if_neg fun both => dgsf ((congrArg ChanConfig.chanType kept).symm.trans both.1),
        same]
      simp [dgsf]

/-! ## The tables of a cut graph -/

open ChanGraph (dgsfName)

/-- The node has a successor in the subgraph, which is another one. -/
def Feeds (g : ChanGraph) (u : String) (i : Nat) : Prop :=
  ∃ n ∈ (g.node u).allNext, g.other u n = true ∧ (g.node n).subgraphId = i

/-- The node has a successor in another subgraph that is on the path of a branch. -/
def FeedsPath (g : ChanGraph) (s : Setting) (u : String) (path : Bool) : Prop :=
  ∃ n ∈ (g.node u).allNext, g.other u n = true ∧ branchMode g n = true ∧ channelCond g s n = path

/-- What a channel is to a subgraph, by the node that it is behind. -/
def HasRole (g : ChanGraph) (i : Nat) (r : Role) (u : String) : Prop :=
  match r with
  | .producer => Feeds g u i
  | .consumer => (g.node u).subgraphId = i

def HasPathRole (g : ChanGraph) (s : Setting) (i : Nat) (r : PathRole) (u : String) : Prop :=
  (g.node u).subgraphId = i ∧
    match r with
    | .common => isCond g u = true ∨ FeedsPath g s u true ∧ FeedsPath g s u false
    | .truePath => FeedsPath g s u true ∧ ¬FeedsPath g s u false
    | .falsePath => FeedsPath g s u false ∧ ¬FeedsPath g s u true

/-- A table of the channels behind the nodes with certain roles. -/
structure Filed {κ : Type} (g : ChanGraph) (order : List String) (P : Nat → κ → String → Prop)
    (t : Buckets Nat κ ChanId) : Prop where
  mem : ∀ i r c, c ∈ t.lists i r ↔
    ∃ u ∈ g.nodes, g.crosses u = true ∧ P i r u ∧ c = .node (dgsfName u)
  /-- The channels stand in the order of their registration, none of them twice. -/
  sublist : ∀ i r, (t.lists i r).Sublist (order.map .node)
  keys : ∀ i, i ∈ t.keys ↔ ∃ u ∈ g.nodes, g.crosses u = true ∧ ∃ r, P i r u

variable {h : ChanGraph} {s : Setting} {order : List String} {size : Nat} {u : String}

section
variable (ready : Compilable g s size) (cut : Cut g size h) (wired : ChansWired h w)
  (start : ∀ n ∈ h.nodes, chans (.node n) = chanOf h s w n n) (mem : u ∈ g.nodes)
  (crosses : g.crosses u = true)

include cut in
theorem Cut.subgraphOf_eq (mem : u ∈ g.nodes) :
    subgraphOf h (.node u) = (g.node u).subgraphId := cut.subgraphId u mem

include cut mem crosses in
theorem Cut.subgraphOf_dgsf : subgraphOf h (.node (dgsfName u)) = (g.node u).subgraphId := by
  rw [subgraphOf, cut.dgsf u mem crosses]
  rfl

include cut wired mem crosses in
/-- The channel behind a node feeds its successors in other subgraphs. -/
theorem Cut.dgsf_downstream {c : ChanId} : c ∈ w.downstream (.node (dgsfName u)) ↔
    ∃ n ∈ (g.node u).allNext, g.other u n = true ∧ c = .node n := by
  have next : (h.node (dgsfName u)).allNext = (g.node u).allNext.filter (g.other u) := by
    rw [cut.dgsf u mem crosses, ChanNode.allNext, ChanNode.allNext, List.filter_append]
    rfl
  simp only [wired.downstream _ (cut.dgsf_mem mem crosses), next, List.mem_map,
    Adjacency.mem_distinct, List.mem_filter, and_assoc, eq_comm]

include ready cut wired mem crosses in
theorem Cut.mem_roles {i : Nat} {r : Role} :
    (i, r) ∈ roles h w (.node (dgsfName u)) ↔ HasRole g i r u := by
  cases r with
  | consumer => simp [roles, cut.subgraphOf_dgsf mem crosses, eq_comm, HasRole]
  | producer =>
    simp only [roles, List.mem_cons, List.mem_map, Prod.mk.injEq, reduceCtorEq, and_false, and_true,
      false_or, HasRole, Feeds]
    constructor
    · rintro ⟨d, down, at_i⟩
      obtain ⟨n, next, other, rfl⟩ := (cut.dgsf_downstream wired mem crosses).mp down
      rw [cut.subgraphOf_eq (next_known ready.toNamed mem n next)] at at_i
      exact ⟨n, next, other, at_i⟩
    · rintro ⟨n, next, other, at_i⟩
      refine ⟨.node n, (cut.dgsf_downstream wired mem crosses).mpr ⟨n, next, other, rfl⟩, ?_⟩
      rw [cut.subgraphOf_eq (next_known ready.toNamed mem n next), at_i]

include ready cut start in
/-- The modes behind `configGraphScheduler`, by which the paths of a branch are told apart. -/
theorem Cut.inherited_modes (wired : ChansWired h w) {m n : String} (inside : m ∈ h.nodes)
    (stands : StandsFor g m n) :
    (inherited w chans (.node m)).isCond = isCond g n ∧
      (inherited w chans (.node m)).branchMode = branchMode g n ∧
        (inherited w chans (.node m)).channelCond = channelCond g s n := by
  rw [inherited_eq (cut.cutGraph ready) wired start inside, cut.modesOf_eq ready stands]
  exact cut.modes stands.1

include ready cut wired start mem crosses in
theorem Cut.feedsPath_iff (path : Bool) :
    feedsPath w (inherited w chans) path (.node (dgsfName u)) = true ↔ FeedsPath g s u path := by
  simp only [feedsPath, List.any_eq_true, Bool.and_eq_true, beq_iff_eq, FeedsPath]
  constructor
  · rintro ⟨d, down, branch, cond⟩
    obtain ⟨n, next, other, rfl⟩ := (cut.dgsf_downstream wired mem crosses).mp down
    have known := next_known ready.toNamed mem n next
    obtain ⟨-, branch', cond'⟩ :=
      cut.inherited_modes ready start wired (cut.mem known) ⟨known, .inl rfl⟩
    exact ⟨n, next, other, branch' ▸ branch, cond' ▸ cond⟩
  · rintro ⟨n, next, other, branch, cond⟩
    have known := next_known ready.toNamed mem n next
    obtain ⟨-, branch', cond'⟩ :=
      cut.inherited_modes ready start wired (cut.mem known) ⟨known, .inl rfl⟩
    exact ⟨.node n, (cut.dgsf_downstream wired mem crosses).mpr ⟨n, next, other, rfl⟩,
      branch'.trans branch, cond'.trans cond⟩

include ready cut wired start mem crosses in
theorem Cut.mem_pathRoles {i : Nat} {r : PathRole} :
    (i, r) ∈ pathRoles h w (inherited w chans) (.node (dgsfName u)) ↔ HasPathRole g s i r u := by
  have feeds := cut.feedsPath_iff ready wired start mem crosses
  have cond := (cut.inherited_modes ready start wired (cut.dgsf_mem mem crosses)
    ⟨mem, .inr ⟨rfl, crosses⟩⟩).1
  unfold pathRoles HasPathRole
  simp only [cut.subgraphOf_dgsf mem crosses, ← feeds, ← cond]
  cases (inherited w chans (.node (dgsfName u))).isCond <;>
    cases feedsPath w (inherited w chans) true (.node (dgsfName u)) <;>
      cases feedsPath w (inherited w chans) false (.node (dgsfName u)) <;>
        cases r <;> simp [eq_comm]

/-- The channels that are entered are those behind the nodes. -/
def dgsfs (h : ChanGraph) (order : List String) (chans : ChanId → ChanConfig) : List ChanId :=
  (channels (registryTable h order)).filter fun c => (chans c).chanType = .Chan_DGSF

section
variable (perm : order.Perm h.nodes)

include ready cut start perm in
theorem Cut.mem_dgsfs {c : ChanId} : c ∈ dgsfs h order chans ↔
    ∃ u ∈ g.nodes, g.crosses u = true ∧ c = .node (dgsfName u) := by
  rw [dgsfs, List.mem_filter, mem_channels_chans (cut.cutGraph ready) perm, decide_eq_true_iff]
  constructor
  · rintro ⟨⟨n, inside, rfl⟩, type⟩
    obtain old | ⟨u, hu, crosses, rfl⟩ := (cut.mem_nodes n).mp inside
    · rw [start n inside, chanOf, cut.isDGSF_eq ready old] at type
      cases type
    · exact ⟨u, hu, crosses, rfl⟩
  · rintro ⟨u, hu, crosses, rfl⟩
    have inside := cut.dgsf_mem hu crosses
    refine ⟨⟨_, inside, rfl⟩, ?_⟩
    rw [start _ inside, chanOf, cut.isDGSF_dgsf hu crosses]
    rfl

include ready cut start perm in
theorem Cut.filed {κ : Type} [DecidableEq κ] {places : ChanId → List (Nat × κ)}
    {P : Nat → κ → String → Prop} (belongs : ∀ u ∈ g.nodes, g.crosses u = true →
      ∀ i r, (i, r) ∈ places (.node (dgsfName u)) ↔ P i r u) :
    Filed g order P ((dgsfs h order chans).foldl (fun t c => t.file (places c) c) .empty) := by
  have entered {c : ChanId} := cut.mem_dgsfs (c := c) ready start perm
  have nodup := nodup_channels (cut.cutGraph ready) perm
  obtain ⟨lists, keys⟩ := Buckets.foldl_file places
    (nodup.filter fun c => (chans c).chanType = .Chan_DGSF)
  rw [← dgsfs] at lists keys
  refine ⟨fun i r c => ?_, fun i r => ?_, fun i => ?_⟩
  · rw [lists, List.mem_filter, entered, decide_eq_true_iff]
    constructor
    · rintro ⟨⟨u, hu, crosses, rfl⟩, here⟩
      exact ⟨u, hu, crosses, (belongs u hu crosses i r).mp here, rfl⟩
    · rintro ⟨u, hu, crosses, here, rfl⟩
      exact ⟨⟨u, hu, crosses, rfl⟩, (belongs u hu crosses i r).mpr here⟩
  · have all : channels (registryTable h order) = order.map .node :=
      channels_chans (cut.cutGraph ready).onlyChans fun n => perm.mem_iff.mp
    rw [lists, ← all]
    exact List.filter_sublist.trans List.filter_sublist
  · rw [keys]
    constructor
    · rintro ⟨c, mem, r, here⟩
      obtain ⟨u, hu, crosses, rfl⟩ := entered.mp mem
      exact ⟨u, hu, crosses, r, (belongs u hu crosses i r).mp here⟩
    · rintro ⟨u, hu, crosses, r, here⟩
      exact ⟨_, entered.mpr ⟨u, hu, crosses, rfl⟩, r, (belongs u hu crosses i r).mpr here⟩

include ready cut wired start perm in
/-- The channels between subgraphs have one upstream, and feed no other channels between subgraphs. -/
theorem Cut.entries (c : ChanId) (listed : c ∈ channels (registryTable h order))
    (dgsf : (chans c).chanType = .Chan_DGSF) : (w.upstream c).length = 1 ∧
      (∀ u ∈ w.upstream c, (chans u).chanType ≠ .Chan_DGSF) ∧
        ∀ d ∈ w.downstream c, (chans d).chanType ≠ .Chan_DGSF := by
  have entered : c ∈ dgsfs h order chans := List.mem_filter.mpr ⟨listed, by simpa using dgsf⟩
  obtain ⟨u, hu, crosses, rfl⟩ := (cut.mem_dgsfs ready start perm).mp entered
  have plain (n : String) (mem : n ∈ g.nodes) : (chans (.node n)).chanType ≠ .Chan_DGSF := by
    simp [start n (cut.mem mem), chanOf, cut.isDGSF_eq ready mem]
  have up : w.upstream (.node (dgsfName u)) = [.node u] := by
    rw [wired.upstream _ (cut.dgsf_mem hu crosses), cut.dgsf_allPre hu crosses]
    rfl
  rw [up]
  refine ⟨rfl, fun d only => List.mem_singleton.mp only ▸ plain u hu, fun d down => ?_⟩
  obtain ⟨n, next, -, rfl⟩ := (cut.dgsf_downstream wired hu crosses).mp down
  exact plain n (next_known ready.toNamed hu n next)

include ready cut wired start perm in
theorem Cut.tables : let t := configGraphScheduler h (registryTable h order) w chans
    t.chans = (channels (registryTable h order)).foldl (inheritModes w) chans ∧
      Filed g order (HasRole g) t.subgraphTable ∧
        Filed g order (HasPathRole g s) t.divergenceGraph := by
  have run := foldl_configEntry (g := h) (nodup_channels (cut.cutGraph ready) perm)
    (cut.entries ready wired start perm)
  rw [configGraphScheduler, run]
  exact ⟨rfl,
    cut.filed ready start perm fun u hu crosses i r => cut.mem_roles ready wired hu crosses,
    cut.filed ready start perm fun u hu crosses i r =>
      cut.mem_pathRoles ready wired start hu crosses⟩

end

end

/-- However the map lists the subgraphs, and in whatever order the channels are registered: the
scheduler is told for each subgraph which channels it fills and which ones feed it, and the channels
that take part in a branch. The second table has only the subgraphs with such a channel. -/
theorem configGraphScheduler_filed (ready : Compilable g s size) {ids : List Nat}
    (distinct : ids.Nodup) (all : ∀ n ∈ g.nodes, (g.node n).subgraphId ∈ ids) :
    ∃ h, ChanGraph.addChanDGSF size ids g = some h ∧ ∀ order, order.Perm h.nodes →
      ∃ w chans, genConnect h order = some w ∧ sizeChans h s order w = some chans ∧
        let t := configGraphScheduler h (registryTable h order) w chans
        setUp h s order w = some t.chans ∧ Filed g order (HasRole g) t.subgraphTable ∧
          Filed g order (HasPathRole g s) t.divergenceGraph := by
  obtain ⟨h, run, cut⟩ := addChanDGSF_cut ready.toDgsfReady size distinct all
  have cutGraph := cut.cutGraph ready
  refine ⟨h, run, fun order perm => ?_⟩
  obtain ⟨w, connects, wired⟩ := genConnect_chans cutGraph.onlyChans cutGraph.toConnected perm
  obtain ⟨chans, sizes, start⟩ := sizeChans_eq (s := s) (w := w) cutGraph perm
  obtain ⟨same, subgraphs, paths⟩ := cut.tables ready wired start perm
  exact ⟨w, chans, connects, sizes, by rw [setUp, sizes, same]; rfl, subgraphs, paths⟩

theorem configGraphScheduler_filed_nested :
    ∃ h, ChanGraph.addChanDGSF 2 [1, 0] (nested "Cmp") = some h ∧ ∀ order, order.Perm h.nodes →
      ∃ w chans, genConnect h order = some w ∧ sizeChans h nestedSetting order w = some chans ∧
        let t := configGraphScheduler h (registryTable h order) w chans
        setUp h nestedSetting order w = some t.chans ∧
          Filed (nested "Cmp") order (HasRole (nested "Cmp")) t.subgraphTable ∧
          Filed (nested "Cmp") order (HasPathRole (nested "Cmp") nestedSetting) t.divergenceGraph :=
  configGraphScheduler_filed (nested_compilable "Cmp" (.inl rfl)) (by decide) (by decide)

end DataflowSim.Registry
