import DataflowSim.Graph.ScatterWiring

/-!
# The law of the scatter channels

The scatter phase as a whole, with the completion of the connections behind it: the operands of
the nodes, what the new channels hand on, and which node gets which mode.
-/

namespace DataflowSim.Graph

open ControlTree (LoopHierarchy)

namespace ChanGraph

variable {g s : ChanGraph} {H : LoopHierarchy} {done : List String} {mode : String → ChanMode}
  {u : String}

/-- `p` stands in a loop below the one of `n`. -/
def Below (H : LoopHierarchy) (n p : String) : Prop := H.findNodeCtrlRegion p ≠ "" ∧
  H.findNodeCtrlRegion p ∈ (H.region (H.findNodeCtrlRegion n)).lowerControlRegion

/-- The node feeds a loop below. -/
def FeedsBelow (g : ChanGraph) (H : LoopHierarchy) (n : String) : Prop :=
  ∃ s ∈ (g.node n).allNext, Below H n s

/-- When the turn of `n` comes, a scatter channel is in the place of its operand `p`: the split of `p`,
or of the node itself, was before. -/
def Replaced (g : ChanGraph) (H : LoopHierarchy) (n p : String) : Prop :=
  p ∈ H.visits.takeWhile (· ≠ n) ++ [n] ∧ g.splits H p = true ∧ g.isLc n = false

/-- An operand of the node comes from a loop below, and is still there when its turn comes. A scatter
channel in its place counts for no loop: the hierarchy is older than the channel. -/
def FedFromBelow (g : ChanGraph) (H : LoopHierarchy) (n : String) : Prop :=
  ∃ p ∈ (g.node n).allPre, Below H n p ∧ ¬g.Replaced H n p

/-- What the phase makes of the graph `g` whose loops are `H`. -/
structure Scattered (g : ChanGraph) (H : LoopHierarchy) (h : ChanGraph) : Prop where
  connected : h.Connected
  nodes : h.nodes = g.nodes ++ (H.visits.filter (g.splits H)).map (g.shadow H)
  /-- Operands keep their kinds and places. -/
  operands : ∀ κ, ∀ v ∈ g.nodes, h.pre κ v = (g.pre κ v).map (g.renamed H H.visits v)
  /-- A new channel hands on what its node has sent, and a controller of its loop opens it. -/
  channel : ∀ u ∈ H.visits, g.splits H u = true → h.pre .data (g.shadow H u) = [u] ∧
    h.pre .active (g.shadow H u) = (g.lcOf (g.lowerOf H u)).toList ∧
    ∀ κ, h.next κ (g.shadow H u) = (g.next κ u).filter fun v => !g.isLc v
  /-- Besides controllers, such a node feeds its channel, and as a controller those of its loop. -/
  feeds : ∀ u ∈ H.visits, g.splits H u = true → ∀ κ, ∀ v ∈ h.next κ u,
    v ∈ g.nodes ∧ g.isLc v = true ∨ v = g.shadow H u ∨
    ∃ w ∈ H.visits, v = g.shadow H w ∧ g.lcOf (g.lowerOf H w) = some u
  drain : ∀ n ∈ H.visits, g.FedFromBelow H n → (h.node n).chanMode = .Drain_mode
  keep : ∀ n ∈ H.visits, ¬g.FedFromBelow H n → g.FeedsBelow H n → (h.node n).chanMode = .Keep_mode
  other : ∀ n ∈ g.nodes, (n ∈ H.visits → ¬g.FedFromBelow H n ∧ ¬g.FeedsBelow H n) →
    (h.node n).chanMode = (g.node n).chanMode
  /-- Nothing else of a node changes. -/
  rest : ∀ n ∈ g.nodes, h.node n = { g.node n with
    chanMode := (h.node n).chanMode
    preNodes := (h.node n).preNodes
    nextNodes := (h.node n).nextNodes }
  new : ∀ u ∈ H.visits, g.splits H u = true → h.node (g.shadow H u) = { g.shadowNode H u with
    preNodes := (h.node (g.shadow H u)).preNodes
    nextNodes := (h.node (g.shadow H u)).nextNodes }

theorem lowerOf_ne : g.lowerOf H u ≠ "" ↔ g.FeedsBelow H u := LoopHierarchy.lowerRegion_ne

/-- No loop lists a new channel. -/
theorem findNodeCtrlRegion_of_new (ready : g.Scatterable H) {n : String} (new : n ∉ g.nodes) :
    H.findNodeCtrlRegion n = "" := by
  have none : H.loopOf n = none := by
    rw [LoopHierarchy.loopOf, List.find?_eq_none]
    intro R loop
    simpa using fun listed => new (ready.member R loop n listed)
  rw [LoopHierarchy.findNodeCtrlRegion, none, Option.getD_none]

theorem drains_iff (ready : g.Scatterable H) (known : ∀ p ∈ done, p ∈ g.nodes) {n : String} :
    g.drains H done n = true ↔ ∃ p ∈ (g.node n).allPre, Below H n p ∧
      ¬(p ∈ done ∧ g.splits H p = true ∧ g.isLc n = false) := by
  rw [drains, decide_eq_true_eq, LoopHierarchy.lowerRegion_ne]
  constructor
  · rintro ⟨q, mem, below⟩
    obtain ⟨p, operand, rfl⟩ := List.mem_map.mp mem
    by_cases gone : p ∈ done ∧ g.splits H p = true ∧ g.isLc n = false
    · rw [renamed, if_pos gone] at below
      have out := shadow_fresh ready (known p gone.1) gone.2.1
      exact absurd (findNodeCtrlRegion_of_new ready out) below.1
    · rw [renamed, if_neg gone] at below
      exact ⟨p, operand, below, gone⟩
  · rintro ⟨p, mem, below, stays⟩
    refine ⟨p, List.mem_map.mpr ⟨p, mem, ?_⟩, below⟩
    rw [renamed, if_neg stays]

theorem Visited.mem_shadow (v : g.Visited H done mode s) (mem : u ∈ done)
    (splits : g.splits H u = true) : g.shadow H u ∈ s.nodes := by
  rw [v.nodes]
  exact List.mem_append_right _ (List.mem_map_of_mem (List.mem_filter.mpr ⟨mem, splits⟩))

theorem Visited.cases (v : g.Visited H done mode s) {n : String} (mem : n ∈ s.nodes) :
    n ∈ g.nodes ∨ ∃ u ∈ done, g.splits H u = true ∧ n = g.shadow H u := by
  rw [v.nodes, List.mem_append] at mem
  refine mem.imp_right fun mem => ?_
  obtain ⟨u, there, rfl⟩ := List.mem_map.mp mem
  obtain ⟨there, splits⟩ := List.mem_filter.mp there
  exact ⟨u, there, splits, rfl⟩

section
variable (ready : g.Scatterable H) (v : g.Visited H done mode s) (known : ∀ p ∈ done, p ∈ g.nodes)
include ready v known

/-- What is listed as a successor lists it as a predecessor. -/
theorem Visited.entered {a b : String} {κ : Conn} (ha : a ∈ s.nodes) (listed : b ∈ s.next κ a) :
    b ∈ s.nodes ∧ a ∈ s.pre κ b := by
  have old {u w : String} (hu : u ∈ g.nodes) (edge : w ∈ g.next κ u) :
      w ∈ s.nodes ∧ g.renamed H done w u ∈ s.pre κ w := by
    have hw := ready.next u hu κ w edge
    rw [v.pre hw]
    exact ⟨v.mem_of_node hw, List.mem_map_of_mem ((ready.symmetric κ u hu w hw).mp edge)⟩
  rcases v.cases ha with mem | ⟨u, there, splits, rfl⟩
  · rw [ChanGraph.next, v.node a mem] at listed
    by_cases gone : a ∈ done ∧ g.splits H a = true
    · simp only [nodeAfter, if_pos gone, List.mem_append, List.mem_filter] at listed
      rcases listed with ⟨edge, lc⟩ | new
      · have here := old mem edge
        rwa [renamed, if_neg (by simp [lc])] at here
      · cases κ with
        | active => simp at new
        | data =>
          obtain rfl : b = g.shadow H a := by simpa using new
          refine ⟨v.mem_shadow gone.1 gone.2, ?_⟩
          rw [ChanGraph.pre, v.shadow a gone.1 gone.2]
          exact List.mem_singleton_self a
    · simp only [nodeAfter, if_neg gone] at listed
      have here := old mem listed
      rwa [renamed, if_neg fun h => gone ⟨h.1, h.2.1⟩] at here
  · rw [ChanGraph.next, v.shadow u there splits, shadowNode, List.mem_filter] at listed
    have here := old (known u there) listed.1
    rwa [renamed, if_pos ⟨there, splits, by simpa using listed.2⟩] at here

theorem Visited.named : s.Named where
  next a ha κ b listed := (v.entered ready known ha listed).1
  pre a ha κ b listed := by
    rcases v.cases ha with mem | ⟨u, there, splits, rfl⟩
    · rw [v.pre mem] at listed
      obtain ⟨p, operand, rfl⟩ := List.mem_map.mp listed
      by_cases gone : p ∈ done ∧ g.splits H p = true ∧ g.isLc a = false
      · rw [renamed, if_pos gone]
        exact v.mem_shadow gone.1 gone.2.1
      · rw [renamed, if_neg gone]
        exact v.mem_of_node (ready.pre a mem κ p operand)
    · rw [ChanGraph.pre, v.shadow u there splits] at listed
      cases κ with
      | data =>
        obtain rfl : b = u := by simpa [shadowNode] using listed
        exact v.mem_of_node (known b there)
      | active =>
        have declared := lowerOf_declared ready splits
        have found : g.lcOf (g.lowerOf H u) = some b := by simpa [shadowNode] using listed
        exact v.mem_of_node (ready.listed _ declared b (List.mem_of_find?_eq_some found))

omit known in
theorem Visited.nodup {n : String} (hn : n ∈ s.nodes) (κ : Conn) : (s.pre κ n).Nodup := by
  rcases v.cases hn with mem | ⟨u, there, splits, rfl⟩
  · rw [v.pre mem]
    refine List.Nodup.map_on (fun p hp q hq same => ?_) (ready.nodupPre κ n mem)
    have hp := ready.pre n mem κ p hp
    have hq := ready.pre n mem κ q hq
    unfold renamed at same
    split_ifs at same with goneP goneQ goneQ
    · exact shadow_inj ready hp hq goneP.2.1 goneQ.2.1 same
    · exact absurd (same ▸ hq) (shadow_fresh ready hp goneP.2.1)
    · exact absurd (same ▸ hp) (shadow_fresh ready hq goneQ.2.1)
    · exact same
  · rw [ChanGraph.pre, v.shadow u there splits]
    cases κ with
    | data => exact List.nodup_singleton u
    | active => cases found : g.lcOf (g.lowerOf H u) <;> simp [shadowNode, found]

/-- What a new channel feeds is listed by it. -/
theorem Visited.handed {w : String} {κ : Conn} (mem : u ∈ done) (splits : g.splits H u = true)
    (hw : w ∈ s.nodes) (listed : g.shadow H u ∈ s.pre κ w) : w ∈ s.next κ (g.shadow H u) := by
  have hu := known u mem
  have out := shadow_fresh ready hu splits
  rcases v.cases hw with old | ⟨a, there, splits', rfl⟩
  · rw [v.pre old] at listed
    obtain ⟨p, operand, same⟩ := List.mem_map.mp listed
    have hp := ready.pre w old κ p operand
    by_cases gone : p ∈ done ∧ g.splits H p = true ∧ g.isLc w = false
    · rw [renamed, if_pos gone] at same
      obtain rfl := shadow_inj ready hp hu gone.2.1 splits same
      rw [ChanGraph.next, v.shadow p mem splits, shadowNode, List.mem_filter]
      exact ⟨(ready.symmetric κ p hp w old).mpr operand, by simp [gone.2.2]⟩
    · rw [renamed, if_neg gone] at same
      exact absurd (same ▸ hp) out
  · rw [ChanGraph.pre, v.shadow a there splits'] at listed
    cases κ with
    | data =>
      have same : g.shadow H u = a := by simpa [shadowNode] using listed
      exact absurd (same ▸ known a there) out
    | active =>
      have found : g.lcOf (g.lowerOf H a) = some (g.shadow H u) := by simpa [shadowNode] using listed
      exact absurd (ready.listed _ (lowerOf_declared ready splits') _ (List.mem_of_find?_eq_some found)) out

/-- What a node that splits still feeds. -/
theorem Visited.fed {w : String} {κ : Conn} (mem : u ∈ done) (splits : g.splits H u = true)
    (hw : w ∈ s.nodes) (listed : u ∈ s.pre κ w) : w ∈ g.nodes ∧ g.isLc w = true ∨
      w = g.shadow H u ∨ ∃ a ∈ done, w = g.shadow H a ∧ g.lcOf (g.lowerOf H a) = some u := by
  have hu := known u mem
  rcases v.cases hw with old | ⟨a, there, splits', rfl⟩
  · rw [v.pre old] at listed
    obtain ⟨p, operand, same⟩ := List.mem_map.mp listed
    by_cases gone : p ∈ done ∧ g.splits H p = true ∧ g.isLc w = false
    · rw [renamed, if_pos gone] at same
      exact absurd (same ▸ hu) (shadow_fresh ready (known p gone.1) gone.2.1)
    · rw [renamed, if_neg gone] at same
      subst same
      exact .inl ⟨old, by simpa [mem, splits] using gone⟩
  · rw [ChanGraph.pre, v.shadow a there splits'] at listed
    cases κ with
    | data =>
      obtain rfl : u = a := by simpa [shadowNode] using listed
      exact .inr (.inl rfl)
    | active => exact .inr (.inr ⟨a, there, rfl, by simpa [shadowNode] using listed⟩)

end

theorem Visited.scattered {h : ChanGraph} (ready : g.Scatterable H)
    (v : g.Visited H H.visits (g.modes H H.visits) s) (complete : s.Completed h) : g.Scattered H h := by
  have known : ∀ n ∈ H.visits, n ∈ g.nodes := fun n mem => by
    obtain ⟨R, loop, listed⟩ := List.mem_flatMap.mp mem
    exact ready.member R loop n listed
  have pre {n : String} (mem : n ∈ s.nodes) (κ : Conn) : h.pre κ n = s.pre κ n := by
    rw [complete.pre mem]
    exact Adjacency.complete_pre_of_entered (fun w hw listed => (v.entered ready known hw listed).2)
      (v.nodup ready mem κ)
  have connected : h.Connected := complete.connected (v.named ready known)
  have operands (κ : Conn) (w : String) (mem : w ∈ g.nodes) :
      h.pre κ w = (g.pre κ w).map (g.renamed H H.visits w) := by
    rw [pre (v.mem_of_node mem), v.pre mem]
  have mode (n : String) (mem : n ∈ g.nodes) : (h.node n).chanMode = g.modes H H.visits n := by
    rw [complete.node n (v.mem_of_node mem), v.node n mem]
    rfl
  have drains {n : String} (mem : n ∈ H.visits) :
      g.drains H (H.visits.takeWhile (· ≠ n) ++ [n]) n = true ↔ g.FedFromBelow H n :=
    drains_iff ready (List.forall_mem_append.mpr
      ⟨fun p there => known p (List.takeWhile_subset _ there), by simpa using known n mem⟩)
  exact
    { connected
      nodes := complete.nodes.trans v.nodes
      operands
      channel := fun u mem splits => by
        have there := v.mem_shadow mem splits
        have operand (κ : Conn) : h.pre κ (g.shadow H u) = (g.shadowNode H u).preNodes κ := by
          rw [pre there, ChanGraph.pre, v.shadow u mem splits]
        refine ⟨operand .data, operand .active, fun κ => ?_⟩
        have own : s.next κ (g.shadow H u) = (g.next κ u).filter fun v => !g.isLc v := by
          rw [ChanGraph.next, v.shadow u mem splits]
          rfl
        rw [complete.next there, Adjacency.complete_next_of_entered, own]
        · exact fun w hw listed => v.handed ready known mem splits hw listed
        · exact own ▸ (ready.nodupNext κ u (known u mem)).filter _
      feeds := fun u mem splits κ w edge => by
        have hu : u ∈ h.nodes := complete.nodes ▸ v.mem_of_node (known u mem)
        have hw : w ∈ h.nodes := connected.next u hu κ w edge
        have operand := (connected.symmetric κ u hu w hw).mp edge
        rw [pre (complete.nodes ▸ hw)] at operand
        exact v.fed ready known mem splits (complete.nodes ▸ hw) operand
      drain := fun n mem fed => by
        rw [mode n (known n mem), modes, if_pos mem, visitMode, if_pos ((drains mem).mpr fed)]
      keep := fun n mem fed feeds => by
        rw [mode n (known n mem), modes, if_pos mem, visitMode, if_neg (mt (drains mem).mp fed),
          if_pos (lowerOf_ne.mpr feeds)]
      other := fun n mem out => by
        rw [mode n mem, modes]
        split_ifs with listed
        · obtain ⟨fed, feeds⟩ := out listed
          rw [visitMode, if_neg (mt (drains listed).mp fed), if_neg (mt lowerOf_ne.mp feeds)]
        · rfl
      rest := fun n mem => by
        rw [complete.node n (v.mem_of_node mem), v.node n mem]
        rfl
      new := fun u mem splits => by
        rw [complete.node _ (v.mem_shadow mem splits), v.shadow u mem splits] }

/-- The second phase: what feeds a loop below keeps its data behind one channel in that loop, and
what is fed from there drains. -/
theorem addScatterNode_scattered {fuel : Nat} (hierarchy : g.controlTree.genLoopHierarchy fuel = some H)
    (ready : g.Scatterable H) : ∃ h, addScatterNode fuel g = some h ∧ g.Scattered H h := by
  obtain ⟨s, run, v⟩ := setModes_visited ready
  have named : s.Named := v.named ready fun n mem => by
    obtain ⟨R, loop, listed⟩ := List.mem_flatMap.mp mem
    exact ready.member R loop n listed
  obtain ⟨h, completed, complete⟩ := completeConnect_completed named
  refine ⟨h.removeRedundantConnect, ?_, v.scattered ready complete⟩
  rw [addScatterNode, hierarchy, Option.bind_eq_bind, Option.bind_some, run, Option.bind_eq_bind,
    Option.bind_some, ChanGraph.completed, completed, Option.map_some]

theorem throughLoop_regions_nodup : ["outer", "inner"].Nodup := by decide

/-- A loop in a loop: `u` sends into it and `d` receives from it. -/
def throughLoop : ChanGraph where
  nodes := ["u", "l", "v", "d"]
  node
    | "u" =>
      { controlRegionName := "outer"
        nextNodes := fun | .data => ["v"] | .active => ["l"] }
    | "l" =>
      { nodeType := .Lc
        controlRegionName := "inner"
        preNodes := fun | .data => [] | .active => ["u"] }
    | "v" =>
      { controlRegionName := "inner"
        preNodes := fun | .data => ["u"] | .active => []
        nextNodes := fun | .data => ["d"] | .active => [] }
    | "d" =>
      { controlRegionName := "outer"
        preNodes := fun | .data => ["v"] | .active => [] }
    | _ => {}
  controlTree :=
    { regions := ["outer", "inner"]
      region
        | "outer" => { lowerControlRegion := ["inner"], nodes := ["u", "d"] }
        | "inner" => { upperControlRegion := "outer", nodes := ["l", "v"] }
        | _ => {}
      nodup := throughLoop_regions_nodup }
  nodup := by decide

theorem addScatterNode_scattered_throughLoop : ∃ H h,
    throughLoop.controlTree.genLoopHierarchy 4 = some H ∧
    addScatterNode 4 throughLoop = some h ∧ throughLoop.Scattered H h := by
  have known : (throughLoop.controlTree.genLoopHierarchy 4).map (fun H =>
      (H.loops, H.loops.map fun R => (H.region R).nodes)) =
      some (["outer", "inner"], [["u", "d"], ["l", "v"]]) := by decide +kernel
  obtain ⟨H, found, lists⟩ := Option.map_eq_some_iff.mp known
  obtain ⟨loops, regions⟩ := Prod.mk.inj lists
  have visits : H.visits = ["u", "d", "l", "v"] := by
    rw [LoopHierarchy.visits, List.flatMap_def, regions]
    rfl
  obtain ⟨h, run, law⟩ := addScatterNode_scattered found
    { pre := by decide
      next := by decide
      symmetric := by decide
      nodupPre := by decide
      nodupNext := by decide
      listed := by decide
      member := fun R loop n listed => by
        have nodes : ["u", "d", "l", "v"] ⊆ throughLoop.nodes := by decide
        exact nodes (visits ▸ List.mem_flatMap.mpr ⟨R, loop, listed⟩)
      once := by
        rw [visits]
        decide
      declared := by
        rw [loops]
        decide
      fresh := by decide +kernel
      distinct := by decide +kernel }
  exact ⟨H, h, found, run, law⟩

theorem throughLoops_regions_nodup : ["b", "a", "c"].Nodup := by decide

/-- Three loops, of which `b` is in `a` and `c` in `b`. The node `p` feeds a loop below and one above. -/
def throughLoops : ChanGraph where
  nodes := ["n", "p", "x"]
  node
    | "n" =>
      { controlRegionName := "a"
        preNodes := fun | .data => ["p"] | .active => [] }
    | "p" =>
      { controlRegionName := "b"
        nextNodes := fun | .data => ["x", "n"] | .active => [] }
    | "x" =>
      { controlRegionName := "c"
        preNodes := fun | .data => ["p"] | .active => [] }
    | _ => {}
  controlTree :=
    { regions := ["b", "a", "c"]
      region
        | "a" => { lowerControlRegion := ["b"], nodes := ["n"] }
        | "b" => { upperControlRegion := "a", lowerControlRegion := ["c"], nodes := ["p"] }
        | "c" => { upperControlRegion := "b", nodes := ["x"] }
        | _ => {}
      nodup := throughLoops_regions_nodup }
  nodup := by decide

/-- The turn of `p` comes first, and no loop below feeds `n` any more. -/
example : (addScatterNode 9 throughLoops).map (fun h => (h.pre .data "n", (h.node "n").chanMode)) =
    some (["p_scatter_c"], .Normal) := by
  decide +kernel

end ChanGraph

end DataflowSim.Graph
