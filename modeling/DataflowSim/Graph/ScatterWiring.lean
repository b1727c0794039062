import DataflowSim.Graph.Scatter

/-!
# The wiring of scatter channels

After some visits of the scatter phase the graph is known node by node: a node whose visit has
split it feeds one new channel besides its loop controllers, the new channel feeds what the node
had fed, and every other operand stands where it stood.
-/

namespace DataflowSim.Graph

open ControlTree (LoopHierarchy)

namespace ControlTree.LoopHierarchy

/-- All nodes of the loops, in the order in which they are visited. -/
def visits (H : LoopHierarchy) : List String := H.loops.flatMap fun R => (H.region R).nodes

variable {H : LoopHierarchy} {R : String} {l : List String}

theorem lowerRegion_eq : H.lowerRegion R l = ((l.map H.findNodeCtrlRegion).find? fun r =>
    r ∈ (H.region R).lowerControlRegion ∧ r ≠ "").getD "" := by
  have settled {last : String} (some : last ≠ "") (l : List String) :
      l.foldl (fun last n =>
        let r := H.findNodeCtrlRegion n
        if r ∈ (H.region R).lowerControlRegion ∧ last = "" then r else last) last = last := by
    induction l with
    | nil => rfl
    | cons n l ih => simpa [some] using ih
  unfold lowerRegion
  induction l with
  | nil => rfl
  | cons n l ih =>
    rw [List.foldl_cons, List.map_cons]
    by_cases lower : H.findNodeCtrlRegion n ∈ (H.region R).lowerControlRegion
    · by_cases null : H.findNodeCtrlRegion n = ""
      · simpa [lower, null] using ih
      · simpa [lower, null] using settled null l
    · simpa [lower] using ih

/-- A loop is found when one of the nodes stands in a loop below. -/
theorem lowerRegion_ne : H.lowerRegion R l ≠ "" ↔ ∃ n ∈ l, H.findNodeCtrlRegion n ≠ "" ∧
    H.findNodeCtrlRegion n ∈ (H.region R).lowerControlRegion := by
  rw [lowerRegion_eq]
  cases found : (l.map H.findNodeCtrlRegion).find? fun r =>
      r ∈ (H.region R).lowerControlRegion ∧ r ≠ "" with
  | none =>
    have none := List.find?_eq_none.mp found
    simp only [Option.getD_none, ne_eq, not_true_eq_false, false_iff, not_exists, not_and]
    intro n mem null lower
    exact none _ (List.mem_map_of_mem mem) (by simp [null, lower])
  | some r =>
    have holds := List.find?_some found
    obtain ⟨n, mem, rfl⟩ := List.mem_map.mp (List.mem_of_find?_eq_some found)
    simp only [ne_eq, decide_eq_true_eq] at holds
    simp only [Option.getD_some]
    exact ⟨fun _ => ⟨n, mem, holds.2, holds.1⟩, fun _ => holds.2⟩

theorem lowerRegion_mem (some : H.lowerRegion R l ≠ "") : H.lowerRegion R l ∈ H.loops := by
  rw [lowerRegion_eq] at some ⊢
  cases found : (l.map H.findNodeCtrlRegion).find? fun r =>
      r ∈ (H.region R).lowerControlRegion ∧ r ≠ "" with
  | none =>
    rw [found] at some
    exact absurd rfl some
  | some r =>
    have holds := List.find?_some found
    obtain ⟨n, -, rfl⟩ := List.mem_map.mp (List.mem_of_find?_eq_some found)
    simp only [ne_eq, decide_eq_true_eq] at holds
    rw [Option.getD_some]
    cases loop : H.loopOf n with
    | none => simp [findNodeCtrlRegion, loop] at holds
    | some R =>
      rw [findNodeCtrlRegion, loop, Option.getD_some]
      exact List.mem_of_find?_eq_some loop

end ControlTree.LoopHierarchy

namespace ChanGraph

/-! ## The graph after some visits -/

section
variable (g : ChanGraph) (H : LoopHierarchy)

def isLc (n : String) : Bool := (g.node n).nodeType = .Lc

/-- The loop below into which a node sends. -/
def lowerOf (u : String) : String := H.lowerRegion (H.findNodeCtrlRegion u) (g.node u).allNext

/-- The node sends into a loop below, and not only to controllers. -/
def splits (u : String) : Bool :=
  g.lowerOf H u ≠ "" && (g.node u).allNext.any fun v => !g.isLc v

def shadow (u : String) : String := scatterName u (g.lowerOf H u)

/-- What stands for the operand `p` of `v`. -/
def renamed (done : List String) (v p : String) : String :=
  if p ∈ done ∧ g.splits H p = true ∧ g.isLc v = false then g.shadow H p else p

/-- A node that is visited when those in `done` were, itself included. -/
def drains (done : List String) (n : String) : Bool :=
  H.lowerRegion (H.findNodeCtrlRegion n) ((g.node n).allPre.map (g.renamed H done n)) ≠ ""

def nodeAfter (done : List String) (mode : ChanMode) (n : String) : ChanNode :=
  { g.node n with
    chanMode := mode
    preNodes := fun κ => (g.pre κ n).map (g.renamed H done n)
    nextNodes := fun κ =>
      if n ∈ done ∧ g.splits H n = true then
        (g.next κ n).filter g.isLc ++ if κ = .data then [g.shadow H n] else []
      else g.next κ n }

/-- The channel behind `u`. -/
def shadowNode (u : String) : ChanNode where
  nodeOp := "Nop"
  chanMode := .Scatter_mode
  controlRegionName := g.lowerOf H u
  isPhysicalChan := false
  preNodes
    | .data => [u]
    | .active => (g.lcOf (g.lowerOf H u)).toList
  nextNodes κ := (g.next κ u).filter fun v => !g.isLc v

structure Visited (done : List String) (mode : String → ChanMode) (s : ChanGraph) : Prop where
  nodes : s.nodes = g.nodes ++ (done.filter (g.splits H)).map (g.shadow H)
  node : ∀ n ∈ g.nodes, s.node n = g.nodeAfter H done (mode n) n
  shadow : ∀ u ∈ done, g.splits H u = true → s.node (g.shadow H u) = g.shadowNode H u
  regions : s.controlTree.regions = g.controlTree.regions
  tree : ∀ R ∈ g.controlTree.regions, (s.controlTree.region R).nodes =
    (g.controlTree.region R).nodes ++
      (done.filter fun u => g.splits H u && g.lowerOf H u = R).map (g.shadow H)

/-- A node is visited once. No node is named like a scatter channel, different ones have different
names, and what the regions list are nodes. -/
structure Scatterable : Prop extends Connected g where
  listed : ∀ R ∈ g.controlTree.regions, ∀ n ∈ (g.controlTree.region R).nodes, n ∈ g.nodes
  member : ∀ R ∈ H.loops, ∀ n ∈ (H.region R).nodes, n ∈ g.nodes
  once : H.visits.Nodup
  declared : ∀ R ∈ H.loops, R ∈ g.controlTree.regions
  fresh : ∀ u ∈ g.nodes, ∀ R ∈ g.controlTree.regions, scatterName u R ∉ g.nodes
  distinct : ∀ u ∈ g.nodes, ∀ R ∈ g.controlTree.regions, ∀ u' ∈ g.nodes,
    ∀ R' ∈ g.controlTree.regions, scatterName u R = scatterName u' R' → u = u'

end

variable {g s : ChanGraph} {H : LoopHierarchy} {done : List String} {mode : String → ChanMode}
  {u : String}

theorem lowerOf_declared (ready : g.Scatterable H) (splits : g.splits H u = true) :
    g.lowerOf H u ∈ g.controlTree.regions := by
  refine ready.declared _ (LoopHierarchy.lowerRegion_mem ?_)
  simp only [ChanGraph.splits, Bool.and_eq_true, decide_eq_true_eq] at splits
  exact splits.1

theorem shadow_fresh (ready : g.Scatterable H) (hu : u ∈ g.nodes) (splits : g.splits H u = true) :
    g.shadow H u ∉ g.nodes := ready.fresh u hu _ (lowerOf_declared ready splits)

theorem shadow_inj (ready : g.Scatterable H) {u' : String} (hu : u ∈ g.nodes) (hu' : u' ∈ g.nodes)
    (splits : g.splits H u = true) (splits' : g.splits H u' = true)
    (same : g.shadow H u = g.shadow H u') : u = u' :=
  ready.distinct u hu _ (lowerOf_declared ready splits) u' hu' _ (lowerOf_declared ready splits') same

theorem Visited.mem_of_node (v : g.Visited H done mode s) {n : String} (mem : n ∈ g.nodes) :
    n ∈ s.nodes := v.nodes ▸ List.mem_append_left _ mem

/-- Renaming one operand more is replacing it. -/
theorem replace_renamed (ready : g.Scatterable H) (hu : u ∈ g.nodes) (new : u ∉ done)
    (done_nodes : ∀ p ∈ done, p ∈ g.nodes) (splits : g.splits H u = true) {n : String}
    (type : g.isLc n = false) {l : List String} (nodup : l.Nodup) :
    (l.map (g.renamed H done n)).replace u (g.shadow H u) = l.map (g.renamed H (done ++ [u]) n) := by
  have other {p : String} (ne : p ≠ u) : g.renamed H (done ++ [u]) n p = g.renamed H done n p := by
    simp [renamed, ne]
  induction l with
  | nil => rfl
  | cons p l ih =>
    obtain ⟨absent, nodup⟩ := List.nodup_cons.mp nodup
    rw [List.map_cons, List.map_cons]
    by_cases here : p = u
    · subst here
      have before : g.renamed H done n p = p := by simp [renamed, new]
      have after : g.renamed H (done ++ [p]) n p = g.shadow H p := by simp [renamed, splits, type]
      rw [before, after, List.replace_cons_self]
      exact congrArg _ (List.map_congr_left fun q mem => (other (ne_of_mem_of_not_mem mem absent)).symm)
    · have apart : g.renamed H done n p ≠ u := by
        unfold renamed
        split_ifs with gone
        · exact fun same => shadow_fresh ready (done_nodes p gone.1) gone.2.1 (same ▸ hu)
        · exact here
      rw [List.replace_cons, beq_false_of_ne apart.symm, ih nodup, other here]

/-! ## The operations -/

theorem newScatter_eq {r R : String} (fresh : r ∉ s.nodes) (declared : R ∈ s.controlTree.regions) :
    ∃ t, newScatter r R s = some t ∧ t.nodes = s.nodes ++ [r] ∧
      s.controlTree.addNodes R [r] = some t.controlTree ∧
      t.node = Function.update s.node r
        { nodeOp := "Nop", chanMode := .Scatter_mode, controlRegionName := R
          isPhysicalChan := false } := by
  obtain ⟨nodes, node, tree⟩ := newNode_of_fresh fresh
  obtain ⟨t, added⟩ := ControlTree.addNodes_isSome declared [r]
  have there : r ∈ (s.newNode r).nodes := by simp [nodes]
  refine ⟨⟨(s.newNode r).nodes, Function.update s.node r
    { nodeOp := "Nop", chanMode := .Scatter_mode, controlRegionName := R, isPhysicalChan := false },
    t, (s.newNode r).nodup⟩, ?_, nodes, added, rfl⟩
  simp [newScatter, addNode, modifyNode, addNodes2CtrlTree, enterRegion, there, tree, added, setNode,
    node]

theorem needScatterNode_eq {l : List String} (known : ∀ n ∈ l, n ∈ s.nodes) :
    s.needScatterNode l = some (l.any fun n => !s.isLc n) := by
  induction l with
  | nil => rfl
  | cons n l ih =>
    obtain ⟨here, rest⟩ := List.forall_mem_cons.mp known
    simp [needScatterNode, getNode_of_mem here, ih rest, isLc]

theorem keepLcs_eq {l : List String} (known : ∀ n ∈ l, n ∈ s.nodes) :
    s.keepLcs l = some (l.filter s.isLc) := by
  induction l with
  | nil => rfl
  | cons n l ih =>
    obtain ⟨here, rest⟩ := List.forall_mem_cons.mp known
    simp [keepLcs, getNode_of_mem here, ih rest, isLc, List.filter_cons]

@[simp] theorem setPre_pre (κ : Conn) (n : String) : (s.node n).setPre κ (s.pre κ n) = s.node n :=
  ChanNode.setPre_self _ _

/-- The nodes after the redirection of some successors of `u`. -/
def redirected (κ : Conn) (u r : String) (vs : List String) (s : ChanGraph) (n : String) : ChanNode :=
  if n = r then (s.node r).setNext κ (s.next κ r ++ vs.filter fun v => !s.isLc v)
  else (s.node n).setPre κ
    (if n ∈ vs ∧ s.isLc n = false then (s.pre κ n).replace u r else s.pre κ n)

theorem redirected_nodeType (κ : Conn) (u r : String) (vs : List String) (s : ChanGraph) (n : String) :
    (redirected κ u r vs s n).nodeType = (s.node n).nodeType := by
  unfold redirected
  by_cases atR : n = r
  · rw [if_pos atR, atR]
    rfl
  · rw [if_neg atR]
    rfl

theorem redirected_preNodes {κ ι : Conn} (other : ι ≠ κ) (u r : String) (vs : List String)
    (s : ChanGraph) (n : String) : (redirected κ u r vs s n).preNodes ι = s.pre ι n := by
  unfold redirected
  by_cases atR : n = r
  · rw [if_pos atR, atR]
    rfl
  · rw [if_neg atR]
    exact Function.update_of_ne other _ _

theorem foldlM_redirect {κ : Conn} {r : String} {vs : List String} (there : r ∈ s.nodes)
    (known : ∀ v ∈ vs, v ∈ s.nodes) (apart : r ∉ vs) (nodup : vs.Nodup)
    (fed : ∀ v ∈ vs, u ∈ s.pre κ v) :
    vs.foldlM (redirect κ u r) s = some { s with node := redirected κ u r vs s } := by
  induction vs using List.reverseRecOn with
  | nil =>
    refine congrArg some (eq_of_node_eq rfl rfl fun n => ?_)
    by_cases here : n = r
    · subst here
      simp [redirected, next]
    · simp [redirected, here]
  | append_singleton vs v ih =>
    rw [List.forall_mem_append] at known fed
    rw [List.mem_append, not_or] at apart
    obtain ⟨nodup, -, disjoint⟩ := List.nodup_append.mp nodup
    have fresh : v ∉ vs := fun mem => disjoint v mem v (by simp) rfl
    have ne : v ≠ r := fun same => apart.2 (by simp [same])
    have hv : v ∈ s.nodes := known.2 v (by simp)
    have operand : u ∈ s.pre κ v := fed.2 v (by simp)
    rw [List.foldlM_append, ih known.1 apart.1 nodup fed.1, Option.bind_eq_bind, Option.bind_some,
      List.foldlM_cons]
    have node : redirected κ u r vs s v = s.node v := by simp [redirected, ne, fresh]
    have look : getNode { s with node := redirected κ u r vs s } v = some (s.node v) :=
      (getNode_of_mem (g := { s with node := redirected κ u r vs s }) hv).trans (congrArg some node)
    by_cases lc : (s.node v).nodeType = .Lc
    · have skip : redirect κ u r { s with node := redirected κ u r vs s } v =
          some { s with node := redirected κ u r vs s } := by
        simp [redirect, look, lc]
      rw [skip, Option.bind_eq_bind, Option.bind_some]
      refine congrArg some (eq_of_node_eq rfl rfl fun n => ?_)
      by_cases same : n = v
      · subst same
        simp [redirected, ne, isLc, lc]
      · simp [redirected, same, isLc, lc]
    · have go : redirect κ u r { s with node := redirected κ u r vs s } v =
          some { s with node := redirected κ u r (vs ++ [v]) s } := by
        have operand' : u ∈ (s.node v).preNodes κ := operand
        simp only [redirect, look, Option.bind_eq_bind, Option.bind_some, ne_eq, lc,
          not_false_eq_true, operand', and_self, if_true]
        rw [modifyNode_of_mem (by exact hv), Option.bind_some, modifyNode_of_mem (by exact there)]
        refine congrArg some (eq_of_node_eq rfl rfl fun n => ?_)
        by_cases atR : n = r
        · subst atR
          simp [redirected, Ne.symm ne, isLc, lc, next]
        · by_cases atV : n = v
          · subst atV
            simp [redirected, ne, fresh, isLc, lc, pre]
          · simp [redirected, atR, atV]
      rw [go]
      rfl

/-- The nodes after both redirections. -/
def moved (u r : String) (vs : Conn → List String) (s : ChanGraph) (n : String) : ChanNode :=
  if n = r then
    { s.node r with nextNodes := fun κ => s.next κ r ++ (vs κ).filter fun v => !s.isLc v }
  else
    { s.node n with
      preNodes := fun κ =>
        if n ∈ vs κ ∧ s.isLc n = false then (s.pre κ n).replace u r else s.pre κ n }

theorem moved_nodeType (u r : String) (vs : Conn → List String) (s : ChanGraph) (n : String) :
    (moved u r vs s n).nodeType = (s.node n).nodeType := by
  unfold moved
  by_cases atR : n = r
  · rw [if_pos atR, atR]
  · rw [if_neg atR]

theorem foldlM_redirects {r : String} {vs : Conn → List String} (there : r ∈ s.nodes)
    (known : ∀ κ, ∀ v ∈ vs κ, v ∈ s.nodes) (apart : ∀ κ, r ∉ vs κ) (nodup : ∀ κ, (vs κ).Nodup)
    (fed : ∀ κ, ∀ v ∈ vs κ, u ∈ s.pre κ v) :
    ((vs .data).foldlM (redirect .data u r) s >>= (vs .active).foldlM (redirect .active u r)) =
      some { s with node := moved u r vs s } := by
  have type (n : String) :
      isLc { s with node := redirected .data u r (vs .data) s } n = s.isLc n := by
    rw [isLc, redirected_nodeType, isLc]
  have operands (n : String) :
      pre { s with node := redirected .data u r (vs .data) s } .active n = s.pre .active n :=
    redirected_preNodes (by decide) ..
  rw [foldlM_redirect there (known .data) (apart .data) (nodup .data) (fed .data),
    Option.bind_eq_bind, Option.bind_some,
    foldlM_redirect (by exact there) (by exact known .active) (apart .active) (nodup .active)
      fun v mem => by rw [operands]; exact fed .active v mem]
  refine congrArg some (eq_of_node_eq rfl rfl fun n => ?_)
  by_cases atR : n = r
  · subst atR
    simp only [redirected, type, moved, if_true]
    refine ChanNode.ext rfl rfl rfl rfl rfl (funext fun κ => ?_) rfl rfl rfl rfl rfl rfl
    cases κ <;> simp [next, redirected]
  · simp only [redirected, type, moved, if_neg atR, operands]
    refine ChanNode.ext rfl rfl rfl rfl (funext fun κ => ?_) rfl rfl rfl rfl rfl rfl rfl
    cases κ <;> simp

/-- A new channel in a loop is fed by the first controller of it. -/
theorem connectRelayLc_eq {r R : String} (there : r ∈ s.nodes) (declared : R ∈ s.controlTree.regions)
    (listed : ∀ n ∈ (s.controlTree.region R).nodes, n ∈ s.nodes) :
    connectRelayLc r R s = some (s.setNode r
      ((s.node r).setPre .active (s.pre .active r ++ (s.lcOf R).toList))) := by
  rw [connectRelayLc, ControlTree.getCtrlRegion_of_mem declared, Option.bind_eq_bind,
    Option.bind_some, findLc_eq listed, Option.bind_eq_bind, Option.bind_some, ← lcOf]
  cases s.lcOf R with
  | none => simp [pre]
  | some lc => exact modifyNode_of_mem there _

/-- The nodes after the part of `u` has moved to `r`. -/
def scattered (u r R : String) (s : ChanGraph) (n : String) : ChanNode :=
  if n = r then
    { nodeOp := "Nop"
      chanMode := .Scatter_mode
      controlRegionName := R
      isPhysicalChan := false
      preNodes := fun κ => if κ = .data then [u] else (s.lcOf R).toList
      nextNodes := fun κ => (s.next κ u).filter fun v => !s.isLc v }
  else
    { s.node n with
      preNodes := fun κ =>
        if n ∈ s.next κ u ∧ s.isLc n = false then (s.pre κ n).replace u r else s.pre κ n
      nextNodes := fun κ =>
        if n = u then (s.next κ u).filter s.isLc ++ if κ = .data then [r] else []
        else s.next κ n }

theorem scatter_eq {R : String} (fresh : scatterName u R ∉ s.nodes) (hu : u ∈ s.nodes)
    (declared : R ∈ s.controlTree.regions)
    (listed : ∀ n ∈ (s.controlTree.region R).nodes, n ∈ s.nodes)
    (fed : ∀ κ, ∀ v ∈ s.next κ u, v ∈ s.nodes ∧ u ∈ s.pre κ v)
    (nodup : ∀ κ, (s.next κ u).Nodup) :
    ∃ t, scatter u R s = some t ∧ t.nodes = s.nodes ++ [scatterName u R] ∧
      s.controlTree.addNodes R [scatterName u R] = some t.controlTree ∧
      t.node = scattered u (scatterName u R) R s := by
  generalize name : scatterName u R = r at fresh ⊢
  obtain ⟨a, run, nodes, tree, node⟩ := newScatter_eq fresh declared
  have apart {n : String} (mem : n ∈ s.nodes) : n ≠ r := ne_of_mem_of_not_mem mem fresh
  have old {n : String} (ne : n ≠ r) : a.node n = s.node n := by rw [node, Function.update_of_ne ne]
  have grown {n : String} (mem : n ∈ s.nodes) : n ∈ a.nodes := nodes ▸ List.mem_append_left _ mem
  have there : r ∈ a.nodes := by simp [nodes]
  have regions : (a.controlTree.region R).nodes = (s.controlTree.region R).nodes ++ [r] := by
    unfold ControlTree.addNodes ControlTree.modifyRegion at tree
    rw [if_pos declared] at tree
    simp [← Option.some.inj tree]
  have lc : a.lcOf R = s.lcOf R := by
    rw [lcOf, lcOf, regions, List.find?_append]
    have new : (([r] : List String).find? fun n => (a.node n).nodeType = .Lc) = none := by
      simp [node]
    rw [new, Option.or_none, List.find?_congr]
    intro n mem
    rw [old (apart (listed n mem))]
  have connect := connectRelayLc_eq there
    (ControlTree.addNodes_regions tree ▸ declared) (by
      rw [regions]
      exact List.forall_mem_append.mpr ⟨fun n mem => grown (listed n mem), by simpa using there⟩)
  rw [lc] at connect
  generalize hb : a.setNode r ((a.node r).setPre .active (a.pre .active r ++ (s.lcOf R).toList)) = b
    at connect
  have nodesB : b.nodes = s.nodes ++ [r] := by rw [← hb, setNode_nodes, nodes]
  have memB {n : String} (mem : n ∈ s.nodes) : n ∈ b.nodes := nodesB ▸ List.mem_append_left _ mem
  have oldB {n : String} (ne : n ≠ r) : b.node n = s.node n := by
    rw [← hb, setNode_node, Function.update_of_ne ne, old ne]
  have known (κ : Conn) : ∀ v ∈ s.next κ u, v ∈ b.nodes := fun v mem => memB (fed κ v mem).1
  have fedB (κ : Conn) : ∀ v ∈ s.next κ u, u ∈ b.pre κ v := fun v mem => by
    rw [pre, oldB (apart (fed κ v mem).1)]
    exact (fed κ v mem).2
  have type {n : String} (ne : n ≠ r) : b.isLc n = s.isLc n := by rw [isLc, oldB ne, isLc]
  have redirects := foldlM_redirects (by simp [nodesB]) known (fun κ mem => fresh (fed κ r mem).1)
    nodup fedB
  have typeC (n : String) : isLc { b with node := moved u r (fun κ => s.next κ u) b } n = b.isLc n := by
    rw [isLc, moved_nodeType, isLc]
  have lcs (κ : Conn) : keepLcs { b with node := moved u r (fun κ => s.next κ u) b } (s.next κ u) =
      some ((s.next κ u).filter s.isLc) := by
    rw [keepLcs_eq (by exact known κ)]
    refine congrArg some (List.filter_congr fun v mem => ?_)
    rw [typeC, type (apart (fed κ v mem).1)]
  have split (f : ChanGraph → Option ChanGraph) :
      ((s.next .data u).foldlM (redirect .data u r) b).bind
        (fun c => ((s.next .active u).foldlM (redirect .active u r) c).bind f) =
      f { b with node := moved u r (fun κ => s.next κ u) b } := by
    rw [← Option.bind_assoc]
    exact (congrArg (Option.bind · f) redirects).trans rfl
  simp only [scatter, name, run, connect, getNode_of_mem (memB hu), oldB (apart hu), Option.bind_eq_bind,
    Option.bind_some]
  change ∃ t, ((s.next .data u).foldlM (redirect .data u r) b).bind
    (fun c => ((s.next .active u).foldlM (redirect .active u r) c).bind _) = some t ∧ _
  rw [split]
  rw [← next, ← next, lcs, Option.bind_some, lcs, Option.bind_some, modifyNode_of_mem (by exact memB hu),
    Option.bind_some, modifyNode_of_mem (by simp [nodesB])]
  have treeB : b.controlTree = a.controlTree := by rw [← hb, setNode_controlTree]
  refine ⟨_, rfl, nodesB, tree.trans (congrArg some treeB.symm), funext fun n => ?_⟩
  have ne : u ≠ r := apart hu
  by_cases atR : n = r
  · subst atR
    have new : b.node n =
        { nodeOp := "Nop", chanMode := .Scatter_mode, controlRegionName := R, isPhysicalChan := false,
          preNodes := Function.update (fun _ => []) .active (s.lcOf R).toList } := by
      rw [← hb, setNode_node, Function.update_self]
      simp [node, ChanNode.setPre, pre]
    have typeU (κ : Conn) : (s.next κ u).filter (fun v => !b.isLc v) =
        (s.next κ u).filter fun v => !s.isLc v :=
      List.filter_congr fun v mem => by rw [type (apart (fed κ v mem).1)]
    simp only [setNode_node, Function.update_self, scattered, if_true, moved,
      Function.update_of_ne ne.symm, new]
    refine ChanNode.ext rfl rfl rfl rfl (funext fun κ => ?_) (funext fun κ => ?_) rfl rfl rfl rfl rfl rfl
    · cases κ <;> simp
    · simpa [next, new] using typeU κ
  · have rest : moved u r (fun κ => s.next κ u) b n = { s.node n with
        preNodes := fun κ =>
          if n ∈ s.next κ u ∧ s.isLc n = false then (s.pre κ n).replace u r else s.pre κ n } := by
      simp only [moved, if_neg atR, type atR, pre, oldB atR]
    simp only [setNode_node, Function.update_of_ne atR, scattered, if_neg atR]
    by_cases atU : n = u
    · subst atU
      simp only [Function.update_self, rest, if_true]
      refine ChanNode.ext rfl rfl rfl rfl rfl (funext fun κ => ?_) rfl rfl rfl rfl rfl rfl
      cases κ <;> simp
    · simp only [Function.update_of_ne atU, rest, if_neg atU]
      rfl

/-! ## A visit -/

theorem Visited.pre (v : g.Visited H done mode s) {n : String} (mem : n ∈ g.nodes) (κ : Conn) :
    s.pre κ n = (g.pre κ n).map (g.renamed H done n) := by
  rw [ChanGraph.pre, v.node n mem]
  rfl

theorem Visited.next (v : g.Visited H done mode s) (hu : u ∈ g.nodes) (new : u ∉ done) (κ : Conn) :
    s.next κ u = g.next κ u := by
  rw [ChanGraph.next, v.node u hu]
  simp [nodeAfter, new]

theorem Visited.type (v : g.Visited H done mode s) {n : String} (mem : n ∈ g.nodes) :
    s.isLc n = g.isLc n := by
  rw [ChanGraph.isLc, v.node n mem]
  rfl

theorem Visited.need (v : g.Visited H done mode s) {l : List String} (known : ∀ n ∈ l, n ∈ g.nodes) :
    s.needScatterNode l = some (l.any fun n => !g.isLc n) := by
  rw [needScatterNode_eq fun n mem => v.mem_of_node (known n mem)]
  refine congrArg some (Bool.eq_iff_iff.mpr ?_)
  simp only [List.any_eq_true]
  exact exists_congr fun n => and_congr_right fun mem => by rw [v.type (known n mem)]

theorem Visited.fresh (ready : g.Scatterable H) (v : g.Visited H done mode s)
    (known : ∀ p ∈ done, p ∈ g.nodes) (hu : u ∈ g.nodes) (new : u ∉ done)
    (splits : g.splits H u = true) : g.shadow H u ∉ s.nodes := by
  rw [v.nodes, List.mem_append, not_or]
  refine ⟨shadow_fresh ready hu splits, fun mem => ?_⟩
  obtain ⟨p, mem, same⟩ := List.mem_map.mp mem
  obtain ⟨mem, splits'⟩ := List.mem_filter.mp mem
  exact new (shadow_inj ready (known p mem) hu splits' splits same ▸ mem)

theorem Visited.listed (ready : g.Scatterable H) (v : g.Visited H done mode s) {R : String}
    (declared : R ∈ g.controlTree.regions) : ∀ n ∈ (s.controlTree.region R).nodes, n ∈ s.nodes := by
  rw [v.tree R declared, v.nodes]
  intro n mem
  rw [List.mem_append] at mem ⊢
  refine mem.imp (ready.listed R declared n) fun mem => ?_
  obtain ⟨p, split, rfl⟩ := List.mem_map.mp mem
  obtain ⟨there, splits⟩ := List.mem_filter.mp split
  rw [Bool.and_eq_true] at splits
  exact List.mem_map_of_mem (List.mem_filter.mpr ⟨there, splits.1⟩)

/-- The controller of a loop is the same as in `g`, since no scatter channel is one. -/
theorem Visited.lcOf (ready : g.Scatterable H) (v : g.Visited H done mode s) {R : String}
    (declared : R ∈ g.controlTree.regions) : s.lcOf R = g.lcOf R := by
  have shadows : (((done.filter fun u => g.splits H u && g.lowerOf H u = R).map
      (g.shadow H)).find? fun n => (s.node n).nodeType = .Lc) = none := by
    rw [List.find?_eq_none]
    intro n mem
    obtain ⟨p, split, rfl⟩ := List.mem_map.mp mem
    obtain ⟨there, splits⟩ := List.mem_filter.mp split
    rw [Bool.and_eq_true] at splits
    simp [v.shadow p there splits.1, shadowNode]
  rw [ChanGraph.lcOf, ChanGraph.lcOf, v.tree R declared, List.find?_append, shadows, Option.or_none,
    List.find?_congr]
  intro n mem
  rw [v.node n (ready.listed R declared n mem)]
  rfl

theorem Visited.withMode (v : g.Visited H done mode s) (known : ∀ p ∈ done, p ∈ g.nodes)
    (ready : g.Scatterable H) (hu : u ∈ g.nodes) (m : ChanMode) :
    g.Visited H done (Function.update mode u m) (s.setNode u { s.node u with chanMode := m }) where
  nodes := v.nodes
  regions := v.regions
  tree := v.tree
  node n mem := by
    rw [setNode_node]
    by_cases here : n = u
    · subst here
      rw [Function.update_self, Function.update_self, v.node n mem]
      rfl
    · rw [Function.update_of_ne here, Function.update_of_ne here, v.node n mem]
  shadow p mem splits := by
    have ne : g.shadow H p ≠ u := fun same => shadow_fresh ready (known p mem) splits (same ▸ hu)
    rw [setNode_node, Function.update_of_ne ne, v.shadow p mem splits]

/-- The visit of a node that sends to no loop below, or to controllers only. -/
theorem Visited.skip (v : g.Visited H done mode s) (whole : g.splits H u = false) :
    g.Visited H (done ++ [u]) mode s := by
  have filter : (done ++ [u]).filter (g.splits H) = done.filter (g.splits H) := by
    simp [List.filter_append, whole]
  have lists (R : String) : (done ++ [u]).filter (fun u => g.splits H u && g.lowerOf H u = R) =
      done.filter fun u => g.splits H u && g.lowerOf H u = R := by
    simp [List.filter_append, whole]
  have either {p : String} (splits : g.splits H p = true) : p ∈ done ++ [u] ↔ p ∈ done := by
    simp only [List.mem_append, List.mem_singleton, or_iff_left_iff_imp]
    rintro rfl
    exact absurd whole (by simp [splits])
  have same (n : String) : g.renamed H (done ++ [u]) n = g.renamed H done n := by
    funext p
    refine if_congr ?_ rfl rfl
    exact ⟨fun h => ⟨(either h.2.1).mp h.1, h.2⟩, fun h => ⟨(either h.2.1).mpr h.1, h.2⟩⟩
  have moved (n : String) : (n ∈ done ++ [u] ∧ g.splits H n = true) =
      (n ∈ done ∧ g.splits H n = true) :=
    propext (and_congr_left fun splits => either splits)
  exact
    { nodes := filter ▸ v.nodes
      node := fun n mem => by
        rw [v.node n mem, nodeAfter, nodeAfter, same]
        simp only [moved]
      shadow := fun p mem splits => v.shadow p ((either splits).mp mem) splits
      regions := v.regions
      tree := fun R mem => by rw [lists, v.tree R mem] }

/-- The operands of a node after one more split. -/
theorem renamed_step (ready : g.Scatterable H) (known : ∀ p ∈ done, p ∈ g.nodes) (hu : u ∈ g.nodes)
    (new : u ∉ done) (splits : g.splits H u = true) {n : String} (mem : n ∈ g.nodes) (κ : Conn) :
    (if n ∈ g.next κ u ∧ g.isLc n = false then
      ((g.pre κ n).map (g.renamed H done n)).replace u (g.shadow H u)
    else (g.pre κ n).map (g.renamed H done n)) = (g.pre κ n).map (g.renamed H (done ++ [u]) n) := by
  split_ifs with moves
  · exact replace_renamed ready hu new known splits moves.2 (ready.nodupPre κ n mem)
  · refine List.map_congr_left fun p listed => ?_
    by_cases same : p = u
    · subst same
      have lc : g.isLc n = true := by
        have edge : n ∈ g.next κ p := (ready.symmetric κ p hu n mem).mpr listed
        simpa [edge] using moves
      simp [renamed, lc]
    · simp [renamed, same]

theorem Visited.scatter (ready : g.Scatterable H) (v : g.Visited H done mode s)
    (known : ∀ p ∈ done, p ∈ g.nodes) (hu : u ∈ g.nodes) (new : u ∉ done)
    (splits : g.splits H u = true) :
    ∃ t, scatter u (g.lowerOf H u) s = some t ∧ g.Visited H (done ++ [u]) mode t := by
  have declared : g.lowerOf H u ∈ g.controlTree.regions := lowerOf_declared ready splits
  have fresh := v.fresh ready known hu new splits
  have kept {n : String} (mem : n ∈ s.nodes) : n ≠ g.shadow H u := ne_of_mem_of_not_mem mem fresh
  obtain ⟨t, run, nodes, tree, node⟩ := scatter_eq fresh (v.mem_of_node hu)
    (v.regions ▸ declared) (v.listed ready declared)
    (fun κ w mem => by
      rw [v.next hu new] at mem
      have hw : w ∈ g.nodes := ready.next u hu κ w mem
      refine ⟨v.mem_of_node hw, ?_⟩
      rw [v.pre hw, List.mem_map]
      exact ⟨u, (ready.symmetric κ u hu w hw).mp mem, by simp [renamed, new]⟩)
    (fun κ => by rw [v.next hu new]; exact ready.nodupNext κ u hu)
  change t.nodes = s.nodes ++ [g.shadow H u] at nodes
  change s.controlTree.addNodes (g.lowerOf H u) [g.shadow H u] = some t.controlTree at tree
  change t.node = scattered u (g.shadow H u) (g.lowerOf H u) s at node
  have lcs (κ : Conn) : (s.next κ u).filter s.isLc = (g.next κ u).filter g.isLc := by
    rw [v.next hu new]
    exact List.filter_congr fun w mem => v.type (ready.next u hu κ w mem)
  have filter : (done ++ [u]).filter (g.splits H) = done.filter (g.splits H) ++ [u] := by
    simp [List.filter_append, splits]
  refine ⟨t, run, ?_⟩
  exact
    { nodes := by rw [nodes, filter, v.nodes, List.map_append, ← List.append_assoc]; rfl
      node := fun n mem => by
        rw [node, scattered, if_neg (kept (v.mem_of_node mem)), v.node n mem]
        refine ChanNode.ext rfl rfl rfl rfl (funext fun κ => ?_) (funext fun κ => ?_)
          rfl rfl rfl rfl rfl rfl
        · simp only [v.next hu new, v.type mem, v.pre mem]
          exact renamed_step ready known hu new splits mem κ
        · simp only [lcs, nodeAfter]
          by_cases here : n = u
          · subst here
            simp [splits]
          · rw [if_neg here, ChanGraph.next, v.node n mem]
            simp [nodeAfter, here]
      shadow := fun p mem splits' => by
        rw [node, scattered]
        by_cases here : p = u
        · subst here
          rw [if_pos rfl, v.lcOf ready declared]
          refine ChanNode.ext rfl rfl rfl rfl (funext fun κ => ?_) (funext fun κ => ?_)
            rfl rfl rfl rfl rfl rfl
          · cases κ <;> rfl
          · simp only [v.next hu new]
            exact List.filter_congr fun w mem => by rw [v.type (ready.next p hu κ w mem)]
        · have there : p ∈ done := by simpa [here] using mem
          have hp : p ∈ g.nodes := known p there
          have apart : g.shadow H p ≠ g.shadow H u := fun same =>
            here (shadow_inj ready hp hu splits' splits same)
          have out : g.shadow H p ∉ g.nodes := shadow_fresh ready hp splits'
          have target (κ : Conn) : g.shadow H p ∉ s.next κ u := fun mem => by
            rw [v.next hu new] at mem
            exact out (ready.next u hu κ _ mem)
          have ne : g.shadow H p ≠ u := fun same => out (same ▸ hu)
          rw [if_neg apart, v.shadow p there splits']
          refine ChanNode.ext rfl rfl rfl rfl (funext fun κ => ?_) (funext fun κ => ?_)
            rfl rfl rfl rfl rfl rfl
          · simp only [target, false_and, if_false, ChanGraph.pre, v.shadow p there splits']
          · simp only [if_neg ne, ChanGraph.next, v.shadow p there splits']
      regions := (ControlTree.addNodes_regions tree).trans v.regions
      tree := fun R mem => by
        unfold ControlTree.addNodes ControlTree.modifyRegion at tree
        rw [if_pos (v.regions ▸ declared)] at tree
        rw [← Option.some.inj tree]
        by_cases here : R = g.lowerOf H u
        · subst here
          simp [v.tree _ mem, List.filter_append, splits]
        · simp [here, v.tree R mem, List.filter_append, Ne.symm here] }

/-- The mode of `u` after a visit that comes after those in `done`. -/
def visitMode (g : ChanGraph) (H : LoopHierarchy) (done : List String) (u : String) : ChanMode :=
  if g.drains H (done ++ [u]) u then .Drain_mode
  else if g.lowerOf H u ≠ "" then .Keep_mode
  else (g.node u).chanMode

/-- The modes after the visits in `done`. -/
def modes (g : ChanGraph) (H : LoopHierarchy) (done : List String) (n : String) : ChanMode :=
  if n ∈ done then g.visitMode H (done.takeWhile (· ≠ n)) n else (g.node n).chanMode

theorem Visited.start (g : ChanGraph) (H : LoopHierarchy) : g.Visited H [] (g.modes H []) g where
  nodes := by simp
  node n _ := by
    have same : g.renamed H [] n = id := funext fun p => by simp [renamed]
    simp [nodeAfter, modes, same, ChanGraph.pre, ChanGraph.next]
  shadow := by simp
  regions := rfl
  tree := by simp

theorem Visited.keep (ready : g.Scatterable H) (v : g.Visited H done mode s)
    (known : ∀ p ∈ done, p ∈ g.nodes) (hu : u ∈ g.nodes) (new : u ∉ done) :
    ∃ t, setKeepMode H (H.findNodeCtrlRegion u) u s = some t ∧ g.Visited H (done ++ [u])
      (Function.update mode u (if g.lowerOf H u ≠ "" then .Keep_mode else mode u)) t := by
  have lists : (s.node u).allNext = (g.node u).allNext := by
    rw [ChanNode.allNext, ChanNode.allNext]
    exact congrArg₂ _ (v.next hu new .data) (v.next hu new .active)
  rw [setKeepMode, getNode_of_mem (v.mem_of_node hu), Option.bind_eq_bind, Option.bind_some, lists]
  change ∃ t, (if g.lowerOf H u ≠ "" then _ else _) = some t ∧ _
  by_cases lower : g.lowerOf H u = ""
  · have whole : g.splits H u = false := by simp [ChanGraph.splits, lower]
    refine ⟨s, if_neg (not_not.mpr lower), ?_⟩
    simpa [lower] using v.skip whole
  have kept : (if g.lowerOf H u ≠ "" then ChanMode.Keep_mode else mode u) = .Keep_mode := if_pos lower
  have v' := v.withMode known ready hu .Keep_mode
  have target : ∀ n ∈ (g.node u).allNext, n ∈ g.nodes := fun n mem => by
    obtain ⟨κ, listed⟩ := ChanNode.mem_allNext.mp mem
    exact ready.next u hu κ n listed
  have need := v'.need target
  rw [if_pos lower, modifyNode_of_mem (v.mem_of_node hu), Option.bind_eq_bind, Option.bind_some, need,
    Option.bind_eq_bind, Option.bind_some]
  have whole : ((g.node u).allNext.any fun n => !g.isLc n) = g.splits H u := by
    simp [ChanGraph.splits, lower]
  rw [whole, kept]
  cases splits : g.splits H u with
  | false => exact ⟨_, rfl, v'.skip splits⟩
  | true => exact v'.scatter ready known hu new splits

theorem Visited.drain (v : g.Visited H (done ++ [u]) mode s) (known : ∀ p ∈ done, p ∈ g.nodes)
    (ready : g.Scatterable H) (hu : u ∈ g.nodes) :
    ∃ t, setDrainMode H (H.findNodeCtrlRegion u) u s = some t ∧ g.Visited H (done ++ [u])
      (Function.update mode u (if g.drains H (done ++ [u]) u then .Drain_mode else mode u)) t := by
  have lists : (s.node u).allPre = (g.node u).allPre.map (g.renamed H (done ++ [u]) u) := by
    rw [ChanNode.allPre, ChanNode.allPre, List.map_append]
    exact congrArg₂ _ (v.pre hu .data) (v.pre hu .active)
  rw [setDrainMode, getNode_of_mem (v.mem_of_node hu), Option.bind_eq_bind, Option.bind_some, lists]
  cases drains : g.drains H (done ++ [u]) u with
  | false =>
    refine ⟨s, if_neg (by simpa [ChanGraph.drains] using drains), ?_⟩
    simpa using v
  | true =>
    rw [if_pos (by simpa [ChanGraph.drains] using drains), modifyNode_of_mem (v.mem_of_node hu)]
    refine ⟨_, rfl, ?_⟩
    simpa using v.withMode (List.forall_mem_append.mpr ⟨known, by simpa using hu⟩) ready hu .Drain_mode

theorem takeWhile_append_of_mem {n : String} {l m : List String} (mem : n ∈ l) :
    (l ++ m).takeWhile (· ≠ n) = l.takeWhile (· ≠ n) := by
  induction l with
  | nil => cases mem
  | cons p l ih =>
    by_cases here : p = n
    · simp [here]
    · have rest := ih ((List.mem_cons.mp mem).resolve_left (Ne.symm here))
      simpa [here] using rest

theorem Visited.visit (ready : g.Scatterable H) (v : g.Visited H done (g.modes H done) s)
    (known : ∀ p ∈ done, p ∈ g.nodes) (hu : u ∈ g.nodes) (new : u ∉ done) :
    ∃ t, setMode H (H.findNodeCtrlRegion u) s u = some t ∧
      g.Visited H (done ++ [u]) (g.modes H (done ++ [u])) t := by
  obtain ⟨s', keep, v'⟩ := v.keep ready known hu new
  obtain ⟨t, drain, v''⟩ := v'.drain known ready hu
  refine ⟨t, by rw [setMode, keep, Option.bind_eq_bind, Option.bind_some, drain], ?_⟩
  convert v'' using 1
  funext n
  by_cases here : n = u
  · subst here
    have before : (done ++ [n]).takeWhile (· ≠ n) = done := by
      rw [List.takeWhile_append_of_pos fun p mem => by simpa using ne_of_mem_of_not_mem mem new]
      simp
    rw [modes, if_pos (by simp), before, Function.update_self, Function.update_self, visitMode, modes,
      if_neg new]
  · rw [Function.update_of_ne here, Function.update_of_ne here, modes, modes]
    by_cases old : n ∈ done
    · rw [if_pos (List.mem_append_left _ old), if_pos old, takeWhile_append_of_mem old]
    · rw [if_neg (by simp [old, here]), if_neg old]

theorem findNodeCtrlRegion_of_listed (ready : g.Scatterable H) {R : String} (loop : R ∈ H.loops)
    (listed : u ∈ (H.region R).nodes) : H.findNodeCtrlRegion u = R := by
  obtain ⟨R', found⟩ : ∃ R', H.loopOf u = some R' := by
    rw [← Option.isSome_iff_exists, LoopHierarchy.loopOf, List.find?_isSome]
    exact ⟨R, loop, by simpa using listed⟩
  rw [LoopHierarchy.findNodeCtrlRegion, found, Option.getD_some]
  by_contra ne
  have listed' : u ∈ (H.region R').nodes := by simpa using List.find?_some found
  have apart := (List.nodup_flatMap.mp ready.once).2
  have symm : Std.Symm (Function.onFun List.Disjoint fun R => (H.region R).nodes) :=
    ⟨fun _ _ disjoint => disjoint.symm⟩
  have disjoint := apart.forall (List.mem_of_find?_eq_some found) loop ne
  exact disjoint listed' listed

/-- All visits, each node in the loop that lists it. -/
theorem setModes_visited (ready : g.Scatterable H) : ∃ s, setModes H g = some s ∧
    g.Visited H H.visits (g.modes H H.visits) s := by
  have visited : ∀ n ∈ H.visits, n ∈ g.nodes := fun n mem => by
    obtain ⟨R, loop, listed⟩ := List.mem_flatMap.mp mem
    exact ready.member R loop n listed
  refine Run.total (P := fun Rs s => g.Visited H (Rs.flatMap fun R => (H.region R).nodes)
    (g.modes H (Rs.flatMap fun R => (H.region R).nodes)) s) (fun Rs R rest s split v => ?_)
    (Visited.start g H)
  have order : H.visits = (Rs.flatMap fun R => (H.region R).nodes) ++ (H.region R).nodes ++
      rest.flatMap fun R => (H.region R).nodes := by
    rw [LoopHierarchy.visits, ← split]
    simp
  have loop : R ∈ H.loops := split ▸ List.mem_append_right _ List.mem_cons_self
  have next : (Rs ++ [R]).flatMap (fun R => (H.region R).nodes) =
      (Rs.flatMap fun R => (H.region R).nodes) ++ (H.region R).nodes := by simp
  rw [next]
  generalize Rs.flatMap (fun R => (H.region R).nodes) = done at v order
  refine Run.total (P := fun us s => g.Visited H (done ++ us) (g.modes H (done ++ us)) s)
    (fun us u more s split v => ?_) (by simpa using v)
  have here : H.visits = done ++ us ++ u :: (more ++ rest.flatMap fun R => (H.region R).nodes) := by
    rw [order, ← split]
    simp
  have listed : u ∈ (H.region R).nodes := split ▸ List.mem_append_right _ List.mem_cons_self
  have new : u ∉ done ++ us := fun mem => by
    have nodup := here ▸ ready.once
    exact (List.nodup_append.mp nodup).2.2 u mem u List.mem_cons_self rfl
  obtain ⟨t, run, v'⟩ := v.visit ready
    (fun p mem => visited p (here ▸ List.mem_append_left _ mem)) (ready.member R loop u listed) new
  rw [findNodeCtrlRegion_of_listed ready loop listed] at run
  exact ⟨t, run, by rwa [← List.append_assoc]⟩

end ChanGraph

end DataflowSim.Graph
