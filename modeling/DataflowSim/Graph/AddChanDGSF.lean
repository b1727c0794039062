import DataflowSim.Graph.ChanGraph
import DataflowSim.Library.Run

/-!
# Channels between subgraphs

`ChanGraph::addChanDGSF` gives each node with a successor in another subgraph one new channel
behind it, and lets all such successors hang on that channel.
-/

namespace DataflowSim.Graph.ChanGraph

def dgsfName (nodeName : String) : String := nodeName ++ "_DGSF"

/-- Whether one of the nodes is in another subgraph. -/
def insertCheck (g : ChanGraph) (subgraphId : Nat) : List String → Option Bool
  | [] => some false
  | v :: nextNodes => do
    let x ← g.getNode v
    if x.subgraphId ≠ subgraphId then some true else g.insertCheck subgraphId nextNodes

/-- The loop over one list of successors of `u`: those in other subgraphs go to the new
channel `d`, and the list that is returned is what remains. -/
def moveNext (κ : Conn) (u d : String) (subgraphId : Nat) (g : ChanGraph) :
    List String → Option (List String × ChanGraph)
  | [] => some ([], g)
  | v :: vs => do
    let x ← g.getNode v
    if x.subgraphId ≠ subgraphId ∧ u ∈ x.preNodes κ then
      let g ← g.modifyNode v fun y => y.setPre κ ((y.preNodes κ).replace u d)
      let g ← g.modifyNode d fun y => y.setNext κ (y.nextNodes κ ++ [v])
      moveNext κ u d subgraphId g vs
    else
      let (stay, g) ← moveNext κ u d subgraphId g vs
      some (v :: stay, g)

/-- The new channel behind `u`; `size` is `Global::DGSF_input_buffer_size`. -/
def newDGSF (size : Nat) (u : String) (x : ChanNode) (g : ChanGraph) : Option ChanGraph := do
  let d := dgsfName u
  let g := g.addNode d .ChanDGSF "Nop" .Normal x.controlRegionName
  let g ← g.modifyNode d fun y => { y with isPhysicalChan := false, size := size }
  let g ← g.addNodes2CtrlTree x.controlRegionName [d]
  g.modifyNode d fun y => { y with subgraphId := x.subgraphId }

def connectDGSF (u : String) (x : ChanNode) (g : ChanGraph) : Option ChanGraph := do
  let d := dgsfName u
  let (stay, g) ← moveNext .data u d x.subgraphId g (x.nextNodes .data)
  let g ← g.modifyNode u fun y => y.setNext .data stay
  let (stay, g) ← moveNext .active u d x.subgraphId g (x.nextNodes .active)
  let g ← g.modifyNode u fun y => y.setNext .active stay
  let g ← g.modifyNode u fun y => y.setNext .data (y.nextNodes .data ++ [d])
  g.modifyNode d fun y => y.setPre .data (y.preNodes .data ++ [u])

/-- A node in keep mode hands the mode on to the channel behind it. -/
def passKeepMode (u : String) (x : ChanNode) (g : ChanGraph) : Option ChanGraph :=
  if x.chanMode = .Keep_mode then do
    let g ← g.modifyNode u fun y => { y with chanMode := .Normal }
    g.modifyNode (dgsfName u) fun y => { y with chanMode := .Keep_mode }
  else some g

/-- One node of the traversal. -/
def insertDGSF (size : Nat) (g : ChanGraph) (u : String) : Option ChanGraph := do
  let x ← g.getNode u
  let insert ← g.insertCheck x.subgraphId x.allNext
  if insert then
    let g ← newDGSF size u x g
    let g ← connectDGSF u x g
    passKeepMode u x g
  else some g

/-- The nodes of each subgraph, in the order in which the unordered map has the subgraphs. -/
def traversal (g : ChanGraph) (ids : List Nat) : List String :=
  ids.flatMap fun id => g.nodes.filter fun n => (g.node n).subgraphId = id

def addChanDGSF (size : Nat) (ids : List Nat) (g : ChanGraph) : Option ChanGraph :=
  (g.traversal ids).foldlM (insertDGSF size) g

/-! ## What becomes of each node -/

def other (g : ChanGraph) (u v : String) : Bool := (g.node v).subgraphId ≠ (g.node u).subgraphId

/-- The node has a successor in another subgraph. -/
def crosses (g : ChanGraph) (u : String) : Bool := (g.node u).allNext.any (g.other u)

/-- A node of the graph when the nodes of the list have been visited. -/
def rewired (g : ChanGraph) (done : List String) (n : String) : ChanNode :=
  { g.node n with
    preNodes := fun κ => (g.pre κ n).map fun u =>
      if u ∈ done ∧ g.other u n = true then dgsfName u else u
    nextNodes := fun κ =>
      if n ∈ done then
        (g.next κ n).filter (fun v => !g.other n v) ++
          if κ = .data ∧ g.crosses n = true then [dgsfName n] else []
      else g.next κ n
    chanMode :=
      if n ∈ done ∧ g.crosses n = true ∧ (g.node n).chanMode = .Keep_mode then .Normal
      else (g.node n).chanMode }

/-- The channel behind a node. -/
def inserted (g : ChanGraph) (size : Nat) (u : String) : ChanNode where
  nodeType := .ChanDGSF
  nodeOp := "Nop"
  chanMode := if (g.node u).chanMode = .Keep_mode then .Keep_mode else .Normal
  controlRegionName := (g.node u).controlRegionName
  preNodes := fun
    | .data => [u]
    | .active => []
  nextNodes κ := (g.next κ u).filter (g.other u)
  subgraphId := (g.node u).subgraphId
  isPhysicalChan := false
  size := size

variable {g h : ChanGraph} {size : Nat}

theorem dgsfName_inj {u v : String} : dgsfName u = dgsfName v ↔ u = v := by
  simp [dgsfName]

theorem dgsfName_ne (u : String) : dgsfName u ≠ u := by
  intro same
  have longer := congrArg String.length same
  simp [dgsfName] at longer

theorem mem_next_of_other {κ : Conn} {u v : String} (mem : v ∈ g.next κ u)
    (other : g.other u v = true) : g.crosses u = true :=
  List.any_eq_true.mpr ⟨v, ChanNode.mem_allNext.mpr ⟨κ, mem⟩, other⟩

theorem insertCheck_eq {u : String} {vs : List String} (named : ∀ v ∈ vs, v ∈ g.nodes) :
    g.insertCheck (g.node u).subgraphId vs = some (vs.any (g.other u)) := by
  induction vs with
  | nil => rfl
  | cons v vs ih =>
    obtain ⟨here, rest⟩ := List.forall_mem_cons.mp named
    rw [insertCheck, getNode_of_mem here]
    by_cases same : (g.node v).subgraphId = (g.node u).subgraphId <;>
      simp [same, other, ih rest]

/-- The loop over one list: each successor in another subgraph sees `d` in the place of `u`. -/
theorem moveNext_eq (κ : Conn) (u d : String) (id : Nat) (vs : List String) (g : ChanGraph)
    (named : ∀ v ∈ vs, v ∈ g.nodes) (there : d ∈ g.nodes) (apart : d ∉ vs) (nodup : vs.Nodup)
    (listed : ∀ v ∈ vs, (g.node v).subgraphId ≠ id → u ∈ g.pre κ v) :
    ∃ h, moveNext κ u d id g vs =
        some (vs.filter fun v => (g.node v).subgraphId = id, h) ∧
      h.nodes = g.nodes ∧ h.controlTree = g.controlTree ∧
      ∀ n, h.node n =
        if n = d then
          (g.node d).setNext κ (g.next κ d ++ vs.filter fun v => (g.node v).subgraphId ≠ id)
        else if n ∈ vs ∧ (g.node n).subgraphId ≠ id then
          (g.node n).setPre κ ((g.pre κ n).replace u d)
        else g.node n := by
  induction vs generalizing g with
  | nil => exact ⟨g, rfl, rfl, rfl, fun n => by by_cases n = d <;> simp_all [ChanNode.setNext, next]⟩
  | cons v vs ih =>
    obtain ⟨here, named⟩ := List.forall_mem_cons.mp named
    obtain ⟨fresh, nodup⟩ := List.nodup_cons.mp nodup
    obtain ⟨ne, apart⟩ : d ≠ v ∧ d ∉ vs := by simpa using apart
    have kept (w : String) (mem : w ∈ vs) : w ≠ v ∧ w ≠ d :=
      ⟨fun eq => fresh (eq ▸ mem), fun eq => apart (eq ▸ mem)⟩
    rw [moveNext, getNode_of_mem here]
    by_cases same : (g.node v).subgraphId = id
    · -- the successor is in the same subgraph and stays
      obtain ⟨h, run, nodes, tree, node⟩ := ih g named there apart nodup
        fun w mem => listed w (List.mem_cons_of_mem _ mem)
      refine ⟨h, by simp [same, run], nodes, tree, fun n => ?_⟩
      have moved : (v :: vs).filter (fun v => (g.node v).subgraphId ≠ id) =
          vs.filter fun v => (g.node v).subgraphId ≠ id := List.filter_cons_of_neg (by simpa using same)
      rw [node n, moved]
      by_cases at_v : n = v <;> simp [at_v, same, ne.symm]
    · have listedHere := listed v List.mem_cons_self same
      set x := (g.node v).setPre κ ((g.pre κ v).replace u d)
      set y := (g.node d).setNext κ (g.next κ d ++ [v])
      set g' := (g.setNode v x).setNode d y
      have node' (n : String) : g'.node n = if n = d then y else if n = v then x else g.node n := by
        simp only [g', setNode_node, Function.update_apply]
      have first : g.modifyNode v (fun y => y.setPre κ ((y.preNodes κ).replace u d)) =
          some (g.setNode v x) := modifyNode_of_mem here _
      have second : (g.setNode v x).modifyNode d (fun y => y.setNext κ (y.nextNodes κ ++ [v])) =
          some g' := by
        rw [modifyNode_of_mem (by exact there), setNode_node, Function.update_of_ne ne]
        rfl
      obtain ⟨h, run, nodes, tree, node⟩ := ih g' named there apart nodup fun w mem => by
        rw [pre, node' w, if_neg (kept w mem).2, if_neg (kept w mem).1]
        exact listed w (List.mem_cons_of_mem _ mem)
      have stays : (v :: vs).filter (fun v => (g.node v).subgraphId = id) =
          vs.filter fun w => (g'.node w).subgraphId = id := by
        rw [List.filter_cons_of_neg (by simpa using same)]
        refine List.filter_congr fun w mem => ?_
        rw [node' w, if_neg (kept w mem).2, if_neg (kept w mem).1]
      have moves : (v :: vs).filter (fun v => (g.node v).subgraphId ≠ id) =
          v :: vs.filter fun w => (g'.node w).subgraphId ≠ id := by
        rw [List.filter_cons_of_pos (by simpa using same)]
        congr 1
        refine List.filter_congr fun w mem => ?_
        rw [node' w, if_neg (kept w mem).2, if_neg (kept w mem).1]
      refine ⟨h, ?_, nodes, tree, fun n => ?_⟩
      · have guard : (g.node v).subgraphId ≠ id ∧ u ∈ (g.node v).preNodes κ := ⟨same, listedHere⟩
        simp only [Option.bind_eq_bind, Option.bind_some]
        rw [if_pos guard, first, Option.bind_some, second, Option.bind_some, run, stays]
      · rw [node n, moves, node' d, if_pos rfl]
        by_cases at_d : n = d
        · simp [at_d, y, next, ChanNode.setNext, node']
        · by_cases at_v : n = v
          · simp [at_v, fresh, ne.symm, same, node', x]
          · simp [at_d, at_v, node', pre]

/-- The channel before it is connected. -/
def blank (g : ChanGraph) (size : Nat) (u : String) : ChanNode where
  nodeType := .ChanDGSF
  nodeOp := "Nop"
  controlRegionName := (g.node u).controlRegionName
  subgraphId := (g.node u).subgraphId
  isPhysicalChan := false
  size := size

theorem newDGSF_eq {u : String} (fresh : dgsfName u ∉ g.nodes)
    (declared : (g.node u).controlRegionName ∈ g.controlTree.regions) :
    ∃ h, newDGSF size u (g.node u) g = some h ∧ h.nodes = g.nodes ++ [dgsfName u] ∧
      h.controlTree.regions = g.controlTree.regions ∧
      h.node = Function.update g.node (dgsfName u) (g.blank size u) := by
  obtain ⟨nodes, node, tree⟩ := newNode_of_fresh fresh
  obtain ⟨t, added⟩ := ControlTree.addNodes_isSome declared [dgsfName u]
  have regions := ControlTree.addNodes_regions added
  have there : dgsfName u ∈ (g.newNode (dgsfName u)).nodes := by simp [nodes]
  refine ⟨⟨(g.newNode (dgsfName u)).nodes, Function.update g.node (dgsfName u) (g.blank size u), t,
    (g.newNode (dgsfName u)).nodup⟩, ?_, nodes, regions, rfl⟩
  simp [newDGSF, addNode, modifyNode, addNodes2CtrlTree, enterRegion, there, tree, added, setNode,
    node, blank]

/-- The lists when the channel `d` behind `u` is connected. -/
def connected (g : ChanGraph) (u n : String) : ChanNode :=
  if n = dgsfName u then
    { g.node n with
      preNodes := fun
        | .data => [u]
        | .active => []
      nextNodes := fun κ => (g.next κ u).filter (g.other u) }
  else if n = u then
    { g.node n with
      nextNodes := fun κ => (g.next κ u).filter (fun v => !g.other u v) ++
        if κ = .data then [dgsfName u] else [] }
  else
    { g.node n with
      preNodes := fun κ =>
        if n ∈ g.next κ u ∧ g.other u n = true then (g.pre κ n).replace u (dgsfName u)
        else g.pre κ n }

theorem connectDGSF_eq {u : String} (mem : u ∈ g.nodes) (there : dgsfName u ∈ g.nodes)
    (empty : ∀ κ, g.pre κ (dgsfName u) = [] ∧ g.next κ (dgsfName u) = [])
    (named : ∀ κ, ∀ v ∈ g.next κ u, v ∈ g.nodes ∧ v ≠ dgsfName u)
    (nodup : ∀ κ, (g.next κ u).Nodup) (listed : ∀ κ, ∀ v ∈ g.next κ u, u ∈ g.pre κ v) :
    ∃ h, connectDGSF u (g.node u) g = some h ∧ h.nodes = g.nodes ∧ h.controlTree = g.controlTree ∧
      ∀ n, h.node n = g.connected u n := by
  have apart (κ : Conn) : dgsfName u ∉ g.next κ u := fun here => (named κ _ here).2 rfl
  have self := dgsfName_ne u
  obtain ⟨h₁, run₁, nodes₁, tree₁, node₁⟩ := moveNext_eq .data u (dgsfName u)
    (g.node u).subgraphId (g.next .data u) g (fun v mem => (named _ v mem).1) there (apart _)
    (nodup _) fun v mem _ => listed _ v mem
  have same₁ (n : String) : (h₁.node n).subgraphId = (g.node n).subgraphId ∧
      h₁.pre .active n = g.pre .active n ∧ h₁.next .active n = g.next .active n := by
    rw [pre, next, node₁]
    split_ifs with at_d <;> simp [at_d, pre, next]
  set stay := (g.next .data u).filter fun v => (g.node v).subgraphId = (g.node u).subgraphId
  set h₂ := h₁.setNode u ((h₁.node u).setNext .data stay)
  have same₂ (n : String) : (h₂.node n).subgraphId = (g.node n).subgraphId ∧
      h₂.pre .active n = g.pre .active n ∧ h₂.next .active n = g.next .active n := by
    by_cases at_u : n = u
    · subst at_u
      simpa [h₂, pre, next] using same₁ n
    · simpa [h₂, pre, next, at_u] using same₁ n
  obtain ⟨h₃, run₃, nodes₃, tree₃, node₃⟩ := moveNext_eq .active u (dgsfName u)
    (g.node u).subgraphId (g.next .active u) h₂
    (fun v mem => by simpa [h₂, nodes₁] using (named _ v mem).1) (by simpa [h₂, nodes₁] using there)
    (apart _) (nodup _) fun v mem _ => (same₂ v).2.1 ▸ listed _ v mem
  have inside₃ (n : String) (mem : n ∈ g.nodes) : n ∈ h₃.nodes := by
    rw [nodes₃, setNode_nodes, nodes₁]
    exact mem
  simp only [(same₂ _).1] at run₃ node₃
  set stay' := (g.next .active u).filter fun v => (g.node v).subgraphId = (g.node u).subgraphId
  let h₄ := h₃.setNode u ((h₃.node u).setNext .active stay')
  let h₅ := h₄.setNode u ((h₄.node u).setNext .data (h₄.next .data u ++ [dgsfName u]))
  let h₆ := h₅.setNode (dgsfName u)
    ((h₅.node (dgsfName u)).setPre .data (h₅.pre .data (dgsfName u) ++ [u]))
  refine ⟨h₆, ?_, by simp [h₆, h₅, h₄, nodes₃, h₂, nodes₁], by simp [h₆, h₅, h₄, tree₃, h₂, tree₁],
    fun n => ?_⟩
  · have modify₁ : h₁.modifyNode u (fun y => y.setNext .data stay) = some h₂ :=
      modifyNode_of_mem (nodes₁ ▸ mem) _
    have modify₃ : h₃.modifyNode u (fun y => y.setNext .active stay') = some h₄ :=
      modifyNode_of_mem (inside₃ u mem) _
    have modify₄ : h₄.modifyNode u (fun y => y.setNext .data (y.nextNodes .data ++ [dgsfName u])) =
        some h₅ := modifyNode_of_mem (by exact inside₃ u mem) _
    have modify₅ : h₅.modifyNode (dgsfName u) (fun y => y.setPre .data (y.preNodes .data ++ [u])) =
        some h₆ := modifyNode_of_mem (by exact inside₃ _ there) _
    unfold connectDGSF
    unfold next at run₁ run₃
    simp only [run₁, Option.bind_eq_bind, Option.bind_some, modify₁, run₃, modify₃, modify₄, modify₅]
  · have stays : (fun v => decide ((g.node v).subgraphId = (g.node u).subgraphId)) =
        fun v => !g.other u v := by
      funext v
      simp [other]
    have leaves : (fun v => decide ((g.node v).subgraphId ≠ (g.node u).subgraphId)) = g.other u := rfl
    have crossing (v : String) : (g.node v).subgraphId ≠ (g.node u).subgraphId ↔ g.other u v = true := by
      simp [other]
    have notSelf : g.other u u = false := by simp [other]
    simp only [crossing] at node₁ node₃
    obtain ⟨preD, nextD⟩ := empty .data
    obtain ⟨preA, nextA⟩ := empty .active
    unfold pre at preD preA
    unfold next at nextD nextA
    unfold connected
    by_cases at_d : n = dgsfName u
    · subst at_d
      have lists : h₆.node (dgsfName u) = (((g.node (dgsfName u)).setNext .data
          (g.next .data (dgsfName u) ++ (g.next .data u).filter (g.other u))).setNext .active
          (g.next .active (dgsfName u) ++ (g.next .active u).filter (g.other u))).setPre .data
          (g.pre .data (dgsfName u) ++ [u]) := by
        simp [h₆, h₅, h₄, h₂, node₃, node₁, self, pre, next]
      rw [lists, if_pos rfl, ChanNode.setPre, ChanNode.setNext, ChanNode.setNext]
      congr 1
      · funext κ
        cases κ <;> simp [pre, preD, preA]
      · funext κ
        cases κ <;> simp [next, nextD, nextA]
    · rw [if_neg at_d]
      by_cases at_u : n = u
      · subst at_u
        have lists : h₆.node n = (((g.node n).setNext .data stay).setNext .active stay').setNext
            .data (stay ++ [dgsfName n]) := by
          simp [h₆, h₅, h₄, h₂, node₃, node₁, at_d, notSelf, next]
        rw [lists, if_pos rfl, ChanNode.setNext, ChanNode.setNext, ChanNode.setNext]
        congr 1
        funext κ
        cases κ <;> simp [stay, stay', stays]
      · have lists : h₆.node n = h₃.node n := by simp [h₆, h₅, h₄, at_d, at_u]
        have before : h₂.node n = h₁.node n := by simp [h₂, at_u]
        rw [if_neg at_u, lists, node₃, if_neg at_d, pre, before, node₁, if_neg at_d]
        have pres (p : Conn → List String)
            (eq : ∀ κ, p κ = if n ∈ g.next κ u ∧ g.other u n = true then
              (g.pre κ n).replace u (dgsfName u) else g.pre κ n) :
            { g.node n with preNodes := p } = { g.node n with
              preNodes := fun κ => if n ∈ g.next κ u ∧ g.other u n = true then
                (g.pre κ n).replace u (dgsfName u) else g.pre κ n } := by
          rw [funext eq]
        split_ifs with active data data <;>
          refine pres _ fun κ => ?_ <;> cases κ <;>
          first | rw [if_pos (by assumption)] | rw [if_neg (by assumption)]
        all_goals simp [pre]

/-! ## The traversal -/

/-- The channels can be named and put into regions: the source reports both otherwise. -/
structure DgsfReady (g : ChanGraph) : Prop extends Connected g where
  placed : Placed g
  fresh : ∀ u ∈ g.nodes, g.crosses u = true → dgsfName u ∉ g.nodes

/-- The graph when the nodes of the list have been visited. -/
structure Progress (g : ChanGraph) (size : Nat) (done : List String) (h : ChanGraph) : Prop where
  nodes : h.nodes = g.nodes ++ (done.filter g.crosses).map dgsfName
  kept : ∀ n ∈ g.nodes, h.node n = g.rewired done n
  added : ∀ u ∈ done, g.crosses u = true → h.node (dgsfName u) = g.inserted size u
  regions : h.controlTree.regions = g.controlTree.regions

theorem start_progress : Progress g size [] g where
  nodes := by simp
  kept n _ := by simp [rewired, pre, next]
  added := by simp
  regions := rfl

theorem replace_map {α β : Type*} [BEq β] [LawfulBEq β] [DecidableEq α] {f : α → β} {l : List α}
    {c : α} {b : β} (nodup : l.Nodup) (only : ∀ x ∈ l, f x = f c → x = c) :
    (l.map f).replace (f c) b = l.map fun x => if x = c then b else f x := by
  induction l with
  | nil => rfl
  | cons x l ih =>
    obtain ⟨fresh, nodup⟩ := List.nodup_cons.mp nodup
    obtain ⟨here, only⟩ := List.forall_mem_cons.mp only
    by_cases at_c : x = c
    · subst at_c
      rw [List.map_cons, List.replace_cons_self, List.map_cons, if_pos rfl]
      congr 1
      refine List.map_congr_left fun y mem => ?_
      rw [if_neg (ne_of_mem_of_not_mem mem fresh)]
    · have apart : (f c == f x) = false := by simpa using fun eq : f c = f x => at_c (here eq.symm)
      rw [List.map_cons, List.replace_cons, apart, List.map_cons, if_neg at_c]
      exact congrArg _ (ih nodup only)

/-- An edge from `u` to another subgraph is seen from both ends. -/
theorem DgsfReady.crosses_of_pre (ready : DgsfReady g) {κ : Conn} {u n : String} (hu : u ∈ g.nodes)
    (hn : n ∈ g.nodes) (mem : u ∈ g.pre κ n) (other : g.other u n = true) :
    g.crosses u = true :=
  mem_next_of_other ((ready.symmetric κ u hu n hn).mpr mem) other

theorem rewired_of_not_crosses (ready : DgsfReady g) {done : List String} {u : String}
    (hu : u ∈ g.nodes) (stays : g.crosses u ≠ true) {n : String} (hn : n ∈ g.nodes) :
    g.rewired (done ++ [u]) n = g.rewired done n := by
  have inner (κ : Conn) (v : String) (mem : v ∈ g.next κ u) : g.other u v = false := by
    by_contra other
    exact stays (mem_next_of_other mem (by simpa using other))
  have pres (κ : Conn) : ((g.pre κ n).map fun p =>
        if p ∈ done ++ [u] ∧ g.other p n = true then dgsfName p else p) =
      (g.pre κ n).map fun p => if p ∈ done ∧ g.other p n = true then dgsfName p else p := by
    refine List.map_congr_left fun p mem => ?_
    have quiet : p = u → g.other p n ≠ true := by
      rintro rfl other
      exact stays (ready.crosses_of_pre hu hn mem other)
    grind
  have nexts (κ : Conn) : (g.next κ u).filter (fun v => !g.other u v) = g.next κ u :=
    List.filter_eq_self.mpr fun v mem => by simp [inner κ v mem]
  simp only [rewired, pres]
  by_cases at_u : n = u
  · subst at_u
    simp [stays, nexts]
  · simp [at_u]

theorem passKeepMode_eq {u : String} {x : ChanNode} (mem : u ∈ g.nodes) (there : dgsfName u ∈ g.nodes) :
    ∃ h, passKeepMode u x g = some h ∧ h.nodes = g.nodes ∧ h.controlTree = g.controlTree ∧
      ∀ n, h.node n = if x.chanMode = .Keep_mode ∧ n = dgsfName u then
          { g.node n with chanMode := .Keep_mode }
        else if x.chanMode = .Keep_mode ∧ n = u then { g.node n with chanMode := .Normal }
        else g.node n := by
  unfold passKeepMode
  by_cases keep : x.chanMode = .Keep_mode
  · rw [if_pos keep, modifyNode_of_mem mem]
    simp only [Option.bind_eq_bind, Option.bind_some]
    rw [modifyNode_of_mem (by exact there)]
    refine ⟨_, rfl, rfl, rfl, fun n => ?_⟩
    have self := dgsfName_ne u
    by_cases at_d : n = dgsfName u
    · simp [at_d, keep, self]
    · by_cases at_u : n = u <;> simp [at_d, at_u, keep, self.symm]
  · exact ⟨g, by rw [if_neg keep], rfl, rfl, fun n => by simp [keep]⟩

section
variable {done : List String} {u : String} (ready : DgsfReady g) (progress : Progress g size done h)
include ready progress

theorem Progress.dgsf_notMem (mem : u ∈ g.nodes) (new : u ∉ done) (crosses : g.crosses u = true) :
    dgsfName u ∉ h.nodes := by
  rw [progress.nodes, List.mem_append, not_or]
  refine ⟨ready.fresh u mem crosses, ?_⟩
  rintro listed
  obtain ⟨v, listed, eq⟩ := List.mem_map.mp listed
  exact new (dgsfName_inj.mp eq ▸ (List.mem_filter.mp listed).1)

omit ready in
theorem Progress.next_eq (mem : u ∈ g.nodes) (new : u ∉ done) (κ : Conn) :
    h.next κ u = g.next κ u := by
  rw [next, progress.kept u mem]
  simp [rewired, new]

omit ready in
theorem Progress.other_eq {v : String} (hu : u ∈ g.nodes) (hv : v ∈ g.nodes) :
    h.other u v = g.other u v := by
  rw [other, progress.kept u hu, progress.kept v hv]
  rfl

theorem Progress.crosses_eq (mem : u ∈ g.nodes) (new : u ∉ done) :
    (h.node u).allNext.any (h.other u) = g.crosses u := by
  have lists : (h.node u).allNext = (g.node u).allNext := by
    have nexts := progress.next_eq mem new
    unfold next at nexts
    simp only [ChanNode.allNext, nexts]
  rw [crosses, lists, Bool.eq_iff_iff, List.any_eq_true, List.any_eq_true]
  refine exists_congr fun v => and_congr_right fun there => ?_
  obtain ⟨κ, there⟩ := ChanNode.mem_allNext.mp there
  rw [progress.other_eq mem (ready.next u mem κ v there)]

/-- The entries of an original node are replaced where they should be. -/
theorem Progress.pre_replaced (mem : u ∈ g.nodes) (new : u ∉ done) {n : String} (hn : n ∈ g.nodes)
    (κ : Conn) :
    (if n ∈ g.next κ u ∧ g.other u n = true then (h.pre κ n).replace u (dgsfName u)
      else h.pre κ n) = (g.rewired (done ++ [u]) n).preNodes κ := by
  have old : h.pre κ n = (g.pre κ n).map fun p =>
      if p ∈ done ∧ g.other p n = true then dgsfName p else p := by
    rw [pre, progress.kept n hn]
    rfl
  have listed := ready.symmetric κ u mem n hn
  rw [old]
  split_ifs with moved
  · have crosses := mem_next_of_other moved.1 moved.2
    have replaced := @replace_map _ _ _ _ _ (fun p =>
      if p ∈ done ∧ g.other p n = true then dgsfName p else p) (g.pre κ n) u (dgsfName u)
      (ready.nodupPre κ n hn) fun p there same => by
        simp only [new, false_and, if_false] at same
        split_ifs at same with renamed
        · have inside := ready.pre n hn κ p there
          have known := ready.crosses_of_pre inside hn there renamed.2
          exact absurd (same ▸ mem) (ready.fresh p inside known)
        · exact same
    simp only [new, false_and, if_false] at replaced
    rw [replaced]
    refine List.map_congr_left fun p _ => ?_
    by_cases at_u : p = u
    · simp [at_u, moved.2]
    · simp [at_u]
  · refine List.map_congr_left fun p there => ?_
    have quiet : p = u → g.other p n ≠ true := by
      rintro rfl other
      exact moved ⟨listed.mpr there, other⟩
    grind

theorem Progress.step (visited : done ⊆ g.nodes) (mem : u ∈ g.nodes) (new : u ∉ done) :
    ∃ h', insertDGSF size h u = some h' ∧ Progress g size (done ++ [u]) h' := by
  have inside (n : String) (hn : n ∈ g.nodes) : n ∈ h.nodes := by
    rw [progress.nodes]
    exact List.mem_append_left _ hn
  have nexts := progress.next_eq mem new
  have named (v : String) (there : v ∈ (h.node u).allNext) : v ∈ g.nodes := by
    obtain ⟨κ, there⟩ := ChanNode.mem_allNext.mp there
    exact ready.next u mem κ v (nexts κ ▸ there)
  have check : h.insertCheck (h.node u).subgraphId (h.node u).allNext = some (g.crosses u) := by
    rw [insertCheck_eq fun v there => inside v (named v there), progress.crosses_eq ready mem new]
  have start : insertDGSF size h u = if g.crosses u = true then
      (newDGSF size u (h.node u) h).bind fun k =>
        (connectDGSF u (h.node u) k).bind (passKeepMode u (h.node u)) else some h := by
    simp only [insertDGSF, getNode_of_mem (inside u mem), Option.bind_eq_bind, Option.bind_some,
      check]
  rw [start]
  by_cases crosses : g.crosses u = true
  swap
  · rw [if_neg crosses]
    refine ⟨h, rfl, ?_, fun n hn => ?_, fun v there crossing => ?_, progress.regions⟩
    · simp [progress.nodes, List.filter_append, crosses]
    · rw [progress.kept n hn, rewired_of_not_crosses ready mem crosses hn]
    · obtain old | rfl : v ∈ done ∨ v = u := by simpa using there
      · exact progress.added v old crossing
      · exact absurd crossing crosses
  rw [if_pos crosses]
  have fresh := progress.dgsf_notMem ready mem new crosses
  have self := dgsfName_ne u
  have original (n : String) (hn : n ∈ g.nodes) : n ≠ dgsfName u :=
    fun eq => fresh (eq ▸ inside n hn)
  have region : (h.node u).controlRegionName ∈ h.controlTree.regions := by
    rw [progress.regions, progress.kept u mem]
    exact ready.placed u mem
  obtain ⟨h₁, run₁, nodes₁, regions₁, node₁⟩ := @newDGSF_eq h size u fresh region
  have node₁' (n : String) (hn : n ∈ g.nodes) : h₁.node n = h.node n := by
    rw [node₁, Function.update_of_ne (original n hn)]
  have next₁ (κ : Conn) : h₁.next κ u = g.next κ u := by
    rw [next, node₁' u mem, ← nexts κ]
    rfl
  have other₁ (v : String) (hv : v ∈ g.nodes) : h₁.other u v = g.other u v := by
    rw [← progress.other_eq mem hv, other, node₁' u mem, node₁' v hv]
    rfl
  obtain ⟨h₂, run₂, nodes₂, tree₂, node₂⟩ := @connectDGSF_eq h₁ u
    (by rw [nodes₁]; exact List.mem_append_left _ (inside u mem))
    (by rw [nodes₁]; simp)
    (fun κ => by simp [pre, next, node₁, blank])
    (fun κ v there => by
      rw [next₁] at there
      have hv := ready.next u mem κ v there
      exact ⟨by rw [nodes₁]; exact List.mem_append_left _ (inside v hv), original v hv⟩)
    (fun κ => next₁ κ ▸ ready.nodupNext κ u mem)
    (fun κ v there => by
      rw [next₁] at there
      have hv := ready.next u mem κ v there
      have listed := (ready.symmetric κ u mem v hv).mp there
      rw [pre, node₁' v hv, progress.kept v hv]
      exact List.mem_map.mpr ⟨u, listed, by simp [new]⟩)
  obtain ⟨h₃, run₃, nodes₃, tree₃, node₃⟩ := @passKeepMode_eq h₂ u (h.node u)
    (by rw [nodes₂, nodes₁]; exact List.mem_append_left _ (inside u mem))
    (by rw [nodes₂, nodes₁]; simp)
  rw [node₁' u mem] at run₂
  refine ⟨h₃, by simp [run₁, run₂, run₃], ?_, fun n hn => ?_, fun v there crossing => ?_, ?_⟩
  · rw [nodes₃, nodes₂, nodes₁, progress.nodes]
    simp [List.filter_append, crosses]
  · have at_d := original n hn
    by_cases at_u : n = u
    · subst at_u
      have lists (κ : Conn) : (h₁.next κ n).filter (fun v => !h₁.other n v) =
          (g.next κ n).filter fun v => !g.other n v := by
        rw [next₁]
        refine List.filter_congr fun v there => ?_
        rw [other₁ v (ready.next n mem κ v there)]
      have pres := progress.pre_replaced ready mem new mem
      have alone (κ : Conn) : ¬ (n ∈ g.next κ n ∧ g.other n n = true) := by simp [other]
      simp only [alone, if_false] at pres
      have before := progress.kept n mem
      have pres' : (g.rewired done n).preNodes = (g.rewired (done ++ [n]) n).preNodes := by
        funext κ
        rw [← pres κ, pre, before]
      have nexts' : (fun κ => (g.next κ n).filter (fun v => !g.other n v) ++
          if κ = .data then [dgsfName n] else []) = (g.rewired (done ++ [n]) n).nextNodes := by
        simp [rewired, crosses]
      have mode : (g.rewired done n).chanMode = (g.node n).chanMode := by simp [rewired, new]
      have mode' : (g.rewired (done ++ [n]) n).chanMode =
          if (g.node n).chanMode = .Keep_mode then .Normal else (g.node n).chanMode := by
        simp [rewired, crosses]
      simp only [node₃, node₂, connected, at_d, lists, node₁' n mem, before, if_true,
        if_false, and_false, and_true, mode]
      split_ifs with keep
      · rw [if_pos keep] at mode'
        exact ChanNode.ext rfl rfl mode'.symm rfl pres' nexts' rfl rfl rfl rfl rfl rfl
      · rw [if_neg keep] at mode'
        exact ChanNode.ext rfl rfl mode'.symm rfl pres' nexts' rfl rfl rfl rfl rfl rfl
    · have before := progress.kept n hn
      have pres : (fun κ => if n ∈ h₁.next κ u ∧ h₁.other u n = true then
          (h₁.pre κ n).replace u (dgsfName u) else h₁.pre κ n) =
            (g.rewired (done ++ [u]) n).preNodes := by
        funext κ
        rw [← progress.pre_replaced ready mem new hn κ, next₁, other₁ n hn]
        unfold pre
        rw [node₁' n hn]
      have nexts' : (g.rewired done n).nextNodes = (g.rewired (done ++ [u]) n).nextNodes := by
        simp [rewired, at_u]
      have mode : (g.rewired done n).chanMode = (g.rewired (done ++ [u]) n).chanMode := by
        simp [rewired, at_u]
      simp only [node₃, node₂, connected, at_d, at_u, pres, node₁' n hn, before, if_false,
        and_false]
      exact ChanNode.ext rfl rfl mode rfl rfl nexts' rfl rfl rfl rfl rfl rfl
  · obtain old | rfl : v ∈ done ∨ v = u := by simpa using there
    · have before := progress.added v old crossing
      have apart : dgsfName v ≠ dgsfName u := fun eq => new (dgsfName_inj.mp eq ▸ old)
      have outside : dgsfName v ∉ g.nodes := ready.fresh v (visited old) crossing
      have at_u : dgsfName v ≠ u := fun eq => outside (eq ▸ mem)
      have unlisted (κ : Conn) : dgsfName v ∉ g.next κ u :=
        fun listed => outside (ready.next u mem κ _ listed)
      have same : h₁.node (dgsfName v) = h.node (dgsfName v) := by
        rw [node₁, Function.update_of_ne apart]
      simp only [node₃, node₂, connected, apart, at_u, same, before, if_false, and_false, next₁,
        unlisted, false_and, pre]
    · have before := progress.kept v mem
      have lists (κ : Conn) : (h₁.next κ v).filter (h₁.other v) = (g.next κ v).filter (g.other v) := by
        rw [next₁]
        exact List.filter_congr fun w there => other₁ w (ready.next v mem κ w there)
      have mode : (g.rewired done v).chanMode = (g.node v).chanMode := by simp [rewired, new]
      simp only [node₃, node₂, connected, self, lists, node₁, Function.update_self, blank, before,
        if_true, if_false, and_true, and_false, mode, inserted]
      split_ifs <;> rfl
  · rw [tree₃, tree₂, regions₁, progress.regions]

end

theorem visit_all (ready : DgsfReady g) {done rest : List String} (progress : Progress g size done h)
    (inside : done ++ rest ⊆ g.nodes) (nodup : (done ++ rest).Nodup) :
    ∃ h', rest.foldlM (insertDGSF size) h = some h' ∧ Progress g size (done ++ rest) h' := by
  induction rest generalizing done h with
  | nil => exact ⟨h, rfl, by simpa using progress⟩
  | cons u rest ih =>
    have new : u ∉ done := fun old => by
      have apart := List.disjoint_of_nodup_append nodup
      exact apart old List.mem_cons_self
    obtain ⟨k, first, progress'⟩ := progress.step ready
      (fun n old => inside (List.mem_append_left _ old)) (inside (by simp)) new
    rw [List.append_cons] at inside nodup ⊢
    obtain ⟨h', run, final⟩ := ih progress' inside nodup
    exact ⟨h', by simp [first, run], final⟩

/-! ## The regions -/

/-- No region changes its type. -/
def SameTypes (t t' : ControlTree) : Prop :=
  ∀ R, (t'.region R).controlType = (t.region R).controlType

theorem modifyNode_controlTree {n : String} {f : ChanNode → ChanNode}
    (run : g.modifyNode n f = some h) : h.controlTree = g.controlTree := by
  unfold modifyNode at run
  split_ifs at run
  rw [← Option.some.inj run, setNode_controlTree]

theorem moveNext_controlTree {κ : Conn} {u d : String} {id : Nat} {vs stay : List String}
    (run : moveNext κ u d id g vs = some (stay, h)) : h.controlTree = g.controlTree := by
  induction vs generalizing g stay with
  | nil =>
    obtain ⟨rfl, rfl⟩ := Prod.mk.inj (Option.some.inj run)
    rfl
  | cons v vs ih =>
    obtain ⟨x, -, run⟩ := Option.bind_eq_some_iff.mp run
    split_ifs at run
    · obtain ⟨a, first, run⟩ := Option.bind_eq_some_iff.mp run
      obtain ⟨b, second, run⟩ := Option.bind_eq_some_iff.mp run
      rw [ih run, modifyNode_controlTree second, modifyNode_controlTree first]
    · obtain ⟨p, rest, run⟩ := Option.bind_eq_some_iff.mp run
      obtain ⟨-, rfl⟩ := Prod.mk.inj (Option.some.inj run)
      exact ih rest

theorem connectDGSF_controlTree {u : String} {x : ChanNode} (run : connectDGSF u x g = some h) :
    h.controlTree = g.controlTree := by
  obtain ⟨⟨stay, a⟩, data, run⟩ := Option.bind_eq_some_iff.mp run
  obtain ⟨b, first, run⟩ := Option.bind_eq_some_iff.mp run
  obtain ⟨⟨stay', c⟩, active, run⟩ := Option.bind_eq_some_iff.mp run
  obtain ⟨d, second, run⟩ := Option.bind_eq_some_iff.mp run
  obtain ⟨e, third, run⟩ := Option.bind_eq_some_iff.mp run
  rw [modifyNode_controlTree run, modifyNode_controlTree third, modifyNode_controlTree second,
    moveNext_controlTree active, modifyNode_controlTree first, moveNext_controlTree data]

theorem passKeepMode_controlTree {u : String} {x : ChanNode} (run : passKeepMode u x g = some h) :
    h.controlTree = g.controlTree := by
  unfold passKeepMode at run
  split_ifs at run
  · obtain ⟨a, first, run⟩ := Option.bind_eq_some_iff.mp run
    rw [modifyNode_controlTree run, modifyNode_controlTree first]
  · rw [Option.some.inj run]

theorem addNodes_sameTypes {t t' : ControlTree} {target : String} {names : List String}
    (added : t.addNodes target names = some t') : SameTypes t t' := by
  unfold ControlTree.addNodes ControlTree.modifyRegion at added
  split_ifs at added
  obtain rfl := Option.some.inj added
  intro R
  by_cases here : R = target <;> simp [here]

theorem newDGSF_sameTypes {u : String} {x : ChanNode} (run : newDGSF size u x g = some h) :
    SameTypes g.controlTree h.controlTree := by
  obtain ⟨a, first, run⟩ := Option.bind_eq_some_iff.mp run
  obtain ⟨b, second, run⟩ := Option.bind_eq_some_iff.mp run
  obtain ⟨t, tree, entered⟩ := Option.bind_eq_some_iff.mp second
  rw [List.foldlM_cons] at entered
  obtain ⟨c, third, same⟩ := Option.bind_eq_some_iff.mp entered
  obtain rfl := Option.some.inj same
  have blank : (g.addNode (dgsfName u) .ChanDGSF "Nop" .Normal x.controlRegionName).controlTree =
      g.controlTree := by
    simp only [addNode, setNode_controlTree, newNode]
    split_ifs <;> rfl
  rw [modifyNode_controlTree run, modifyNode_controlTree third]
  rw [modifyNode_controlTree first, blank] at tree
  exact addNodes_sameTypes tree

theorem insertDGSF_sameTypes {u : String} (run : insertDGSF size g u = some h) :
    SameTypes g.controlTree h.controlTree := by
  obtain ⟨x, -, run⟩ := Option.bind_eq_some_iff.mp run
  obtain ⟨insert, -, run⟩ := Option.bind_eq_some_iff.mp run
  split_ifs at run
  · obtain ⟨a, first, run⟩ := Option.bind_eq_some_iff.mp run
    obtain ⟨b, second, run⟩ := Option.bind_eq_some_iff.mp run
    rw [passKeepMode_controlTree run, connectDGSF_controlTree second]
    exact newDGSF_sameTypes first
  · rw [Option.some.inj run]
    exact fun _ => rfl

theorem addChanDGSF_sameTypes {ids : List Nat} (run : addChanDGSF size ids g = some h) :
    SameTypes g.controlTree h.controlTree :=
  Run.related (R := fun g h => SameTypes g.controlTree h.controlTree) (fun _ _ => rfl)
    (fun first second R => (second R).trans (first R)) (fun _ _ _ => insertDGSF_sameTypes) run

/-! ## The law -/

/-- Every edge between subgraphs goes through the channel behind its source, and no other edge
has changed. -/
structure SplitAtSubgraphs (g h : ChanGraph) : Prop where
  crossing : ∀ κ, ∀ u ∈ g.nodes, ∀ v ∈ g.next κ u, g.other u v = true →
    dgsfName u ∈ h.nodes ∧ dgsfName u ∈ h.next .data u ∧ v ∈ h.next κ (dgsfName u) ∧
      v ∉ h.next κ u ∧
      ∀ i : Nat, (g.pre κ v)[i]? = some u → (h.pre κ v)[i]? = some (dgsfName u)
  inside : ∀ κ, ∀ u ∈ g.nodes, ∀ v ∈ g.nodes, g.other u v = false →
    (v ∈ h.next κ u ↔ v ∈ g.next κ u) ∧
      ∀ i : Nat, (h.pre κ v)[i]? = some u ↔ (g.pre κ v)[i]? = some u
  onlyDgsf : ∀ κ, ∀ x ∈ h.nodes, ∀ y ∈ h.next κ x, h.other x y = true → x ∉ g.nodes
  dgsf : ∀ x ∈ h.nodes, x ∉ g.nodes →
    ∃ u ∈ g.nodes, x = dgsfName u ∧ (h.node x).nodeType = .ChanDGSF ∧ (h.node x).allPre = [u]
  connected : Connected h

/-- The final graph in terms of the first one. -/
structure Split (g : ChanGraph) (size : Nat) (h : ChanGraph) : Prop where
  mem_nodes : ∀ x, x ∈ h.nodes ↔ x ∈ g.nodes ∨ ∃ u ∈ g.nodes, g.crosses u = true ∧ x = dgsfName u
  pre : ∀ n ∈ g.nodes, ∀ κ,
    h.pre κ n = (g.pre κ n).map fun u => if g.other u n = true then dgsfName u else u
  next : ∀ n ∈ g.nodes, ∀ κ, h.next κ n = (g.next κ n).filter (fun v => !g.other n v) ++
    if κ = .data ∧ g.crosses n = true then [dgsfName n] else []
  subgraphId : ∀ n ∈ g.nodes, (h.node n).subgraphId = (g.node n).subgraphId
  dgsf : ∀ u ∈ g.nodes, g.crosses u = true → h.node (dgsfName u) = g.inserted size u

theorem Progress.split (ready : DgsfReady g) {done : List String} (progress : Progress g size done h)
    (all : ∀ n, n ∈ done ↔ n ∈ g.nodes) : Split g size h where
  mem_nodes x := by
    rw [progress.nodes, List.mem_append, List.mem_map]
    simp only [List.mem_filter, all]
    grind
  pre n hn κ := by
    rw [ChanGraph.pre, progress.kept n hn]
    refine List.map_congr_left fun p mem => ?_
    simp [all, ready.pre n hn κ p mem]
  next n hn κ := by
    rw [ChanGraph.next, progress.kept n hn]
    simp [rewired, all, hn]
  subgraphId n hn := by
    rw [progress.kept n hn]
    rfl
  dgsf u hu := progress.added u ((all u).mpr hu)

section
variable (ready : DgsfReady g) (split : Split g size h)
include ready split

theorem Split.mem_next {κ : Conn} {u v : String} (hu : u ∈ g.nodes) (hv : v ∈ g.nodes) :
    v ∈ h.next κ u ↔ v ∈ g.next κ u ∧ g.other u v = false := by
  have fresh : κ = .data ∧ g.crosses u = true → v ≠ dgsfName u :=
    fun new eq => ready.fresh u hu new.2 (eq ▸ hv)
  rw [split.next u hu κ]
  split_ifs with new <;> simp_all

theorem Split.pre_getElem? {κ : Conn} {u v : String} (hv : v ∈ g.nodes) (i : Nat)
    (hu : u ∈ g.nodes) :
    (h.pre κ v)[i]? = some u ↔ (g.pre κ v)[i]? = some u ∧ g.other u v = false := by
  rw [split.pre v hv κ, List.getElem?_map, Option.map_eq_some_iff]
  constructor
  · rintro ⟨p, there, eq⟩
    split_ifs at eq with renamed
    · have known := List.mem_of_getElem? there
      have inside := ready.pre v hv κ p known
      have crosses := ready.crosses_of_pre inside hv known renamed
      exact absurd (eq ▸ hu) (ready.fresh p inside crosses)
    · subst eq
      exact ⟨there, by simpa using renamed⟩
  · rintro ⟨there, same⟩
    exact ⟨u, there, by simp [same]⟩

theorem Split.mem_pre {κ : Conn} {u v : String} (hu : u ∈ g.nodes) (hv : v ∈ g.nodes) :
    u ∈ h.pre κ v ↔ u ∈ g.pre κ v ∧ g.other u v = false := by
  simp only [List.mem_iff_getElem?, split.pre_getElem? ready hv _ hu, exists_and_right]

/-- The channel behind `u` is in the place of `u`. -/
theorem Split.dgsf_getElem? {κ : Conn} {u v : String} (hu : u ∈ g.nodes) (hv : v ∈ g.nodes)
    (i : Nat) : (h.pre κ v)[i]? = some (dgsfName u) ∧ g.crosses u = true ↔
      (g.pre κ v)[i]? = some u ∧ g.other u v = true := by
  rw [split.pre v hv κ, List.getElem?_map, Option.map_eq_some_iff]
  constructor
  · rintro ⟨⟨p, there, eq⟩, crosses⟩
    split_ifs at eq with renamed
    · obtain rfl := dgsfName_inj.mp eq
      exact ⟨there, renamed⟩
    · have inside := ready.pre v hv κ p (List.mem_of_getElem? there)
      exact absurd (eq ▸ inside) (ready.fresh u hu crosses)
  · rintro ⟨there, other⟩
    exact ⟨⟨u, there, by simp [other]⟩,
      ready.crosses_of_pre hu hv (List.mem_of_getElem? there) other⟩

omit ready in
theorem Split.dgsf_lists {u : String} (hu : u ∈ g.nodes) (crosses : g.crosses u = true) (κ : Conn) :
    h.next κ (dgsfName u) = (g.next κ u).filter (g.other u) ∧
      h.pre κ (dgsfName u) = if κ = .data then [u] else [] := by
  rw [ChanGraph.next, ChanGraph.pre, split.dgsf u hu crosses]
  exact ⟨rfl, by cases κ <;> rfl⟩

/-- The channel behind a node is a successor of that node only. -/
theorem Split.dgsf_mem_next {κ : Conn} {u w : String} (hu : u ∈ g.nodes) (hw : w ∈ g.nodes)
    (crosses : g.crosses w = true) :
    dgsfName w ∈ h.next κ u ↔ κ = .data ∧ w = u := by
  have outside := ready.fresh w hw crosses
  rw [split.next u hu κ, List.mem_append, List.mem_filter]
  constructor
  · rintro (⟨old, -⟩ | new)
    · exact absurd (ready.next u hu κ _ old) outside
    · split_ifs at new with here
      · exact ⟨here.1, dgsfName_inj.mp (List.mem_singleton.mp new)⟩
      · cases new
  · rintro ⟨rfl, rfl⟩
    simp [crosses]

theorem Split.connected : Connected h := by
  have original (n : String) (hn : n ∈ g.nodes) : n ∈ h.nodes := (split.mem_nodes n).mpr (.inl hn)
  have channel (u : String) (hu : u ∈ g.nodes) (crosses : g.crosses u = true) :
      dgsfName u ∈ h.nodes := (split.mem_nodes _).mpr (.inr ⟨u, hu, crosses, rfl⟩)
  refine ⟨⟨fun n hn κ p mem => ?_, fun n hn κ s mem => ?_⟩, fun κ x hx y hy => ?_,
    fun κ n hn => ?_, fun κ n hn => ?_⟩
  · obtain hn | ⟨u, hu, crosses, rfl⟩ := (split.mem_nodes n).mp hn
    · rw [split.pre n hn κ] at mem
      obtain ⟨q, known, eq⟩ := List.mem_map.mp mem
      have hq := ready.pre n hn κ q known
      split_ifs at eq with other
      · exact eq ▸ channel q hq (ready.crosses_of_pre hq hn known other)
      · exact eq ▸ original q hq
    · rw [(split.dgsf_lists hu crosses κ).2] at mem
      split_ifs at mem
      · exact List.mem_singleton.mp mem ▸ original u hu
      · cases mem
  · obtain hn | ⟨u, hu, crosses, rfl⟩ := (split.mem_nodes n).mp hn
    · rw [split.next n hn κ, List.mem_append] at mem
      obtain old | new := mem
      · exact original s (ready.next n hn κ s (List.mem_filter.mp old).1)
      · split_ifs at new with here
        · exact List.mem_singleton.mp new ▸ channel n hn here.2
        · cases new
    · rw [(split.dgsf_lists hu crosses κ).1] at mem
      exact original s (ready.next u hu κ s (List.mem_filter.mp mem).1)
  · obtain hx | ⟨u, hu, crosses, rfl⟩ := (split.mem_nodes x).mp hx
    · obtain hy | ⟨w, hw, crosses, rfl⟩ := (split.mem_nodes y).mp hy
      · rw [split.mem_next ready hx hy, split.mem_pre ready hx hy, ready.symmetric κ x hx y hy]
      · rw [split.dgsf_mem_next ready hx hw crosses, (split.dgsf_lists hw crosses κ).2]
        by_cases data : κ = .data <;> simp [data, eq_comm]
    · rw [(split.dgsf_lists hu crosses κ).1]
      obtain hy | ⟨w, hw, crossesW, rfl⟩ := (split.mem_nodes y).mp hy
      · rw [List.mem_filter, ready.symmetric κ u hu y hy]
        have places := split.dgsf_getElem? ready (κ := κ) hu hy
        simp only [crosses, and_true] at places
        simp only [List.mem_iff_getElem?, places, exists_and_right]
      · have outside := ready.fresh w hw crossesW
        have apart : dgsfName u ≠ w := fun eq => ready.fresh u hu crosses (eq ▸ hw)
        rw [(split.dgsf_lists hw crossesW κ).2]
        have unlisted : dgsfName w ∉ g.next κ u := fun mem => outside (ready.next u hu κ _ mem)
        constructor
        · exact fun mem => absurd (List.mem_filter.mp mem).1 unlisted
        · intro mem
          split_ifs at mem
          · exact absurd (List.mem_singleton.mp mem) apart
          · cases mem
  · obtain hn | ⟨u, hu, crosses, rfl⟩ := (split.mem_nodes n).mp hn
    · rw [split.pre n hn κ]
      refine (ready.nodupPre κ n hn).map_on fun p hp q hq same => ?_
      have hp' := ready.pre n hn κ p hp
      have hq' := ready.pre n hn κ q hq
      split_ifs at same with otherP otherQ otherQ
      · exact dgsfName_inj.mp same
      · exact absurd (same ▸ hq') (ready.fresh p hp' (ready.crosses_of_pre hp' hn hp otherP))
      · exact absurd (same ▸ hp') (ready.fresh q hq' (ready.crosses_of_pre hq' hn hq otherQ))
      · exact same
    · rw [(split.dgsf_lists hu crosses κ).2]
      split_ifs <;> simp
  · obtain hn | ⟨u, hu, crosses, rfl⟩ := (split.mem_nodes n).mp hn
    · rw [split.next n hn κ]
      refine ((ready.nodupNext κ n hn).filter _).append (by split_ifs <;> simp) ?_
      intro s old new
      split_ifs at new with here
      · rw [List.mem_singleton.mp new] at old
        exact ready.fresh n hn here.2 (ready.next n hn κ _ (List.mem_filter.mp old).1)
      · cases new
    · rw [(split.dgsf_lists hu crosses κ).1]
      exact (ready.nodupNext κ u hu).filter _

theorem Split.splitAtSubgraphs : SplitAtSubgraphs g h := by
  have otherH {u v : String} (hu : u ∈ g.nodes) (hv : v ∈ g.nodes) : h.other u v = g.other u v := by
    simp only [other, split.subgraphId u hu, split.subgraphId v hv]
  refine ⟨fun κ u hu v mem other => ?_, fun κ u hu v hv inner => ⟨?_, fun i => ?_⟩,
    fun κ x hx y mem other hxg => ?_, fun x hx outside => ?_, split.connected ready⟩
  · have hv := ready.next u hu κ v mem
    have crosses := mem_next_of_other mem other
    refine ⟨(split.mem_nodes _).mpr (.inr ⟨u, hu, crosses, rfl⟩),
      (split.dgsf_mem_next ready hu hu crosses).mpr ⟨rfl, rfl⟩, ?_, ?_, fun i there => ?_⟩
    · rw [(split.dgsf_lists hu crosses κ).1]
      exact List.mem_filter.mpr ⟨mem, other⟩
    · rw [split.mem_next ready hu hv, other]
      simp
    · exact ((split.dgsf_getElem? ready hu hv i).mpr ⟨there, other⟩).1
  · simp [split.mem_next ready hu hv, inner]
  · simp [split.pre_getElem? ready hv i hu, inner]
  · rw [split.next x hxg κ, List.mem_append] at mem
    obtain old | new := mem
    · obtain ⟨old, inner⟩ := List.mem_filter.mp old
      rw [otherH hxg (ready.next x hxg κ y old)] at other
      simp [other] at inner
    · split_ifs at new with here
      · rw [List.mem_singleton.mp new, ChanGraph.other, split.dgsf x hxg here.2,
          split.subgraphId x hxg] at other
        simp [inserted] at other
      · cases new
  · obtain inside | ⟨u, hu, crosses, rfl⟩ := (split.mem_nodes x).mp hx
    · exact absurd inside outside
    · refine ⟨u, hu, rfl, ?_, ?_⟩ <;> rw [split.dgsf u hu crosses]
      · rfl
      · simp [inserted, ChanNode.allPre]

end

/-- In whatever order the map lists the subgraphs, the insertion succeeds, and every edge
between subgraphs goes through the new channel behind its source, with everything else as it
was. -/
theorem addChanDGSF_splits (size : Nat) (ids : List Nat) (g : ChanGraph) (ready : DgsfReady g)
    (distinct : ids.Nodup) (all : ∀ n ∈ g.nodes, (g.node n).subgraphId ∈ ids) :
    ∃ h, addChanDGSF size ids g = some h ∧ SplitAtSubgraphs g h := by
  have visited : (g.traversal ids).Perm g.nodes := Adjacency.perm_flatMap_filter distinct g.nodup all
  obtain ⟨h, run, progress⟩ := visit_all ready (@start_progress g size)
    (fun n mem => visited.mem_iff.mp mem) (visited.nodup_iff.mpr g.nodup)
  exact ⟨h, run, (progress.split ready fun n => visited.mem_iff).splitAtSubgraphs ready⟩

/-- Two subgraphs: `a` feeds `b` in the other one and `c` in its own. -/
def twoSubgraphs : ChanGraph where
  nodes := ["a", "b", "c"]
  node n :=
    if n = "a" then
      { controlRegionName := "Loop"
        nextNodes := fun κ => if κ = .data then ["b", "c"] else [] }
    else if n = "b" then
      { controlRegionName := "Loop"
        preNodes := fun κ => if κ = .data then ["c", "a"] else []
        subgraphId := 1 }
    else
      { controlRegionName := "Loop"
        preNodes := fun κ => if κ = .data then ["a"] else []
        nextNodes := fun κ => if κ = .data then ["b"] else [] }
  controlTree := ⟨["Loop"], fun _ => {}, by decide⟩
  nodup := by decide

theorem addChanDGSF_splits_two :
    ∃ h, addChanDGSF 2 [1, 0] twoSubgraphs = some h ∧ SplitAtSubgraphs twoSubgraphs h :=
  addChanDGSF_splits 2 [1, 0] twoSubgraphs
    { pre := by decide
      next := by decide
      symmetric := by decide
      nodupPre := by decide
      nodupNext := by decide
      placed := by unfold Placed; decide
      fresh := by decide }
    (by decide) (by decide)

end DataflowSim.Graph.ChanGraph
