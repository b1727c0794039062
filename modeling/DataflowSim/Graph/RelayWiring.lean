import DataflowSim.Graph.RelayPath

/-!
# The wiring of relays

What each operation of the relay phase does to the lists. Relays come behind the nodes of the
graph, their edges are those that are entered at them, and a node of the graph loses the edges
that are deleted at it and gains none.
-/

namespace DataflowSim.Graph.ChanGraph

/-- The first controller that a region lists. -/
def lcOf (g : ChanGraph) (ctrlRegion : String) : Option String :=
  (g.controlTree.region ctrlRegion).nodes.find? fun n => (g.node n).nodeType = .Lc

/-- The kind of edge from `u` that `v` lists, data before activation. -/
def kindOf (g : ChanGraph) (u v : String) : Option Conn :=
  if u ∈ g.pre .data v then some .data else if u ∈ g.pre .active v then some .active else none

/-- An edge in a list of a node that `g` does not have. -/
def Entered (g s : ChanGraph) (κ : Conn) (a b : String) : Prop :=
  a ∈ s.nodes ∧ a ∉ g.nodes ∧ b ∈ s.next κ a ∨ b ∈ s.nodes ∧ b ∉ g.nodes ∧ a ∈ s.pre κ b

/-- No node is named like a relay, different relays have different names, and what the regions
list are nodes. -/
structure Relayable (g : ChanGraph) : Prop extends Connected g where
  listed : ∀ R ∈ g.controlTree.regions, ∀ n ∈ (g.controlTree.region R).nodes, n ∈ g.nodes
  fresh : ∀ u ∈ g.nodes, ∀ R ∈ g.controlTree.regions, relayName u R ∉ g.nodes
  distinct : ∀ u ∈ g.nodes, ∀ R ∈ g.controlTree.regions, ∀ u' ∈ g.nodes,
    ∀ R' ∈ g.controlTree.regions, relayName u R = relayName u' R' → u = u' ∧ R = R'

/-- Sets of edges by their kind. -/
abbrev Edges := Conn → String → String → Prop

/-- The graph `g` with the relays of the pairs in `made`, without the edges in `gone` and with
the edges `X` at the relays. -/
structure Wired (g : ChanGraph) (made : String → String → Prop) (gone : String → String → Bool)
    (X : Edges) (s : ChanGraph) : Prop where
  first : g.nodes <+: s.nodes
  mem : ∀ n, n ∈ s.nodes ↔ n ∈ g.nodes ∨ ∃ u R, made u R ∧ n = relayName u R
  pre : ∀ n ∈ g.nodes, ∀ κ, s.pre κ n = (g.pre κ n).filter fun u => !gone u n
  next : ∀ n ∈ g.nodes, ∀ κ, s.next κ n = (g.next κ n).filter fun v => !gone n v
  node : ∀ n ∈ g.nodes, (s.node n).nodeType = (g.node n).nodeType ∧
    (s.node n).controlRegionName = (g.node n).controlRegionName
  owner : ∀ u R, made u R → u ∈ g.nodes ∧ R ∈ g.controlTree.regions
  relay : ∀ u R, made u R → (s.node (relayName u R)).nodeType = .ChanBase ∧
    (s.node (relayName u R)).controlRegionName = R
  regions : s.controlTree.regions = g.controlTree.regions
  tree : ∀ R ∈ g.controlTree.regions, ∃ more,
    (s.controlTree.region R).nodes = (g.controlTree.region R).nodes ++ more ∧
      ∀ n ∈ more, ∃ u R, made u R ∧ n = relayName u R
  edge : ∀ κ a b, g.Entered s κ a b ↔ X κ a b
  named : ∀ κ a b, X κ a b → a ∈ s.nodes ∧ b ∈ s.nodes

variable {g s : ChanGraph} {made : String → String → Prop} {gone : String → String → Bool}
  {X Y : Edges}

theorem Wired.start (g : ChanGraph) :
    g.Wired (fun _ _ => False) (fun _ _ => false) (fun _ _ _ => False) g where
  first := List.prefix_rfl
  mem := by simp
  pre := by simp
  next := by simp
  node := by simp
  owner := by simp
  relay := by simp
  regions := rfl
  tree R mem := ⟨[], by simp, by simp⟩
  edge κ a b := by
    simp only [Entered, iff_false]
    tauto
  named := by simp

/-- Only what is made, gone and entered counts. -/
theorem Wired.congr {made' : String → String → Prop} {gone' : String → String → Bool}
    (w : g.Wired made gone X s) (sameMade : ∀ u R, made u R ↔ made' u R)
    (sameGone : ∀ u v, gone u v = gone' u v) (same : ∀ κ a b, X κ a b ↔ Y κ a b) :
    g.Wired made' gone' Y s := by
  obtain rfl : made = made' := funext fun u => funext fun R => propext (sameMade u R)
  obtain rfl : gone = gone' := funext fun u => funext (sameGone u)
  obtain rfl : X = Y := funext fun κ => funext fun a => funext fun b => propext (same κ a b)
  exact w

theorem Wired.mem_of_made {u R : String} (w : g.Wired made gone X s) (h : made u R) :
    relayName u R ∈ s.nodes :=
  (w.mem _).mpr (.inr ⟨u, R, h, rfl⟩)

theorem Wired.mem_of_node {n : String} (w : g.Wired made gone X s) (h : n ∈ g.nodes) :
    n ∈ s.nodes :=
  (w.mem n).mpr (.inl h)

theorem Wired.notMem_of_made {u R : String} (ready : g.Relayable) (w : g.Wired made gone X s)
    (h : made u R) : relayName u R ∉ g.nodes :=
  ready.fresh u (w.owner u R h).1 R (w.owner u R h).2

/-- An edit of a relay that keeps its type and its region. -/
theorem Wired.edit {u R : String} {y : ChanNode} (ready : g.Relayable)
    (w : g.Wired made gone X s) (there : made u R) (type : y.nodeType = .ChanBase)
    (region : y.controlRegionName = R)
    (edge : ∀ κ a b, g.Entered (s.setNode (relayName u R) y) κ a b ↔ Y κ a b)
    (named : ∀ κ a b, Y κ a b → a ∈ s.nodes ∧ b ∈ s.nodes) :
    g.Wired made gone Y (s.setNode (relayName u R) y) := by
  have apart {n : String} (mem : n ∈ g.nodes) : n ≠ relayName u R :=
    ne_of_mem_of_not_mem mem (w.notMem_of_made ready there)
  exact
    { first := w.first
      mem := w.mem
      pre := fun n mem κ => by
        rw [ChanGraph.pre, setNode_node, Function.update_of_ne (apart mem)]
        exact w.pre n mem κ
      next := fun n mem κ => by
        rw [ChanGraph.next, setNode_node, Function.update_of_ne (apart mem)]
        exact w.next n mem κ
      node := fun n mem => by
        rw [setNode_node, Function.update_of_ne (apart mem)]
        exact w.node n mem
      owner := w.owner
      relay := fun u' R' there' => by
        by_cases same : relayName u' R' = relayName u R
        · obtain ⟨rfl, rfl⟩ := ready.distinct u' (w.owner _ _ there').1 R' (w.owner _ _ there').2 u
            (w.owner _ _ there).1 R (w.owner _ _ there).2 same
          simp [type, region]
        · rw [setNode_node, Function.update_of_ne same]
          exact w.relay u' R' there'
      regions := w.regions
      tree := w.tree
      edge := edge
      named := named }

/-! ## Links -/

theorem pre_setNode (r : String) (y : ChanNode) (κ : Conn) (n : String) :
    (s.setNode r y).pre κ n = if n = r then y.preNodes κ else s.pre κ n := by
  rw [ChanGraph.pre, setNode_node, Function.update_apply]
  split_ifs <;> rfl

theorem next_setNode (r : String) (y : ChanNode) (κ : Conn) (n : String) :
    (s.setNode r y).next κ n = if n = r then y.nextNodes κ else s.next κ n := by
  rw [ChanGraph.next, setNode_node, Function.update_apply]
  split_ifs <;> rfl

/-- One edge. -/
def single (κ : Conn) (a b : String) : Edges := fun ι c d => ι = κ ∧ c = a ∧ d = b

theorem Wired.pushPre {u R p : String} {κ : Conn} (ready : g.Relayable)
    (w : g.Wired made gone X s) (there : made u R) (known : p ∈ s.nodes) :
    ∃ t, s.modifyNode (relayName u R) (fun x => x.setPre κ (x.preNodes κ ++ [p])) = some t ∧
      g.Wired made gone (X ⊔ single κ p (relayName u R)) t ∧ t.nodes = s.nodes := by
  have mem := w.mem_of_made there
  have new := w.notMem_of_made ready there
  refine ⟨_, modifyNode_of_mem mem _, w.edit ready there (w.relay u R there).1
    (w.relay u R there).2 (fun ι a b => ?_) fun ι a b edge => ?_, rfl⟩
  · change _ ↔ X ι a b ∨ single κ p (relayName u R) ι a b
    rw [← w.edge ι a b]
    simp only [Entered, single, setNode_nodes, pre_setNode, next_setNode]
    have nexts : (if a = relayName u R then (s.node (relayName u R)).nextNodes ι else s.next ι a) =
        s.next ι a := by
      split_ifs with here
      · rw [here, ChanGraph.next]
      · rfl
    rw [ChanNode.setPre_nextNodes, nexts, ChanNode.setPre_preNodes]
    by_cases here : b = relayName u R
    · subst here
      by_cases same : ι = κ
      · subst same
        simp [mem, new, ChanGraph.pre]
        tauto
      · simp [same, ChanGraph.pre]
    · simp [here]
  · rcases edge with old | ⟨-, rfl, rfl⟩
    · exact w.named ι a b old
    · exact ⟨known, mem⟩

theorem Wired.pushNext {u R n : String} {κ : Conn} (ready : g.Relayable)
    (w : g.Wired made gone X s) (there : made u R) (known : n ∈ s.nodes) :
    ∃ t, s.modifyNode (relayName u R) (fun x => x.setNext κ (x.nextNodes κ ++ [n])) = some t ∧
      g.Wired made gone (X ⊔ single κ (relayName u R) n) t ∧ t.nodes = s.nodes := by
  have mem := w.mem_of_made there
  have new := w.notMem_of_made ready there
  refine ⟨_, modifyNode_of_mem mem _, w.edit ready there (w.relay u R there).1
    (w.relay u R there).2 (fun ι a b => ?_) fun ι a b edge => ?_, rfl⟩
  · change _ ↔ X ι a b ∨ single κ (relayName u R) n ι a b
    rw [← w.edge ι a b]
    simp only [Entered, single, setNode_nodes, pre_setNode, next_setNode]
    have pres : (if b = relayName u R then (s.node (relayName u R)).preNodes ι else s.pre ι b) =
        s.pre ι b := by
      split_ifs with here
      · rw [here, ChanGraph.pre]
      · rfl
    rw [ChanNode.setNext_preNodes, pres, ChanNode.setNext_nextNodes]
    by_cases here : a = relayName u R
    · subst here
      by_cases same : ι = κ
      · subst same
        simp [mem, new, ChanGraph.next]
        tauto
      · simp [same, ChanGraph.next]
    · simp [here]
  · rcases edge with old | ⟨-, rfl, rfl⟩
    · exact w.named ι a b old
    · exact ⟨mem, known⟩

/-! ## Creation -/

theorem findLc_eq {l : List String} (known : ∀ n ∈ l, n ∈ s.nodes) :
    s.findLc l = some (l.find? fun n => (s.node n).nodeType = .Lc) := by
  induction l with
  | nil => rfl
  | cons n l ih =>
    obtain ⟨here, rest⟩ := List.forall_mem_cons.mp known
    rw [findLc, getNode_of_mem here]
    by_cases lc : (s.node n).nodeType = .Lc <;> simp [lc, ih rest]

/-- Relays are no controllers. -/
theorem Wired.findLc (ready : g.Relayable) (w : g.Wired made gone X s) {R : String}
    (declared : R ∈ g.controlTree.regions) :
    s.findLc (s.controlTree.region R).nodes = some (g.lcOf R) := by
  obtain ⟨more, nodes, relays⟩ := w.tree R declared
  have none : (more.find? fun n => (s.node n).nodeType = .Lc) = none := by
    rw [List.find?_eq_none]
    intro n mem
    obtain ⟨u, R', there, rfl⟩ := relays n mem
    simp [(w.relay u R' there).1]
  have same : ((g.controlTree.region R).nodes.find? fun n => (s.node n).nodeType = .Lc) =
      g.lcOf R := by
    rw [lcOf, List.find?_congr]
    intro n mem
    rw [(w.node n (ready.listed R declared n mem)).1]
  rw [findLc_eq, nodes, List.find?_append, none, same, Option.or_none]
  rw [nodes]
  refine List.forall_mem_append.mpr ⟨fun n mem => ?_, fun n mem => ?_⟩
  · exact w.mem_of_node (ready.listed R declared n mem)
  · obtain ⟨u, R', there, rfl⟩ := relays n mem
    exact w.mem_of_made there

/-- A relay when it is new. -/
def blankRelay (ctrlRegion : String) : ChanNode where
  nodeOp := "Nop"
  controlRegionName := ctrlRegion
  isPhysicalChan := false

theorem newRelay_eq {r R : String} (fresh : r ∉ s.nodes) (declared : R ∈ s.controlTree.regions) :
    ∃ t, newRelay r R s = some t ∧ t.nodes = s.nodes ++ [r] ∧
      s.controlTree.addNodes R [r] = some t.controlTree ∧
      t.node = Function.update s.node r (blankRelay R) := by
  obtain ⟨nodes, node, tree⟩ := newNode_of_fresh fresh
  obtain ⟨t, added⟩ := ControlTree.addNodes_isSome declared [r]
  have there : r ∈ (s.newNode r).nodes := by simp [nodes]
  refine ⟨⟨(s.newNode r).nodes, Function.update s.node r (blankRelay R), t, (s.newNode r).nodup⟩,
    ?_, nodes, added, rfl⟩
  simp [newRelay, addNode, modifyNode, addNodes2CtrlTree, enterRegion, there, tree, added, setNode,
    node, blankRelay]

/-- The edge from the controller of its region to a relay. -/
def lcEdge (g : ChanGraph) (u R : String) : Edges := fun κ a b =>
  κ = .active ∧ g.lcOf R = some a ∧ b = relayName u R

theorem Wired.newRelay {u R : String} (w : g.Wired made gone X s)
    (hu : u ∈ g.nodes) (declared : R ∈ g.controlTree.regions) (fresh : relayName u R ∉ s.nodes) :
    ∃ t, newRelay (relayName u R) R s = some t ∧
      g.Wired (fun a b => made a b ∨ a = u ∧ b = R) gone X t := by
  obtain ⟨t, run, nodes, tree, node⟩ := newRelay_eq fresh (w.regions.symm ▸ declared)
  have apart {n : String} (mem : n ∈ s.nodes) : n ≠ relayName u R := ne_of_mem_of_not_mem mem fresh
  have old {n : String} (mem : n ∈ s.nodes) : t.node n = s.node n := by
    rw [node, Function.update_of_ne (apart mem)]
  have new : t.node (relayName u R) = blankRelay R := by rw [node, Function.update_self]
  have grown {n : String} (mem : n ∈ s.nodes) : n ∈ t.nodes := nodes ▸ List.mem_append_left _ mem
  refine ⟨t, run, ?_⟩
  exact
    { first := nodes ▸ w.first.trans (List.prefix_append _ _)
      mem := fun n => by
        rw [nodes, List.mem_append, w.mem, List.mem_singleton]
        constructor
        · rintro ((there | ⟨a, b, h, rfl⟩) | rfl)
          · exact .inl there
          · exact .inr ⟨a, b, .inl h, rfl⟩
          · exact .inr ⟨u, R, .inr ⟨rfl, rfl⟩, rfl⟩
        · rintro (there | ⟨a, b, h | ⟨rfl, rfl⟩, rfl⟩)
          · exact .inl (.inl there)
          · exact .inl (.inr ⟨a, b, h, rfl⟩)
          · exact .inr rfl
      pre := fun n mem κ => by
        rw [ChanGraph.pre, old (w.mem_of_node mem)]
        exact w.pre n mem κ
      next := fun n mem κ => by
        rw [ChanGraph.next, old (w.mem_of_node mem)]
        exact w.next n mem κ
      node := fun n mem => by
        rw [old (w.mem_of_node mem)]
        exact w.node n mem
      owner := by
        rintro a b (h | ⟨rfl, rfl⟩)
        · exact w.owner a b h
        · exact ⟨hu, declared⟩
      relay := by
        rintro a b (h | ⟨rfl, rfl⟩)
        · rw [old (w.mem_of_made h)]
          exact w.relay a b h
        · rw [new]
          exact ⟨rfl, rfl⟩
      regions := (ControlTree.addNodes_regions tree).trans w.regions
      tree := fun R' mem => by
        obtain ⟨more, lists, relays⟩ := w.tree R' mem
        unfold ControlTree.addNodes ControlTree.modifyRegion at tree
        rw [if_pos (w.regions.symm ▸ declared)] at tree
        rw [← Option.some.inj tree]
        by_cases here : R' = R
        · subst here
          refine ⟨more ++ [relayName u R'], by simp [lists], ?_⟩
          refine List.forall_mem_append.mpr ⟨fun n there => ?_, fun n there => ?_⟩
          · obtain ⟨a, b, h, rfl⟩ := relays n there
            exact ⟨a, b, .inl h, rfl⟩
          · exact ⟨u, R', .inr ⟨rfl, rfl⟩, by simpa using there⟩
        · refine ⟨more, by simpa [here] using lists, fun n there => ?_⟩
          obtain ⟨a, b, h, rfl⟩ := relays n there
          exact ⟨a, b, .inl h, rfl⟩
      edge := fun κ a b => by
        rw [← w.edge κ a b]
        have here {c : String} (mem : c ∈ t.nodes) (out : c ∉ s.nodes) : c = relayName u R := by
          rw [nodes, List.mem_append, List.mem_singleton] at mem
          exact mem.resolve_left out
        constructor
        · rintro (⟨mem, out, listed⟩ | ⟨mem, out, listed⟩)
          · by_cases inS : a ∈ s.nodes
            · exact .inl ⟨inS, out, by rwa [ChanGraph.next, old inS] at listed⟩
            · obtain rfl := here mem inS
              simp [ChanGraph.next, new, blankRelay] at listed
          · by_cases inS : b ∈ s.nodes
            · exact .inr ⟨inS, out, by rwa [ChanGraph.pre, old inS] at listed⟩
            · obtain rfl := here mem inS
              simp [ChanGraph.pre, new, blankRelay] at listed
        · rintro (⟨mem, out, listed⟩ | ⟨mem, out, listed⟩)
          · exact .inl ⟨grown mem, out, by rwa [ChanGraph.next, old mem]⟩
          · exact .inr ⟨grown mem, out, by rwa [ChanGraph.pre, old mem]⟩
      named := fun κ a b edge => ⟨grown (w.named κ a b edge).1, grown (w.named κ a b edge).2⟩ }

theorem Wired.createRelay {u R : String} (ready : g.Relayable) (w : g.Wired made gone X s)
    (hu : u ∈ g.nodes) (declared : R ∈ g.controlTree.regions)
    (lc : ∀ a b, made a b → g.lcEdge a b ≤ X) :
    ∃ t, createRelay u s R = some t ∧
      g.Wired (fun a b => made a b ∨ a = u ∧ b = R) gone (X ⊔ g.lcEdge u R) t := by
  by_cases there : relayName u R ∈ s.nodes
  · refine ⟨s, if_pos there, ?_⟩
    have already : made u R := by
      rcases (w.mem _).mp there with old | ⟨a, b, h, same⟩
      · exact absurd old (ready.fresh u hu R declared)
      · obtain ⟨rfl, rfl⟩ := ready.distinct u hu R declared a (w.owner a b h).1 b (w.owner a b h).2 same
        exact h
    refine w.congr (fun a b => ?_) (fun _ _ => rfl) fun κ a b => ?_
    · refine ⟨.inl, ?_⟩
      rintro (h | ⟨rfl, rfl⟩)
      · exact h
      · exact already
    · rw [sup_of_le_left (lc u R already)]
  · obtain ⟨t, run, w'⟩ := w.newRelay hu declared there
    have mem : R ∈ t.controlTree.regions := w'.regions.symm ▸ declared
    have found := w'.findLc ready declared
    rw [ChanGraph.createRelay, if_neg there, run, Option.bind_eq_bind, Option.bind_some, connectRelayLc,
      ControlTree.getCtrlRegion_of_mem mem, Option.bind_eq_bind, Option.bind_some, found]
    cases controller : g.lcOf R with
    | none =>
      refine ⟨t, rfl, w'.congr (fun _ _ => .rfl) (fun _ _ => rfl) fun κ a b => ?_⟩
      change _ ↔ X κ a b ∨ g.lcEdge u R κ a b
      simp [lcEdge, controller]
    | some l =>
      have known : l ∈ g.nodes := ready.listed R declared l (List.mem_of_find?_eq_some controller)
      obtain ⟨t', pushed, w'', -⟩ := w'.pushPre (κ := .active) ready (.inr ⟨rfl, rfl⟩)
        (w'.mem_of_node known)
      refine ⟨t', pushed, w''.congr (fun _ _ => .rfl) (fun _ _ => rfl) fun κ a b => ?_⟩
      change X κ a b ∨ single _ _ _ κ a b ↔ X κ a b ∨ g.lcEdge u R κ a b
      simp [lcEdge, single, controller, eq_comm]

/-- All relays of one edge. -/
theorem Wired.createRelays {u : String} {inner : List String} (ready : g.Relayable)
    (w : g.Wired made gone X s) (hu : u ∈ g.nodes)
    (declared : ∀ R ∈ inner, R ∈ g.controlTree.regions) (lc : ∀ a b, made a b → g.lcEdge a b ≤ X) :
    ∃ t, inner.foldlM (ChanGraph.createRelay u) s = some t ∧
      g.Wired (fun a b => made a b ∨ a = u ∧ b ∈ inner) gone
        (X ⊔ fun κ a b => ∃ R ∈ inner, g.lcEdge u R κ a b) t := by
  induction inner generalizing made X s with
  | nil =>
    refine ⟨s, rfl, w.congr (by simp) (fun _ _ => rfl) fun κ a b => ?_⟩
    change _ ↔ X κ a b ∨ _
    simp
  | cons R inner ih =>
    obtain ⟨here, rest⟩ := List.forall_mem_cons.mp declared
    obtain ⟨t, first, w'⟩ := w.createRelay ready hu here lc
    have lc' : ∀ a b, made a b ∨ a = u ∧ b = R → g.lcEdge a b ≤ X ⊔ g.lcEdge u R := by
      rintro a b (h | ⟨rfl, rfl⟩)
      · exact (lc a b h).trans le_sup_left
      · exact le_sup_right
    obtain ⟨t', run, w''⟩ := ih w' rest lc'
    refine ⟨t', Run.cons_eq_some.mpr ⟨t, first, run⟩,
      w''.congr (fun a b => ?_) (fun _ _ => rfl) fun κ a b => ?_⟩
    · simp only [List.mem_cons]
      tauto
    · change (X κ a b ∨ g.lcEdge u R κ a b) ∨ _ ↔ X κ a b ∨ _
      simp [or_assoc]

/-! ## The relays of one edge -/

/-- The edges that `linkRest` enters between the relays. -/
def innerLinks : String → List String → List (String × String)
  | before, r :: after :: rest => (before, r) :: (r, after) :: innerLinks r (after :: rest)
  | _, _ => []

/-- The edges of data that `linkRelays` enters in front of the relays. -/
def links (u : String) : List String → List (String × String)
  | [] => []
  | r :: rest => (u, r) :: innerLinks r rest

def dataEdges (l : List (String × String)) : Edges := fun κ a b => κ = .data ∧ (a, b) ∈ l

/-- The edge from the last relay, unless the edge that it replaces is gone. -/
def lastEdge (g : ChanGraph) (gone : String → String → Bool) (u v : String) (r : String) : Edges :=
  fun κ a b => gone u v = false ∧ g.kindOf u v = some κ ∧ a = r ∧ b = v

theorem Wired.linkLast {u v r R : String} (ready : g.Relayable) (w : g.Wired made gone X s)
    (hv : v ∈ g.nodes) (there : made u R) (name : r = relayName u R) :
    ∃ t, linkLast u v r s = some t ∧ g.Wired made gone (X ⊔ g.lastEdge gone u v r) t := by
  subst name
  have known := w.mem_of_node hv
  have listed (κ : Conn) : u ∈ (s.node v).preNodes κ ↔ gone u v = false ∧ u ∈ g.pre κ v := by
    change u ∈ s.pre κ v ↔ _
    rw [w.pre v hv κ, List.mem_filter]
    simp [and_comm]
  rw [ChanGraph.linkLast, getNode_of_mem known, Option.bind_eq_bind, Option.bind_some]
  by_cases left : gone u v = false
  · simp only [listed, left, true_and]
    by_cases data : u ∈ g.pre .data v
    · obtain ⟨t, run, w', -⟩ := w.pushNext (κ := .data) ready there known
      refine ⟨t, by rw [if_pos data, run], w'.congr (fun _ _ => .rfl) (fun _ _ => rfl) fun κ a b => ?_⟩
      change X κ a b ∨ single _ _ _ κ a b ↔ X κ a b ∨ g.lastEdge gone u v _ κ a b
      simp [lastEdge, left, kindOf, data, single, eq_comm]
    · by_cases active : u ∈ g.pre .active v
      · obtain ⟨t, run, w', -⟩ := w.pushNext (κ := .active) ready there known
        refine ⟨t, by rw [if_neg data, if_pos active, run],
          w'.congr (fun _ _ => .rfl) (fun _ _ => rfl) fun κ a b => ?_⟩
        change X κ a b ∨ single _ _ _ κ a b ↔ X κ a b ∨ g.lastEdge gone u v _ κ a b
        simp [lastEdge, left, kindOf, data, active, single, eq_comm]
      · refine ⟨s, by rw [if_neg data, if_neg active],
          w.congr (fun _ _ => .rfl) (fun _ _ => rfl) fun κ a b => ?_⟩
        change _ ↔ X κ a b ∨ g.lastEdge gone u v _ κ a b
        simp [lastEdge, left, kindOf, data, active]
  · have left : gone u v = true := by simpa using left
    refine ⟨s, by simp [listed, left], w.congr (fun _ _ => .rfl) (fun _ _ => rfl) fun κ a b => ?_⟩
    change _ ↔ X κ a b ∨ g.lastEdge gone u v _ κ a b
    simp [lastEdge, left]

/-- The relays of a node by their regions. -/
theorem Wired.linkRest {u v before : String} {Rs : List String} (ready : g.Relayable)
    (w : g.Wired made gone X s) (hv : v ∈ g.nodes) (known : before ∈ s.nodes) (R : String)
    (there : ∀ Q ∈ R :: Rs, made u Q) :
    ∃ t, linkRest u v before ((R :: Rs).map (relayName u)) s = some t ∧
      g.Wired made gone (X ⊔ dataEdges (innerLinks before ((R :: Rs).map (relayName u))) ⊔
        g.lastEdge gone u v (relayName u ((R :: Rs).getLast (by simp)))) t := by
  induction Rs generalizing before R X s with
  | nil =>
    obtain ⟨t, run, w'⟩ := w.linkLast ready hv (there R List.mem_cons_self) rfl
    refine ⟨t, run, w'.congr (fun _ _ => .rfl) (fun _ _ => rfl) fun κ a b => ?_⟩
    change X κ a b ∨ _ ↔ (X κ a b ∨ dataEdges _ κ a b) ∨ _
    simp [dataEdges, innerLinks]
  | cons S Rs ih =>
    obtain ⟨here, rest⟩ := List.forall_mem_cons.mp there
    obtain ⟨s₁, run₁, w₁, nodes₁⟩ := w.pushPre (κ := .data) ready here known
    obtain ⟨s₂, run₂, w₂, nodes₂⟩ := w₁.pushNext (κ := .data) ready here
      (w₁.mem_of_made (rest S List.mem_cons_self))
    obtain ⟨t, run, w'⟩ := ih w₂ (w₂.mem_of_made here) S rest
    refine ⟨t, ?_, w'.congr (fun _ _ => .rfl) (fun _ _ => rfl) fun κ a b => ?_⟩
    · rw [List.map_cons, List.map_cons, ChanGraph.linkRest, linkInner, run₁]
      simp only [Option.bind_eq_bind, Option.bind_some]
      rw [run₂]
      exact run
    · change (((X κ a b ∨ single _ _ _ κ a b) ∨ single _ _ _ κ a b) ∨ dataEdges _ κ a b) ∨ _ ↔
        (X κ a b ∨ dataEdges _ κ a b) ∨ _
      simp only [List.map_cons, innerLinks, dataEdges, single, List.mem_cons, Prod.mk.injEq,
        List.getLast_cons (List.cons_ne_nil S Rs)]
      tauto

theorem Wired.linkRelays {u v R : String} {Rs : List String} (ready : g.Relayable)
    (w : g.Wired made gone X s) (hu : u ∈ g.nodes) (hv : v ∈ g.nodes)
    (there : ∀ Q ∈ R :: Rs, made u Q) :
    ∃ t, linkRelays u v ((R :: Rs).map (relayName u)) s = some t ∧
      g.Wired made gone (X ⊔ dataEdges (links u ((R :: Rs).map (relayName u))) ⊔
        g.lastEdge gone u v (relayName u ((R :: Rs).getLast (by simp)))) t := by
  obtain ⟨here, rest⟩ := List.forall_mem_cons.mp there
  obtain ⟨s₁, run₁, w₁, -⟩ := w.pushPre (κ := .data) ready here (w.mem_of_node hu)
  cases Rs with
  | nil =>
    obtain ⟨t, run, w'⟩ := w₁.linkLast ready hv here rfl
    refine ⟨t, ?_, w'.congr (fun _ _ => .rfl) (fun _ _ => rfl) fun κ a b => ?_⟩
    · rw [List.map_singleton, ChanGraph.linkRelays, linkFirst, run₁]
      exact run
    · change (X κ a b ∨ single _ _ _ κ a b) ∨ _ ↔ (X κ a b ∨ dataEdges _ κ a b) ∨ _
      simp [dataEdges, links, innerLinks, single]
  | cons S Rs =>
    obtain ⟨t, run, w'⟩ := w₁.linkRest ready hv (w₁.mem_of_made here) S rest
    refine ⟨t, ?_, w'.congr (fun _ _ => .rfl) (fun _ _ => rfl) fun κ a b => ?_⟩
    · rw [List.map_cons, List.map_cons, ChanGraph.linkRelays, linkFirst, run₁]
      · exact run
      · simp
    · change ((X κ a b ∨ single _ _ _ κ a b) ∨ dataEdges _ κ a b) ∨ _ ↔
        (X κ a b ∨ dataEdges _ κ a b) ∨ _
      simp only [List.map_cons, links, dataEdges, single, List.mem_cons, Prod.mk.injEq,
        List.getLast_cons (List.cons_ne_nil S Rs)]
      tauto

/-! ## The edge that is replaced -/

theorem deleteEdge_eq {u v : String} (hu : u ∈ s.nodes) (hv : v ∈ s.nodes) :
    ∃ t, deleteEdge u v s = some t ∧ t.nodes = s.nodes ∧ t.controlTree = s.controlTree ∧
      (∀ n, (t.node n).nodeType = (s.node n).nodeType ∧
        (t.node n).controlRegionName = (s.node n).controlRegionName) ∧
      (∀ κ n, t.pre κ n = if n = v then (s.pre κ v).erase u else s.pre κ n) ∧
      ∀ κ n, t.next κ n = if n = u then (s.next κ u).erase v else s.next κ n := by
  set s₁ := s.setNode u { s.node u with nextNodes := fun κ => ((s.node u).nextNodes κ).erase v } with h₁
  set t := s₁.setNode v { s₁.node v with preNodes := fun κ => ((s₁.node v).preNodes κ).erase u } with ht
  have first (n : String) : s₁.node n = if n = u then
      { s.node u with nextNodes := fun κ => ((s.node u).nextNodes κ).erase v } else s.node n := by
    rw [h₁, setNode_node, Function.update_apply]
  have pres (κ : Conn) (n : String) : s₁.pre κ n = s.pre κ n := by
    rw [ChanGraph.pre, first]
    split_ifs with here
    · rw [here, ChanGraph.pre]
    · rfl
  refine ⟨t, ?_, rfl, rfl, fun n => ?_, fun κ n => ?_, fun κ n => ?_⟩
  · rw [deleteEdge, modifyNode_of_mem hu, Option.bind_eq_bind, Option.bind_some]
    exact modifyNode_of_mem (g := s₁) hv _
  · rw [ht, setNode_node, Function.update_apply]
    split_ifs <;> simp only [first] <;> split_ifs <;> simp_all
  · rw [ht, pre_setNode, pres]
    split_ifs
    · exact congrArg (fun l => List.erase l u) (pres κ v)
    · rfl
  · have nexts (m : String) : s₁.next κ m = if m = u then (s.next κ u).erase v else s.next κ m := by
      rw [h₁, next_setNode]
      rfl
    rw [ht, next_setNode, ← nexts n]
    split_ifs with here
    · rw [here, ChanGraph.next]
    · rfl

theorem Wired.deleteEdge {u v : String} (ready : g.Relayable) (w : g.Wired made gone X s)
    (hu : u ∈ g.nodes) (hv : v ∈ g.nodes) :
    ∃ t, deleteEdge u v s = some t ∧
      g.Wired made (fun a b => gone a b || (a == u && b == v)) X t := by
  obtain ⟨t, run, nodes, tree, same, pre, next⟩ := deleteEdge_eq (w.mem_of_node hu) (w.mem_of_node hv)
  have relays {n : String} (out : n ∉ g.nodes) (κ : Conn) : t.pre κ n = s.pre κ n ∧ t.next κ n = s.next κ n := by
    rw [pre, next, if_neg (ne_of_mem_of_not_mem hv out).symm, if_neg (ne_of_mem_of_not_mem hu out).symm]
    exact ⟨rfl, rfl⟩
  refine ⟨t, run, ?_⟩
  exact
    { first := nodes ▸ w.first
      mem := nodes ▸ w.mem
      pre := fun n mem κ => by
        rw [pre]
        split_ifs with here
        · subst here
          rw [w.pre n mem κ, ((ready.nodupPre κ n mem).filter _).erase_eq_filter, List.filter_filter]
          refine List.filter_congr fun a _ => ?_
          cases gone a n <;> simp [bne]
        · rw [w.pre n mem κ]
          exact List.filter_congr fun a _ => by simp [here]
      next := fun n mem κ => by
        rw [next]
        split_ifs with here
        · subst here
          rw [w.next n mem κ, ((ready.nodupNext κ n mem).filter _).erase_eq_filter, List.filter_filter]
          refine List.filter_congr fun a _ => ?_
          cases gone n a <;> simp [bne]
        · rw [w.next n mem κ]
          exact List.filter_congr fun a _ => by simp [here]
      node := fun n mem => by
        rw [(same n).1, (same n).2]
        exact w.node n mem
      owner := w.owner
      relay := fun a b h => by
        rw [(same _).1, (same _).2]
        exact w.relay a b h
      regions := tree ▸ w.regions
      tree := tree ▸ w.tree
      edge := fun κ a b => by
        rw [← w.edge κ a b, Entered, Entered, nodes]
        have next : a ∉ g.nodes → t.next κ a = s.next κ a := fun out => (relays out κ).2
        have pre : b ∉ g.nodes → t.pre κ b = s.pre κ b := fun out => (relays out κ).1
        grind
      named := nodes ▸ w.named }

end DataflowSim.Graph.ChanGraph
