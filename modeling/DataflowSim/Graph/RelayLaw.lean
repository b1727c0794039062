import DataflowSim.Graph.RelayWiring

/-!
# The law of the relays

The relay phase as a whole: each edge over loops in between becomes a path through channels of
these loops, and nothing else changes between the nodes that were there, save that the
controller of a loop reaches what the relays in it reach.
-/

namespace DataflowSim.Graph

open ControlTree (LoopHierarchy)

namespace ChanGraph

/-- Different regions with loops in between. -/
def Far (g : ChanGraph) (H : LoopHierarchy) (u v : String) : Prop :=
  (g.node u).controlRegionName ≠ (g.node v).controlRegionName ∧ H.loopsBetween u v ≠ []

instance (g : ChanGraph) (H : LoopHierarchy) (u v : String) : Decidable (g.Far H u v) :=
  inferInstanceAs (Decidable (_ ∧ _))

/-- The relays of an edge in their order. -/
def relays (H : LoopHierarchy) (u v : String) : List String := (H.crossed u v).map (relayName u)

/-- All edges that are entered for one edge. -/
def edgesOf (g : ChanGraph) (H : LoopHierarchy) (u v : String) : Edges := fun κ a b =>
  dataEdges (links u (relays H u v)) κ a b ∨
    g.kindOf u v = some κ ∧ (relays H u v).getLast? = some a ∧ b = v ∨
    ∃ R ∈ H.crossed u v, g.lcEdge u R κ a b

/-- The graph when the edges of a list have been treated. -/
def Treated (g : ChanGraph) (H : LoopHierarchy) (done : List (String × String)) (s : ChanGraph) :
    Prop :=
  g.Wired (fun u R => ∃ v, (u, v) ∈ done ∧ g.Far H u v ∧ R ∈ H.crossed u v)
    (fun u v => decide ((u, v) ∈ done ∧ g.Far H u v))
    (fun κ a b => ∃ u v, (u, v) ∈ done ∧ g.Far H u v ∧ g.edgesOf H u v κ a b) s

/-- Edges between loops go where the source finds the way. -/
def Levelled (g : ChanGraph) (H : LoopHierarchy) : Prop :=
  ∀ u ∈ g.nodes, ∀ v ∈ (g.node u).allNext,
    (g.node u).controlRegionName ≠ (g.node v).controlRegionName →
      LoopHierarchy.Level (H.around u) (H.around v)

/-- The loops nest, and the ways between them are found. -/
structure Routed (g : ChanGraph) (H : LoopHierarchy) : Prop where
  ranked : H.Ranked
  declared : ∀ R ∈ H.loops, R ∈ g.controlTree.regions
  level : g.Levelled H

variable {g s : ChanGraph} {H : LoopHierarchy} {done : List (String × String)} {u v : String}

theorem relayEdge_near (hu : u ∈ s.nodes) (hv : v ∈ s.nodes)
    (same : (s.node u).controlRegionName = (s.node v).controlRegionName) :
    relayEdge H u s v = some s := by
  simp [relayEdge, getNode_of_mem hu, getNode_of_mem hv, same]

theorem relayEdge_path {path : List String} (hu : u ∈ s.nodes) (hv : v ∈ s.nodes)
    (apart : (s.node u).controlRegionName ≠ (s.node v).controlRegionName)
    (found : H.ctrlRegionPath u v = some path) :
    relayEdge H u s v = if path.tail.dropLast = [] then some s else
      (path.tail.dropLast.foldlM (createRelay u) s).bind fun t =>
        (linkRelays u v (path.tail.dropLast.map (relayName u)) t).bind (deleteEdge u v) := by
  have long : 2 < path.length ↔ path.tail.dropLast ≠ [] := by
    rw [ne_eq, ← List.length_eq_zero_iff]
    simp only [List.length_dropLast, List.length_tail]
    omega
  simp only [relayEdge, getNode_of_mem hu, getNode_of_mem hv, found, Option.bind_eq_bind,
    Option.bind_some, long, ne_eq, ite_not, if_neg apart]

/-- One edge. -/
theorem Treated.step (ready : g.Relayable) (routed : g.Routed H) (t : g.Treated H done s)
    (hu : u ∈ g.nodes) (edge : v ∈ (g.node u).allNext) :
    ∃ s', relayEdge H u s v = some s' ∧ g.Treated H (done ++ [(u, v)]) s' := by
  have hv : v ∈ g.nodes := by
    obtain ⟨κ, listed⟩ := ChanNode.mem_allNext.mp edge
    exact ready.next u hu κ v listed
  have hu' := t.mem_of_node hu
  have hv' := t.mem_of_node hv
  have regions : (s.node u).controlRegionName = (s.node v).controlRegionName ↔
      (g.node u).controlRegionName = (g.node v).controlRegionName := by
    rw [(t.node u hu).2, (t.node v hv).2]
  have near (h : ¬g.Far H u v) : g.Treated H (done ++ [(u, v)]) s := by
    have skip (a b : String) : (a, b) ∈ done ++ [(u, v)] ∧ g.Far H a b ↔ (a, b) ∈ done ∧ g.Far H a b := by
      simp only [List.mem_append, List.mem_singleton, Prod.mk.injEq]
      constructor
      · rintro ⟨old | ⟨rfl, rfl⟩, far⟩
        · exact ⟨old, far⟩
        · exact absurd far h
      · exact fun ⟨old, far⟩ => ⟨.inl old, far⟩
    refine t.congr (fun a R => ?_) (fun a b => ?_) fun κ a b => ?_
    · simp only [← and_assoc, skip]
    · simp only [skip]
    · simp only [← and_assoc, skip]
  by_cases same : (g.node u).controlRegionName = (g.node v).controlRegionName
  · exact ⟨s, relayEdge_near hu' hv' (regions.mpr same), near fun far => far.1 same⟩
  obtain ⟨path, found, inner⟩ := LoopHierarchy.ctrlRegionPath_inner routed.ranked
    (routed.level u hu v edge same)
  rw [relayEdge_path hu' hv' (fun h => same (regions.mp h)) found, inner]
  have empty : H.crossed u v = [] ↔ H.loopsBetween u v = [] := by
    unfold ControlTree.LoopHierarchy.crossed
    split_ifs <;> simp
  by_cases none : H.crossed u v = []
  · exact ⟨s, if_pos none, near fun far => far.2 (empty.mp none)⟩
  have far : g.Far H u v := ⟨same, fun h => none (empty.mpr h)⟩
  have declared : ∀ R ∈ H.crossed u v, R ∈ g.controlTree.regions := fun R mem =>
    routed.declared R (LoopHierarchy.crossed_subset routed.ranked mem)
  obtain ⟨s₁, run₁, w₁⟩ := t.createRelays ready hu declared (by
    rintro a R ⟨b, mem, far, here⟩ κ c d edge
    exact ⟨a, b, mem, far, .inr (.inr ⟨R, here, edge⟩)⟩)
  obtain ⟨R, Rs, split⟩ := List.exists_cons_of_ne_nil none
  have all : ∀ Q ∈ R :: Rs, (∃ b, (u, b) ∈ done ∧ g.Far H u b ∧ Q ∈ H.crossed u b) ∨
      u = u ∧ Q ∈ H.crossed u v := fun Q mem => .inr ⟨rfl, split ▸ mem⟩
  obtain ⟨s₂, run₂, w₂⟩ := w₁.linkRelays ready hu hv all
  obtain ⟨s₃, run₃, w₃⟩ := w₂.deleteEdge ready hu hv
  refine ⟨s₃, ?_, w₃.congr (fun a Q => ?_) (fun a b => ?_) fun κ a b => ?_⟩
  · rw [if_neg none, run₁, Option.bind_some, split, run₂, Option.bind_some, run₃]
  · simp only [List.mem_append, List.mem_singleton, Prod.mk.injEq]
    constructor
    · rintro (⟨b, mem, far, here⟩ | ⟨rfl, here⟩)
      · exact ⟨b, .inl mem, far, here⟩
      · exact ⟨v, .inr ⟨rfl, rfl⟩, far, here⟩
    · rintro ⟨b, mem | ⟨rfl, rfl⟩, far, here⟩
      · exact .inl ⟨b, mem, far, here⟩
      · exact .inr ⟨rfl, here⟩
  · rw [Bool.eq_iff_iff]
    simp only [Bool.or_eq_true, decide_eq_true_eq, Bool.and_eq_true, beq_iff_eq, List.mem_append,
      List.mem_singleton, Prod.mk.injEq]
    constructor
    · rintro (⟨mem, far⟩ | ⟨rfl, rfl⟩)
      · exact ⟨.inl mem, far⟩
      · exact ⟨.inr ⟨rfl, rfl⟩, far⟩
    · rintro ⟨mem | ⟨rfl, rfl⟩, far⟩
      · exact .inl ⟨mem, far⟩
      · exact .inr ⟨rfl, rfl⟩
  · change (((_ ∨ _) ∨ _) ∨ _) ↔ _
    have last : (relays H u v).getLast? = some a ↔
        a = relayName u ((H.crossed u v).getLast none) := by
      rw [relays, List.getLast?_map, List.getLast?_eq_some_getLast none]
      simp [eq_comm]
    simp only [lastEdge, ← split]
    constructor
    · rintro (((⟨c, d, mem, far, here⟩ | ⟨Q, mem, here⟩) | here) | ⟨-, kind, rfl, rfl⟩)
      · exact ⟨c, d, List.mem_append_left _ mem, far, here⟩
      · exact ⟨u, v, by simp, far, .inr (.inr ⟨Q, mem, here⟩)⟩
      · exact ⟨u, v, by simp, far, .inl here⟩
      · exact ⟨u, b, by simp, far, .inr (.inl ⟨kind, last.mpr rfl, rfl⟩)⟩
    · rintro ⟨c, d, mem, far, here⟩
      by_cases old : (c, d) ∈ done
      · exact .inl (.inl (.inl ⟨c, d, old, far, here⟩))
      obtain ⟨rfl, rfl⟩ : c = u ∧ d = v := by simpa [old] using mem
      rcases here with here | ⟨kind, here, rfl⟩ | ⟨Q, mem, here⟩
      · exact .inl (.inr here)
      · exact .inr ⟨by simp [old], kind, last.mp here, rfl⟩
      · exact .inl (.inl (.inr ⟨Q, mem, here⟩))

/-- One node, whose lists are as they were when its turn comes. -/
theorem Treated.node (ready : g.Relayable) (routed : g.Routed H) (t : g.Treated H done s)
    (hu : u ∈ g.nodes) (new : ∀ v, (u, v) ∉ done) : ∃ s', relayNode H s u = some s' ∧
      g.Treated H (done ++ (g.node u).allNext.map (u, ·)) s' := by
  have lists : (s.node u).allNext = (g.node u).allNext := by
    have kept (κ : Conn) : (s.node u).nextNodes κ = (g.node u).nextNodes κ := by
      refine (t.next u hu κ).trans (List.filter_eq_self.mpr fun v _ => ?_)
      simp [new v]
    rw [ChanNode.allNext, kept, kept, ChanNode.allNext]
  rw [relayNode, getNode_of_mem (t.mem_of_node hu), Option.bind_eq_bind, Option.bind_some, lists]
  refine Run.total (P := fun vs s' => g.Treated H (done ++ vs.map (u, ·)) s')
    (fun vs v rest s' split t' => ?_) (by simpa using t)
  have edge : v ∈ (g.node u).allNext := split ▸ List.mem_append_right _ List.mem_cons_self
  obtain ⟨s'', run, t''⟩ := t'.step ready routed hu edge
  exact ⟨s'', run, by simpa using t''⟩

/-- The edges in the order in which they are treated. -/
def edges (g : ChanGraph) : List (String × String) :=
  g.nodes.flatMap fun u => (g.node u).allNext.map (u, ·)

theorem mem_edges : (u, v) ∈ g.edges ↔ u ∈ g.nodes ∧ v ∈ (g.node u).allNext := by
  simp only [edges, List.mem_flatMap, List.mem_map, Prod.mk.injEq]
  constructor
  · rintro ⟨_, mem, _, edge, rfl, rfl⟩
    exact ⟨mem, edge⟩
  · rintro ⟨mem, edge⟩
    exact ⟨u, mem, v, edge, rfl, rfl⟩

theorem treated_all (ready : g.Relayable) (routed : g.Routed H) :
    ∃ s, g.nodes.foldlM (relayNode H) g = some s ∧ g.Treated H g.edges s := by
  refine Run.total (P := fun us s => g.Treated H (us.flatMap fun u => (g.node u).allNext.map (u, ·)) s)
    (fun us u rest s split t => ?_) ?_
  · have hu : u ∈ g.nodes := split ▸ List.mem_append_right _ List.mem_cons_self
    have fresh : u ∉ us := fun mem => by
      have nodup := split ▸ g.nodup
      exact (List.nodup_append.mp nodup).2.2 u mem u List.mem_cons_self rfl
    obtain ⟨s', run, t'⟩ := t.node ready routed hu fun v mem => by
      obtain ⟨w, there, listed⟩ := List.mem_flatMap.mp mem
      obtain ⟨_, -, same⟩ := List.mem_map.mp listed
      exact fresh ((Prod.mk.inj same).1 ▸ there)
    exact ⟨s', run, by simpa using t'⟩
  · refine (Wired.start g).congr (by simp) (by simp) (by simp)

/-! ## The links in their order -/

/-- Between one relay and many all neighbours are linked, but not between exactly two. -/
theorem innerLinks_chain {before : String} {rest : List String} (length : rest.length ≠ 1) :
    (before :: rest).IsChain fun a b => (a, b) ∈ innerLinks before rest := by
  match rest with
  | [] => exact List.isChain_singleton before
  | [r, after] => simp [innerLinks]
  | r :: after :: next :: rest =>
    have tail := @innerLinks_chain r (after :: next :: rest) (by simp)
    refine List.isChain_cons_cons.mpr ⟨by simp [innerLinks], tail.imp fun a b mem => ?_⟩
    exact List.mem_cons_of_mem _ (List.mem_cons_of_mem _ mem)

theorem links_chain {u : String} {rs : List String} (length : rs.length ≠ 2) :
    (u :: rs).IsChain fun a b => (a, b) ∈ links u rs := by
  cases rs with
  | nil => exact List.isChain_singleton u
  | cons r rest =>
    have tail := @innerLinks_chain r rest (by simpa using length)
    exact List.isChain_cons_cons.mpr ⟨List.mem_cons_self, tail.imp fun a b mem =>
      List.mem_cons_of_mem _ mem⟩

theorem innerLinks_neighbours {f : String → String} {B : String} {Rs : List String} {a b : String}
    (mem : (a, b) ∈ innerLinks (f B) (Rs.map f)) :
    ∃ R S x y, B :: Rs = x ++ R :: S :: y ∧ a = f R ∧ b = f S := by
  induction Rs generalizing B with
  | nil => simp [innerLinks] at mem
  | cons R Rs ih =>
    cases Rs with
    | nil => simp [innerLinks] at mem
    | cons S Rs =>
      simp only [List.map_cons, innerLinks, List.mem_cons, Prod.mk.injEq] at mem ih
      rcases mem with ⟨rfl, rfl⟩ | ⟨rfl, rfl⟩ | later
      · exact ⟨B, R, [], S :: Rs, rfl, rfl, rfl⟩
      · exact ⟨R, S, [B], Rs, rfl, rfl, rfl⟩
      · obtain ⟨R', S', x, y, split, rfl, rfl⟩ := ih later
        exact ⟨R', S', B :: x, y, by simp [split], rfl, rfl⟩

/-- Each edge of one replaced edge leads to one of its relays or from one to the end. -/
theorem edgesOf_cases {κ : Conn} {a b : String} (edge : g.edgesOf H u v κ a b) :
    (∃ R ∈ H.crossed u v, b = relayName u R ∧ (a = u ∨ g.lcOf R = some a ∨
      ∃ S x y, H.crossed u v = x ++ S :: R :: y ∧ a = relayName u S)) ∨
    b = v ∧ ∃ R ∈ H.crossed u v, a = relayName u R := by
  rcases edge with ⟨-, mem⟩ | ⟨-, last, rfl⟩ | ⟨R, mem, -, lc, rfl⟩
  · unfold relays at mem
    cases split : H.crossed u v with
    | nil => simp [split, links] at mem
    | cons R Rs =>
      rw [split, List.map_cons, links, List.mem_cons] at mem
      rcases mem with first | inner
      · obtain ⟨rfl, rfl⟩ := Prod.mk.inj first
        exact .inl ⟨R, List.mem_cons_self, rfl, .inl rfl⟩
      · obtain ⟨S, T, x, y, next, rfl, rfl⟩ := innerLinks_neighbours inner
        refine .inl ⟨T, ?_, rfl, .inr (.inr ⟨S, x, y, next, rfl⟩)⟩
        rw [next]
        simp
  · obtain ⟨R, mem, rfl⟩ := List.mem_map.mp (List.mem_of_getLast? last)
    exact .inr ⟨rfl, R, mem, rfl⟩
  · exact .inl ⟨R, mem, rfl, .inr (.inl lc)⟩

/-! ## The law -/

/-- An edge that is replaced. -/
structure Removed (g : ChanGraph) (H : LoopHierarchy) (u v : String) : Prop where
  source : u ∈ g.nodes
  edge : v ∈ (g.node u).allNext
  far : g.Far H u v

def Edge (h : ChanGraph) (a b : String) : Prop := a ∈ h.nodes ∧ ∃ κ, b ∈ h.next κ a

/-- A path from `x` to `y` whose inner nodes are not nodes of `g`. -/
def Through (g h : ChanGraph) (x y : String) : Prop :=
  ∃ r r', r ∉ g.nodes ∧ h.Edge x r ∧
    Relation.ReflTransGen (fun a b => b ∉ g.nodes ∧ h.Edge a b) r r' ∧ h.Edge r' y

/-- What the phase makes of the graph `g` whose loops are `H`. -/
structure Relayed (g : ChanGraph) (H : LoopHierarchy) (h : ChanGraph) : Prop where
  connected : h.Connected
  nodes : g.nodes <+: h.nodes
  /-- What is added is a channel in a loop between the ends of an edge. -/
  relay : ∀ n ∈ h.nodes, n ∉ g.nodes → ∃ u v R, g.Removed H u v ∧ R ∈ H.loopsBetween u v ∧
    n = relayName u R ∧ (h.node n).nodeType = .ChanBase ∧ (h.node n).controlRegionName = R
  /-- Between nodes of `g` the edges that are not replaced stay, and none is new. -/
  direct : ∀ κ, ∀ u ∈ g.nodes, ∀ v ∈ g.nodes, v ∈ h.next κ u ↔ v ∈ g.next κ u ∧ ¬g.Far H u v
  /-- A replaced edge is a path through one relay in each loop on the way. -/
  path : ∀ u v, g.Removed H u v → (H.loopsBetween u v).length ≠ 2 →
    (H.around u ≠ [] ∨ (H.loopsBetween u v).length ≤ 1) →
    (∀ R ∈ H.loopsBetween u v, relayName u R ∈ h.nodes ∧ relayName u R ∉ g.nodes) ∧
      (u :: (H.loopsBetween u v).map (relayName u)).IsChain (fun a b => b ∈ h.next .data a) ∧
      ∃ κ last, v ∈ g.next κ u ∧ (H.loopsBetween u v).getLast? = some last ∧
        v ∈ h.next κ (relayName u last)
  /-- A path through added channels is part of one that replaces an edge, or comes from the
  controller of a loop on such a path. -/
  only : ∀ x ∈ g.nodes, ∀ y ∈ g.nodes, Through g h x y → ∃ u, g.Removed H u y ∧
    (x = u ∨ ∃ v R, g.Removed H u v ∧ R ∈ H.loopsBetween u v ∧ g.lcOf R = some x ∧
      (H.around u ≠ [] → v = y))
  /-- The operands that stay keep their order, in front of the relays. -/
  operands : ∀ κ, ∀ v ∈ g.nodes, ((g.pre κ v).filter fun u => ¬g.Far H u v) <+: h.pre κ v

section
variable {h : ChanGraph} (ready : g.Relayable) (routed : g.Routed H) (t : g.Treated H g.edges s)
include ready t

theorem Treated.known : s.Named := by
  have part {n m : String} (κ : Conn) (mem : n ∈ s.nodes) (listed : m ∈ s.pre κ n ∨ m ∈ s.next κ n) :
      m ∈ s.nodes := by
    by_cases old : n ∈ g.nodes
    · rw [t.pre n old κ, t.next n old κ, List.mem_filter, List.mem_filter] at listed
      rcases listed with ⟨listed, -⟩ | ⟨listed, -⟩
      · exact t.mem_of_node (ready.pre n old κ m listed)
      · exact t.mem_of_node (ready.next n old κ m listed)
    · rcases listed with listed | listed
      · exact (t.named κ m n ((t.edge κ m n).mp (.inr ⟨mem, old, listed⟩))).1
      · exact (t.named κ n m ((t.edge κ n m).mp (.inl ⟨mem, old, listed⟩))).2
  exact ⟨fun n mem κ p listed => part κ mem (.inl listed), fun n mem κ p listed => part κ mem (.inr listed)⟩

/-- The edges after completion. -/
theorem Treated.mem_next (complete : s.Completed h) {κ : Conn} {a b : String} (ha : a ∈ s.nodes)
    (hb : b ∈ s.nodes) : b ∈ h.next κ a ↔
      (a ∈ g.nodes ∧ b ∈ g.nodes ∧ b ∈ g.next κ a ∧ ¬g.Far H a b) ∨
        ∃ u v, g.Removed H u v ∧ g.edgesOf H u v κ a b := by
  have entered : (∃ u v, g.Removed H u v ∧ g.edgesOf H u v κ a b) ↔ g.Entered s κ a b := by
    rw [t.edge κ a b]
    constructor
    · rintro ⟨u, v, removed, edge⟩
      exact ⟨u, v, mem_edges.mpr ⟨removed.source, removed.edge⟩, removed.far, edge⟩
    · rintro ⟨u, v, mem, far, edge⟩
      exact ⟨u, v, ⟨(mem_edges.mp mem).1, (mem_edges.mp mem).2, far⟩, edge⟩
  rw [complete.mem_next ha hb, entered]
  have kept {x y : String} (hx : x ∈ g.nodes) (listed : y ∈ g.next κ x) :
      (x, y) ∈ g.edges := mem_edges.mpr ⟨hx, ChanNode.mem_allNext.mpr ⟨κ, listed⟩⟩
  by_cases oldA : a ∈ g.nodes <;> by_cases oldB : b ∈ g.nodes
  · have sym := ready.symmetric κ a oldA b oldB
    rw [t.next a oldA κ, t.pre b oldB κ, List.mem_filter, List.mem_filter, ← sym]
    simp only [Entered, oldA, oldB, not_true_eq_false, false_and, and_false, or_false, true_and,
      Bool.not_eq_true', decide_eq_false_iff_not, or_self]
    exact and_congr_right fun listed => by simp [kept oldA listed]
  · have out : b ∉ s.next κ a := fun listed => by
      rw [t.next a oldA κ, List.mem_filter] at listed
      exact oldB (ready.next a oldA κ b listed.1)
    simp [Entered, oldA, oldB, hb, out]
  · have out : a ∉ s.pre κ b := fun listed => by
      rw [t.pre b oldB κ, List.mem_filter] at listed
      exact oldA (ready.pre b oldB κ a listed.1)
    simp [Entered, oldA, oldB, ha, out]
  · simp [Entered, oldA, oldB, ha, hb]

theorem Treated.operands (complete : s.Completed h) {κ : Conn} {v : String} (hv : v ∈ g.nodes) :
    ((g.pre κ v).filter fun u => ¬g.Far H u v) <+: h.pre κ v := by
  have lists : s.pre κ v = (g.pre κ v).filter fun u => ¬g.Far H u v := by
    rw [t.pre v hv κ]
    refine List.filter_congr fun u listed => ?_
    have hu := ready.pre v hv κ u listed
    have edge : (u, v) ∈ g.edges := mem_edges.mpr ⟨hu, ChanNode.mem_allNext.mpr
      ⟨κ, (ready.symmetric κ u hu v hv).mpr listed⟩⟩
    simp [edge]
  rw [complete.pre (t.mem_of_node hv), ← lists]
  have nodup : (s.pre κ v).Nodup := lists ▸ (ready.nodupPre κ v hv).filter _
  exact Adjacency.distinct_of_nodup nodup ▸ Adjacency.complete_pre_prefix

theorem Treated.path (complete : s.Completed h) {u v : String}
    (removed : g.Removed H u v) (length : (H.loopsBetween u v).length ≠ 2)
    (order : H.crossed u v = H.loopsBetween u v) :
    (∀ R ∈ H.loopsBetween u v, relayName u R ∈ s.nodes ∧ relayName u R ∉ g.nodes) ∧
      (u :: (H.loopsBetween u v).map (relayName u)).IsChain (fun a b => b ∈ h.next .data a) ∧
      ∃ κ last, v ∈ g.next κ u ∧ (H.loopsBetween u v).getLast? = some last ∧
        v ∈ h.next κ (relayName u last) := by
  have hu := removed.source
  have made (R : String) (mem : R ∈ H.loopsBetween u v) : relayName u R ∈ s.nodes ∧ relayName u R ∉ g.nodes := by
    have there : ∃ v, (u, v) ∈ g.edges ∧ g.Far H u v ∧ R ∈ H.crossed u v :=
      ⟨v, mem_edges.mpr ⟨hu, removed.edge⟩, removed.far, order ▸ mem⟩
    exact ⟨t.mem_of_made there, t.notMem_of_made ready there⟩
  have known : ∀ n ∈ u :: (H.loopsBetween u v).map (relayName u), n ∈ s.nodes := by
    refine List.forall_mem_cons.mpr ⟨t.mem_of_node hu, fun n mem => ?_⟩
    obtain ⟨R, there, rfl⟩ := List.mem_map.mp mem
    exact (made R there).1
  obtain ⟨κ₀, listed₀⟩ := ChanNode.mem_allNext.mp removed.edge
  have hv : v ∈ g.nodes := ready.next u hu κ₀ v listed₀
  obtain ⟨κ, kind, listed⟩ : ∃ κ, g.kindOf u v = some κ ∧ v ∈ g.next κ u := by
    have sym (κ : Conn) := ready.symmetric κ u hu v hv
    by_cases data : u ∈ g.pre .data v
    · exact ⟨.data, if_pos data, (sym _).mpr data⟩
    · have active : u ∈ g.pre .active v := by
        cases κ₀ with
        | data => exact absurd ((sym _).mp listed₀) data
        | active => exact (sym _).mp listed₀
      exact ⟨.active, by rw [kindOf, if_neg data, if_pos active], (sym _).mpr active⟩
  obtain ⟨last, final⟩ : ∃ last, (H.loopsBetween u v).getLast? = some last :=
    ⟨_, List.getLast?_eq_some_getLast removed.far.2⟩
  refine ⟨made, ?_, κ, last, listed, final, ?_⟩
  · have chain := @links_chain u ((H.loopsBetween u v).map (relayName u)) (by simpa using length)
    refine List.IsChain.imp_of_mem_imp (fun a b ha hb link => ?_) chain
    refine (t.mem_next ready complete (known a ha) (known b hb)).mpr (.inr ⟨u, v, removed, .inl ⟨rfl, ?_⟩⟩)
    rwa [relays, order]
  · refine (t.mem_next ready complete (made last (List.mem_of_getLast? final)).1 (t.mem_of_node hv)).mpr
      (.inr ⟨u, v, removed, .inr (.inl ⟨kind, ?_, rfl⟩)⟩)
    rw [relays, order, List.getLast?_map, final, Option.map_some]

/-- From a relay of `u` only ends of edges of `u` are reached, and, where the way is the only one,
only those with the loop of the relay on the way. -/
theorem Treated.reaches (routed : g.Routed H) (complete : s.Completed h) {r r' y : String}
    (hy : y ∈ g.nodes) (out : r ∉ g.nodes)
    (path : Relation.ReflTransGen (fun a b => b ∉ g.nodes ∧ h.Edge a b) r r') (last : h.Edge r' y)
    {u R : String} (hu : u ∈ g.nodes) (hR : R ∈ g.controlTree.regions) (name : r = relayName u R) :
    g.Removed H u y ∧ (H.around u ≠ [] → R ∈ H.crossed u y) := by
  have owner {u v R : String} (removed : g.Removed H u v) (mem : R ∈ H.crossed u v) :
      u ∈ g.nodes ∧ R ∈ g.controlTree.regions :=
    ⟨removed.source, routed.declared R (LoopHierarchy.crossed_subset routed.ranked mem)⟩
  have edges {a b : String} (edge : h.Edge a b) (new : a ∉ g.nodes) :
      ∃ κ u v, g.Removed H u v ∧ g.edgesOf H u v κ a b := by
    obtain ⟨ha, κ, listed⟩ := edge
    have hb : b ∈ s.nodes := complete.nodes ▸ (complete.connected (t.known ready)).next a ha κ b listed
    rcases (t.mem_next ready complete (complete.nodes ▸ ha) hb).mp listed with ⟨old, -⟩ | ⟨u, v, found⟩
    · exact absurd old new
    · exact ⟨κ, u, v, found⟩
  induction path using Relation.ReflTransGen.head_induction_on generalizing R with
  | refl =>
    obtain ⟨κ, u', v, removed, edge⟩ := edges last out
    rcases edgesOf_cases edge with ⟨S, mem, rfl, -⟩ | ⟨rfl, S, mem, same⟩
    · exact absurd hy (ready.fresh _ (owner removed mem).1 S (owner removed mem).2)
    · obtain ⟨rfl, rfl⟩ := ready.distinct u hu R hR u' (owner removed mem).1 S (owner removed mem).2
        (name.symm.trans same)
      exact ⟨removed, fun _ => mem⟩
  | head step rest ih =>
    obtain ⟨new, step⟩ := step
    obtain ⟨κ, u', v, removed, edge⟩ := edges step out
    rcases edgesOf_cases edge with ⟨S, mem, rfl, here | lc | ⟨T, x, y', next, same⟩⟩ | ⟨rfl, -⟩
    · exact absurd (here ▸ removed.source) out
    · have listed := List.mem_of_find?_eq_some lc
      exact absurd (ready.listed S (owner removed mem).2 _ listed) out
    · have inner : T ∈ H.crossed u' v := by simp [next]
      obtain ⟨rfl, rfl⟩ := ready.distinct u hu R hR u' removed.source T (owner removed inner).2
        (name.symm.trans same)
      obtain ⟨found, later⟩ := ih new (owner removed mem).2 rfl
      refine ⟨found, fun inside => ?_⟩
      exact LoopHierarchy.mem_crossed_of_next routed.ranked inside
        (routed.level u hu v removed.edge removed.far.1) (routed.level u hu y found.edge found.far.1)
        next (later inside)
    · obtain ⟨κ', listed⟩ := ChanNode.mem_allNext.mp removed.edge
      exact absurd (ready.next _ removed.source κ' _ listed) new

theorem Treated.only (routed : g.Routed H) (complete : s.Completed h) {x y : String}
    (hx : x ∈ g.nodes) (hy : y ∈ g.nodes) (through : Through g h x y) :
    ∃ u, g.Removed H u y ∧ (x = u ∨ ∃ v R, g.Removed H u v ∧ R ∈ H.loopsBetween u v ∧
      g.lcOf R = some x ∧ (H.around u ≠ [] → v = y)) := by
  obtain ⟨r, r', new, ⟨-, κ, listed⟩, path, last⟩ := through
  have hr : r ∈ s.nodes :=
    complete.nodes ▸ (complete.connected (t.known ready)).next x
      (complete.nodes ▸ t.mem_of_node hx) κ r listed
  rcases (t.mem_next ready complete (t.mem_of_node hx) hr).mp listed with ⟨-, old, -⟩ | ⟨u, v, removed, edge⟩
  · exact absurd old new
  rcases edgesOf_cases edge with ⟨R, mem, rfl, start⟩ | ⟨rfl, -⟩
  · have declared (Q : String) (there : Q ∈ H.crossed u v) :=
      routed.declared Q (LoopHierarchy.crossed_subset routed.ranked there)
    obtain ⟨found, inner⟩ := t.reaches ready routed complete hy new path last removed.source
      (declared R mem) rfl
    refine ⟨u, found, ?_⟩
    rcases start with here | lc | ⟨S, a, b, next, rfl⟩
    · exact .inl here
    · by_cases inside : H.around u = []
      · exact .inr ⟨v, R, removed, LoopHierarchy.mem_crossed.mp mem, lc, fun h => absurd inside h⟩
      · exact .inr ⟨y, R, found, LoopHierarchy.mem_crossed.mp (inner inside), lc, fun _ => rfl⟩
    · exact absurd hx (ready.fresh u removed.source S (declared S (by simp [next])))
  · obtain ⟨κ', listed'⟩ := ChanNode.mem_allNext.mp removed.edge
    exact absurd (ready.next _ removed.source κ' _ listed') new

end

theorem Treated.relayed {h : ChanGraph} (ready : g.Relayable) (routed : g.Routed H)
    (t : g.Treated H g.edges s) (complete : s.Completed h) : g.Relayed H h where
  connected := complete.connected (t.known ready)
  nodes := complete.nodes ▸ t.first
  relay n mem new := by
    have there := complete.nodes ▸ mem
    obtain ⟨u, R, made, rfl⟩ := ((t.mem n).mp there).resolve_left new
    obtain ⟨type, region⟩ := t.relay u R made
    obtain ⟨v, edge, far, inner⟩ := made
    refine ⟨u, v, R, ⟨(mem_edges.mp edge).1, (mem_edges.mp edge).2, far⟩,
      LoopHierarchy.mem_crossed.mp inner, rfl, ?_, ?_⟩
    · rw [complete.node _ there]
      exact type
    · rw [complete.node _ there]
      exact region
  direct κ u hu v hv := by
    rw [t.mem_next ready complete (t.mem_of_node hu) (t.mem_of_node hv)]
    constructor
    · rintro (⟨-, -, old⟩ | ⟨a, b, removed, edge⟩)
      · exact old
      · have declared (Q : String) (there : Q ∈ H.crossed a b) :=
          routed.declared Q (LoopHierarchy.crossed_subset routed.ranked there)
        rcases edgesOf_cases edge with ⟨R, mem, rfl, -⟩ | ⟨-, R, mem, rfl⟩
        · exact absurd hv (ready.fresh a removed.source R (declared R mem))
        · exact absurd hu (ready.fresh a removed.source R (declared R mem))
    · exact fun old => .inl ⟨hu, hv, old⟩
  path u v removed length order := by
    rw [complete.nodes]
    exact t.path ready complete removed length (LoopHierarchy.crossed_eq order)
  only x hx y hy through := t.only ready routed complete hx hy through
  operands κ v hv := t.operands ready complete hv

/-- With fuel enough the relay phase ends, and where the source finds the ways of all edges, each
edge over loops becomes a path through them. -/
theorem addRelayNode_relayed (ready : g.Relayable) (nested : g.controlTree.Nested) :
    ∃ enough H, ∀ fuel ≥ enough, g.controlTree.genLoopHierarchy fuel = some H ∧
      (g.Levelled H → ∃ h, g.addRelayNode fuel = some h ∧ g.Relayed H h) := by
  obtain ⟨enough, H, found⟩ := ControlTree.exists_genLoopHierarchy nested.toWellFormed
  refine ⟨enough, H, fun fuel le => ?_⟩
  have run := ControlTree.genLoopHierarchy_mono le found
  refine ⟨run, fun level => ?_⟩
  have lists : g.controlTree.Lists (fun _ => True) g.controlTree.region := fun r mem =>
    ⟨nested.lower r mem, fun _ _ => trivial⟩
  have routed : g.Routed H := ⟨ControlTree.genLoopHierarchy_ranked nested run,
    (ControlTree.genLoopHierarchy_lists lists run).1, level⟩
  obtain ⟨s, treated, t⟩ := treated_all ready routed
  obtain ⟨h, completed, complete⟩ := completeConnect_completed (t.known ready)
  refine ⟨h.removeRedundantConnect, ?_, t.relayed ready routed complete⟩
  rw [addRelayNode, run, Option.bind_eq_bind, Option.bind_some, treated, Option.bind_eq_bind,
    Option.bind_some, ChanGraph.completed, completed, Option.map_some]

/-- An edge over three loops, the middle one with a controller. -/
def overLoops : ChanGraph where
  nodes := ["u", "l", "v"]
  node
    | "u" => { controlRegionName := "a", nextNodes := fun | .data => ["v"] | _ => [] }
    | "l" => { controlRegionName := "c", nodeType := .Lc }
    | "v" => { controlRegionName := "e", preNodes := fun | .data => ["u"] | _ => [] }
    | _ => {}
  controlTree :=
    { regions := ["a", "b", "c", "d", "e"]
      region
        | "a" => { lowerControlRegion := ["b"], nodes := ["u"] }
        | "b" => { upperControlRegion := "a", lowerControlRegion := ["c"] }
        | "c" => { upperControlRegion := "b", lowerControlRegion := ["d"], nodes := ["l"] }
        | "d" => { upperControlRegion := "c", lowerControlRegion := ["e"] }
        | "e" => { upperControlRegion := "d", nodes := ["v"] }
        | _ => {}
      nodup := by decide }
  nodup := by decide

theorem overLoops_relayable : overLoops.Relayable where
  pre := by decide
  next := by decide
  symmetric := by decide
  nodupPre := by decide
  nodupNext := by decide
  listed := by decide
  fresh := by decide +kernel
  distinct := by decide +kernel

theorem overLoops_nested : overLoops.controlTree.Nested where
  lower := by decide
  upper := by decide
  ranked := ⟨fun r => 4 - ["a", "b", "c", "d", "e"].idxOf r, by decide⟩
  above := by decide

/-- The edge becomes a path with three relays. -/
theorem addRelayNode_relayed_overLoops : ∃ H h fuel, overLoops.addRelayNode fuel = some h ∧
    H.crossed "u" "v" = ["b", "c", "d"] ∧ overLoops.Relayed H h := by
  obtain ⟨enough, H, all⟩ := addRelayNode_relayed overLoops_relayable overLoops_nested
  obtain ⟨found, law⟩ := all (max enough 6) (le_max_left _ _)
  have known : (overLoops.controlTree.genLoopHierarchy 6).map (fun H => (H.around "u", H.around "v")) =
      some (["a"], ["e", "d", "c", "b", "a"]) := by decide +kernel
  obtain ⟨H', found', paths⟩ := Option.map_eq_some_iff.mp known
  obtain rfl : H = H' := Option.some.inj
    (found.symm.trans (ControlTree.genLoopHierarchy_mono (le_max_right _ _) found'))
  obtain ⟨fromU, fromV⟩ := Prod.mk.inj paths
  obtain ⟨h, run, relayed⟩ := law fun u hu v edge _ => by
    obtain ⟨rfl, rfl⟩ : u = "u" ∧ v = "v" := by
      revert u v
      decide
    rw [fromU, fromV]
    decide
  have three : H.crossed "u" "v" = ["b", "c", "d"] := by
    rw [LoopHierarchy.crossed, LoopHierarchy.loopsBetween, fromU, fromV]
    decide
  exact ⟨H, h, max enough 6, run, three, relayed⟩

/-- An edge over one loop with a controller. -/
def overLoop : ChanGraph where
  nodes := ["u", "l", "v"]
  node
    | "u" => { controlRegionName := "outer", nextNodes := fun | .data => ["v"] | _ => [] }
    | "l" => { controlRegionName := "middle", nodeType := .Lc }
    | "v" => { controlRegionName := "inner", preNodes := fun | .data => ["u"] | _ => [] }
    | _ => {}
  controlTree :=
    { regions := ["outer", "middle", "inner"]
      region
        | "outer" => { lowerControlRegion := ["middle"], nodes := ["u"] }
        | "middle" => { upperControlRegion := "outer", lowerControlRegion := ["inner"], nodes := ["l"] }
        | "inner" => { upperControlRegion := "middle", nodes := ["v"] }
        | _ => {}
      nodup := by decide }
  nodup := by decide

/-- The controller of the loop in between becomes connected with the end of the edge. -/
theorem controller_connected : ∃ h, overLoop.addRelayNode 4 = some h ∧
    "l" ∈ overLoop.nodes ∧ "v" ∈ overLoop.nodes ∧ (overLoop.node "l").allNext = [] ∧
    Through overLoop h "l" "v" := by
  have run : (overLoop.addRelayNode 4).map (fun h => (h.nodes, h.next .active "l",
      h.next .data "u_relay_middle")) =
      some (["u", "l", "v", "u_relay_middle"], ["u_relay_middle"], ["v"]) := by decide +kernel
  obtain ⟨h, run, lists⟩ := Option.map_eq_some_iff.mp run
  simp only [Prod.mk.injEq] at lists
  obtain ⟨nodes, fromLc, fromRelay⟩ := lists
  refine ⟨h, run, by decide, by decide, rfl, "u_relay_middle", "u_relay_middle", by decide,
    ⟨by simp [nodes], .active, by simp [fromLc]⟩, .refl, ⟨by simp [nodes], .data, by simp [fromRelay]⟩⟩

end ChanGraph

end DataflowSim.Graph
