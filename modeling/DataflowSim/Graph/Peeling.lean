import DataflowSim.Graph.Subgraphs
import DataflowSim.Library.Labels

/-!
# What the regions are peeled into

The regions are visited one after the other, and each visit paints the nodes of its region with
the next number. The visits that count are those with nodes, the last loop left out.
-/

namespace DataflowSim.Graph

open ControlTree (LoopHierarchy)

namespace ChanGraph

variable {g : ChanGraph} {f : String → Nat}

section
variable (g f)

@[simp] theorem withIds_nodes : (g.withIds f).nodes = g.nodes := rfl
@[simp] theorem withIds_controlTree : (g.withIds f).controlTree = g.controlTree := rfl
@[simp] theorem withIds_subgraphId (n : String) : ((g.withIds f).node n).subgraphId = f n := rfl
@[simp] theorem withIds_withIds (f' : String → Nat) : (g.withIds f).withIds f' = g.withIds f' := rfl
theorem withIds_self : g.withIds (fun n => (g.node n).subgraphId) = g := rfl

theorem setNode_withIds (n : String) (id : Nat) :
    (g.withIds f).setNode n { (g.withIds f).node n with subgraphId := id } =
      g.withIds (Function.update f n id) := by
  refine eq_of_node_eq rfl rfl fun m => ?_
  by_cases here : m = n
  · subst m
    simp [withIds]
  · simp [withIds, here]

end

theorem assignSubgraph_withIds {id : Nat} {names : List String} (known : ∀ n ∈ names, n ∈ g.nodes) :
    assignSubgraph id names (g.withIds f) =
      some (g.withIds fun n => if n ∈ names then id else f n) := by
  induction names generalizing f with
  | nil => simp [assignSubgraph]
  | cons n names ih =>
    obtain ⟨here, rest⟩ := List.forall_mem_cons.mp known
    have first : (g.withIds f).modifyNode n (fun x => { x with subgraphId := id }) =
        some (g.withIds (Function.update f n id)) := by
      rw [modifyNode_of_mem (by exact here), setNode_withIds]
    refine Run.cons_eq_some.mpr ⟨_, first, ?_⟩
    have next := ih (f := Function.update f n id) rest
    rw [assignSubgraph] at next
    rw [next]
    congr 2
    funext m
    grind [Function.update_apply]

/-! ## Visits -/

structure Visit where
  nodes : List String
  counted : Bool
  deriving DecidableEq

/-- The visit counts. -/
def Visit.full (v : Visit) : Bool := v.counted && !v.nodes.isEmpty

/-- The visits of one loop: the loop and the branches below. -/
def visitsOf (t : ControlTree) (hierarchy : LoopHierarchy) (loop : String × Bool) : List Visit :=
  ⟨(hierarchy.region loop.1).nodes, loop.2⟩ ::
    ((hierarchy.region loop.1).lowerControlRegion.filter fun c => (t.region c).controlType ≠ .Loop).map
      fun c => ⟨(t.region c).nodes, true⟩

def regionVisits (t : ControlTree) (hierarchy : LoopHierarchy) : List Visit :=
  (loopOrder hierarchy).flatMap (visitsOf t hierarchy)

def peelVisit (divideNum : Nat) (s : Peel) (v : Visit) : Option Peel :=
  if s.isOver then some s else peelRegion divideNum v.nodes v.counted s

theorem foldlM_peelVisit_of_isOver {divideNum : Nat} {s : Peel} (h : s.isOver = true)
    (vs : List Visit) : vs.foldlM (peelVisit divideNum) s = some s :=
  Run.stationary fun _ _ => if_pos h

theorem peelBranches_eq {divideNum : Nat} {t : ControlTree} {lower : List String} {s : Peel}
    (declared : ∀ c ∈ lower, c ∈ t.regions) :
    peelBranches divideNum t lower s =
      ((lower.filter fun c => (t.region c).controlType ≠ .Loop).map
        fun c => ⟨(t.region c).nodes, true⟩).foldlM (peelVisit divideNum) s := by
  rw [List.foldlM_map, List.foldlM_filter]
  refine Run.congr (fun c mem s => ?_) s
  rw [ControlTree.getCtrlRegion_of_mem (declared c mem)]
  cases done : s.isOver <;> by_cases loop : (t.region c).controlType = .Loop <;>
    simp [peelVisit, done, loop]

/-- The loops and branches are one sequence of visits. -/
theorem peel_eq {divideNum : Nat} {hierarchy : LoopHierarchy}
    (declared : ∀ r ∈ hierarchy.loops, ∀ c ∈ (hierarchy.region r).lowerControlRegion,
      c ∈ g.controlTree.regions) :
    peel divideNum hierarchy g =
      (regionVisits g.controlTree hierarchy).foldlM (peelVisit divideNum) ⟨g, 1, 0, false⟩ := by
  rw [regionVisits, Run.flatMap]
  refine Run.congr (fun loop mem s => ?_) _
  obtain ⟨i, inside, rfl⟩ := List.mem_mapIdx.mp mem
  have listed : hierarchy.loops.reverse[i] ∈ hierarchy.loops :=
    List.mem_reverse.mp (List.getElem_mem inside)
  cases done : s.isOver with
  | true => rw [foldlM_peelVisit_of_isOver done, if_pos rfl]
  | false =>
    rw [visitsOf, List.foldlM_cons, peelVisit, done, if_neg Bool.false_ne_true]
    exact Option.bind_congr fun u _ => peelBranches_eq (declared _ listed)

/-- One visit paints its nodes, counts, and stops when enough have been counted. -/
theorem peelVisit_eq {divideNum k cnt : Nat} {v : Visit} (known : ∀ n ∈ v.nodes, n ∈ g.nodes) :
    peelVisit divideNum ⟨g.withIds f, k, cnt, false⟩ v =
      some (if divideNum - 1 ≤ cnt + [v].countP Visit.full then
        ⟨g.withIds (Labels.paint [v.nodes] k f), k, cnt + [v].countP Visit.full, true⟩
      else ⟨g.withIds (Labels.paint [v.nodes] k f), k + 1, cnt + [v].countP Visit.full, false⟩) := by
  have counts : (if v.nodes ≠ [] ∧ v.counted = true then cnt + 1 else cnt) =
      cnt + [v].countP Visit.full := by
    by_cases empty : v.nodes = [] <;> by_cases counted : v.counted = true <;>
      simp [Visit.full, empty, counted]
  rw [peelVisit, if_neg Bool.false_ne_true, peelRegion, assignSubgraph_withIds known,
    Option.bind_eq_bind, Option.bind_some, counts]
  dsimp only
  split_ifs <;> rfl

/-- What the visits leave behind: all of them are made, or they stop at the one that counts last. -/
theorem foldlM_peelVisit {divideNum : Nat} {vs : List Visit}
    (known : ∀ v ∈ vs, ∀ n ∈ v.nodes, n ∈ g.nodes) {k cnt : Nat} (few : cnt < divideNum - 1) :
    (cnt + vs.countP Visit.full < divideNum - 1 ∧
      vs.foldlM (peelVisit divideNum) ⟨g.withIds f, k, cnt, false⟩ =
        some ⟨g.withIds (Labels.paint (vs.map Visit.nodes) k f), k + vs.length,
          cnt + vs.countP Visit.full, false⟩) ∨
    ∃ before v rest, vs = before ++ v :: rest ∧ v.full = true ∧
      cnt + before.countP Visit.full + 1 = divideNum - 1 ∧
      vs.foldlM (peelVisit divideNum) ⟨g.withIds f, k, cnt, false⟩ =
        some ⟨g.withIds (Labels.paint ((before ++ [v]).map Visit.nodes) k f), k + before.length,
          divideNum - 1, true⟩ := by
  induction vs generalizing f k cnt with
  | nil => exact .inl ⟨few, rfl⟩
  | cons v vs ih =>
    obtain ⟨here, later⟩ := List.forall_mem_cons.mp known
    have first := @peelVisit_eq _ f divideNum k cnt _ here
    have split : (v :: vs).countP Visit.full = [v].countP Visit.full + vs.countP Visit.full :=
      @List.countP_append _ _ [v] vs
    by_cases last : divideNum - 1 ≤ cnt + [v].countP Visit.full
    · rw [if_pos last] at first
      have full : v.full = true := by
        by_contra none
        simp [none] at last
        omega
      have total : cnt + [v].countP Visit.full = divideNum - 1 := by
        simp only [List.countP_singleton, full, if_true] at last ⊢
        omega
      refine .inr ⟨[], v, vs, rfl, full, by simpa [full] using total, ?_⟩
      rw [List.foldlM_cons, first, total]
      exact foldlM_peelVisit_of_isOver rfl vs
    · rw [if_neg last] at first
      rw [List.foldlM_cons, first, Option.bind_eq_bind, Option.bind_some]
      rcases @ih (Labels.paint [v.nodes] k f) later (k + 1) (cnt + [v].countP Visit.full) (by omega) with
        ⟨less, run⟩ | ⟨before, w, rest, rfl, full, total, run⟩
      · refine .inl ⟨by omega, run.trans ?_⟩
        rw [split, List.length_cons, List.map_cons, Labels.paint, Nat.add_assoc, Nat.add_assoc,
          Nat.add_comm 1]
        rfl
      · refine .inr ⟨v :: before, w, rest, rfl, full, ?_, run.trans ?_⟩
        · have split' : (v :: before).countP Visit.full =
            [v].countP Visit.full + before.countP Visit.full := @List.countP_append _ _ [v] before
          omega
        · rw [List.length_cons, List.cons_append, List.map_cons, Labels.paint, Nat.add_assoc,
            Nat.add_comm 1]
          rfl

end ChanGraph

end DataflowSim.Graph
