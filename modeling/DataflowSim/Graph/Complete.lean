import DataflowSim.Graph.ChanGraph
import DataflowSim.Library.Run

/-!
# Completion of a channel graph

`completeConnect` followed by `removeRedundantConnect` is completion of adjacency lists, for
each kind of connection.
-/

namespace DataflowSim.Graph.ChanGraph

variable {g h : ChanGraph}

def withNext (g : ChanGraph) (κ : Conn) (lists : String → List String) : ChanGraph :=
  { g with node := fun n => (g.node n).setNext κ (lists n) }

def withPre (g : ChanGraph) (κ : Conn) (lists : String → List String) : ChanGraph :=
  { g with node := fun n => (g.node n).setPre κ (lists n) }

theorem withNext_push {κ : Conn} {p n : String} (mem : p ∈ g.nodes) (lists : String → List String) :
    (g.withNext κ lists).modifyNode p (fun y => y.setNext κ (y.nextNodes κ ++ [n])) =
      some (g.withNext κ (Function.update lists p (lists p ++ [n]))) := by
  rw [modifyNode_of_mem (by exact mem), Option.some_inj]
  refine eq_of_node_eq rfl rfl fun x => ?_
  by_cases here : x = p
  · subst here
    simp [withNext, ChanNode.setNext]
  · simp [withNext, here]

theorem withPre_push {κ : Conn} {p n : String} (mem : p ∈ g.nodes) (lists : String → List String) :
    (g.withPre κ lists).modifyNode p (fun y => y.setPre κ (y.preNodes κ ++ [n])) =
      some (g.withPre κ (Function.update lists p (lists p ++ [n]))) := by
  rw [modifyNode_of_mem (by exact mem), Option.some_inj]
  refine eq_of_node_eq rfl rfl fun x => ?_
  by_cases here : x = p
  · subst here
    simp [withPre, ChanNode.setPre]
  · simp [withPre, here]

theorem withNext_self (κ : Conn) : g.withNext κ (g.next κ) = g := by
  simp [withNext, next, ChanNode.setNext]

theorem withPre_self (κ : Conn) : g.withPre κ (g.pre κ) = g := by
  simp [withPre, pre, ChanNode.setPre]

theorem completeNext_eq {κ : Conn} (named : ∀ n ∈ g.nodes, ∀ p ∈ g.pre κ n, p ∈ g.nodes) :
    completeNext κ g = some (g.withNext κ (Adjacency.fill g.nodes (g.pre κ) (g.next κ))) := by
  unfold completeNext
  conv_lhs => rw [← g.withNext_self κ]
  refine @Run.simulated _ _ _ _ (g.withNext κ) _ _ (fun n mem lists => ?_) (g.next κ)
  rw [getNode_of_mem (by exact mem)]
  exact @Run.simulated _ _ _ _ (g.withNext κ) _ _
    (fun p there lists => withNext_push (named n mem p there) lists) lists

theorem completePre_eq {κ : Conn} (named : ∀ n ∈ g.nodes, ∀ s ∈ g.next κ n, s ∈ g.nodes) :
    completePre κ g = some (g.withPre κ (Adjacency.fill g.nodes (g.next κ) (g.pre κ))) := by
  unfold completePre
  conv_lhs => rw [← g.withPre_self κ]
  refine @Run.simulated _ _ _ _ (g.withPre κ) _ _ (fun n mem lists => ?_) (g.pre κ)
  rw [getNode_of_mem (by exact mem)]
  exact @Run.simulated _ _ _ _ (g.withPre κ) _ _
    (fun p there lists => withPre_push (named n mem p there) lists) lists

section
variable (κ : Conn) (lists : String → List String)

@[simp] theorem withNext_nodes : (g.withNext κ lists).nodes = g.nodes := rfl
@[simp] theorem withPre_nodes : (g.withPre κ lists).nodes = g.nodes := rfl
@[simp] theorem withNext_pre : (g.withNext κ lists).pre = g.pre := rfl
@[simp] theorem withPre_next : (g.withPre κ lists).next = g.next := rfl

@[simp] theorem withNext_next : (g.withNext κ lists).next = Function.update g.next κ lists := by
  funext ι n
  by_cases same : ι = κ
  · subst same
    simp [withNext, next]
  · simp [withNext, next, same]

@[simp] theorem withPre_pre : (g.withPre κ lists).pre = Function.update g.pre κ lists := by
  funext ι n
  by_cases same : ι = κ
  · subst same
    simp [withPre, pre]
  · simp [withPre, pre, same]

end

/-- Both lists of each node of `h` are those of `g` completed and without copies, and the rest
is as in `g`. -/
structure Completed (g h : ChanGraph) : Prop where
  nodes : h.nodes = g.nodes
  controlTree : h.controlTree = g.controlTree
  node : ∀ n ∈ g.nodes, h.node n =
    { g.node n with
      preNodes := fun κ => (Adjacency.complete g.nodes (g.pre κ) (g.next κ)).1 n
      nextNodes := fun κ => (Adjacency.complete g.nodes (g.pre κ) (g.next κ)).2 n }

/-- The lists of one kind before copies are removed. -/
def filled (g : ChanGraph) (κ : Conn) : ChanGraph :=
  let next' := Adjacency.fill g.nodes (g.pre κ) (g.next κ)
  (g.withNext κ next').withPre κ (Adjacency.fill g.nodes next' (g.pre κ))

theorem complete_kind {κ : Conn} (pre : ∀ n ∈ g.nodes, ∀ p ∈ g.pre κ n, p ∈ g.nodes)
    (next : ∀ n ∈ g.nodes, ∀ s ∈ g.next κ n, s ∈ g.nodes) :
    (completeNext κ g >>= completePre κ) = some (g.filled κ) := by
  have named : ∀ n ∈ g.nodes, ∀ s ∈ Adjacency.fill g.nodes (g.pre κ) (g.next κ) n, s ∈ g.nodes := by
    intro n hn s mem
    rcases Adjacency.mem_fill.mp mem with old | ⟨there, -⟩
    · exact next n hn s old
    · exact there
  rw [completeNext_eq pre]
  change completePre κ _ = _
  rw [completePre_eq (by simpa using named)]
  simp [filled]

/-- Completion is possible when all names are known. -/
theorem completeConnect_eq (named : g.Named) :
    completeConnect g = some ((g.filled .data).filled .active) := by
  have data := complete_kind (κ := .data) (fun n hn => named.pre n hn _) (fun n hn => named.next n hn _)
  have active := @complete_kind (g.filled .data) .active
    (by simpa [filled] using fun n hn => named.pre n hn .active)
    (by simpa [filled] using fun n hn => named.next n hn .active)
  rw [completeConnect, ← bind_assoc, data, Option.bind_eq_bind, Option.bind_some]
  exact active

theorem completeConnect_completed (named : g.Named) :
    ∃ h, completeConnect g = some h ∧ g.Completed h.removeRedundantConnect := by
  refine ⟨_, completeConnect_eq named, rfl, rfl, fun n mem => ?_⟩
  have there : n ∈ ((g.filled .data).filled .active).nodes := mem
  simp only [removeRedundantConnect, if_pos there]
  refine ChanNode.ext rfl rfl rfl rfl (funext fun κ => ?_) (funext fun κ => ?_) rfl rfl rfl rfl
    rfl rfl <;> cases κ <;> simp [filled, Adjacency.complete]

section
variable (done : g.Completed h)
include done

theorem Completed.pre {n : String} (mem : n ∈ g.nodes) (κ : Conn) :
    h.pre κ n = (Adjacency.complete g.nodes (g.pre κ) (g.next κ)).1 n := by
  rw [ChanGraph.pre, done.node n mem]

theorem Completed.next {n : String} (mem : n ∈ g.nodes) (κ : Conn) :
    h.next κ n = (Adjacency.complete g.nodes (g.pre κ) (g.next κ)).2 n := by
  rw [ChanGraph.next, done.node n mem]

/-- An edge is one that stood in one of the two lists. -/
theorem Completed.mem_next {u v : String} (hu : u ∈ g.nodes) (hv : v ∈ g.nodes) (κ : Conn) :
    v ∈ h.next κ u ↔ v ∈ g.next κ u ∨ u ∈ g.pre κ v := by
  rw [done.next hu, Adjacency.mem_complete_next hv]

theorem Completed.mem_pre {u v : String} (hu : u ∈ g.nodes) (hv : v ∈ g.nodes) (κ : Conn) :
    u ∈ h.pre κ v ↔ v ∈ g.next κ u ∨ u ∈ g.pre κ v := by
  rw [done.pre hv, Adjacency.mem_complete_pre hu hv]

theorem Completed.connected (named : g.Named) : h.Connected := by
  have known {n m : String} {κ : Conn} (hn : n ∈ g.nodes) :
      (m ∈ h.next κ n ∨ m ∈ h.pre κ n) → m ∈ g.nodes := by
    rw [done.next hn, done.pre hn]
    simp only [Adjacency.complete, Adjacency.mem_distinct, Adjacency.mem_fill]
    grind [named.pre n hn κ, named.next n hn κ]
  refine ⟨⟨fun n hn κ p mem => ?_, fun n hn κ s mem => ?_⟩, fun κ u hu v hv => ?_,
    fun κ n hn => ?_, fun κ n hn => ?_⟩
  all_goals simp only [done.nodes] at *
  · exact known hn (.inr mem)
  · exact known hn (.inl mem)
  · rw [done.mem_next hu hv, done.mem_pre hu hv]
  · rw [done.pre hn]
    exact Adjacency.nodup_complete.1
  · rw [done.next hn]
    exact Adjacency.nodup_complete.2

end

/-! ## The pair as a closure -/

/-- The graph after both functions. -/
def completed (g : ChanGraph) : Option ChanGraph := g.completeConnect.map removeRedundantConnect

/-- Both lists are the symmetric closure of what they were, without copies, and begin with what
they had, in the order in which it came first. -/
structure Closure (g h : ChanGraph) : Prop where
  nodes : h.nodes = g.nodes
  next : ∀ κ, ∀ u ∈ g.nodes, ∀ v ∈ g.nodes, v ∈ h.next κ u ↔ v ∈ g.next κ u ∨ u ∈ g.pre κ v
  pre : ∀ κ, ∀ u ∈ g.nodes, ∀ v ∈ g.nodes, u ∈ h.pre κ v ↔ v ∈ g.next κ u ∨ u ∈ g.pre κ v
  nodup : ∀ κ, ∀ n ∈ g.nodes, (h.pre κ n).Nodup ∧ (h.next κ n).Nodup
  first : ∀ κ, ∀ n ∈ g.nodes, Adjacency.distinct (g.pre κ n) <+: h.pre κ n ∧
    Adjacency.distinct (g.next κ n) <+: h.next κ n
  settled : h.completed = some h

theorem Completed.closure (done : g.Completed h) (settled : h.completed = some h) : g.Closure h where
  nodes := done.nodes
  next κ _ hu _ hv := done.mem_next hu hv κ
  pre κ _ hu _ hv := done.mem_pre hu hv κ
  nodup κ n mem := by
    rw [done.pre mem, done.next mem]
    exact Adjacency.nodup_complete
  first κ n mem := by
    rw [done.pre mem, done.next mem]
    exact ⟨Adjacency.complete_pre_prefix, Adjacency.complete_next_prefix⟩
  settled := settled

/-- A graph whose lists agree is left alone. -/
theorem Connected.completed (h : g.Connected) : g.completed = some g := by
  have done : g.Completed ((g.filled .data).filled .active).removeRedundantConnect := by
    obtain ⟨h', run, done⟩ := completeConnect_completed h.toNamed
    rw [completeConnect_eq h.toNamed] at run
    exact Option.some.inj run ▸ done
  rw [ChanGraph.completed, completeConnect_eq h.toNamed, Option.map_some]
  refine congrArg _ (eq_of_node_eq rfl rfl fun n => ?_)
  by_cases mem : n ∈ g.nodes
  · have lists (κ : Conn) := Adjacency.complete_of_symmetric (fun w there => h.symmetric κ n mem w there)
      (fun w there => h.symmetric κ w there n mem) (h.nodupPre κ n mem) (h.nodupNext κ n mem)
    rw [done.node n mem]
    simp only [lists]
    rfl
  · have apart (κ : Conn) : Adjacency.fill g.nodes (g.pre κ) (g.next κ) n = g.next κ n :=
      Adjacency.fill_of_not_mem fun w there listed => mem (h.pre w there κ n listed)
    have apart' (κ : Conn) : Adjacency.fill g.nodes
        (Adjacency.fill g.nodes (g.pre κ) (g.next κ)) (g.pre κ) n = g.pre κ n :=
      Adjacency.fill_of_not_mem fun w there listed => by
        rcases Adjacency.mem_fill.mp listed with old | ⟨known, -⟩
        · exact mem (h.next w there κ n old)
        · exact mem known
    have there : n ∉ ((g.filled .data).filled .active).nodes := mem
    simp only [removeRedundantConnect, if_neg there]
    refine ChanNode.ext rfl rfl rfl rfl (funext fun κ => ?_) (funext fun κ => ?_) rfl rfl rfl rfl
      rfl rfl
    · change ((g.filled .data).filled .active).pre κ n = g.pre κ n
      cases κ <;> simp [filled, apart']
    · change ((g.filled .data).filled .active).next κ n = g.next κ n
      cases κ <;> simp [filled, apart]

theorem completed_closure (named : g.Named) : ∃ h, g.completed = some h ∧ g.Closure h := by
  obtain ⟨h, run, done⟩ := completeConnect_completed named
  exact ⟨_, by rw [ChanGraph.completed, run, Option.map_some], done.closure (done.connected named).completed⟩

/-- `b` names its operand `a` twice, and `a` names `c`, which does not name it. -/
def oneSided : ChanGraph where
  nodes := ["c", "b", "a"]
  node n :=
    if n = "a" then { nextNodes := fun κ => if κ = .data then ["c"] else [] }
    else if n = "b" then { preNodes := fun κ => if κ = .data then ["a", "a"] else ["c"] }
    else {}
  controlTree := ⟨[], fun _ => {}, by decide⟩
  nodup := by decide

theorem completed_closure_oneSided : ∃ h, oneSided.completed = some h ∧ oneSided.Closure h :=
  completed_closure ⟨by decide, by decide⟩

end DataflowSim.Graph.ChanGraph
