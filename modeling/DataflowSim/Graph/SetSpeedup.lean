import DataflowSim.Graph.ChanGraph
import DataflowSim.Library.Labels
import DataflowSim.Library.Run

/-!
# Speedup of the subgraphs

`ChanGraph::setSpeedup`. The table of the speedups has one place for each subgraph with physical
nodes, and is indexed by the ids of the subgraphs. An index out of range has no result; the
configuration error is reported and the loop goes on.
-/

namespace DataflowSim.Graph.ChanGraph

/-- One node of the first loop: the subgraphs that have been met, with their numbers of physical
nodes. -/
def countSubgraph (g : ChanGraph) (subgraphNodes : List Nat × (Nat → Nat)) (n : String) :
    List Nat × (Nat → Nat) :=
  let id := (g.node n).subgraphId
  if (g.node n).isPhysicalChan then
    if id ∈ subgraphNodes.1 then
      (subgraphNodes.1, Function.update subgraphNodes.2 id (subgraphNodes.2 id + 1))
    else (subgraphNodes.1 ++ [id], Function.update subgraphNodes.2 id 1)
  else subgraphNodes

structure SpeedupTable where
  subgraphSpeedupTable : List Nat
  /-- Whether the configuration error has been reported. -/
  reported : Bool

def recordSpeedup (arraySize : Nat) (nodeNum : Nat → Nat) (t : SpeedupTable) (id : Nat) :
    Option SpeedupTable :=
  let speedup := arraySize / nodeNum id
  if id < t.subgraphSpeedupTable.length then
    some ⟨t.subgraphSpeedupTable.set id speedup, t.reported || decide (speedup < 1)⟩
  else none

def assignSpeedup (g : ChanGraph) (table : List Nat) (speedup : String → Nat) (n : String) :
    Option (String → Nat) :=
  if n ≠ "Chan_begin" ∧ n ≠ "Chan_end" then do
    let s ← table[(g.node n).subgraphId]?
    some (Function.update speedup n s)
  else some speedup

/-- Whether the error has been reported, and the speedups of the nodes. -/
def setSpeedup (arraySize : Nat) (g : ChanGraph) (speedup : String → Nat) :
    Option (Bool × (String → Nat)) := do
  let (ids, nodeNum) := g.nodes.foldl g.countSubgraph ([], fun _ => 0)
  let t ← ids.foldlM (recordSpeedup arraySize nodeNum) ⟨List.replicate ids.length 0, false⟩
  let speedup ← g.nodes.foldlM (g.assignSpeedup t.subgraphSpeedupTable) speedup
  some (t.reported, speedup)

/-! ## The table -/

def physical (g : ChanGraph) : List String := g.nodes.filter fun n => (g.node n).isPhysicalChan

def physicalNum (g : ChanGraph) (id : Nat) : Nat :=
  g.physical.countP fun n => (g.node n).subgraphId = id

/-- The nodes that get a speedup. -/
def assigned (g : ChanGraph) : List String :=
  g.nodes.filter fun n => n ≠ "Chan_begin" ∧ n ≠ "Chan_end"

variable {g : ChanGraph} {arraySize : Nat}

theorem physicalNum_pos {id : Nat} :
    0 < g.physicalNum id ↔ ∃ n ∈ g.physical, (g.node n).subgraphId = id := by
  simp [physicalNum, List.countP_pos_iff]

/-- The subgraphs with physical nodes, in the order in which they are met, and how many nodes they
have. -/
theorem foldl_countSubgraph (nodes : List String) : nodes.foldl g.countSubgraph ([], fun _ => 0) =
    let ids := (nodes.filter fun n => (g.node n).isPhysicalChan).map fun n => (g.node n).subgraphId
    (Adjacency.distinct ids, fun id => ids.count id) := by
  induction nodes using List.reverseRecOn with
  | nil => rfl
  | append_singleton nodes n ih =>
    rw [List.foldl_append, ih, List.foldl_cons, List.foldl_nil, countSubgraph]
    cases physical : (g.node n).isPhysicalChan with
    | false => simp [physical]
    | true =>
      set ids := (nodes.filter fun n => (g.node n).isPhysicalChan).map fun n => (g.node n).subgraphId
      set id := (g.node n).subgraphId with hid
      have grown : ((nodes ++ [n]).filter fun n => (g.node n).isPhysicalChan).map
          (fun n => (g.node n).subgraphId) = ids ++ [id] := by simp [ids, id, physical]
      have counts (m : Nat) (same : m = ids.count id + 1) :
          Function.update (fun id => ids.count id) id m = fun i => (ids ++ [id]).count i := by
        funext i
        by_cases here : i = id
        · simp [here, same]
        · simp [here, List.count_append, Ne.symm here]
      simp only [grown, Adjacency.distinct_concat, Adjacency.keep, Adjacency.mem_distinct, if_true]
      split_ifs with known
      · rw [counts _ rfl]
      · rw [counts _ (by simp [List.count_eq_zero_of_not_mem known])]

/-- The subgraphs that have a place in the table. -/
def subgraphIds (g : ChanGraph) : List Nat :=
  Adjacency.distinct (g.physical.map fun n => (g.node n).subgraphId)

theorem subgraphNodes_eq :
    g.nodes.foldl g.countSubgraph ([], fun _ => 0) = (g.subgraphIds, g.physicalNum) := by
  rw [foldl_countSubgraph]
  refine Prod.ext rfl (funext fun id => ?_)
  simp only [physicalNum, physical, List.count, List.countP_map]
  exact List.countP_congr fun n _ => by simp

theorem mem_subgraphIds {id : Nat} : id ∈ g.subgraphIds ↔ 0 < g.physicalNum id := by
  simp [subgraphIds, physicalNum_pos]

theorem length_subgraphIds :
    g.subgraphIds.length = (Labels.used g.physical fun n => (g.node n).subgraphId).card := by
  rw [subgraphIds, ← List.toFinset_card_of_nodup (Adjacency.nodup_distinct _)]
  congr 1
  ext id
  simp [Labels.used]

theorem recordSpeedup_below {nodeNum : Nat → Nat} {ids : List Nat} {t u : SpeedupTable}
    (run : ids.foldlM (recordSpeedup arraySize nodeNum) t = some u) :
    ∀ id ∈ ids, id < t.subgraphSpeedupTable.length := by
  induction ids generalizing t with
  | nil => simp
  | cons id ids ih =>
    obtain ⟨s, first, rest⟩ := Run.cons_eq_some.mp run
    unfold recordSpeedup at first
    dsimp only at first
    split_ifs at first with inside
    obtain rfl := Option.some.inj first
    exact List.forall_mem_cons.mpr ⟨inside, by simpa using ih rest⟩

/-- Each subgraph of the list gets its quotient. -/
theorem recordSpeedup_all {nodeNum : Nat → Nat} {ids : List Nat} {t : SpeedupTable}
    (below : ∀ id ∈ ids, id < t.subgraphSpeedupTable.length) :
    ∃ u, ids.foldlM (recordSpeedup arraySize nodeNum) t = some u ∧
      u.subgraphSpeedupTable.length = t.subgraphSpeedupTable.length ∧
      (u.reported = true ↔ t.reported = true ∨ ∃ id ∈ ids, arraySize / nodeNum id < 1) ∧
      ∀ id, u.subgraphSpeedupTable[id]? =
        if id ∈ ids then some (arraySize / nodeNum id) else t.subgraphSpeedupTable[id]? := by
  induction ids generalizing t with
  | nil => exact ⟨t, rfl, rfl, by simp, by simp⟩
  | cons id ids ih =>
    obtain ⟨here, later⟩ := List.forall_mem_cons.mp below
    let s : SpeedupTable := ⟨t.subgraphSpeedupTable.set id (arraySize / nodeNum id),
      t.reported || decide (arraySize / nodeNum id < 1)⟩
    obtain ⟨u, run, length, reported, places⟩ := @ih s (by simpa [s] using later)
    refine ⟨u, Run.cons_eq_some.mpr ⟨s, if_pos here, run⟩, by simpa [s] using length, ?_, fun i => ?_⟩
    · simp [reported, s, or_assoc]
    · rw [places i]
      by_cases same : i = id
      · simp [s, same, here]
      · simp [s, same, Ne.symm same]

/-! ## The nodes -/

theorem mem_assigned {n : String} :
    n ∈ g.assigned ↔ n ∈ g.nodes ∧ n ≠ "Chan_begin" ∧ n ≠ "Chan_end" := by
  simp [assigned]

theorem assignSpeedup_below {table : List Nat} {nodes : List String} {speedup speedup' : String → Nat}
    (run : nodes.foldlM (g.assignSpeedup table) speedup = some speedup') :
    ∀ n ∈ nodes, n ≠ "Chan_begin" ∧ n ≠ "Chan_end" → (g.node n).subgraphId < table.length := by
  induction nodes generalizing speedup with
  | nil => simp
  | cons n nodes ih =>
    obtain ⟨next, first, rest⟩ := Run.cons_eq_some.mp run
    refine List.forall_mem_cons.mpr ⟨fun named => ?_, ih rest⟩
    rw [assignSpeedup, if_pos named, Option.bind_eq_bind, Option.bind_eq_some_iff] at first
    obtain ⟨s, found, -⟩ := first
    exact (List.getElem?_eq_some_iff.mp found).1

theorem assignSpeedup_all {table : List Nat} {nodes : List String} (nodup : nodes.Nodup)
    (below : ∀ n ∈ nodes, n ≠ "Chan_begin" ∧ n ≠ "Chan_end" → (g.node n).subgraphId < table.length)
    (speedup : String → Nat) : ∃ speedup', nodes.foldlM (g.assignSpeedup table) speedup = some speedup' ∧
      (∀ n ∈ nodes, n ≠ "Chan_begin" ∧ n ≠ "Chan_end" →
        table[(g.node n).subgraphId]? = some (speedup' n)) ∧
      ∀ n, n ∉ nodes → speedup' n = speedup n := by
  induction nodes generalizing speedup with
  | nil => exact ⟨speedup, rfl, by simp, fun _ _ => rfl⟩
  | cons n nodes ih =>
    obtain ⟨fresh, nodup⟩ := List.nodup_cons.mp nodup
    obtain ⟨here, later⟩ := List.forall_mem_cons.mp below
    obtain ⟨next, first, value, others⟩ : ∃ next, g.assignSpeedup table speedup n = some next ∧
        (n ≠ "Chan_begin" ∧ n ≠ "Chan_end" → table[(g.node n).subgraphId]? = some (next n)) ∧
        ∀ m, m ≠ n → next m = speedup m := by
      by_cases named : n ≠ "Chan_begin" ∧ n ≠ "Chan_end"
      · obtain ⟨k, found⟩ : ∃ k, table[(g.node n).subgraphId]? = some k :=
          ⟨_, List.getElem?_eq_getElem (here named)⟩
        refine ⟨Function.update speedup n k, ?_, ?_, ?_⟩
        · rw [assignSpeedup, if_pos named, found]
          rfl
        · simp [found]
        · exact fun m ne => Function.update_of_ne ne _ _
      · exact ⟨speedup, if_neg named, fun now => absurd now named, fun _ _ => rfl⟩
    obtain ⟨speedup', run, values, kept⟩ := ih nodup later next
    refine ⟨speedup', Run.cons_eq_some.mpr ⟨next, first, run⟩, ?_, fun m out => ?_⟩
    · exact List.forall_mem_cons.mpr ⟨fun named => (kept n fresh).symm ▸ value named, values⟩
    · rw [List.mem_cons, not_or] at out
      rw [kept m out.2, others m out.1]

/-! ## When the table is large enough -/

/-- What the speedups are for: the subgraph fits into the array so many times and no more. -/
structure FillsArray (arraySize : Nat) (g : ChanGraph) (reported : Bool) (speedup : String → Nat) :
    Prop where
  error : reported = true ↔ ∃ id, arraySize < g.physicalNum id
  same : ∀ m ∈ g.assigned, ∀ n ∈ g.assigned, (g.node m).subgraphId = (g.node n).subgraphId →
    speedup m = speedup n
  pos : reported = false → ∀ n ∈ g.assigned, 1 ≤ speedup n
  greatest : reported = false → ∀ n ∈ g.assigned,
    IsGreatest {k | k * g.physicalNum (g.node n).subgraphId ≤ arraySize} (speedup n)

theorem exactly_iff_below : Labels.Exactly g.physical (fun n => (g.node n).subgraphId) g.subgraphIds.length ↔
    ∀ id ∈ g.subgraphIds, id < g.subgraphIds.length := by
  constructor
  · intro h id mem
    obtain ⟨n, physical, rfl⟩ := physicalNum_pos.mp (mem_subgraphIds.mp mem)
    exact h.below physical
  · intro below
    refine (Labels.exactly_iff_card fun n mem => below _ ?_).mpr length_subgraphIds.symm
    exact mem_subgraphIds.mpr (physicalNum_pos.mpr ⟨n, mem, rfl⟩)

/-- The ids of the subgraphs with physical nodes are the numbers from zero on. -/
theorem exactly_iff {k : Nat} : Labels.Exactly g.physical (fun n => (g.node n).subgraphId) k ↔
    k = g.subgraphIds.length ∧ ∀ id ∈ g.subgraphIds, id < g.subgraphIds.length := by
  constructor
  · intro h
    obtain rfl : k = g.subgraphIds.length := by
      rw [length_subgraphIds, (Labels.exactly_iff_card fun n mem => h.below mem).mp h]
    exact ⟨rfl, exactly_iff_below.mp h⟩
  · rintro ⟨rfl, below⟩
    exact exactly_iff_below.mpr below

theorem setSpeedup_eq (speedup : String → Nat) : setSpeedup arraySize g speedup = (do
    let t ← g.subgraphIds.foldlM (recordSpeedup arraySize g.physicalNum)
      ⟨List.replicate g.subgraphIds.length 0, false⟩
    let speedup ← g.nodes.foldlM (g.assignSpeedup t.subgraphSpeedupTable) speedup
    some (t.reported, speedup)) := by
  rw [setSpeedup, subgraphNodes_eq]

/-- The table is accessed in range. -/
theorem setSpeedup_eq_some {speedup : String → Nat}
    (below : ∀ id ∈ g.subgraphIds, id < g.subgraphIds.length)
    (inside : ∀ n ∈ g.assigned, (g.node n).subgraphId < g.subgraphIds.length) :
    ∃ reported speedup', setSpeedup arraySize g speedup = some (reported, speedup') ∧
      FillsArray arraySize g reported speedup' := by
  obtain ⟨t, first, length, reported, places⟩ := @recordSpeedup_all arraySize g.physicalNum g.subgraphIds
    ⟨List.replicate g.subgraphIds.length 0, false⟩ (by simpa using below)
  have length : t.subgraphSpeedupTable.length = g.subgraphIds.length := by simpa using length
  obtain ⟨speedup', second, values, -⟩ := @assignSpeedup_all g t.subgraphSpeedupTable g.nodes g.nodup
    (fun n mem named => length ▸ inside n (mem_assigned.mpr ⟨mem, named⟩)) speedup
  have all := exactly_iff_below.mpr below
  have value (n : String) (mem : n ∈ g.assigned) : 0 < g.physicalNum (g.node n).subgraphId ∧
      speedup' n = arraySize / g.physicalNum (g.node n).subgraphId := by
    obtain ⟨here, named⟩ := mem_assigned.mp mem
    have pos := physicalNum_pos.mpr ((all _).mpr (inside n mem))
    have place := places (g.node n).subgraphId
    rw [values n here named, if_pos (mem_subgraphIds.mpr pos)] at place
    exact ⟨pos, Option.some.inj place⟩
  have error : t.reported = true ↔ ∃ id, arraySize < g.physicalNum id := by
    simp only [reported, Bool.false_eq_true, false_or, Nat.lt_one_iff]
    constructor
    · rintro ⟨id, mem, zero⟩
      have pos := mem_subgraphIds.mp mem
      exact ⟨id, (Nat.div_eq_zero_iff.mp zero).resolve_left (by omega)⟩
    · rintro ⟨id, larger⟩
      exact ⟨id, mem_subgraphIds.mpr (by omega), Nat.div_eq_of_lt larger⟩
  refine ⟨t.reported, speedup', ?_, error, fun m hm n hn same => ?_, fun fits n mem => ?_,
    fun _ n mem => ?_⟩
  · rw [setSpeedup_eq, first, Option.bind_eq_bind, Option.bind_some, second]
    rfl
  · rw [(value m hm).2, (value n hn).2, same]
  · obtain ⟨pos, eq⟩ := value n mem
    rw [eq, Nat.one_le_div_iff pos]
    by_contra larger
    simp [error.mpr ⟨_, Nat.lt_of_not_le larger⟩] at fits
  · obtain ⟨pos, eq⟩ := value n mem
    rw [eq]
    exact ⟨Nat.div_mul_le_self _ _, fun k fits => (Nat.le_div_iff_mul_le pos).mpr fits⟩

/-- The table is accessed in range, and the speedups fill the array, if and only if the subgraphs with
physical nodes are numbered from zero on and each node that gets a speedup is in one of them. -/
theorem setSpeedup_iff (arraySize : Nat) (g : ChanGraph) (speedup : String → Nat) :
    (∃ reported speedup', setSpeedup arraySize g speedup = some (reported, speedup') ∧
      FillsArray arraySize g reported speedup') ↔
    ∃ k, Labels.Exactly g.physical (fun n => (g.node n).subgraphId) k ∧
      ∀ n ∈ g.assigned, (g.node n).subgraphId < k := by
  constructor
  · rintro ⟨reported, speedup', run, -⟩
    simp only [setSpeedup_eq, Option.bind_eq_bind, Option.bind_eq_some_iff] at run
    obtain ⟨t, first, speedup'', second, -⟩ := run
    have below : ∀ id ∈ g.subgraphIds, id < g.subgraphIds.length := by
      simpa using recordSpeedup_below first
    obtain ⟨u, again, length, -⟩ := @recordSpeedup_all arraySize g.physicalNum g.subgraphIds
      ⟨List.replicate g.subgraphIds.length 0, false⟩ (by simpa using below)
    obtain rfl : t = u := Option.some.inj (first.symm.trans again)
    refine ⟨_, exactly_iff_below.mpr below, fun n mem => ?_⟩
    obtain ⟨here, named⟩ := mem_assigned.mp mem
    simpa [length] using assignSpeedup_below second n here named
  · rintro ⟨k, exact, inside⟩
    obtain ⟨rfl, below⟩ := exactly_iff.mp exact
    exact setSpeedup_eq_some below inside

/-- The first subgraph has a relay only, the second one a node of the array. -/
def relayFirst : ChanGraph where
  nodes := ["relay", "add"]
  node n := { isPhysicalChan := n = "add", subgraphId := if n = "add" then 1 else 0 }
  controlTree := ⟨[], fun _ => {}, List.nodup_nil⟩
  nodup := by decide

/-- The table has one place, and the id of the second subgraph is out of range. -/
theorem setSpeedup_relayFirst : setSpeedup 4 relayFirst (fun _ => 1) = none := by
  decide +kernel

end DataflowSim.Graph.ChanGraph
