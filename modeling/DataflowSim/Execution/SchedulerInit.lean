import DataflowSim.Execution.ConfigChan
import DataflowSim.Library.Adjacency

/-!
# The table of the subgraphs

`subgraphTable` is a map, and `subgraphTable[id]` puts a subgraph without channels into it when there
is none of this number. So the table grows while `configChan` goes through it. In the end it holds
all numbers up to the greatest one, but `schedulerInit` has sized `subgraphIsOver` before.
-/

namespace DataflowSim.Execution.Scheduler

variable (cfg : SchedulerConfig)

/-- The loops of `configChan` over the subgraphs. `keys` are the numbers in the table. -/
def sweep (visit : Scheduler → Nat → Scheduler) (subgraphId : Nat) :
    Nat → Nat → List Nat → Scheduler → Option (List Nat × Scheduler)
  | 0, _, _, _ => none
  | fuel + 1, id, keys, s =>
    if id < keys.length then
      if id ≠ subgraphId then
        sweep visit subgraphId fuel (id + 1) (Adjacency.keep keys id) (visit s id)
      else sweep visit subgraphId fuel (id + 1) keys s
    else some (keys, s)

def configTable (fuel : Nat) (keys : List Nat) (s : Scheduler) (subgraphId : Nat) :
    Option (List Nat × Scheduler) := do
  let (keys, s) ← sweep (configOther cfg subgraphId) subgraphId fuel 0 keys s
  let keys := Adjacency.keep keys subgraphId
  let s := (cfg.producers subgraphId).foldl (setEnable true true) s
  let s := (cfg.consumers subgraphId).foldl (setEnable true false) s
  sweep (closeOther cfg subgraphId) subgraphId fuel 0 keys s

/-- What `schedulerInit` leaves, with the sizes of two lists. -/
structure Initialized where
  keys : List Nat
  scheduler : Scheduler
  subgraphIsOver : Nat
  subgraphActiveCnt : Nat

def initTable (fuel : Nat) (keys : List Nat) : Option Initialized := do
  let (keys', s) ← configTable cfg fuel keys { chans := fun c => Chan.initial (cfg.chan c) } 0
  some { keys := keys', scheduler := s, subgraphIsOver := keys.length, subgraphActiveCnt := keys'.length }

/-- The channel stands at the subgraph. -/
def At (cfg : SchedulerConfig) (i c : Nat) : Prop := c ∈ cfg.producers i ∨ c ∈ cfg.consumers i

/-! ## One loop -/

variable {cfg} {visit : Scheduler → Nat → Scheduler} {g top : Nat} {keys : List Nat} {s : Scheduler}

/-- The numbers before the next one, but for the current one, are in the table. -/
structure Swept (g top id : Nat) (keys : List Nat) : Prop where
  nodup : keys.Nodup
  below : ∀ i ∈ keys, i ≤ top
  before : ∀ i < id, i ≠ g → i ∈ keys

theorem Swept.length_le {id : Nat} (swept : Swept g top id keys) : keys.length ≤ top + 1 := by
  have inside : keys ⊆ List.range (top + 1) := fun i mem =>
    List.mem_range.mpr (Nat.lt_succ_of_le (swept.below i mem))
  simpa using (swept.nodup.subperm inside).length_le

theorem mem_keep {i id : Nat} : i ∈ Adjacency.keep keys id ↔ i ∈ keys ∨ i = id := by
  simpa using (Adjacency.mem_foldl_keep : i ∈ [id].foldl Adjacency.keep keys ↔ _)

theorem Swept.next {id : Nat} (swept : Swept g top id keys) (lt : id < keys.length) :
    Swept g top (id + 1) (Adjacency.keep keys id) := by
  refine ⟨Adjacency.nodup_foldl_keep (l := [id]) swept.nodup, fun i there => ?_, fun i lt' other => ?_⟩
  · rcases mem_keep.mp there with old | rfl
    · exact swept.below i old
    · have := swept.length_le
      omega
  · rw [mem_keep]
    rcases Nat.lt_succ_iff_lt_or_eq.mp lt' with before | here
    · exact .inl (swept.before i before other)
    · exact .inr here

/-- The loop ends behind as many numbers as there are in the table then. -/
theorem sweep_eq (visit : Scheduler → Nat → Scheduler) (s : Scheduler) {fuel id : Nat}
    (swept : Swept g top id keys) (le : id ≤ keys.length) (enough : top + 2 ≤ id + fuel)
    (skip : ∀ s, visit s g = s) :
    ∃ keys', Swept g top keys'.length keys' ∧ id ≤ keys'.length ∧ keys <+: keys' ∧
      sweep visit g fuel id keys s =
        some (keys', (List.range' id (keys'.length - id)).foldl visit s) := by
  induction fuel generalizing id keys s with
  | zero =>
    have := swept.length_le
    omega
  | succ fuel ih =>
    have enough : top + 2 ≤ id + 1 + fuel := by omega
    rw [sweep]
    by_cases lt : id < keys.length
    · rw [if_pos lt]
      by_cases here : id = g
      · subst here
        have swept : Swept id top (id + 1) keys :=
          ⟨swept.nodup, swept.below, fun i lt other => swept.before i (by omega) other⟩
        obtain ⟨keys', swept', le', grown, run⟩ := ih swept lt enough (s := s)
        refine ⟨keys', swept', by omega, grown, ?_⟩
        rw [if_neg (not_not.mpr rfl), run, show keys'.length - id = keys'.length - (id + 1) + 1 by omega,
          List.range'_succ, List.foldl_cons, skip]
      · have longer : keys <+: Adjacency.keep keys id := Adjacency.prefix_foldl_keep keys [id]
        obtain ⟨keys', swept', le', grown, run⟩ :=
          ih (swept.next lt) (lt.trans_le longer.length_le) enough (s := visit s id)
        refine ⟨keys', swept', by omega, longer.trans grown, ?_⟩
        rw [if_pos here, run, show keys'.length - id = keys'.length - (id + 1) + 1 by omega,
          List.range'_succ, List.foldl_cons]
    · obtain rfl : id = keys.length := by omega
      exact ⟨keys, swept, le_rfl, List.prefix_rfl, by simp⟩

/-! ## Both loops -/

/-- The channels lie at subgraphs in the table, and `top` is the greatest number that is needed. -/
structure Listed (cfg : SchedulerConfig) (g top : Nat) (keys : List Nat) : Prop where
  nodup : keys.Nodup
  listed : ∀ i c, At cfg i c → i ∈ keys
  below : ∀ i ∈ keys, i ≤ top
  current : g ≤ top
  reached : top ∈ keys ∨ top = g

/-- At most one subgraph is not reached, and none when the current one is in the table. -/
theorem Swept.unique (swept : Swept g top keys.length keys) {i j : Nat} (hi : i ∈ keys)
    (hj : j ∈ keys) (beyond : keys.length ≤ i) (or : keys.length ≤ j ∨ j = g) : j = i := by
  by_contra ne
  have nodup : (List.range keys.length).Nodup := List.nodup_range
  have within (k : Nat) (mem : k ∈ (List.range keys.length).erase g) : k < keys.length ∧ k ≠ g := by
    rw [nodup.mem_erase_iff, List.mem_range] at mem
    exact mem.symm
  have apart : (i :: j :: (List.range keys.length).erase g).Nodup := by
    refine List.nodup_cons.mpr ⟨fun mem => ?_, List.nodup_cons.mpr ⟨fun mem => ?_, nodup.erase g⟩⟩
    · rcases List.mem_cons.mp mem with same | mem
      · exact ne same.symm
      · exact absurd (within i mem).1 (by omega)
    · have := within j mem
      omega
  have inside : i :: j :: (List.range keys.length).erase g ⊆ keys := by
    refine List.cons_subset.mpr ⟨hi, List.cons_subset.mpr ⟨hj, fun k mem => ?_⟩⟩
    exact swept.before k (within k mem).1 (within k mem).2
  have long := (apart.subperm inside).length_le
  have erased := List.le_length_erase (a := g) (l := List.range keys.length)
  rw [List.length_range] at erased
  simp only [List.length_cons] at long
  omega

/-- With the current subgraph, the table holds all numbers. -/
theorem Swept.whole (swept : Swept g top keys.length keys) (current : g ∈ keys)
    (greatest : top ∈ keys) : keys.length = top + 1 ∧ keys.Perm (List.range (top + 1)) := by
  have inside : List.range keys.length ⊆ keys := fun i mem => by
    by_cases here : i = g
    · exact here ▸ current
    · exact swept.before i (List.mem_range.mp mem) here
  have perm : (List.range keys.length).Perm keys :=
    (List.nodup_range.subperm inside).perm_of_length_le (by simp)
  have size : keys.length = top + 1 := by
    have := swept.length_le
    have := List.mem_range.mp (perm.mem_iff.mpr greatest)
    omega
  exact ⟨size, size ▸ perm.symm⟩

/-- The first loop misses the last subgraph when the current one is not in the table. It does not
matter for channels that stand at two subgraphs. -/
theorem Listed.covers (listed : Listed cfg g top keys) {keys' : List Nat}
    (known : g ∈ keys ∨ ∀ i c, At cfg i c → ∃ j, j ≠ i ∧ At cfg j c)
    (swept : Swept g top keys'.length keys') (grown : keys ⊆ keys') :
    Covers { cfg with num := top + 1 } g (List.range keys'.length) where
  below i mem := (List.mem_range.mp mem).trans_le swept.length_le
  visited c := by
    rintro ⟨i, -, other, here⟩
    have in_i := grown (listed.listed i c here)
    by_cases lt : i < keys'.length
    · exact ⟨i, List.mem_range.mpr lt, other, here⟩
    have beyond : keys'.length ≤ i := by omega
    have missing : g ∉ keys' := fun mem =>
      other (swept.unique in_i mem beyond (.inr rfl)).symm
    rcases known with current | twice
    · exact absurd (grown current) missing
    · obtain ⟨j, ne, there⟩ := twice i c here
      have in_j := grown (listed.listed j c there)
      have reached : j < keys'.length := by
        by_contra far
        exact ne (swept.unique in_i in_j beyond (.inl (by omega)))
      exact ⟨j, List.mem_range.mpr reached, fun eq => missing (eq ▸ in_j), there⟩

/-- `configChan` enters all numbers up to the greatest one, and sets the enables as if they had been
in the table before. -/
theorem configTable_eq (listed : Listed cfg g top keys)
    (known : g ∈ keys ∨ ∀ i c, At cfg i c → ∃ j, j ≠ i ∧ At cfg j c) {fuel : Nat}
    (enough : top + 2 ≤ fuel) (s : Scheduler) :
    ∃ keys', keys'.Perm (List.range (top + 1)) ∧ keys <+: keys' ∧
      configTable cfg fuel keys s g = some (keys', configChan { cfg with num := top + 1 } s g) := by
  have from_start : top + 2 ≤ 0 + fuel := by omega
  obtain ⟨first, swept, -, grown, run⟩ := sweep_eq (configOther cfg g) s
    ⟨listed.nodup, listed.below, by simp⟩ (Nat.zero_le _) from_start fun s => if_pos rfl
  have start : Swept g top 0 (Adjacency.keep first g) := by
    refine ⟨Adjacency.nodup_foldl_keep (l := [g]) swept.nodup, fun i there => ?_, by simp⟩
    rcases mem_keep.mp there with old | rfl
    · exact swept.below i old
    · exact listed.current
  obtain ⟨last, swept', -, grown', run'⟩ := sweep_eq (closeOther cfg g)
    ((cfg.consumers g).foldl (setEnable true false) ((cfg.producers g).foldl
      (setEnable true true) ((List.range' 0 (first.length - 0)).foldl (configOther cfg g) s)))
    start (Nat.zero_le _) from_start fun s => if_neg (by simp)
  have current : g ∈ last := grown'.subset (mem_keep.mpr (.inr rfl))
  have greatest : top ∈ last := by
    rcases listed.reached with old | rfl
    · exact grown'.subset (mem_keep.mpr (.inl (grown.subset old)))
    · exact current
  obtain ⟨size, whole⟩ := swept'.whole current greatest
  refine ⟨last, whole, grown.trans ((Adjacency.prefix_foldl_keep first [g]).trans grown'), ?_⟩
  rw [configTable, run, Option.bind_eq_bind, Option.bind_some]
  dsimp only
  rw [run', configChan_eq, ← configChanIn_of_covers (listed.covers known swept grown.subset)
    (fun _ => List.mem_range : ∀ i, i ∈ List.range (top + 1) ↔ i < top + 1)]
  simp only [Nat.sub_zero, size, List.range_eq_range']
  rfl

end DataflowSim.Execution.Scheduler
