import DataflowSim.Execution.GraphScheduler
import DataflowSim.Library.Gather

/-!
# Enables after a switch

`GraphScheduler::configChan` writes the enables of a channel once for each list in which the
channel stands. What is left in the end depends on its roles only: whether it feeds the current
subgraph, whether it is filled by it, and whether it lies at another subgraph.
-/

namespace DataflowSim.Execution.Scheduler

variable {cfg : SchedulerConfig} {g : Nat} {s : Scheduler} {e : Nat → Enables}

/-- Whether a channel stores what it gets, and whether it sends. -/
structure Enables where
  push : Bool
  pop : Bool
  deriving DecidableEq

def enables (s : Scheduler) (c : Nat) : Enables := ⟨(s.chans c).pushBufferEnable, (s.chans c).enable⟩

def withEnables (s : Scheduler) (e : Nat → Enables) : Scheduler :=
  { s with
    chans := fun c => { s.chans c with pushBufferEnable := (e c).push, enable := (e c).pop } }

@[simp] theorem withEnables_enables : withEnables s (enables s) = s := rfl
@[simp] theorem enables_withEnables : enables (withEnables s e) = e := rfl

/-- The channel lies at a subgraph that is not the current one. -/
def AtOther (cfg : SchedulerConfig) (g c : Nat) : Prop :=
  ∃ id < cfg.num, id ≠ g ∧ (c ∈ cfg.producers id ∨ c ∈ cfg.consumers id)

/-- The channel is filled by another subgraph, which nothing feeds. -/
def FromSource (cfg : SchedulerConfig) (g c : Nat) : Prop :=
  ∃ id < cfg.num, id ≠ g ∧ cfg.producers id = [] ∧ c ∈ cfg.consumers id

instance : DecidablePred (AtOther cfg g) := fun c =>
  inferInstanceAs (Decidable (∃ id < cfg.num, id ≠ g ∧ (c ∈ cfg.producers id ∨ c ∈ cfg.consumers id)))

instance : DecidablePred (FromSource cfg g) := fun c =>
  inferInstanceAs (Decidable (∃ id < cfg.num, id ≠ g ∧ cfg.producers id = [] ∧ c ∈ cfg.consumers id))

/-- The enables of a channel by its roles; without a role they stay. -/
def roleEnables (cfg : SchedulerConfig) (g : Nat) (old : Enables) (c : Nat) : Enables where
  push :=
    if FromSource cfg g c then false
    else if c ∈ cfg.producers g ∨ c ∈ cfg.consumers g ∨ AtOther cfg g c then true
    else old.push
  pop :=
    if c ∈ cfg.consumers g then false
    else if c ∈ cfg.producers g then true
    else if AtOther cfg g c then sendsAlways cfg c
    else old.pop

/-- `configChan` with other orders of the two sweeps. -/
def configChanIn (order order' : List Nat) (cfg : SchedulerConfig) (s : Scheduler) (g : Nat) :
    Scheduler :=
  let s := order.foldl (configOther cfg g) s
  let s := (cfg.producers g).foldl (setEnable true true) s
  let s := (cfg.consumers g).foldl (setEnable true false) s
  order'.foldl (closeOther cfg g) s

/-! ## One list of channels -/

theorem setEnable_withEnables (push pop : Bool) (c : Nat) :
    setEnable push pop (withEnables s e) c = withEnables s (Function.update e c ⟨push, pop⟩) := by
  unfold setEnable withEnables
  congr 1
  funext d
  by_cases here : d = c
  · subst here
    simp
  · simp [here]

theorem foldl_setEnable (push : Bool) (pop : Nat → Bool) (l : List Nat) :
    l.foldl (fun s c => setEnable push (pop c) s c) (withEnables s e) =
      withEnables s fun c => if c ∈ l then ⟨push, pop c⟩ else e c := by
  rw [List.foldl_hom (withEnables s) (fun e c => (setEnable_withEnables push (pop c) c))]
  congr 1
  funext c
  exact Gather.foldl_update (fun c => (⟨push, pop c⟩ : Enables)) l e c

/-- The pushes of a list are closed, and its pops stay. -/
theorem foldl_close (l : List Nat) :
    l.foldl (fun s c => setEnable false (s.chans c).enable s c) (withEnables s e) =
      withEnables s fun c => if c ∈ l then ⟨false, (e c).pop⟩ else e c := by
  induction l generalizing e with
  | nil => simp
  | cons a l ih =>
    rw [List.foldl_cons, setEnable_withEnables, ih]
    congr 1
    funext c
    by_cases here : c = a
    · subst here
      simp [withEnables]
    · simp [here]

/-! ## One sweep -/

/-- What one subgraph that is not the current one writes. -/
def otherEnables (cfg : SchedulerConfig) (g : Nat) (e : Nat → Enables) (id c : Nat) : Enables :=
  if id ≠ g ∧ (c ∈ cfg.producers id ∨ c ∈ cfg.consumers id) then
    ⟨!(cfg.producers id).isEmpty, sendsAlways cfg c⟩
  else e c

theorem configOther_withEnables (id : Nat) :
    configOther cfg g (withEnables s e) id = withEnables s (otherEnables cfg g e id) := by
  unfold configOther otherEnables
  by_cases current : id = g
  · simp [current]
  · by_cases empty : (cfg.producers id).isEmpty
    · rw [if_neg current, if_pos empty, foldl_setEnable]
      simp [current, List.isEmpty_iff.mp empty]
    · rw [if_neg current, if_neg empty, foldl_setEnable]
      simp [current, empty]

/-- Of the subgraphs at which a channel lies the last one has written its enables. -/
theorem foldl_otherEnables (order : List Nat) (c : Nat) :
    (∃ id ∈ order, id ≠ g ∧ (c ∈ cfg.producers id ∨ c ∈ cfg.consumers id) ∧
      order.foldl (otherEnables cfg g) e c = ⟨!(cfg.producers id).isEmpty, sendsAlways cfg c⟩) ∨
    (¬∃ id ∈ order, id ≠ g ∧ (c ∈ cfg.producers id ∨ c ∈ cfg.consumers id)) ∧
      order.foldl (otherEnables cfg g) e c = e c := by
  induction order using List.reverseRecOn with
  | nil => exact .inr ⟨by simp, rfl⟩
  | append_singleton order id ih =>
    rw [List.foldl_append, List.foldl_cons, List.foldl_nil]
    by_cases here : id ≠ g ∧ (c ∈ cfg.producers id ∨ c ∈ cfg.consumers id)
    · exact .inl ⟨id, by simp, here.1, here.2, if_pos here⟩
    · have same (e : Nat → Enables) : otherEnables cfg g e id c = e c := if_neg here
      rw [same]
      rcases ih with ⟨j, mem, other, listed, eq⟩ | ⟨free, eq⟩
      · exact .inl ⟨j, List.mem_append_left _ mem, other, listed, eq⟩
      · refine .inr ⟨?_, eq⟩
        rintro ⟨j, mem, listed⟩
        rcases List.mem_append.mp mem with before | last
        · exact free ⟨j, before, listed⟩
        · exact here (List.mem_singleton.mp last ▸ listed)

/-- What one subgraph without producers writes at last. -/
def closedEnables (cfg : SchedulerConfig) (g : Nat) (e : Nat → Enables) (id c : Nat) : Enables :=
  if id ≠ g ∧ cfg.producers id = [] ∧ c ∈ cfg.consumers id then ⟨false, (e c).pop⟩ else e c

theorem closeOther_withEnables (id : Nat) :
    closeOther cfg g (withEnables s e) id = withEnables s (closedEnables cfg g e id) := by
  unfold closeOther closedEnables
  by_cases closes : id ≠ g ∧ (cfg.producers id).isEmpty
  · rw [if_pos closes, foldl_close]
    obtain ⟨other, empty⟩ := closes
    simp [other, List.isEmpty_iff.mp empty]
  · rw [if_neg closes]
    congr 1
    funext c
    rw [if_neg]
    rintro ⟨other, empty, -⟩
    exact closes ⟨other, List.isEmpty_iff.mpr empty⟩

theorem foldl_closedEnables (order : List Nat) (c : Nat) :
    order.foldl (closedEnables cfg g) e c =
      if ∃ id ∈ order, id ≠ g ∧ cfg.producers id = [] ∧ c ∈ cfg.consumers id then ⟨false, (e c).pop⟩
      else e c := by
  induction order generalizing e with
  | nil => simp
  | cons id order ih =>
    rw [List.foldl_cons, ih]
    by_cases here : id ≠ g ∧ cfg.producers id = [] ∧ c ∈ cfg.consumers id
    · have closed : closedEnables cfg g e id c = ⟨false, (e c).pop⟩ := if_pos here
      simp [closed, here]
    · have same : closedEnables cfg g e id c = e c := if_neg here
      simp only [same, List.mem_cons, exists_eq_or_imp, here, false_or]

/-! ## The whole function -/

/-- The order has a subgraph of each channel that lies at another one than the current. -/
structure Covers (cfg : SchedulerConfig) (g : Nat) (order : List Nat) : Prop where
  below : ∀ id ∈ order, id < cfg.num
  visited : ∀ c, AtOther cfg g c → ∃ id ∈ order, id ≠ g ∧ (c ∈ cfg.producers id ∨ c ∈ cfg.consumers id)

theorem Covers.of_all {order : List Nat} (all : ∀ id, id ∈ order ↔ id < cfg.num) :
    Covers cfg g order where
  below id := (all id).mp
  visited _ := fun ⟨id, below, lies⟩ => ⟨id, (all id).mpr below, lies⟩

/-- What the last sweep leaves of the writes before it. -/
theorem roleEnables_eq {order : List Nat} (covers : Covers cfg g order) (e : Nat → Enables)
    (c : Nat) : roleEnables cfg g (e c) c =
      let written : Enables := if c ∈ cfg.consumers g then ⟨true, false⟩
        else if c ∈ cfg.producers g then ⟨true, true⟩
        else order.foldl (otherEnables cfg g) e c
      if FromSource cfg g c then ⟨false, written.pop⟩ else written := by
  have sweep := @foldl_otherEnables cfg g e order c
  by_cases consumer : c ∈ cfg.consumers g
  · by_cases source : FromSource cfg g c <;> simp [roleEnables, consumer, source]
  by_cases producer : c ∈ cfg.producers g
  · by_cases source : FromSource cfg g c <;> simp [roleEnables, consumer, producer, source]
  simp only [roleEnables, consumer, producer, if_false, false_or]
  rcases sweep with ⟨id, mem, other, listed, eq⟩ | ⟨free, eq⟩
  · have below := covers.below id mem
    have lies : AtOther cfg g c := ⟨id, below, other, listed⟩
    rw [eq]
    by_cases source : FromSource cfg g c
    · simp [lies, source]
    · have fed : (cfg.producers id).isEmpty = false := by
        rw [Bool.eq_false_iff, ne_eq, List.isEmpty_iff]
        intro empty
        refine source ⟨id, below, other, empty, listed.resolve_left ?_⟩
        simp [empty]
      simp [lies, source, fed]
  · have nowhere : ¬AtOther cfg g c := fun lies => free (covers.visited c lies)
    have source : ¬FromSource cfg g c := fun ⟨id, below, other, _, mem⟩ =>
      nowhere ⟨id, below, other, .inr mem⟩
    simp [nowhere, source, eq]

theorem configChanIn_of_covers {order order' : List Nat} (covers : Covers cfg g order)
    (all' : ∀ id, id ∈ order' ↔ id < cfg.num) (s : Scheduler) :
    configChanIn order order' cfg s g =
      withEnables s fun c => roleEnables cfg g (enables s c) c := by
  have start : configChanIn order order' cfg s g =
      configChanIn order order' cfg (withEnables s (enables s)) g := rfl
  rw [start]
  unfold configChanIn
  dsimp only
  rw [List.foldl_hom (withEnables s) fun e id => configOther_withEnables id,
    foldl_setEnable true fun _ => true, foldl_setEnable true fun _ => false,
    List.foldl_hom (withEnables s) fun e id => closeOther_withEnables id]
  congr 1
  funext c
  rw [foldl_closedEnables, roleEnables_eq covers]
  exact if_congr (by simp only [all', FromSource]) rfl rfl

/-- In any order of the subgraphs the enables are those of the roles, and nothing else changes. -/
theorem configChanIn_eq {order order' : List Nat} (all : ∀ id, id ∈ order ↔ id < cfg.num)
    (all' : ∀ id, id ∈ order' ↔ id < cfg.num) (s : Scheduler) (g : Nat) :
    configChanIn order order' cfg s g =
      withEnables s fun c => roleEnables cfg g (enables s c) c :=
  configChanIn_of_covers (.of_all all) all' s

theorem configChan_eq (cfg : SchedulerConfig) (s : Scheduler) (g : Nat) : configChan cfg s g =
    withEnables s fun c => roleEnables cfg g (enables s c) c :=
  configChanIn_eq (fun _ => List.mem_range) (fun _ => List.mem_range) s g

theorem roleEnables_idempotent (old : Enables) (c : Nat) :
    roleEnables cfg g (roleEnables cfg g old c) c = roleEnables cfg g old c := by
  unfold roleEnables
  split_ifs <;> rfl

/-- After a switch each channel has the enables of its roles, whatever the order of the subgraphs,
and the same switch again changes nothing. -/
theorem configChan_roles (cfg : SchedulerConfig) (s : Scheduler) (g : Nat) :
    configChan cfg s g = withEnables s (fun c => roleEnables cfg g (enables s c) c) ∧
      (∀ order order', (∀ id, id ∈ order ↔ id < cfg.num) → (∀ id, id ∈ order' ↔ id < cfg.num) →
        configChanIn order order' cfg s g = configChan cfg s g) ∧
      configChan cfg (configChan cfg s g) g = configChan cfg s g := by
  refine ⟨configChan_eq cfg s g, fun order order' all all' => ?_, ?_⟩
  · rw [configChanIn_eq all all', configChan_eq]
  · rw [configChan_eq cfg s, configChan_eq, enables_withEnables]
    simp only [roleEnables_idempotent]
    rfl

/-- A channel from the first subgraph to the second one, and one that leads into the first. -/
def pipeline : SchedulerConfig where
  num := 2
  producers
    | 0 => [0]
    | 1 => [1]
    | _ => []
  consumers
    | 0 => [1]
    | _ => []
  inputBufferSize := 4
  chan _ := { size := 4, upNum := 1 }
  downstream _ := []

theorem configChan_roles_pipeline : configChanIn [1, 0] [1, 0] pipeline (schedulerInit pipeline) 1 =
    configChan pipeline (schedulerInit pipeline) 1 :=
  (configChan_roles pipeline (schedulerInit pipeline) 1).2.1 [1, 0] [1, 0]
    (fun id => by simp [pipeline]; omega) (fun id => by simp [pipeline]; omega)

/-- The rule table of the source: the enables of a producer or a consumer, at the current subgraph or
at another one. -/
def ruleTable (current producer : Bool) : Enables :=
  match current, producer with
  | true, true => ⟨false, true⟩
  | true, false => ⟨true, false⟩
  | false, true => ⟨true, false⟩
  | false, false => ⟨true, false⟩

/-- The table gives the channel these enables, in one of its roles at least. -/
def Ruled (cfg : SchedulerConfig) (g c : Nat) (e : Enables) : Prop :=
  ∃ id < cfg.num, (c ∈ cfg.producers id ∧ e = ruleTable (id == g) true) ∨
    (c ∈ cfg.consumers id ∧ e = ruleTable (id == g) false)

instance (c : Nat) (e : Enables) : Decidable (Ruled cfg g c e) :=
  inferInstanceAs (Decidable (∃ id < cfg.num, (c ∈ cfg.producers id ∧ e = ruleTable (id == g) true) ∨
    (c ∈ cfg.consumers id ∧ e = ruleTable (id == g) false)))

/-- The rule table has no pushes into the producers of the current subgraph. -/
theorem configChan_pushes : 0 ∈ pipeline.producers 0 ∧
    ¬Ruled pipeline 0 0 (enables (configChan pipeline (schedulerInit pipeline) 0) 0) := by
  decide

end DataflowSim.Execution.Scheduler
