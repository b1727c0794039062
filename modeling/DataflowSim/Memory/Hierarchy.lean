import DataflowSim.Memory.Refine

/-!
# Runs of the cache hierarchy

The calls that the rest of the simulator makes on the cache, in any order, from the state
after `Cache::init`. The memory is not modelled: it accepts transactions as it likes and
completes those that it has got in any order and after any delay.
-/

namespace DataflowSim.Memory.Cache

open Relation (ReflTransGen)

/-- One call on the cache. -/
inductive Op where
  /-- A request of an LSE, not answered yet, which the cache may refuse. -/
  | addTransaction (req : MemReq)
  | callBack (ackQueueId : Nat)
  | cacheUpdate (clkAdd : Bool)
  /-- Transactions go to the memory while it accepts them. -/
  | sendReq2Mem (accept : List Bool)
  /-- The memory completes the `i`-th transaction that it has got. -/
  | complete (i : Nat)
  deriving DecidableEq, Repr

/-- The memory accepts at least the first transaction that it is offered. -/
def Op.accepts : Op → Bool
  | .sendReq2Mem (true :: _) => true
  | _ => false

/-- The port that a call uses. -/
def Op.port : Op → Option Port
  | .addTransaction _ => some .core
  | .callBack _ => some .ack
  | .sendReq2Mem (true :: _) => some .memory
  | _ => none

theorem Op.accepts_of_port {op : Op} (port : op.port = some .memory) : op.accepts = true := by
  unfold Op.port at port
  split at port <;> first | rfl | simp at port

variable (cfg : Config)

def step (s : Cache) : Op → Option Cache
  | .addTransaction req =>
    some ((addTransaction cfg s { req with ready := false, origin := .core }).getD s)
  | .callBack ackQueueId => some (callBack s ackQueueId).2
  | .cacheUpdate clkAdd => some (cacheUpdate cfg s clkAdd)
  | .sendReq2Mem accept => some (sendReq2Mem s accept)
  | .complete i =>
    match (sentReqs s.history)[i]? with
    | some req => memReqComplete cfg s req
    | none => none

def run (ops : List Op) : Option Cache := ops.foldlM (step cfg) (init cfg)

variable {cfg}
variable {ports : Set Port} {s t : Cache}

/-- A call is a chain of atomic steps, through the port of the call at most. -/
theorem step_steps {op : Op} (recorded : AcksRecorded s) (stepped : step cfg s op = some t)
    (allowed : ∀ p, op.port = some p → p ∈ ports) : Steps cfg ports s t := by
  cases op with
  | addTransaction req =>
    obtain rfl := Option.some.inj stepped
    cases sent : addTransaction cfg s { req with ready := false, origin := .core } with
    | none => exact .refl
    | some u => exact addTransaction_steps (allowed _ rfl) rfl rfl sent
  | callBack ackQueueId =>
    obtain rfl := Option.some.inj stepped
    exact callBack_steps (allowed _ rfl) ackQueueId
  | cacheUpdate clkAdd =>
    obtain rfl := Option.some.inj stepped
    exact cacheUpdate_steps recorded clkAdd
  | sendReq2Mem accept =>
    obtain rfl := Option.some.inj stepped
    match accept with
    | true :: accept => exact sendReq2Mem_steps cfg (allowed _ rfl) _ s
    | [] => exact .refl
    | false :: accept => exact .refl
  | complete i =>
    cases found : (sentReqs s.history)[i]? with
    | none => simp [step, found] at stepped
    | some req =>
      simp only [step, found] at stepped
      exact memReqComplete_steps (mem_sentReqs.mp (List.mem_of_getElem? found)) rfl rfl stepped

/-- Calls one after the other are a chain of atomic steps. -/
theorem ops_steps {ops : List Op} (recorded : AcksRecorded s)
    (done : ops.foldlM (step cfg) s = some t) : Steps cfg Set.univ s t := by
  induction ops generalizing s with
  | nil => exact Run.nil_eq_some.mp done ▸ .refl
  | cons op ops ih =>
    obtain ⟨u, first, rest⟩ := Run.cons_eq_some.mp done
    have steps : Steps cfg Set.univ s u := step_steps recorded first fun _ _ => trivial
    exact steps.trans (ih (steps.acksRecorded recorded) rest)

/-- A property of the initial state that atomic steps preserve holds in every run, along with
the record of the acks. -/
theorem run_invariant {P : Cache → Prop} (start : P (init cfg))
    (kept : ∀ s t, Step cfg Set.univ s t → P s → P t) {ops : List Op} (done : run cfg ops = some s) :
    P s ∧ AcksRecorded s := by
  have steps : Steps cfg Set.univ (init cfg) s := ops_steps init_acksRecorded done
  exact ⟨steps.ind kept start, steps.acksRecorded init_acksRecorded⟩

theorem ops_grow {ops : List Op} (recorded : AcksRecorded s)
    (done : ops.foldlM (step cfg) s = some t) : s.history <+: t.history :=
  (ops_steps recorded done).history_grows

/-! ## Where requests come from -/

/-- The request was accepted by the level, and has become ready at most. -/
def Entered (h : List Event) (l : Nat) (r : CacheReq) : Prop :=
  ∃ q, .accepted l q ∈ h ∧ (r = q ∨ r = { q with ready := true })

theorem Entered.mono {h k : List Event} {l : Nat} {r : CacheReq} (entered : Entered h l r)
    (pre : h <+: k) : Entered k l r := by
  obtain ⟨q, mem, eq⟩ := entered
  exact ⟨q, pre.subset mem, eq⟩

theorem Entered.ready {h : List Event} {l : Nat} {r : CacheReq} (entered : Entered h l r) :
    Entered h l { r with ready := true } := by
  obtain ⟨q, mem, rfl | rfl⟩ := entered <;> exact ⟨_, mem, .inr rfl⟩

/-- The answer is to the demand fill of an allocation of this level, for the block of that
allocation, and the level has issued that fill. -/
def Genuine (cfg : Config) (s : Cache) (l addr : Nat) (origin : Origin) : Prop :=
  ∃ a r, origin = .fill l a ∧
    (s.level l).mshr.allocated[a]? = some (cfg.getCacheBlockId addr l) ∧
    .issued l r ∈ s.history ∧ r.origin = origin ∧ r.addr = addr

/-- What may travel below a level: its write-backs and its fills. -/
def Below (cfg : Config) (s : Cache) (l addr : Nat) (origin : Origin) : Prop :=
  (∃ k, origin = .writeBack l k) ∨ Genuine cfg s l addr origin

theorem Step.allocated_grows (step : Step cfg ports s t) (l : Nat) :
    (s.level l).mshr.allocated <+: (t.level l).mshr.allocated := by
  have change := step.mshr l
  generalize (t.level l).mshr = m at change ⊢
  cases change with
  | same _ table entryNum allocated => rw [allocated]
  | join b id r rest front waits found event => simp [Mshr.join]
  | allocate b id r rest front waits found event => simp [Mshr.allocate]
  | pop id valid ready => simp
  | setReady addr origin hit answered quiet => exact List.prefix_rfl
  | issue id valid outstanding event => simp [Mshr.clearOutstandingFlag]

theorem Genuine.mono {l addr : Nat} {origin : Origin} (genuine : Genuine cfg s l addr origin)
    (step : Step cfg ports s t) : Genuine cfg t l addr origin := by
  obtain ⟨a, r, eq, block, issued, rest⟩ := genuine
  obtain ⟨more, allocated⟩ := step.allocated_grows l
  refine ⟨a, r, eq, ?_, step.history_grows.subset issued, rest⟩
  rw [← allocated]
  exact List.getElem?_append_left (List.getElem?_eq_some_iff.mp block).1 ▸ block

/-- The global invariant: tables are valid, and every request, ack, transaction and response
has a recorded cause. -/
structure Traced (cfg : Config) (s : Cache) : Prop where
  mshr : ∀ l, (s.level l).mshr.Valid fun r => cfg.getCacheBlockId r.addr l
  reqs : ∀ l b, ∀ r ∈ (s.level l).reqs b, Entered s.history l r
  queue : ∀ l id, ∀ r ∈ ((s.level l).mshr.mshrTable id).mshrQueue, Entered s.history l r
  acked : ∀ l r, .acked l r ∈ s.history → Entered s.history l r
  below : ∀ l r, .accepted (l + 1) r ∈ s.history → Below cfg s l r.addr r.origin
  toMem : ∀ r ∈ s.reqQueue2Mem, r = {} ∨ Below cfg s cfg.llc r.addr r.origin
  sent : ∀ r, .sent r ∈ s.history → r = {} ∨ Below cfg s cfg.llc r.addr r.origin
  response : ∀ l addr origin hit entries, .response l addr origin hit entries ∈ s.history →
    origin = .initial ∨ Below cfg s l addr origin
  installed : ∀ l addr origin, .installed l addr origin ∈ s.history →
    ∃ entries, .response l addr origin false entries ∈ s.history

theorem init_traced : Traced cfg (init cfg) := by
  constructor <;> simp [init, Level.reqs]
  intro l
  constructor <;> simp

theorem Step.traced_mshr (step : Step cfg ports s t) (h : Traced cfg s) (l : Nat) :
    (t.level l).mshr.Valid fun r => cfg.getCacheBlockId r.addr l := by
  have valid := h.mshr l
  have change := step.mshr l
  generalize (t.level l).mshr = m at change ⊢
  cases change with
  | same _ table entryNum allocated => exact valid.congr table entryNum allocated
  | join b id r rest front waits found event => exact Mshr.join_valid valid found
  | allocate b id r rest front waits found event => exact Mshr.allocate_valid valid found
  | pop id open_ ready => exact Mshr.popEntry_valid valid id
  | setReady addr origin hit answered quiet => exact Mshr.setMshrEntryReady_valid valid _
  | issue id open_ outstanding event => exact Mshr.clearOutstandingFlag_valid valid id

theorem Step.traced_queue (step : Step cfg ports s t) (h : Traced cfg s) {l id : Nat} {r : CacheReq}
    (mem : r ∈ ((t.level l).mshr.mshrTable id).mshrQueue) : Entered t.history l r := by
  suffices entered : Entered s.history l r from entered.mono step.history_grows
  have change := step.mshr l
  generalize (t.level l).mshr = m at change mem
  have old := h.queue l id r
  cases change with
  | same _ table entryNum allocated => exact old (table ▸ mem)
  | join b i q rest front waits found event =>
    have new := h.reqs l b q (front ▸ List.mem_cons_self)
    simp only [Mshr.join, Mshr.setEntry_mshrTable, Function.update_apply] at mem
    grind
  | allocate b i q rest front waits found event =>
    have new := h.reqs l b q (front ▸ List.mem_cons_self)
    simp only [Mshr.allocate, Mshr.setEntry_mshrTable, Function.update_apply] at mem
    grind
  | pop i open_ ready =>
    simp only [Mshr.popEntry_table] at mem
    grind [List.mem_of_mem_tail]
  | setReady addr origin hit answered quiet =>
    simp only [Mshr.setMshrEntryReady] at mem
    grind
  | issue i open_ outstanding event =>
    simp only [Mshr.clearOutstandingFlag, List.foldl_cons, List.foldl_nil,
      Mshr.setEntry_mshrTable, Function.update_apply] at mem
    grind

/-- The fill of an open entry is genuine once it is issued. -/
theorem Traced.fill_genuine (h : Traced cfg s) (step : Step cfg ports s t) {l id : Nat}
    (valid : ((s.level l).mshr.mshrTable id).valid = true)
    (issued : .issued l (fillReq s l id) ∈ t.history) :
    Genuine cfg t l (fillReq s l id).addr (fillReq s l id).origin := by
  have allocation := (h.mshr l).allocation id valid
  have block := (h.mshr l).block id _ ((h.mshr l).front_mem valid)
  obtain ⟨more, allocated⟩ := step.allocated_grows l
  refine ⟨((s.level l).mshr.mshrTable id).alloc, fillReq s l id, rfl, ?_, issued, rfl, rfl⟩
  rw [← allocated, List.getElem?_append_left (List.getElem?_eq_some_iff.mp allocation).1,
    allocation]
  exact congrArg some block.symm

theorem Below.mono {l addr : Nat} {origin : Origin} (below : Below cfg s l addr origin)
    (step : Step cfg ports s t) : Below cfg t l addr origin :=
  below.imp_right fun genuine => genuine.mono step

theorem Step.traced (step : Step cfg ports s t) (h : Traced cfg s) : Traced cfg t := by
  obtain ⟨es, history, causes⟩ := step.caused
  -- an event of the new history is old, or one of the events of the step
  have split {e : Event} (mem : e ∈ t.history) : e ∈ s.history ∨ Caused cfg s t e := by
    rw [history] at mem
    exact (List.mem_append.mp mem).imp_right (causes e)
  refine ⟨step.traced_mshr h, ?_, fun l id r => step.traced_queue h, ?_, ?_, ?_, ?_, ?_, ?_⟩
  · intro l b r mem
    obtain old | ⟨q, rest, front, rfl, -⟩ | ⟨new, -⟩ := step.reqs mem
    · exact (h.reqs l b _ old).mono step.history_grows
    · exact ((h.reqs l b q (front ▸ List.mem_cons_self)).mono step.history_grows).ready
    · exact ⟨r, List.mem_of_mem_drop new, .inl rfl⟩
  · intro l r mem
    obtain old | ⟨b, rest, front, -⟩ | ⟨id, valid, -, rfl⟩ := split mem
    · exact (h.acked l r old).mono step.history_grows
    · exact (h.reqs l b r (front ▸ List.mem_cons_self)).mono step.history_grows
    · exact ((h.queue l id _ ((h.mshr l).front_mem valid)).mono step.history_grows).ready
  · intro l r mem
    obtain old | ⟨-, ⟨zero, -⟩ | ⟨k, id, eq, valid, -, rfl, issued⟩ |
      ⟨k, i, line, eq, wb, -, -⟩⟩ := split mem
    · exact (h.below l r old).mono step
    · omega
    · obtain rfl : l = k := by omega
      exact .inr (h.fill_genuine step valid issued)
    · obtain rfl : l = k := by omega
      exact .inl wb
  · intro r mem
    cases step.toMem with
    | same queue count unsent =>
      exact (h.toMem r (queue ▸ mem)).imp_right fun below => below.mono step
    | fill id valid outstanding mshr queue count event =>
      rw [queue, List.mem_append, List.mem_singleton] at mem
      obtain old | rfl := mem
      · exact (h.toMem r old).imp_right fun below => below.mono step
      · exact .inr (.inr (h.fill_genuine step valid (by rw [event]; simp)))
    | writeBack index dirty q op origin queue victims count event =>
      rw [queue, List.mem_append, List.mem_singleton] at mem
      obtain old | rfl := mem
      · exact (h.toMem r old).imp_right fun below => below.mono step
      · exact .inr (.inl ⟨_, origin⟩)
    | send q queue count event =>
      exact (h.toMem r (queue ▸ List.mem_cons_of_mem q mem)).imp_right
        fun below => below.mono step
  · intro r mem
    obtain old | ⟨rest, queue⟩ := split mem
    · exact (h.sent r old).imp_right fun below => below.mono step
    · exact (h.toMem r (queue ▸ List.mem_cons_self)).imp_right fun below => below.mono step
  · intro l addr origin hit entries mem
    obtain old | ⟨answer, -, -⟩ := split mem
    · exact (h.response l addr origin hit entries old).imp_right fun below => below.mono step
    · cases answer with
      | initial addr_zero initial => exact .inl initial
      | acked req acked addr_eq origin_eq =>
        subst addr_eq origin_eq
        obtain ⟨q, accepted, rfl | rfl⟩ := h.acked _ _ acked
        · exact .inr ((h.below l _ accepted).mono step)
        · exact .inr ((h.below l q accepted).mono step)
      | sent req last sent addr_eq origin_eq =>
        subst last addr_eq origin_eq
        obtain rfl | below := h.sent req sent
        · exact .inl rfl
        · exact .inr (below.mono step)
  · intro l addr origin mem
    obtain old | ⟨entries, answered⟩ := split mem
    · obtain ⟨entries, answered⟩ := h.installed l addr origin old
      exact ⟨entries, step.history_grows.subset answered⟩
    · exact ⟨entries, step.history_grows.subset answered⟩

/-! ## A small hierarchy

One level of two sets with two ways each, one bank and two MSHR entries. -/

def tiny : Config where
  cacheMaxLevel := 1
  level _ :=
    { cacheSize := 64, cacheLineSize := 16, mappingWays := 2, accessLatency := 1
      reqQueueSizePerBank := 2, ackQueueSizePerBank := 2, bankNum := 1
      mshrEntryNum := 2, mshrSizePerEntry := 2 }
  reqQueueToMemSize := 4

end DataflowSim.Memory.Cache
