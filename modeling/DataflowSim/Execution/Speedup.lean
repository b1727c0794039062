import DataflowSim.Execution.Clock

/-!
# What an iteration does to threads and clock

Each function of a module leaves the thread id alone, except for `parallelize`, and only
`statusUpdate` and the memory system access `suspendReqVec`. So whatever the calls of one
iteration do to the data, and in whatever order they come, the thread ids, the stalls and the
status updates afterwards depend on the thread ids before only.
-/

namespace DataflowSim.Execution

open Memory (MemReq)

namespace Chan

/-- The thread id after `parallelize`. -/
def nextId (c : ChanConfig) (clkAdd : Bool) (id : Nat) : Nat :=
  if 1 < c.speedup then
    if clkAdd then 1 else if id ≤ c.speedup then id + 1 else id
  else id

/-- Neither the thread id, nor the status, nor the numbers of status updates and of data sent
differ. -/
structure SameThread (x y : Chan) : Prop where
  currId : y.currId = x.currId
  statusUpdates : y.statusUpdates = x.statusUpdates
  valid : y.valid = x.valid
  chanDataCnt : y.chanDataCnt = x.chanDataCnt

theorem SameThread.trans {x y z : Chan} (h : SameThread x y) (k : SameThread y z) :
    SameThread x z :=
  ⟨k.currId.trans h.currId, k.statusUpdates.trans h.statusUpdates, k.valid.trans h.valid,
    k.chanDataCnt.trans h.chanDataCnt⟩

variable (c : ChanConfig) (e : Clock) (up : Nat → Upstream)

theorem parallelize_thread (x : Chan) : (parallelize c e x).currId = nextId c e.clkAdd x.currId ∧
    (parallelize c e x).statusUpdates = x.statusUpdates := by
  unfold parallelize nextId
  split_ifs <;> exact ⟨rfl, rfl⟩

theorem pushBuffer_thread (x : Chan) (data : Int) (b : Nat) :
    SameThread x (pushBuffer c e up x data b).1 := by
  unfold pushBuffer
  dsimp only
  split_ifs <;> exact ⟨rfl, rfl, rfl, rfl⟩

theorem push_thread (x : Chan) (data : Int) (b : Nat) :
    SameThread x (push c e up x data b).1 := by
  have stored := pushBuffer_thread c e up x data b
  unfold push
  dsimp only
  split <;> split_ifs
  · exact ⟨stored.currId, stored.statusUpdates, stored.valid, stored.chanDataCnt⟩
  · exact ⟨rfl, rfl, rfl, rfl⟩
  · exact ⟨stored.currId, stored.statusUpdates, stored.valid, stored.chanDataCnt⟩
  · exact ⟨rfl, rfl, rfl, rfl⟩

theorem pushAll_thread (inputs : List (Int × Nat)) (x : Chan) :
    SameThread x (pushAll c e up x inputs).1 := by
  refine List.foldlRecOn (motive := fun s : Chan × Nat => SameThread x s.1) _ _ ⟨rfl, rfl, rfl, rfl⟩ ?_
  intro s same input _
  exact same.trans (push_thread c e up s.1 input.1 input.2)

theorem pop_thread (downstream : List Nat) (x : Chan) : SameThread x (pop c downstream x) := by
  unfold pop popChannel
  split_ifs <;> exact ⟨rfl, rfl, rfl, rfl⟩

theorem statusUpdate_sent (sendable : Bool) (x : Chan) :
    (statusUpdate c e up sendable x).chanDataCnt = x.chanDataCnt +
      if (statusUpdate c e up sendable x).valid = true then 1 else 0 := by
  unfold statusUpdate pushChannel
  dsimp only
  split_ifs <;> rfl

theorem statusUpdate_thread (sendable : Bool) (x : Chan) :
    (statusUpdate c e up sendable x).currId = x.currId ∧
      (statusUpdate c e up sendable x).statusUpdates = x.statusUpdates + 1 := by
  unfold statusUpdate pushChannel
  dsimp only
  split_ifs <;> exact ⟨rfl, rfl⟩

/-- Whether the channel updates its status in this iteration. -/
def Awake (id : Nat) : Prop :=
  id ≤ c.speedup ∨ c.noUpstream = false ∧ (e.clkAdd = true ∨ c.chanType = .Chan_DGSF)

instance (id : Nat) : Decidable (Awake c e id) := by
  unfold Awake
  infer_instance

theorem get_thread (downstream : List Nat) (sendable : Bool) (data : List Int) (x : Chan) :
    let y := (get c e up downstream sendable data x).1
    let id := nextId c e.clkAdd x.currId
    y.currId = id ∧
      y.statusUpdates = x.statusUpdates + (if Awake c e id then 1 else 0) ∧
      (y.valid = true → Awake c e id) := by
  intro y id
  obtain ⟨counted, before⟩ := parallelize_thread c e x
  have popped := pop_thread c downstream (parallelize c e x)
  have pushed := pushAll_thread c e up (if c.noUpstream then data.zipIdx
    else (List.range c.upNum).map fun i => ((up i).value, i)) (pop c downstream (parallelize c e x))
  have same := popped.trans pushed
  have current : (pushAll c e up (pop c downstream (parallelize c e x))
      (if c.noUpstream then data.zipIdx
        else (List.range c.upNum).map fun i => ((up i).value, i))).1.currId = id :=
    same.currId.trans counted
  have updates := same.statusUpdates.trans before
  simp only [y, get]
  generalize (pushAll c e up (pop c downstream (parallelize c e x))
    (if c.noUpstream then data.zipIdx
      else (List.range c.upNum).map fun i => ((up i).value, i))).1 = z at current updates
  obtain ⟨status, count⟩ := statusUpdate_thread c e up sendable z
  rw [current]
  by_cases awake : Awake c e id
  · have runs := awake
    unfold Awake at runs
    rw [if_pos runs, if_pos awake]
    exact ⟨status.trans current, count.trans (by rw [updates]), fun _ => awake⟩
  · have sleeps := awake
    unfold Awake at sleeps
    rw [if_neg sleeps, if_neg awake]
    exact ⟨rfl, updates, fun valid => by simp [bpUpdate] at valid⟩

/-- A channel is valid after `get` exactly when it has sent a datum. -/
theorem get_sent (downstream : List Nat) (sendable : Bool) (data : List Int) (x : Chan) :
    (get c e up downstream sendable data x).1.chanDataCnt = x.chanDataCnt +
      if (get c e up downstream sendable data x).1.valid = true then 1 else 0 := by
  have before : (parallelize c e x).chanDataCnt = x.chanDataCnt := by
    unfold parallelize
    split_ifs <;> rfl
  have same := (pop_thread c downstream (parallelize c e x)).trans
    (pushAll_thread c e up (if c.noUpstream then data.zipIdx
      else (List.range c.upNum).map fun i => ((up i).value, i)) (pop c downstream (parallelize c e x)))
  have sent := same.chanDataCnt.trans before
  have run (z : Chan) (counted : z.chanDataCnt = x.chanDataCnt) :
      let y := bpUpdate c (if z.currId ≤ c.speedup ∨ c.noUpstream = false ∧
          (e.clkAdd = true ∨ c.chanType = .Chan_DGSF) then statusUpdate c e up sendable z
        else { z with
          valid := false
          pushChannelSuccess := if c.noUpstream then z.pushChannelSuccess else false })
      y.chanDataCnt = x.chanDataCnt + if y.valid = true then 1 else 0 := by
    intro y
    rw [← counted]
    by_cases awake : z.currId ≤ c.speedup ∨
        c.noUpstream = false ∧ (e.clkAdd = true ∨ c.chanType = .Chan_DGSF)
    · simp only [y, if_pos awake]
      exact statusUpdate_sent c e up sendable z
    · simp only [y, if_neg awake]
      rfl
  exact run _ sent

end Chan

namespace Lse

open Chan (SameThread nextId Awake)

variable (c : ChanConfig) (lc : LseConfig) (e : Clock) (up : Nat → Upstream)

/-- As `SameThread`, and no access of `suspendReqVec` was added. -/
structure Quiet (x y : Lse) : Prop where
  thread : SameThread x.toChan y.toChan
  accesses : y.accesses = x.accesses

theorem Quiet.trans {x y z : Lse} (h : Quiet x y) (k : Quiet y z) : Quiet x z :=
  ⟨h.thread.trans k.thread, k.accesses.trans h.accesses⟩

theorem pop_quiet (x : Lse) : Quiet x (pop lc x) := by
  unfold pop
  split_ifs <;> exact ⟨⟨rfl, rfl, rfl, rfl⟩, rfl⟩

theorem pushReqQ_quiet (x : Lse) : Quiet x (pushReqQ c lc e x).1 := by
  unfold pushReqQ
  dsimp only
  split_ifs <;> exact ⟨⟨rfl, rfl, rfl, rfl⟩, rfl⟩

theorem pushChannel_quiet (x : Lse) : Quiet x (pushChannel c lc e x) := by
  unfold pushChannel
  dsimp only
  split_ifs <;> exact ⟨⟨rfl, rfl, rfl, rfl⟩, rfl⟩

/-- A request is selected with one access. -/
theorem select_quiet (x : Lse) : Quiet x.access (select c lc e x) := by
  unfold select
  dsimp only
  split_ifs <;> exact ⟨⟨rfl, rfl, rfl, rfl⟩, rfl⟩

theorem statusUpdate_accesses (sendable : Bool) (x : Lse) :
    let y := (statusUpdate c lc e sendable x).1
    y.currId = x.currId ∧ y.statusUpdates = x.statusUpdates + 1 ∧
      y.accesses = x.accesses ++ [x.currId] := by
  have run (z : Lse) (quiet : Quiet x z) :
      let w := pushChannel c lc e (select c lc e z)
      w.currId = x.currId ∧ w.statusUpdates = x.statusUpdates ∧
        w.accesses = x.accesses ++ [x.currId] := by
    have later := (select_quiet c lc e z).trans (pushChannel_quiet c lc e (select c lc e z))
    refine ⟨later.thread.currId.trans quiet.thread.currId,
      later.thread.statusUpdates.trans quiet.thread.statusUpdates, ?_⟩
    rw [later.accesses, ← quiet.thread.currId, ← quiet.accesses]
    rfl
  intro y
  simp only [y, statusUpdate]
  split_ifs
  · obtain ⟨id, updates, accesses⟩ := run _ (pushReqQ_quiet c lc e x)
    exact ⟨id, congrArg (· + 1) updates, accesses⟩
  · obtain ⟨id, updates, accesses⟩ := run x ⟨⟨rfl, rfl, rfl, rfl⟩, rfl⟩
    exact ⟨id, congrArg (· + 1) updates, accesses⟩

theorem get_accesses (sendable : Bool) (x : Lse) :
    let y := (get c lc e up sendable x).1
    let id := nextId c e.clkAdd x.currId
    y.currId = id ∧
      if id ≤ c.speedup ∨ e.clkAdd = true then
        y.statusUpdates = x.statusUpdates + 1 ∧ y.accesses = x.accesses ++ [id]
      else y.statusUpdates = x.statusUpdates ∧ y.accesses = x.accesses ∧ y.valid = false := by
  intro y id
  obtain ⟨counted, before⟩ := Chan.parallelize_thread c e x.toChan
  have popped := pop_quiet lc { x with toChan := Chan.parallelize c e x.toChan }
  simp only [y, get]
  generalize pop lc { x with toChan := Chan.parallelize c e x.toChan } = u at popped
  have pushed := Chan.pushAll_thread c e up ((List.range c.upNum).map fun i => ((up i).value, i))
    u.toChan
  generalize (Chan.pushAll c e up u.toChan
    ((List.range c.upNum).map fun i => ((up i).value, i))) = z at pushed
  have current : z.1.currId = id := (popped.thread.trans pushed).currId.trans counted
  have updates := (popped.thread.trans pushed).statusUpdates.trans before
  rw [current]
  split_ifs with awake
  · obtain ⟨status, count, added⟩ := statusUpdate_accesses c lc e sendable { u with toChan := z.1 }
    refine ⟨status.trans current, count.trans (congrArg (· + 1) updates), added.trans ?_⟩
    rw [current, popped.accesses]
  · exact ⟨rfl, updates, popped.accesses, rfl⟩

theorem visit_accesses (taken : Option MemReq) (x : Lse) :
    SameThread x.toChan (x.visit taken).toChan ∧
      ∀ a ∈ (x.visit taken).accesses, a ∈ x.accesses ∨ a = x.currId := by
  have seen : ∀ a ∈ x.accesses ++ [x.currId], a ∈ x.accesses ∨ a = x.currId := by simp
  have taken : ∀ a ∈ x.accesses ++ [x.currId] ++ [x.currId], a ∈ x.accesses ∨ a = x.currId := by
    simp
  unfold visit setInflight
  split
  · dsimp only
    split_ifs <;> exact ⟨⟨rfl, rfl, rfl, rfl⟩, taken⟩
  · exact ⟨⟨rfl, rfl, rfl, rfl⟩, seen⟩

end Lse

namespace ModuleConfig

open Chan (nextId)

def isDgsf : ModuleConfig → Bool
  | chan c => c.chanType = .Chan_DGSF
  | lse _ _ => false

/-- Where `get` of a module runs `statusUpdate`; only a `ChanDGSF` does so in any thread. -/
theorem get_thread (m : ModuleConfig) (e : Clock) (i : Input) (x : m.State) :
    let id := nextId m.base e.clkAdd (m.core x).currId
    let y := m.get e i x
    (m.core y).currId = id ∧
      (m.isDgsf = false → (e.clkAdd = true → id ≤ m.base.speedup) →
        (m.core y).statusUpdates =
            (m.core x).statusUpdates + (if id ≤ m.base.speedup then 1 else 0) ∧
          ((m.core y).valid = true → id ≤ m.base.speedup)) ∧
      ∀ a ∈ m.accesses y, a ∈ m.accesses x ∨ a = id := by
  intro id y
  cases m with
  | chan c =>
    obtain ⟨current, updates, valid⟩ :=
      Chan.get_thread c e i.up i.downstream i.sendable i.data x
    refine ⟨current, fun plain first => ?_, fun a mem => .inl mem⟩
    have awake : Chan.Awake c e id ↔ id ≤ c.speedup := by
      have type : c.chanType ≠ .Chan_DGSF := by simpa [isDgsf] using plain
      refine ⟨fun h => ?_, .inl⟩
      obtain within | ⟨-, added | dgsf⟩ := h
      · exact within
      · exact first added
      · exact absurd dgsf type
    refine ⟨updates.trans ?_, fun h => awake.mp (valid h)⟩
    exact congrArg _ (if_congr awake rfl rfl)
  | lse c lc =>
    obtain ⟨current, rest⟩ := Lse.get_accesses c lc e i.up i.sendable x
    split_ifs at rest with awake
    · obtain ⟨updates, accesses⟩ := rest
      refine ⟨current, fun _ first => ?_, fun a mem => ?_⟩
      · have within : id ≤ (lse c lc).base.speedup := awake.elim (fun h => h) first
        exact ⟨updates.trans (by rw [if_pos within]; rfl), fun _ => within⟩
      · change a ∈ (Lse.get c lc e i.up i.sendable x).1.accesses at mem
        rw [accesses, List.mem_append, List.mem_singleton] at mem
        exact mem
    · obtain ⟨updates, accesses, valid⟩ := rest
      refine ⟨current, fun _ _ => ?_, fun a mem => .inl ?_⟩
      · have beyond : ¬ id ≤ (lse c lc).base.speedup := fun h => awake (.inl h)
        refine ⟨updates.trans (by rw [if_neg beyond]; rfl), fun h => ?_⟩
        exact absurd (valid.symm.trans h) Bool.false_ne_true
      · change a ∈ (Lse.get c lc e i.up i.sendable x).1.accesses at mem
        rwa [accesses] at mem

/-- What the others do to a module leaves its thread alone. -/
structure Untouched (m : ModuleConfig) (x y : m.State) : Prop where
  currId : (m.core y).currId = (m.core x).currId
  statusUpdates : (m.core y).statusUpdates = (m.core x).statusUpdates
  valid : (m.core y).valid = true → (m.core x).valid = true
  accesses : ∀ a ∈ m.accesses y, a ∈ m.accesses x ∨ a = (m.core x).currId

theorem edit_untouched (m : ModuleConfig) (change : Edit) (x : m.State) :
    Untouched m x (m.edit change x) := by
  have chan (x : Chan) : (change.apply x).currId = x.currId ∧
      (change.apply x).statusUpdates = x.statusUpdates ∧
      ((change.apply x).valid = true → x.valid = true) := by
    cases change <;> exact ⟨rfl, rfl, by simp [Edit.apply]⟩
  cases m with
  | chan c => exact ⟨(chan x).1, (chan x).2.1, (chan x).2.2, fun a mem => .inl mem⟩
  | lse c lc =>
    exact ⟨(chan x.toChan).1, (chan x.toChan).2.1, (chan x.toChan).2.2, fun a mem => .inl mem⟩

theorem visit_untouched (m : ModuleConfig) (taken : Option MemReq) (x : m.State) :
    Untouched m x (m.visit taken x) := by
  cases m with
  | chan c => exact ⟨rfl, rfl, fun h => h, fun a mem => .inl mem⟩
  | lse c lc =>
    obtain ⟨same, accesses⟩ := Lse.visit_accesses taken x
    exact ⟨same.currId, same.statusUpdates, fun h => same.valid.symm.trans h, accesses⟩

theorem ackCallback_untouched (m : ModuleConfig) (req : MemReq) (x : m.State) :
    Untouched m x (m.ackCallback req x) := by
  cases m <;> exact ⟨rfl, rfl, fun h => h, fun a mem => .inl mem⟩

end ModuleConfig

namespace Design

open Chan (nextId)
open ModuleConfig (Untouched)

variable {d : Design}

/-- The modules that are updated by the calls. -/
def updated (calls : List Call) : List Nat := calls.filterMap Call.updated

namespace System

/-- The thread id of the module after its next update. -/
def next (s : System d) (m : Nat) : Nat :=
  nextId (d.config m).base s.clock.clkAdd (s.core m).currId

@[simp] theorem set_clock (s : System d) (k : Nat) (x : (d.config k).State) :
    (s.set k x).clock = s.clock := rfl
@[simp] theorem set_core (s : System d) (k : Nat) (x : (d.config k).State) :
    (s.set k x).core k = (d.config k).core x := by simp [core, set]
@[simp] theorem set_accesses (s : System d) (k : Nat) (x : (d.config k).State) :
    (s.set k x).accesses k = (d.config k).accesses x := by simp [accesses, set]
theorem set_core_of_ne (s : System d) {k m : Nat} (x : (d.config k).State) (ne : m ≠ k) :
    (s.set k x).core m = s.core m := by simp [core, set, ne]
theorem set_accesses_of_ne (s : System d) {k m : Nat} (x : (d.config k).State) (ne : m ≠ k) :
    (s.set k x).accesses m = s.accesses m := by simp [accesses, set, ne]

/-- What calls of one iteration do to the threads of the modules and to the clock. -/
structure Called (s t : System d) (calls : List Call) : Prop where
  clock : t.clock.toClock = s.clock.toClock
  currId : ∀ m, (t.core m).currId = if m ∈ updated calls then s.next m else (s.core m).currId
  stall : t.clock.clkStall = [] ↔ s.clock.clkStall = [] ∧
    ∀ m ∈ updated calls, 1 < d.speedup m → d.speedup m ≤ s.next m
  others : ∀ m, m ∉ updated calls → (t.core m).statusUpdates = (s.core m).statusUpdates ∧
    ((t.core m).valid = true → (s.core m).valid = true) ∧
    ∀ a ∈ t.accesses m, a ∈ s.accesses m ∨ a = (s.core m).currId
  status : ∀ m ∈ updated calls, (d.config m).isDgsf = false →
    (s.clock.clkAdd = true → s.next m ≤ d.speedup m) →
    (t.core m).statusUpdates =
        (s.core m).statusUpdates + (if s.next m ≤ d.speedup m then 1 else 0) ∧
      ((t.core m).valid = true → s.next m ≤ d.speedup m)
  accesses : ∀ m, ∀ a ∈ t.accesses m,
    a ∈ s.accesses m ∨ a = (s.core m).currId ∨ a = s.next m

theorem Called.next {s t : System d} {calls : List Call} (h : Called s t calls) {m : Nat}
    (free : m ∉ updated calls) : t.next m = s.next m := by
  unfold System.next
  rw [h.currId, if_neg free, show t.clock.clkAdd = s.clock.clkAdd from congrArg _ h.clock]

theorem mem_updated_append {calls more : List Call} {m : Nat} :
    m ∈ updated (calls ++ more) ↔ m ∈ updated calls ∨ m ∈ updated more := by
  simp [updated]

/-- Calls that update different modules, one after the other. -/
theorem Called.append {s t u : System d} {calls more : List Call} (h : Called s t calls)
    (k : Called t u more) (distinct : ∀ m ∈ updated calls, m ∉ updated more) :
    Called s u (calls ++ more) := by
  have clkAdd : t.clock.clkAdd = s.clock.clkAdd := congrArg _ h.clock
  constructor
  · exact k.clock.trans h.clock
  · intro m
    rw [k.currId, h.currId]
    by_cases first : m ∈ updated calls
    · simp [mem_updated_append, first, distinct m first]
    · simp [mem_updated_append, first, h.next first]
  · rw [k.stall, h.stall]
    constructor
    · rintro ⟨⟨empty, before⟩, after⟩
      refine ⟨empty, fun m hm => ?_⟩
      by_cases first : m ∈ updated calls
      · exact before m first
      · rw [← h.next first]
        exact after m ((mem_updated_append.mp hm).resolve_left first)
    · rintro ⟨empty, all⟩
      refine ⟨⟨empty, fun m hm => all m (mem_updated_append.mpr (.inl hm))⟩, fun m hm => ?_⟩
      rw [h.next fun first => distinct m first hm]
      exact all m (mem_updated_append.mpr (.inr hm))
  · intro m free
    rw [mem_updated_append, not_or] at free
    obtain ⟨updates, valid, accesses⟩ := h.others m free.1
    obtain ⟨updates', valid', accesses'⟩ := k.others m free.2
    refine ⟨updates'.trans updates, fun now => valid (valid' now), fun a ha => ?_⟩
    have current := h.currId m
    rw [if_neg free.1] at current
    obtain old | rfl := accesses' a ha
    · exact accesses a old
    · exact .inr current
  · intro m hm plain first
    by_cases here : m ∈ updated calls
    · obtain ⟨updates, valid⟩ := h.status m here plain first
      obtain ⟨same, still, -⟩ := k.others m (distinct m here)
      exact ⟨same.trans updates, fun now => valid (still now)⟩
    · have later := (mem_updated_append.mp hm).resolve_left here
      obtain ⟨updates, valid⟩ := k.status m later plain (by rwa [clkAdd, h.next here])
      rw [h.next here] at updates valid
      exact ⟨updates.trans (by rw [(h.others m here).1]), valid⟩
  · intro m a ha
    by_cases here : m ∈ updated calls
    · have current := h.currId m
      rw [if_pos here] at current
      obtain old | rfl := (k.others m (distinct m here)).2.2 a ha
      · exact h.accesses m a old
      · exact .inr (.inr current)
    · have current := h.currId m
      rw [if_neg here] at current
      rw [← h.next here, ← current]
      obtain old | eq := k.accesses m a ha
      · rw [current]
        obtain older | same := (h.others m here).2.2 a old
        · exact .inl older
        · exact .inr (.inl same)
      · exact .inr eq

/-- A call that does not update a module leaves all threads alone. -/
theorem called_set {s : System d} {k : Nat} {x : (d.config k).State} {call : Call}
    (same : call.updated = none) (h : Untouched (d.config k) (s.modules k) x) :
    Called s (s.set k x) [call] := by
  have none : updated [call] = [] := by simp [updated, same]
  have thread (m : Nat) : ((s.set k x).core m).currId = (s.core m).currId ∧
      ((s.set k x).core m).statusUpdates = (s.core m).statusUpdates ∧
      (((s.set k x).core m).valid = true → (s.core m).valid = true) ∧
      ∀ a ∈ (s.set k x).accesses m, a ∈ s.accesses m ∨ a = (s.core m).currId := by
    rcases eq_or_ne m k with rfl | ne
    · simp only [set_core, set_accesses]
      exact ⟨h.currId, h.statusUpdates, h.valid, h.accesses⟩
    · rw [set_core_of_ne s x ne, set_accesses_of_ne s x ne]
      exact ⟨rfl, rfl, fun h => h, fun a ha => .inl ha⟩
  constructor
  · rfl
  · simp [none, thread]
  · simp [none]
  · exact fun m _ => (thread m).2
  · simp [none]
  · exact fun m a ha => ((thread m).2.2.2 a ha).imp_right .inl

theorem called_get (s : System d) (k : Nat) (i : Input) :
    Called s (s.getModule k i) [.get k i] := by
  obtain ⟨current, status, accesses⟩ :=
    (d.config k).get_thread s.clock.toClock i (s.modules k)
  set x := (d.config k).get s.clock.toClock i (s.modules k) with hx
  have only : updated [Call.get k i] = [k] := rfl
  have core (m : Nat) : (s.getModule k i).core m = (s.set k x).core m := by
    unfold getModule
    dsimp only
    split_ifs <;> rfl
  have acc (m : Nat) : (s.getModule k i).accesses m = (s.set k x).accesses m := by
    unfold getModule
    dsimp only
    split_ifs <;> rfl
  have own : ((s.set k x).core k).currId = s.next k := by
    rw [set_core]
    exact current
  constructor
  · unfold getModule
    dsimp only
    split_ifs <;> rfl
  · intro m
    rw [core, only]
    simp only [List.mem_singleton]
    rcases eq_or_ne m k with rfl | ne
    · rw [if_pos rfl, own]
    · rw [if_neg ne, set_core_of_ne s x ne]
  · rw [only]
    simp only [List.mem_singleton, forall_eq]
    unfold getModule
    dsimp only
    rw [← hx, own]
    split_ifs with stalls
    · simp only [ClkDomain.addClkStall]
      constructor
      · simp
      · rintro ⟨-, through⟩
        have := through stalls.1
        omega
    · simp only [set_clock, iff_self_and]
      intro _ threads
      by_contra left
      exact stalls ⟨threads, by omega⟩
  · intro m free
    rw [only, List.mem_singleton] at free
    rw [core, acc, set_core_of_ne s x free, set_accesses_of_ne s x free]
    exact ⟨rfl, fun h => h, fun a ha => .inl ha⟩
  · intro m hm plain first
    rw [only, List.mem_singleton] at hm
    subst hm
    rw [core, set_core]
    exact status plain first
  · intro m a ha
    rw [acc] at ha
    rcases eq_or_ne m k with rfl | ne
    · rw [set_accesses] at ha
      exact (accesses a ha).imp_right .inr
    · rw [set_accesses_of_ne s x ne] at ha
      exact .inl ha

theorem called_call (s : System d) (call : Call) : Called s (s.call call) [call] := by
  cases call with
  | get k i => exact called_get s k i
  | edit k change => exact called_set rfl (ModuleConfig.edit_untouched _ _ _)
  | visit k taken => exact called_set rfl (ModuleConfig.visit_untouched _ _ _)
  | ack k req => exact called_set rfl (ModuleConfig.ackCallback_untouched _ _ _)

theorem called_nil (s : System d) : Called s s [] := by
  refine ⟨rfl, fun m => rfl, by simp [updated], fun m _ => ?_, by simp [updated],
    fun m a ha => .inl ha⟩
  exact ⟨rfl, fun h => h, fun a ha => .inl ha⟩

/-- In one iteration, the order of the calls does not matter to threads and clock. -/
theorem calls_called (s : System d) {calls : List Call} (once : (updated calls).Nodup) :
    Called s (calls.foldl call s) calls := by
  induction calls generalizing s with
  | nil => exact called_nil s
  | cons c calls ih =>
    have split : updated (c :: calls) = updated [c] ++ updated calls := by
      rw [← List.singleton_append]
      exact List.filterMap_append
    rw [split] at once
    exact (called_call s c).append (ih (s.call c) once.of_append_right)
      fun m here later => (List.disjoint_of_nodup_append once) here later

end System

end Design

end DataflowSim.Execution
