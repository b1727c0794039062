import DataflowSim.Memory.Recency

/-!
# Clocks of the cache

`MemSystem::MemSystemUpdate` serves the cache once in each clock. Between two updates the cache
is called for acks, for completed transactions and with new requests, in any number. An update
is a sequence of the functions of the cache, which the state determines.
-/

namespace DataflowSim.Memory.Cache

/-- A call on the cache between two updates. -/
inductive Call where
  | addTransaction (req : MemReq)
  | callBack (ackQueueId : Nat)
  | complete (i : Nat)
  deriving DecidableEq, Repr

def Call.op : Call → Op
  | addTransaction req => .addTransaction req
  | callBack ackQueueId => .callBack ackQueueId
  | complete i => .complete i

/-- What happens to the cache in one clock: the calls before its update, and the answers of the
memory to the transactions that it is offered after the update. -/
structure ClockInput where
  calls : List Call
  accept : List Bool := []
  deriving DecidableEq, Repr

def ClockInput.ops (c : ClockInput) : List Op :=
  c.calls.map Call.op ++ [.cacheUpdate true, .sendReq2Mem c.accept]

variable (cfg : Config)

/-- The calls of a clock. -/
def makeCalls (s : Cache) (calls : List Call) : Option Cache :=
  (calls.map Call.op).foldlM (step cfg) s

def clock (s : Cache) (c : ClockInput) : Option Cache := c.ops.foldlM (step cfg) s

def clocks (cs : List ClockInput) : Option Cache := cs.foldlM (clock cfg) (init cfg)

/-! ## The functions of an update -/

def play (s : Cache) (parts : List Part) : Cache := parts.foldl (Part.apply cfg) s

/-- The functions of a loop, from the state that each round finds. -/
def roundParts (parts : Cache → Nat → List Part) (s : Cache) : List Nat → List Part
  | [] => []
  | i :: is => parts s i ++ roundParts parts (play cfg s (parts s i)) is

def fillUpperParts (level : Nat) (req : CacheReq) : List Part :=
  .recordResponse req.addr level req.origin :: .setMshrEntryReady req.addr level ::
    if req.cacheOp = .WRITE ∧ (cfg.level level).writeAllocate = .WRITE_NON_ALLOCATE then []
    else [.fillBlock req.addr level req.origin]

/-- The acks of the level reach the level above before the level itself is answered. -/
def upperParts (s : Cache) (level : Nat) : List Part :=
  if 0 < level then
    .popAckQueue level ::
      (popAckQueue cfg s level).1.flatMap (fillUpperParts cfg (level - 1))
  else []

def ackParts (s : Cache) (level : Nat) : List Part :=
  upperParts cfg s level ++ .respondMshr level ::
    (List.range (cfg.level level).bankNum).map (Part.sendReady level)

def lookupParts (s : Cache) (level ptr : Nat) : List Nat → List Part
  | [] => []
  | i :: banks =>
    if (s.level level).mshr.seekMshrFreeEntry then
      .lookup level ((ptr + i) % (cfg.level level).bankNum) ::
        lookupParts (lookup cfg s level ((ptr + i) % (cfg.level level).bankNum)) level ptr banks
    else []

def queueParts (s : Cache) (level : Nat) : List Part :=
  lookupParts cfg s level (s.level level).reqQueueBankPtr (List.range (cfg.level level).bankNum) ++
    [.nextBank level]

/-- The functions of an update before its look ups. -/
def answerParts (s : Cache) : List Part :=
  .resetBankConflictRecorder ::
    (roundParts cfg (ackParts cfg) (resetBankConflictRecorder cfg s)
        (List.range cfg.cacheMaxLevel).reverse ++
      (List.range cfg.cacheMaxLevel).map Part.sendMshrOutstandingReqLevel)

/-- The functions of an update before the latencies count down. -/
def serveParts (s : Cache) : List Part :=
  answerParts cfg s ++
    roundParts cfg (queueParts cfg) (play cfg s (answerParts cfg s)) (List.range cfg.cacheMaxLevel)

def updateParts (s : Cache) : List Part := serveParts cfg s ++ [.updateReqQueueLatency true]

variable {cfg} {ports : Set Port} {s t : Cache}

theorem play_append (s : Cache) (ps qs : List Part) :
    play cfg s (ps ++ qs) = play cfg (play cfg s ps) qs := List.foldl_append

@[simp] theorem play_nil (s : Cache) : play cfg s [] = s := rfl

@[simp] theorem play_cons (s : Cache) (p : Part) (ps : List Part) :
    play cfg s (p :: ps) = play cfg (p.apply cfg s) ps := rfl

theorem play_roundParts {f : Cache → Nat → Cache} {parts : Cache → Nat → List Part}
    (one : ∀ s i, play cfg s (parts s i) = f s i) (s : Cache) (is : List Nat) :
    play cfg s (roundParts cfg parts s is) = is.foldl f s := by
  induction is generalizing s with
  | nil => rfl
  | cons i is ih => rw [roundParts, play_append, ih, one, List.foldl_cons]

theorem mem_roundParts {parts : Cache → Nat → List Part} {is : List Nat} {p : Part}
    (mem : p ∈ roundParts cfg parts s is) : ∃ i ∈ is, ∃ u, p ∈ parts u i := by
  induction is generalizing s with
  | nil => simp [roundParts] at mem
  | cons i is ih =>
    obtain here | later := List.mem_append.mp mem
    · exact ⟨i, List.mem_cons_self, s, here⟩
    · obtain ⟨j, listed, found⟩ := ih later
      exact ⟨j, List.mem_cons_of_mem i listed, found⟩

theorem play_fillUppers (s : Cache) (level : Nat) (reqs : List CacheReq) :
    play cfg s (reqs.flatMap (fillUpperParts cfg level)) = reqs.foldl (fillUpper cfg level) s := by
  induction reqs generalizing s with
  | nil => rfl
  | cons req reqs ih =>
    rw [List.flatMap_cons, play_append, ih, List.foldl_cons]
    congr 1
    unfold fillUpperParts fillUpper
    split_ifs <;> rfl

theorem play_ackParts (s : Cache) (level : Nat) :
    play cfg s (ackParts cfg s level) = updateAckQueueLevel cfg s level := by
  have upper : play cfg s (upperParts cfg s level) =
      if 0 < level then
        (popAckQueue cfg s level).1.foldl (fillUpper cfg (level - 1)) (popAckQueue cfg s level).2
      else s := by
    unfold upperParts
    split_ifs
    · rw [play_cons, play_fillUppers]
      rfl
    · rfl
  rw [ackParts, play_append, upper, play_cons]
  simp only [play, List.foldl_map]
  rfl

theorem play_lookupParts (s : Cache) (level ptr : Nat) (banks : List Nat) :
    play cfg s (lookupParts cfg s level ptr banks) = lookupBanks cfg s level ptr banks := by
  induction banks generalizing s with
  | nil => rfl
  | cons i banks ih =>
    rw [lookupParts, lookupBanks]
    split_ifs
    · exact ih _
    · rfl

theorem play_queueParts (s : Cache) (level : Nat) :
    play cfg s (queueParts cfg s level) = updateReqQueueLevel cfg s level := by
  rw [queueParts, play_append, play_lookupParts]
  rfl

theorem play_answerParts (s : Cache) : play cfg s (answerParts cfg s) =
    sendMshrOutstandingReq cfg (updateAckQueue cfg (resetBankConflictRecorder cfg s)) := by
  rw [answerParts, play_cons, play_append]
  change play cfg (play cfg (resetBankConflictRecorder cfg s) _) _ = _
  rw [play_roundParts play_ackParts]
  simp only [play, List.foldl_map]
  rfl

theorem play_serveParts (s : Cache) : play cfg s (serveParts cfg s) =
    updateReqQueue cfg (sendMshrOutstandingReq cfg
      (updateAckQueue cfg (resetBankConflictRecorder cfg s))) := by
  rw [serveParts, play_append, play_roundParts play_queueParts, play_answerParts]
  rfl

/-- The functions of an update, one after the other, are the update. -/
theorem play_updateParts (s : Cache) : play cfg s (updateParts cfg s) = cacheUpdate cfg s true := by
  rw [updateParts, play_append, play_serveParts]
  rfl

/-! ## Each of them is a chain of atomic steps -/

variable (cfg ports) in
/-- Each function is a chain of atomic steps from the state that it finds. -/
def Stepwise (s : Cache) : List Part → Prop
  | [] => True
  | p :: ps => Steps cfg ports s (p.apply cfg s) ∧ Stepwise (p.apply cfg s) ps

theorem stepwise_append {ps qs : List Part} :
    Stepwise cfg ports s (ps ++ qs) ↔
      Stepwise cfg ports s ps ∧ Stepwise cfg ports (play cfg s ps) qs := by
  induction ps generalizing s with
  | nil => simp [Stepwise]
  | cons p ps ih => simp only [List.cons_append, Stepwise, ih, play_cons, and_assoc]

theorem Stepwise.steps {ps : List Part} (h : Stepwise cfg ports s ps) :
    Steps cfg ports s (play cfg s ps) := by
  induction ps generalizing s with
  | nil => exact .refl
  | cons p ps ih => exact h.1.trans (ih h.2)

/-- Functions that are chains from any state. -/
theorem stepwise_map {f : Nat → Part} {is : List Nat}
    (one : ∀ i ∈ is, ∀ s, Steps cfg ports s ((f i).apply cfg s)) (s : Cache) :
    Stepwise cfg ports s (is.map f) := by
  induction is generalizing s with
  | nil => trivial
  | cons i is ih =>
    obtain ⟨here, rest⟩ := List.forall_mem_cons.mp one
    exact ⟨here s, ih rest _⟩

theorem stepwise_roundParts {parts : Cache → Nat → List Part} {is : List Nat}
    (one : ∀ i ∈ is, ∀ s, AcksRecorded s → Stepwise cfg ports s (parts s i))
    (recorded : AcksRecorded s) : Stepwise cfg ports s (roundParts cfg parts s is) := by
  induction is generalizing s with
  | nil => trivial
  | cons i is ih =>
    obtain ⟨here, rest⟩ := List.forall_mem_cons.mp one
    have first := here s recorded
    exact stepwise_append.mpr ⟨first, ih rest (first.steps.acksRecorded recorded)⟩

theorem fillUpperParts_stepwise {level : Nat} {req : CacheReq} (bound : level ≤ cfg.llc)
    (acked : .acked (level + 1) req ∈ s.history ∨ req = {}) :
    Stepwise cfg ports s (fillUpperParts cfg level req) := by
  have first : Step cfg ports s _ := .response level req.addr req.origin (.of_ack acked)
  have second := @answered_ready_step cfg s ports level req.addr req.origin
  unfold fillUpperParts
  split_ifs
  · exact ⟨.single first, .single second, trivial⟩
  · exact ⟨.single first, .single second, answered_fill_steps ports bound req.addr req.origin,
      trivial⟩

theorem fillUppers_stepwise {level : Nat} (bound : level ≤ cfg.llc) (reqs : List CacheReq)
    (s : Cache) (acked : ∀ r ∈ reqs, .acked (level + 1) r ∈ s.history ∨ r = {}) :
    Stepwise cfg ports s (reqs.flatMap (fillUpperParts cfg level)) := by
  induction reqs generalizing s with
  | nil => trivial
  | cons r reqs ih =>
    have first : Stepwise cfg ports s (fillUpperParts cfg level r) :=
      fillUpperParts_stepwise bound (acked r List.mem_cons_self)
    rw [List.flatMap_cons]
    refine stepwise_append.mpr ⟨first, ih _ fun q mem => ?_⟩
    exact (acked q (List.mem_cons_of_mem r mem)).imp_left (first.steps.history_grows.subset ·)

theorem ackParts_stepwise {level : Nat} (bound : level ≤ cfg.llc) (recorded : AcksRecorded s) :
    Stepwise cfg ports s (ackParts cfg s level) := by
  have upper : Stepwise cfg ports s (upperParts cfg s level) := by
    unfold upperParts
    split
    case isFalse => trivial
    case isTrue inner =>
      have popped : Steps cfg ports s (popAckQueue cfg s level).2 := popAckQueue_steps inner
      refine ⟨popped, fillUppers_stepwise (by omega) _ _ fun r mem => ?_⟩
      rw [show level - 1 + 1 = level by omega]
      exact (popAckQueue_mem recorded mem).imp_left (popped.history_grows.subset ·)
  exact stepwise_append.mpr ⟨upper, respondMshr_steps level,
    stepwise_map (fun bankId _ _ => sendReady_steps level bankId) _⟩

theorem lookupParts_stepwise {level : Nat} (some_bank : 0 < (cfg.level level).bankNum) (ptr : Nat)
    (banks : List Nat) (s : Cache) : Stepwise cfg ports s (lookupParts cfg s level ptr banks) := by
  induction banks generalizing s with
  | nil => trivial
  | cons i banks ih =>
    rw [lookupParts]
    split
    case isTrue free => exact ⟨lookup_steps (Nat.mod_lt _ some_bank) free, ih _⟩
    case isFalse => trivial

theorem queueParts_stepwise (s : Cache) (level : Nat) :
    Stepwise cfg ports s (queueParts cfg s level) := by
  refine stepwise_append.mpr ⟨?_, .single (.book (setLevel_same rfl rfl rfl rfl rfl rfl rfl)), trivial⟩
  rcases Nat.eq_zero_or_pos (cfg.level level).bankNum with none | some_bank
  · rw [none]
    trivial
  · exact lookupParts_stepwise some_bank _ _ s

theorem answerParts_stepwise (recorded : AcksRecorded s) :
    Stepwise cfg ports s (answerParts cfg s) := by
  have reset : Steps cfg ports s (resetBankConflictRecorder cfg s) := resetBankConflictRecorder_steps
  refine ⟨reset, stepwise_append.mpr ⟨?_, ?_⟩⟩
  · refine stepwise_roundParts (fun level mem s recorded => ?_) (reset.acksRecorded recorded)
    exact ackParts_stepwise (level_le_llc (List.mem_reverse.mp mem)) recorded
  · exact stepwise_map (fun level mem _ => sendMshrOutstandingReqLevel_steps (level_le_llc mem)) _

theorem serveParts_stepwise (recorded : AcksRecorded s) :
    Stepwise cfg ports s (serveParts cfg s) := by
  have answered : Stepwise cfg ports s (answerParts cfg s) := answerParts_stepwise recorded
  exact stepwise_append.mpr ⟨answered, stepwise_roundParts
    (fun level _ s _ => queueParts_stepwise s level) (answered.steps.acksRecorded recorded)⟩

/-- Each function of an update is a chain of atomic steps. -/
theorem updateParts_stepwise (recorded : AcksRecorded s) :
    Stepwise cfg ports s (updateParts cfg s) :=
  stepwise_append.mpr ⟨serveParts_stepwise recorded, updateReqQueueLatency_steps true, trivial⟩

/-! ## Each clock is one -/

theorem clock_eq_some {c : ClockInput} : clock cfg s c = some t ↔
    ∃ u, makeCalls cfg s c.calls = some u ∧
      sendReq2Mem (cacheUpdate cfg u true) c.accept = t := by
  simp only [clock, ClockInput.ops, Run.append_eq_some, Run.cons_eq_some, Run.nil_eq_some, step,
    Option.some.injEq, exists_eq_left', makeCalls]

theorem clocks_steps {cs : List ClockInput} (recorded : AcksRecorded s)
    (done : cs.foldlM (clock cfg) s = some t) : Steps cfg Set.univ s t := by
  unfold clock at done
  rw [← Run.flatMap] at done
  exact ops_steps recorded done

theorem clocks_eq_run (cs : List ClockInput) :
    clocks cfg cs = run cfg (cs.flatMap ClockInput.ops) := Run.flatMap.symm

end DataflowSim.Memory.Cache
