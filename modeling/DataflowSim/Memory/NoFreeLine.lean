import DataflowSim.Memory.Hierarchy

/-!
# Fills without a free line

What happens to a block that has arrived when `get_cache_free_line` reports that no line can be
freed. The report is the number -1. `setCacheBlock` hands it on as a failure and its caller goes
on without the block; `mem_req_complete` takes it for the index of a line.
-/

namespace DataflowSim.Memory.Cache

variable {cfg : Config} {s t : Cache}

/-- The block of the address is not resident, and no line can be freed for it. -/
structure NoFreeLine (cfg : Config) (s : Cache) (addr level : Nat) : Prop where
  absent : checkCacheHit cfg s (setBase cfg addr level) addr level = none
  stuck : (getCacheFreeLine cfg s (setBase cfg addr level) level).1 = none

/-- The calls that take a block which has arrived. -/
inductive FillCall where
  /-- The memory has completed the request. -/
  | memReqComplete (req : MemReq)
  | setCacheBlock (addr level : Nat) (origin : Origin)
  /-- `updateAckQueue` hands an ack of the level below to this level. -/
  | ack (level : Nat) (req : CacheReq)

namespace FillCall

variable (cfg) in
def level : FillCall → Nat
  | memReqComplete _ => cfg.llc
  | setCacheBlock _ level _ => level
  | ack level _ => level

def addr : FillCall → Nat
  | memReqComplete req => req.addr
  | setCacheBlock addr _ _ => addr
  | ack _ req => req.addr

def fromMemory : FillCall → Bool
  | memReqComplete _ => true
  | _ => false

variable (cfg) in
/-- The state after the call, if it only touches lines of the array. -/
def result (s : Cache) : FillCall → Option Cache
  | memReqComplete req => Cache.memReqComplete cfg s req
  | setCacheBlock addr level origin => some (Cache.setCacheBlock cfg s addr level origin).2
  | ack level req => some (fillUpper cfg level s req)

/-- What `set_cache_line` is called with: `mem_req_complete` keeps the answer of
`get_cache_free_line` in a `uint64_t` and does not look at it. -/
def storedAt (call : FillCall) (free : Option Nat) : Option Nat :=
  match call, free with
  | memReqComplete _, none => some (2 ^ 64 - 1)
  | _, free => free

variable (cfg) in
/-- The lines that the call reads or writes when the block is not resident. -/
def touched (s : Cache) (call : FillCall) : List Nat :=
  (List.range (cfg.level (call.level cfg)).mappingWays).map
      (setBase cfg call.addr (call.level cfg) + ·) ++
    (call.storedAt (getCacheFreeLine cfg s (setBase cfg call.addr (call.level cfg))
      (call.level cfg)).1).toList

variable (cfg) in
/-- The MSHR entries that wait for the block. -/
def Waits (s : Cache) (call : FillCall) (id : Nat) : Prop :=
  ((s.level (call.level cfg)).mshr.mshrTable id).valid = true ∧
    ((s.level (call.level cfg)).mshr.mshrTable id).blockAddr =
      cfg.getCacheBlockId call.addr (call.level cfg)

/-- The call of `setCacheBlock` alone has nothing to do with the MSHR. -/
def answers : FillCall → Bool
  | setCacheBlock .. => false
  | _ => true

end FillCall

variable (cfg) in
/-- A fill for which there is no line leaves all lines as they are, touches none outside the
array, and is not dropped: the requests that wait for it stay in their entries, which are ready
to be answered, and `setCacheBlock` reports the failure. -/
structure Intact (s : Cache) (call : FillCall) : Prop where
  inside : ∀ i ∈ call.touched cfg s, i < (cfg.level (call.level cfg)).cacheLineNum
  kept : ∃ t, call.result cfg s = some t ∧ (∀ l, (t.level l).line = (s.level l).line) ∧
    ∀ id, call.Waits cfg s id → (t.level (call.level cfg)).mshr.mshrTable id =
      { (s.level (call.level cfg)).mshr.mshrTable id with
        ready := call.answers || ((s.level (call.level cfg)).mshr.mshrTable id).ready }
  reported : ∀ addr level origin, call = .setCacheBlock addr level origin →
    (setCacheBlock cfg s addr level origin).1 = false

/-- It is the turn of a ready entry, and its head has room in its ack queue if it needs any. -/
structure Turn (cfg : Config) (s : Cache) (level id : Nat) : Prop where
  pointer : (s.level level).mshr.mshrRdPtr = id
  bound : id < (s.level level).mshr.entryNum
  valid : ((s.level level).mshr.mshrTable id).valid = true
  ready : ((s.level level).mshr.mshrTable id).ready = true
  room : ((s.level level).mshr.mshrTable id).front.cacheOp ≠ .WRITEBACK_DIRTY_BLOCK →
    (s.level level).ackBankConflict
        (cfg.getCacheBank ((s.level level).mshr.mshrTable id).front.addr level) = false ∧
      ((s.level level).ackQueue
        (cfg.getCacheBank ((s.level level).mshr.mshrTable id).front.addr level)).length <
          (cfg.level level).ackQueueSizePerBank

/-! ## The search -/

/-- A search that frees no line changes none. -/
theorem getCacheFreeLine_none {base level : Nat}
    (stuck : (getCacheFreeLine cfg s base level).1 = none) :
    (getCacheFreeLine cfg s base level).2.level = s.level := by
  unfold getCacheFreeLine at stuck ⊢
  split at stuck
  case h_1 => simp at stuck
  case h_2 full =>
    have same := selectVictim_level cfg s base level
    split at stuck
    case h_1 j u chosen =>
      rw [chosen] at same
      cases released : releaseLine cfg u (base + j) level with
      | mk i v =>
        obtain rfl : i = none := by simpa [released] using stuck
        rw [releaseLine_none released]
        exact same
    case h_2 u chosen =>
      rw [chosen] at same
      exact same

/-- The search reads lines, the queues below and the numbers drawn so far. -/
structure SameRoom (s t : Cache) : Prop where
  line : ∀ l, (t.level l).line = (s.level l).line
  reqQueue : ∀ l, (t.level l).reqQueue = (s.level l).reqQueue
  reqBankConflict : ∀ l, (t.level l).reqBankConflict = (s.level l).reqBankConflict
  reqQueue2Mem : t.reqQueue2Mem = s.reqQueue2Mem
  randCount : t.randCount = s.randCount

theorem SameRoom.sendBelow (same : SameRoom s t) (req req' : CacheReq) (level : Nat)
    (addr : req.addr = req'.addr) :
    (sendBelow cfg t req level).isSome = (sendBelow cfg s req' level).isSome := by
  unfold Cache.sendBelow sendReq2CacheBank sendReq2reqQueue2Mem
  simp only [same.reqQueue, same.reqBankConflict, same.reqQueue2Mem, addr]
  split_ifs <;> rfl

theorem SameRoom.selectVictim (same : SameRoom s t) (base level : Nat) :
    (selectVictim cfg t base level).1 = (selectVictim cfg s base level).1 ∧
      SameRoom (Cache.selectVictim cfg s base level).2 (Cache.selectVictim cfg t base level).2 := by
  unfold Cache.selectVictim
  simp only [same.line, same.randCount]
  obtain ⟨line, reqQueue, conflict, toMem, rand⟩ := same
  cases (cfg.level level).swapStyle <;>
    exact ⟨rfl, line, reqQueue, conflict, toMem, by simp [rand]⟩

theorem SameRoom.releaseLine (same : SameRoom s t) (index level : Nat) :
    (releaseLine cfg t index level).1 = (releaseLine cfg s index level).1 := by
  have sent := @SameRoom.sendBelow cfg s t same
    { valid := true
      addr := writeBackAddr cfg ((s.level level).line index).tag index level
      cacheOp := .WRITEBACK_DIRTY_BLOCK
      origin := .writeBack level t.cacheWMemoryCount }
    { valid := true
      addr := writeBackAddr cfg ((s.level level).line index).tag index level
      cacheOp := .WRITEBACK_DIRTY_BLOCK
      origin := .writeBack level s.cacheWMemoryCount } level rfl
  unfold Cache.releaseLine writeBackDirtyCacheline
  simp only [same.line]
  split_ifs
  · generalize Cache.sendBelow cfg t _ level = a at sent
    generalize Cache.sendBelow cfg s _ level = b at sent
    cases a <;> cases b <;> simp_all
  · rfl

theorem SameRoom.getCacheFreeLine (same : SameRoom s t) (base level : Nat) :
    (getCacheFreeLine cfg t base level).1 = (getCacheFreeLine cfg s base level).1 := by
  obtain ⟨chosen, after⟩ := @SameRoom.selectVictim cfg s t same base level
  unfold Cache.getCacheFreeLine
  simp only [same.line]
  split
  · rfl
  · generalize Cache.selectVictim cfg t base level = a at chosen after
    generalize Cache.selectVictim cfg s base level = b at chosen after
    obtain ⟨i, u⟩ := a
    obtain ⟨j, v⟩ := b
    obtain rfl : i = j := chosen
    cases i with
    | none => rfl
    | some i => exact after.releaseLine (base + i) level

theorem NoFreeLine.congr (same : SameRoom s t) {addr level : Nat}
    (full : NoFreeLine cfg s addr level) : NoFreeLine cfg t addr level where
  absent := by
    have blocks : SameBlocks s t := fun l i => by rw [same.line]; exact ⟨rfl, rfl⟩
    rw [checkCacheHit_congr cfg blocks]
    exact full.absent
  stuck := (same.getCacheFreeLine _ _).trans full.stuck

theorem NoFreeLine.fillBlock {addr level : Nat} (full : NoFreeLine cfg s addr level)
    (origin : Origin) :
    (fillBlock cfg s addr level origin).1 = false ∧
      (fillBlock cfg s addr level origin).2.level = s.level := by
  have kept := getCacheFreeLine_none full.stuck
  have stuck := full.stuck
  unfold Cache.fillBlock
  rw [full.absent]
  simp only [Option.isSome_none, Bool.false_eq_true, if_false]
  split
  case h_1 index u found => simp [found] at stuck
  case h_2 u found =>
    rw [found] at kept
    exact ⟨rfl, kept⟩

/-! ## The callers -/

variable (cfg) in
theorem recordResponse_room (s : Cache) (addr level : Nat) (origin : Origin) :
    SameRoom s (recordResponse cfg s addr level origin) :=
  ⟨fun _ => rfl, fun _ => rfl, fun _ => rfl, rfl, rfl⟩

variable (cfg) in
theorem setMshrEntryReady_room (s : Cache) (addr level : Nat) :
    SameRoom s (setMshrEntryReady cfg s addr level) := by
  refine ⟨fun l => (setMshrEntryReady_frame cfg s level l addr).2.2, fun l => ?_, fun l => ?_,
    rfl, rfl⟩ <;> by_cases here : l = level <;> simp [setMshrEntryReady, here]

theorem NoFreeLine.memReqComplete {req : MemReq} (full : NoFreeLine cfg s req.addr cfg.llc) :
    memReqComplete cfg s req = none := by
  have recorded := full.congr (recordResponse_room cfg s req.addr cfg.llc req.origin)
  have failed := (recorded.fillBlock req.origin).1
  unfold Cache.memReqComplete
  split
  case h_1 u found => simp [found] at failed
  case h_2 => rfl

/-- An ack whose block finds no line still makes the entries of the block ready. -/
theorem NoFreeLine.fillUpper {level : Nat} {req : CacheReq}
    (full : NoFreeLine cfg s req.addr level) :
    (fillUpper cfg level s req).level = (setMshrEntryReady cfg s req.addr level).level := by
  have ready := (full.congr (recordResponse_room cfg s req.addr level req.origin)).congr
    (setMshrEntryReady_room cfg _ req.addr level)
  unfold Cache.fillUpper
  dsimp only
  split
  · rfl
  · exact (ready.fillBlock req.origin).2

/-- The ways of a set are in the array. -/
theorem setBase_lt {addr level way : Nat} (sets : 0 < (cfg.level level).cacheSetSize)
    (bound : way < (cfg.level level).mappingWays) :
    setBase cfg addr level + way < (cfg.level level).cacheLineNum := by
  have set_lt : cfg.getCacheSetIndex addr level < (cfg.level level).cacheSetSize :=
    Nat.mod_lt _ sets
  calc setBase cfg addr level + way
    _ < setBase cfg addr level + (cfg.level level).mappingWays := by omega
    _ = (cfg.getCacheSetIndex addr level + 1) * (cfg.level level).mappingWays := by
      rw [setBase]; ring
    _ ≤ (cfg.level level).cacheSetSize * (cfg.level level).mappingWays :=
      Nat.mul_le_mul_right _ set_lt
    _ ≤ (cfg.level level).cacheLineNum := Nat.div_mul_le_self ..

/-! ## The answers -/

/-- Answers are added behind those that are queued. -/
theorem respondAll_ackQueue (level bank : Nat) (reqs : List (Nat × CacheReq)) (s : Cache) :
    (s.level level).ackQueue bank <+: ((respondAll cfg s level reqs).2.level level).ackQueue bank := by
  have one (u : Cache) (req : CacheReq) :
      (u.level level).ackQueue bank <+: ((respond cfg u level req).2.level level).ackQueue bank := by
    unfold respond
    dsimp only
    split_ifs
    · exact List.prefix_rfl
    · rw [pushAck_ackQueue]
      split_ifs with here
      · simp [here.2]
      · simp
    · exact List.prefix_rfl
  induction reqs generalizing s with
  | nil => exact List.prefix_rfl
  | cons head rest ih =>
    obtain ⟨id, req⟩ := head
    have first := one s req
    rw [respondAll]
    split <;> rename_i u eq <;> rw [eq] at first <;> exact first.trans (ih u)

/-- Popping other entries leaves an entry alone. -/
theorem clearMshrEntry_of_notMem {m : Mshr} {ids : List Nat} {id : Nat} (other : id ∉ ids) :
    (m.clearMshrEntry ids).mshrTable id = m.mshrTable id := by
  induction ids generalizing m with
  | nil => rfl
  | cons i ids ih =>
    obtain ⟨ne, rest⟩ : id ≠ i ∧ id ∉ ids := by simpa using other
    exact (ih rest).trans (popEntry_of_ne m ne)

theorem respondAll_ids (level : Nat) (reqs : List (Nat × CacheReq)) (s : Cache) :
    (respondAll cfg s level reqs).1 ⊆ reqs.map Prod.fst := by
  induction reqs generalizing s with
  | nil => simp [respondAll]
  | cons head rest ih =>
    obtain ⟨id, req⟩ := head
    rw [respondAll]
    split
    · exact List.cons_subset_cons _ (ih _)
    · exact List.Subset.trans (ih _) (List.subset_cons_self ..)

/-- The round robin meets the entry at its pointer first. -/
theorem readyIds_cons {m : Mshr} {id : Nat} (pointer : m.mshrRdPtr = id) (bound : id < m.entryNum)
    (valid : (m.mshrTable id).valid = true) (ready : (m.mshrTable id).ready = true) :
    ∃ rest, m.readyIds = id :: rest ∧ id ∉ rest := by
  obtain ⟨n, size⟩ : ∃ n, m.entryNum = n + 1 := ⟨m.entryNum - 1, by omega⟩
  have first : m.readyIds = id :: (((List.range n).map fun i =>
      (m.mshrRdPtr + (i + 1)) % m.entryNum).filter fun id =>
        (m.mshrTable id).valid && (m.mshrTable id).ready) := by
    have start : (m.mshrRdPtr + 0) % m.entryNum = id := by
      rw [Nat.add_zero, pointer, Nat.mod_eq_of_lt bound]
    rw [Mshr.readyIds, size, List.range_succ_eq_map, List.map_cons, ← size, start,
      List.filter_cons_of_pos (by simp [valid, ready]), List.map_map]
    rfl
  have nodup := m.readyIds_nodup
  rw [first] at nodup
  exact ⟨_, first, (List.nodup_cons.mp nodup).1⟩

/-- An entry whose turn it is loses its head to the ack queue, or drops it when it is a
write-back. -/
theorem Turn.served {level id : Nat} (turn : Turn cfg s level id) :
    let entry := (s.level level).mshr.mshrTable id
    let t := respondMshr cfg s level
    ((t.level level).mshr.mshrTable id).mshrQueue = entry.mshrQueue.tail ∧
      (entry.front.cacheOp ≠ .WRITEBACK_DIRTY_BLOCK →
        { entry.front with ready := true } ∈
          (t.level level).ackQueue (cfg.getCacheBank entry.front.addr level)) := by
  intro entry t
  obtain ⟨rest, ids, other⟩ := readyIds_cons turn.pointer turn.bound turn.valid turn.ready
  set m := (s.level level).mshr.peekMshrReadyEntry.2
  set u := s.withMshr level m
  set others := rest.map fun i => (i, ((s.level level).mshr.mshrTable i).front)
  have unfolded : t = (respondAll cfg u level ((id, entry.front) :: others)).2.withMshr level
      (((respondAll cfg u level ((id, entry.front) :: others)).2.level level).mshr.clearMshrEntry
        (respondAll cfg u level ((id, entry.front) :: others)).1) := by
    simp only [t, respondMshr, Mshr.peekMshrReadyEntry, ids, List.map_cons]
    rfl
  -- the head is answered, whatever it is
  obtain ⟨v, answered, queued⟩ : ∃ v, respond cfg u level entry.front = (true, v) ∧
      (entry.front.cacheOp ≠ .WRITEBACK_DIRTY_BLOCK → { entry.front with ready := true } ∈
        (v.level level).ackQueue (cfg.getCacheBank entry.front.addr level)) := by
    unfold respond
    by_cases op : entry.front.cacheOp = .WRITEBACK_DIRTY_BLOCK
    · exact ⟨u, by simp [op], fun keep => absurd op keep⟩
    · have room := turn.room op
      have same : (u.level level).ackBankConflict = (s.level level).ackBankConflict ∧
          (u.level level).ackQueue = (s.level level).ackQueue := by simp [u, withMshr]
      dsimp only
      rw [if_neg op, same.1, same.2, if_pos room]
      exact ⟨_, rfl, fun _ => by simp [pushAck_ackQueue]⟩
  have split : respondAll cfg u level ((id, entry.front) :: others) =
      (id :: (respondAll cfg v level others).1, (respondAll cfg v level others).2) := by
    rw [respondAll, answered]
  have table : ((respondAll cfg v level others).2.level level).mshr = m := by
    have kept := respond_mshr cfg u level entry.front
    rw [answered] at kept
    rw [respondAll_mshr, kept, withMshr_mshr]
  constructor
  · have alone : id ∉ (respondAll cfg v level others).1 := fun mem => by
      have listed := respondAll_ids level others v mem
      simp only [others, List.map_map, Function.comp_def, List.map_id'] at listed
      exact other listed
    rw [unfolded, split, withMshr_mshr, table, Mshr.clearMshrEntry, List.foldl_cons]
    have kept := clearMshrEntry_of_notMem (m := m.popEntry id) alone
    rw [Mshr.clearMshrEntry] at kept
    rw [kept, Mshr.popEntry_table, if_pos rfl]
    rfl
  · intro keep
    rw [unfolded, split]
    have later := (@respondAll_ackQueue cfg level
      (cfg.getCacheBank entry.front.addr level) others v).subset (queued keep)
    simpa [withMshr] using later

theorem NoFreeLine.intact_iff {call : FillCall}
    (full : NoFreeLine cfg s call.addr (call.level cfg))
    (size : (cfg.level (call.level cfg)).cacheSize < 2 ^ 64)
    (sets : 0 < (cfg.level (call.level cfg)).cacheSetSize) :
    Intact cfg s call ↔ call.fromMemory = false := by
  constructor
  · intro intact
    cases call with
    | memReqComplete req =>
      have outside := intact.inside (2 ^ 64 - 1) (by
        have stuck := full.stuck
        simp only [FillCall.addr, FillCall.level] at stuck
        simp [FillCall.touched, FillCall.storedAt, FillCall.addr, FillCall.level, stuck])
      have lines : (cfg.level cfg.llc).cacheLineNum ≤ (cfg.level cfg.llc).cacheSize :=
        Nat.div_le_self ..
      simp only [FillCall.level] at size outside
      omega
    | _ => rfl
  · intro upper
    have inside : ∀ i ∈ call.touched cfg s, i < (cfg.level (call.level cfg)).cacheLineNum := by
      intro i mem
      have stored : call.storedAt none = none := by
        cases call with
        | memReqComplete req => simp [FillCall.fromMemory] at upper
        | _ => rfl
      rw [FillCall.touched, full.stuck, stored] at mem
      simp only [Option.toList_none, List.append_nil, List.mem_map, List.mem_range] at mem
      obtain ⟨way, bound, rfl⟩ := mem
      exact setBase_lt sets bound
    cases call with
    | memReqComplete req => simp [FillCall.fromMemory] at upper
    | setCacheBlock addr level origin =>
      obtain ⟨failed, kept⟩ := full.fillBlock origin
      refine ⟨inside, ⟨_, rfl, fun l => ?_, fun id _ => ?_⟩, fun a l o eq => ?_⟩
      · exact congrArg (fun level => (level l).line) kept
      · have same := congrArg (fun lv => (lv level).mshr.mshrTable id) kept
        exact same.trans (by simp [FillCall.answers, FillCall.level])
      · obtain ⟨rfl, rfl, rfl⟩ := FillCall.setCacheBlock.inj eq
        exact failed
    | ack level req =>
      have kept := full.fillUpper
      refine ⟨inside, ⟨_, rfl, fun l => ?_, fun id waits => ?_⟩, by simp⟩
      · exact (congrArg (fun lv => (lv l).line) kept).trans
          (setMshrEntryReady_frame cfg s level l req.addr).2.2
      · refine (congrArg (fun lv => (lv level).mshr.mshrTable id) kept).trans ?_
        obtain ⟨valid, block⟩ := waits
        simp only [FillCall.level, FillCall.addr] at valid block
        simp [setMshrEntryReady, Mshr.setMshrEntryReady, valid, block, FillCall.level,
          FillCall.answers]

/-- A fill for which no line can be freed is dealt with as it should be exactly when it does
not come from the memory; the requests of a ready entry are answered one for each turn. -/
theorem fill_without_line_iff (cfg : Config) :
    (∀ s call, (cfg.level (call.level cfg)).cacheSize < 2 ^ 64 →
      0 < (cfg.level (call.level cfg)).cacheSetSize →
      NoFreeLine cfg s call.addr (call.level cfg) →
      (Intact cfg s call ↔ call.fromMemory = false)) ∧
    ∀ s level id, Turn cfg s level id →
      let entry := (s.level level).mshr.mshrTable id
      let t := respondMshr cfg s level
      ((t.level level).mshr.mshrTable id).mshrQueue = entry.mshrQueue.tail ∧
        (entry.front.cacheOp ≠ .WRITEBACK_DIRTY_BLOCK →
          { entry.front with ready := true } ∈
            (t.level level).ackQueue (cfg.getCacheBank entry.front.addr level)) :=
  ⟨fun _ _ size sets full => full.intact_iff size sets, fun _ _ _ turn => turn.served⟩

/-- Both ways of set 1 are dirty and the queue to the memory is full. -/
def saturated : Cache :=
  { setDirty (setDirty (setCacheLine tiny (setCacheLine tiny (init tiny) 2 16 0) 3 48 0) 2 0) 3 0
    with reqQueue2Mem := List.replicate 4 {} }

theorem saturated_full : NoFreeLine tiny saturated 80 0 := ⟨by decide, by decide⟩

/-- An entry of block 5 holds a read and is ready. -/
def answering : Cache :=
  { saturated with level := fun _ =>
      { mshr :=
          { entryNum := 2
            entrySize := 2
            mshrTable := fun _ =>
              { blockAddr := 5, mshrQueue := [{ addr := 80 }], valid := true, ready := true } } } }

/-- `setCacheBlock` copes with it, and the read is answered. -/
theorem fill_without_line_iff_saturated :
    Intact tiny saturated (.setCacheBlock 80 0 .initial) ∧
      (((respondMshr tiny answering 0).level 0).mshr.mshrTable 0).mshrQueue = [] :=
  ⟨((fill_without_line_iff tiny).1 saturated (.setCacheBlock 80 0 .initial) (by decide)
      (by decide) saturated_full).mpr rfl,
    ((fill_without_line_iff tiny).2 answering 0 0
      ⟨rfl, by decide, rfl, rfl, fun _ => by decide⟩).1⟩

/-- When the memory completes a fill of block 5, the store goes to line `2 ^ 64 - 1` of four. -/
theorem completion_outside :
    NoFreeLine tiny saturated 80 0 ∧ memReqComplete tiny saturated { addr := 80 } = none ∧
      2 ^ 64 - 1 ∈ (FillCall.memReqComplete { addr := 80 }).touched tiny saturated ∧
      (tiny.level 0).cacheLineNum = 4 ∧
      ¬ Intact tiny saturated (.memReqComplete { addr := 80 }) := by
  have outside : 2 ^ 64 - 1 ∈ (FillCall.memReqComplete { addr := 80 }).touched tiny saturated := by
    decide
  refine ⟨saturated_full, @NoFreeLine.memReqComplete tiny saturated { addr := 80 } saturated_full, outside,
    by decide, fun intact => ?_⟩
  exact absurd (intact.inside _ outside) (by decide)

end DataflowSim.Memory.Cache
