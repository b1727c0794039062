import DataflowSim.Library.Tally
import DataflowSim.Memory.Hierarchy

/-!
# Requests held by the first level

The first level neither makes nor loses requests of the LSEs, except that a write-through
level copies each write: between an `addTransaction` and a `callBack` they only move between
its request banks, its MSHR queues and its ack banks. The count is taken for any property of
what a request carries to its LSE.
-/

namespace DataflowSim.Memory

/-- What a request keeps on its whole way. -/
structure Ident where
  valid : Bool
  addr : Nat
  lseId : Nat
  lseReqQueueIndex : Nat
  coalesced : Bool
  deriving DecidableEq, Repr

def MemReq.ident (r : MemReq) : Ident :=
  ⟨r.valid, r.addr, r.lseId, r.lseReqQueueIndex, r.coalesced⟩

def CacheReq.ident (r : CacheReq) : Ident :=
  ⟨r.valid, r.addr, r.lseId, r.lseReqQueueIndex, r.coalesced⟩

@[simp] theorem transMemReq2CacheReq_ident (r : MemReq) :
    (transMemReq2CacheReq r).ident = r.ident := rfl
@[simp] theorem transCacheReq2MemReq_ident (r : CacheReq) :
    (transCacheReq2MemReq r).ident = r.ident := rfl
@[simp] theorem ident_ready (r : CacheReq) (b : Bool) :
    CacheReq.ident { r with ready := b } = r.ident := rfl
@[simp] theorem ident_stamp (r : CacheReq) (n : Nat) :
    CacheReq.ident { r with stamp := n } = r.ident := rfl

namespace Cache

/-- The requests with property `p` in the request banks, the MSHR and the ack banks of the
first level. -/
def held (cfg : Config) (s : Cache) (p : Ident → Bool) : Nat :=
  tally (cfg.level 0).bankNum (s.level 0).reqs (p ·.ident) +
    tally (s.level 0).mshr.entryNum (fun id => ((s.level 0).mshr.mshrTable id).mshrQueue)
      (p ·.ident) +
    tally (cfg.level 0).bankNum (s.level 0).ackQueue (p ·.ident)

/-- The first level only gets requests of LSEs, so none of them is a write-back, and only
reads are coalesced. -/
def CoreOps (s : Cache) : Prop :=
  ∀ r, .accepted 0 r ∈ s.history →
    r.cacheOp ≠ .WRITEBACK_DIRTY_BLOCK ∧ (r.coalesced = true → r.writes = false)

/-- No request with property `p` is copied by the first level. -/
def Uncopied (cfg : Config) (p : Ident → Bool) : Prop :=
  (cfg.level 0).writeStrategy = .WRITE_BACK ∨ ∀ i, p i = true → i.coalesced = true

variable {cfg : Config} {ports : Set Port} {s t : Cache} {p : Ident → Bool}

/-- Only the three families of queues count. -/
theorem held_congr (reqs : (t.level 0).reqs = (s.level 0).reqs)
    (queue : ∀ i, ((t.level 0).mshr.mshrTable i).mshrQueue =
      ((s.level 0).mshr.mshrTable i).mshrQueue)
    (entryNum : (t.level 0).mshr.entryNum = (s.level 0).mshr.entryNum)
    (ackQueue : (t.level 0).ackQueue = (s.level 0).ackQueue) : held cfg t p = held cfg s p := by
  unfold held
  rw [reqs, funext queue, entryNum, ackQueue]

theorem init_held (cfg : Config) {p : Ident → Bool} (real : p ({} : CacheReq).ident = false) :
    held cfg (init cfg) p = 0 := by
  have acks : tally (cfg.level 0).bankNum ((init cfg).level 0).ackQueue (p ·.ident) = 0 := by
    refine Tally.eq_zero fun b hb => ?_
    simp [init, hb, List.countP_replicate, real]
  have reqs : ((init cfg).level 0).reqs = fun _ => [] := by
    funext b
    simp [init, Level.reqs]
  unfold held
  rw [acks, reqs]
  simp [init]

theorem init_coreOps : CoreOps (init cfg) := by
  intro r mem
  simp [init] at mem

theorem Step.coreOps (step : Step cfg ports s t) (inner : .core ∉ ports) (h : CoreOps s) :
    CoreOps t := by
  intro r mem
  cases step with
  | book same => exact h r (same.history ▸ mem)
  | core through req origin waits => exact absurd through inner
  | hit level bankId index req rest bank front waits resident style =>
    apply h
    split at mem <;> simpa using mem
  | through level bankId req rest bank front waits free style =>
    apply h
    obtain ⟨_, eq⟩ | ⟨_, eq⟩ := missToMshr_history cfg req free <;> simpa [eq] using mem
  | miss level bankId req rest bank front waits free =>
    apply h
    obtain ⟨_, eq⟩ | ⟨_, eq⟩ := missToMshr_history cfg req free <;> simpa [eq] using mem
  | evict level index bound style dirty send =>
    apply h
    obtain ⟨-, rfl⟩ | ⟨-, rfl⟩ := sendBelow_cases send <;> simpa using mem
  | issue level id bound valid outstanding send =>
    apply h
    obtain ⟨-, rfl⟩ | ⟨-, rfl⟩ := sendBelow_cases send <;> simpa using mem
  | _ => exact h r (by simpa using mem)

/-! ## How each change moves requests -/

theorem setFrontReady_held (level bankId : Nat) :
    held cfg (setFrontReady s level bankId) p = held cfg s p := by
  have reqs : tally (cfg.level 0).bankNum ((setFrontReady s level bankId).level 0).reqs
      (p ·.ident) = tally (cfg.level 0).bankNum (s.level 0).reqs (p ·.ident) := by
    apply Tally.congr
    intro b _
    rw [setFrontReady_reqs]
    split
    case isTrue here =>
      obtain ⟨rfl, rfl⟩ := here
      cases (s.level 0).reqs b with
      | nil => rfl
      | cons req rest =>
        rw [List.countP_cons, List.countP_cons]
        rfl
    case isFalse => rfl
  unfold held
  rw [reqs]
  simp

theorem popReq_reqs_update (s : Cache) (bankId : Nat) : ((popReq s 0 bankId).level 0).reqs =
    Function.update (s.level 0).reqs bankId ((s.level 0).reqs bankId).tail := by
  funext b
  rw [popReq_reqs, Function.update_apply]
  split_ifs <;> simp_all

theorem pushAck_ackQueue_update (s : Cache) (bankId : Nat) (req : CacheReq) :
    ((pushAck s 0 bankId req).level 0).ackQueue =
      Function.update (s.level 0).ackQueue bankId ((s.level 0).ackQueue bankId ++ [req]) := by
  funext b
  rw [pushAck_ackQueue, Function.update_apply]
  split_ifs <;> simp_all

theorem popReq_held {bankId : Nat} {req : CacheReq} {rest : List CacheReq}
    (bank : bankId < (cfg.level 0).bankNum) (front : (s.level 0).reqs bankId = req :: rest) :
    held cfg (popReq s 0 bankId) p + (if p req.ident then 1 else 0) = held cfg s p := by
  have popped := Tally.pop bank front (p ·.ident)
  unfold held
  rw [popReq_reqs_update, front, List.tail_cons]
  simp only [popReq_frame]
  omega

theorem pushAck_held {bankId : Nat} (req : CacheReq) (bank : bankId < (cfg.level 0).bankNum) :
    held cfg (pushAck s 0 bankId req) p = held cfg s p + if p req.ident then 1 else 0 := by
  have pushed := Tally.push bank (s.level 0).ackQueue req (p ·.ident)
  unfold held
  rw [pushAck_ackQueue_update]
  simp only [pushAck_frame]
  omega

/-- The head of a request bank moves to the ack bank of the same number. -/
theorem sendReady_held {bankId : Nat} {req : CacheReq} {rest : List CacheReq}
    (front : (s.level 0).reqs bankId = req :: rest) :
    held cfg (pushAck (popReq s 0 bankId) 0 bankId req) p = held cfg s p := by
  rcases Nat.lt_or_ge bankId (cfg.level 0).bankNum with bank | beyond
  · have popped := popReq_held (p := p) bank front
    have pushed := pushAck_held (s := popReq s 0 bankId) (p := p) req bank
    omega
  · unfold held
    rw [pushAck_ackQueue_update]
    simp only [pushAck_frame, popReq_frame]
    rw [popReq_reqs_update, Tally.update_of_le beyond, Tally.update_of_le beyond]

theorem popAck_held {bankId : Nat} {req : CacheReq} {rest : List CacheReq}
    (bank : bankId < (cfg.level 0).bankNum) (front : (s.level 0).ackQueue bankId = req :: rest) :
    held cfg (popAck s 0 bankId) p + (if p req.ident then 1 else 0) = held cfg s p := by
  have acks : ((popAck s 0 bankId).level 0).ackQueue =
      Function.update (s.level 0).ackQueue bankId rest := by
    funext b
    rw [popAck_ackQueue, Function.update_apply]
    split_ifs with here there <;> simp_all
  have popped := Tally.pop bank front (p ·.ident)
  unfold held
  rw [acks]
  simp only [popAck_frame]
  omega

theorem enqueue_held (req : CacheReq) (banks : 0 < (cfg.level 0).bankNum) :
    held cfg (enqueue cfg s req 0) p = held cfg s p + if p req.ident then 1 else 0 := by
  have reqs : ((enqueue cfg s req 0).level 0).reqs =
      Function.update (s.level 0).reqs (cfg.getCacheBank req.addr 0)
        ((s.level 0).reqs (cfg.getCacheBank req.addr 0) ++
          [{ req with stamp := s.history.length }]) := by
    funext b
    rw [enqueue_reqs, Function.update_apply]
    split_ifs with here there <;> simp_all
  have pushed := Tally.push (b := cfg.getCacheBank req.addr 0) (Nat.mod_lt _ banks)
    (s.level 0).reqs { req with stamp := s.history.length } (p ·.ident)
  change _ = _ + if p req.ident then 1 else 0 at pushed
  unfold held
  rw [reqs]
  simp only [enqueue_frame]
  omega

theorem missToMshr_other (cfg : Config) {req : CacheReq} {l k : Nat} (ne : k ≠ l)
    (free : (s.level l).mshr.seekMshrFreeEntry = true) :
    (missToMshr cfg s req l).level k = s.level k := by
  obtain ⟨id, -, eq⟩ | ⟨id, -, eq⟩ := missToMshr_cases cfg req free <;> simp [eq, ne]

/-- A miss is counted in the MSHR. -/
theorem missToMshr_held (cfg : Config) (req : CacheReq) (free : (s.level 0).mshr.seekMshrFreeEntry = true) :
    held cfg (missToMshr cfg s req 0) p = held cfg s p + if p req.ident then 1 else 0 := by
  have pushed {m : Mshr} {id : Nat} (bound : id < (s.level 0).mshr.entryNum)
      (table : (fun i => (m.mshrTable i).mshrQueue) =
        Function.update (fun i => ((s.level 0).mshr.mshrTable i).mshrQueue) id
          (((s.level 0).mshr.mshrTable id).mshrQueue ++ [req])) :
      tally (s.level 0).mshr.entryNum (fun i => (m.mshrTable i).mshrQueue) (p ·.ident) =
        tally (s.level 0).mshr.entryNum (fun i => ((s.level 0).mshr.mshrTable i).mshrQueue)
          (p ·.ident) + if p req.ident then 1 else 0 := by
    rw [table]
    exact Tally.push bound _ req (p ·.ident)
  obtain ⟨reqs, acks, -⟩ := missToMshr_frame cfg s 0 0 req free
  unfold held
  rw [reqs, acks]
  obtain ⟨id, found, eq⟩ | ⟨id, found, eq⟩ := missToMshr_cases cfg req free
  · have moved := pushed (m := (s.level 0).mshr.join id req) (Mshr.joinId_some found).1 (by
      funext i
      simp only [Mshr.join, Mshr.setEntry_mshrTable, Function.update_apply]
      split_ifs <;> rfl)
    rw [eq]
    simp only [record_level, setLevel_level, Function.update_self]
    simp only [Mshr.join, Mshr.setEntry_entryNum] at moved ⊢
    omega
  · have moved := pushed
      (m := (s.level 0).mshr.allocate id (cfg.getCacheBlockId req.addr 0) req)
      (Mshr.freeId_some found).1 (by
        funext i
        simp only [Mshr.allocate, Mshr.setEntry_mshrTable, Function.update_apply]
        split_ifs <;> rfl)
    rw [eq]
    simp only [record_level, setLevel_level, Function.update_self]
    simp only [Mshr.allocate, Mshr.setEntry_entryNum] at moved ⊢
    omega

theorem popEntry_held (cfg : Config) {id : Nat} (bound : id < (s.level 0).mshr.entryNum)
    (opened : ((s.level 0).mshr.mshrTable id).mshrQueue ≠ []) :
    held cfg (popEntry s 0 id) p +
      (if p ((s.level 0).mshr.mshrTable id).front.ident then 1 else 0) = held cfg s p := by
  have queues : (fun i => (((s.level 0).mshr.popEntry id).mshrTable i).mshrQueue) =
      Function.update (fun i => ((s.level 0).mshr.mshrTable i).mshrQueue) id
        ((s.level 0).mshr.mshrTable id).mshrQueue.tail := by
    funext i
    simp only [Mshr.popEntry_table, Function.update_apply]
    split_ifs <;> grind
  obtain ⟨head, rest, queue⟩ := List.exists_cons_of_ne_nil opened
  have front : ((s.level 0).mshr.mshrTable id).front = head := by
    simp [MshrEntry.front, queue]
  have popped := Tally.pop bound (q := fun i => ((s.level 0).mshr.mshrTable i).mshrQueue) queue
    (p ·.ident)
  unfold held
  rw [popEntry_mshr, if_pos rfl, queues, front]
  simp only [popEntry_frame, Mshr.popEntry_frame, queue, List.tail_cons]
  omega

/-- The head of an MSHR entry moves to an ack bank. -/
theorem respond_held {id bankId : Nat} {req : CacheReq} (bank : bankId < (cfg.level 0).bankNum)
    (bound : id < (s.level 0).mshr.entryNum)
    (opened : ((s.level 0).mshr.mshrTable id).mshrQueue ≠ [])
    (same : req.ident = ((s.level 0).mshr.mshrTable id).front.ident) :
    held cfg (popEntry (pushAck s 0 bankId req) 0 id) p = held cfg s p := by
  have kept := (pushAck_frame s 0 bankId 0 req).2.2
  have pushed := pushAck_held (s := s) (p := p) req bank
  have popped := popEntry_held cfg (s := pushAck s 0 bankId req) (p := p)
    (by rwa [kept] : id < _) (by rwa [kept])
  rw [kept, ← same] at popped
  omega

/-- What goes below a level does not pass the first one. -/
theorem sendBelow_first {req : CacheReq} {level : Nat} (send : sendBelow cfg s req level = some t) :
    t.level 0 = s.level 0 := by
  obtain ⟨-, rfl⟩ | ⟨-, rfl⟩ := sendBelow_cases send
  · simp [enqueue]
  · rfl

/-- Between the two ends of the path the cache only moves requests. -/
theorem Step.held (step : Step cfg ports s t) (banks : 0 < (cfg.level 0).bankNum)
    (core : .core ∉ ports) (ack : .ack ∉ ports) (traced : Traced cfg s) (ops : CoreOps s)
    {p : Ident → Bool} (uncopied : Uncopied cfg p) : held cfg t p = held cfg s p := by
  have elsewhere (h : t.level 0 = s.level 0) : Cache.held cfg t p = Cache.held cfg s p :=
    held_congr (by rw [h]) (fun i => by rw [h]) (by rw [h]) (by rw [h])
  have unmoved (h : (t.level 0).mshr = (s.level 0).mshr) (r : (t.level 0).reqs = (s.level 0).reqs)
      (a : (t.level 0).ackQueue = (s.level 0).ackQueue) : Cache.held cfg t p = Cache.held cfg s p :=
    held_congr r (fun i => by rw [h]) (by rw [h]) a
  cases step with
  | book same =>
    exact held_congr (same.reqs 0) (fun i => by rw [same.mshrTable 0]) (same.entryNum 0) (same.ackQueue 0)
  | core through req origin waits => exact absurd through core
  | hit level bankId index req rest bank front waits resident style =>
    rw [setFrontReady_held]
    split <;> exact held_congr (by simp) (fun i => by simp) (by simp) (by simp)
  | through level bankId req rest bank front waits free through writes =>
    by_cases here : level = 0
    · subst here
      have own : p req.ident = false := by
        obtain style | group := uncopied
        · simp [style] at through
        · by_contra counted
          obtain ⟨q, accepted, eq⟩ := traced.reqs 0 bankId req (front ▸ List.mem_cons_self)
          have reads := (ops q accepted).2
          have coalesced := group req.ident (by simpa using counted)
          obtain rfl | rfl := eq
          · exact Bool.false_ne_true ((reads coalesced).symm.trans writes)
          · exact Bool.false_ne_true ((reads coalesced).symm.trans writes)
      have missed := missToMshr_held cfg (p := p) req free
      rw [own] at missed
      rw [setFrontReady_held, missed]
      simp
    · rw [setFrontReady_held]
      exact held_congr (by rw [missToMshr_other cfg (Ne.symm here) free])
        (by rw [missToMshr_other cfg (Ne.symm here) free]; exact fun _ => rfl)
        (by rw [missToMshr_other cfg (Ne.symm here) free])
        (by rw [missToMshr_other cfg (Ne.symm here) free])
  | miss level bankId req rest bank front waits free =>
    by_cases here : level = 0
    · subst here
      have popped := popReq_held (s := missToMshr cfg s req 0) (p := p) bank
        (by rw [(missToMshr_frame cfg s 0 0 req free).1]; exact front)
      have missed := missToMshr_held cfg (p := p) req free
      omega
    · have same : (missToMshr cfg s req level).level 0 = s.level 0 :=
        missToMshr_other cfg (Ne.symm here) free
      exact elsewhere (by simp [popReq, Ne.symm here, same])
  | sendReady level bankId req rest front ready =>
    by_cases here : level = 0
    · subst here
      exact sendReady_held front
    · exact elsewhere (by simp [pushAck, popReq, Ne.symm here])
  | popAck level bankId through =>
    have here : level ≠ 0 := fun h => ack (through h)
    exact elsewhere (by simp [Cache.popAck, here.symm])
  | respond level id valid ready keep =>
    by_cases here : level = 0
    · subst here
      exact respond_held (Nat.mod_lt _ banks) ((traced.mshr 0).bound id valid)
        ((traced.mshr 0).opened id valid) rfl
    · exact elsewhere (by simp [popEntry, withMshr, pushAck, Ne.symm here])
  | drop level id valid ready writeBack =>
    by_cases here : level = 0
    · subst here
      obtain ⟨q, accepted, eq⟩ :=
        traced.queue 0 id _ ((traced.mshr 0).front_mem valid)
      exact absurd (by rcases eq with eq | eq <;> rw [eq] at writeBack <;> exact writeBack)
        (ops q accepted).1
    · exact elsewhere (by simp [popEntry, withMshr, Ne.symm here])
  | response level addr origin answer => exact unmoved rfl rfl rfl
  | setReady level addr origin hit answered =>
    by_cases here : level = 0
    · subst here
      refine held_congr (by simp) ?_ ?_ (by simp)
      · intro i
        rw [setMshrEntryReady_mshr, if_pos rfl]
        simp only [Mshr.setMshrEntryReady]
        split_ifs <;> rfl
      · rw [setMshrEntryReady_mshr, if_pos rfl]
        rfl
    · exact elsewhere (by simp [setMshrEntryReady, Ne.symm here])
  | evict level index bound style dirty send =>
    have first := sendBelow_first send
    exact unmoved (by simp [first]) (by simp [first]) (by simp [first])
  | install level index addr origin entries free answered place => exact unmoved (by simp) (by simp) (by simp)
  | issue level id bound valid outstanding send =>
    have first := sendBelow_first send
    refine held_congr (by simp [first]) ?_ ?_ (by simp [first])
    · intro i
      rw [clearOutstanding_mshr, record_level]
      split_ifs with here
      · subst here
        rw [first]
        simp only [Mshr.clearOutstandingFlag, List.foldl_cons, List.foldl_nil,
          Mshr.setEntry_mshrTable, Function.update_apply]
        split_ifs with there <;> simp [there]
      · rw [first]
    · rw [clearOutstanding_mshr, record_level]
      split_ifs with here
      · subst here
        rw [first]
        rfl
      · rw [first]
  | sendMem through req rest head => exact unmoved rfl rfl rfl

/-! ## Whole calls -/

/-- The cache has one write-back level, and a bank to put requests in. -/
structure OneLevel (cfg : Config) : Prop where
  levels : cfg.cacheMaxLevel = 1
  style : (cfg.level 0).writeStrategy = .WRITE_BACK
  banks : 0 < (cfg.level 0).bankNum

theorem OneLevel.uncopied (one : OneLevel cfg) (p : Ident → Bool) : Uncopied cfg p := .inl one.style

/-- What every call keeps. -/
structure Sound (cfg : Config) (s : Cache) : Prop where
  traced : Traced cfg s
  recorded : AcksRecorded s
  ops : CoreOps s

theorem init_sound : Sound cfg (init cfg) := ⟨init_traced, init_acksRecorded, init_coreOps⟩

/-- Steps inside the cache, or between cache and memory, move no request in or out. -/
theorem Steps.inner (steps : Steps cfg {.memory} s t) (banks : 0 < (cfg.level 0).bankNum)
    (h : Sound cfg s) : Sound cfg t ∧ ∀ p, Uncopied cfg p → held cfg t p = held cfg s p := by
  induction steps with
  | refl => exact ⟨h, fun _ _ => rfl⟩
  | tail _ step ih =>
    obtain ⟨⟨traced, recorded, ops⟩, same⟩ := ih
    refine ⟨⟨step.traced traced, step.acksRecorded recorded, step.coreOps (by simp) ops⟩, ?_⟩
    intro p uncopied
    rw [← same p uncopied]
    exact step.held banks (by simp) (by simp) traced ops uncopied

theorem addTransaction_held {req : MemReq} (banks : 0 < (cfg.level 0).bankNum) (h : Sound cfg s)
    (core : req.origin = .core) (waits : req.ready = false)
    (reads : req.coalesced = true → req.isWrite = false)
    (sent : addTransaction cfg s req = some t) :
    Sound cfg t ∧ ∀ p, held cfg t p = held cfg s p + if p req.ident then 1 else 0 := by
  have steps : Steps cfg Set.univ s t := addTransaction_steps (Set.mem_univ _) core waits sent
  obtain ⟨-, -, rfl⟩ := sendReq2CacheBank_eq_some.mp sent
  refine ⟨⟨?_, ?_, ?_⟩, fun p => enqueue_held _ banks⟩
  · exact steps.ind (fun _ _ => Step.traced) h.traced
  · exact steps.acksRecorded h.recorded
  · intro r mem
    rw [enqueue_history, List.mem_append, List.mem_singleton] at mem
    obtain old | new := mem
    · exact h.ops r old
    · cases new
      constructor
      · simp only [transMemReq2CacheReq]
        split <;> simp
      · intro coalesced
        simp [CacheReq.writes, transMemReq2CacheReq, reads coalesced]

theorem callBack_held {ackQueueId : Nat} (bank : ackQueueId < (cfg.level 0).bankNum)
    (h : Sound cfg s) :
    Sound cfg (callBack s ackQueueId).2 ∧
      ∀ p, p ({} : MemReq).ident = false →
        held cfg (callBack s ackQueueId).2 p +
          (if p (callBack s ackQueueId).1.ident then 1 else 0) = held cfg s p := by
  have steps : Steps cfg Set.univ s (callBack s ackQueueId).2 :=
    callBack_steps (Set.mem_univ _) ackQueueId
  have history : (callBack s ackQueueId).2.history = s.history := by
    unfold callBack
    split <;> rfl
  refine ⟨⟨?_, ?_, ?_⟩, ?_⟩
  · exact steps.ind (fun _ _ => Step.traced) h.traced
  · exact steps.acksRecorded h.recorded
  · intro r mem
    exact h.ops r (history ▸ mem)
  · intro p real
    unfold callBack
    split
    case h_1 => simp [real]
    case h_2 req rest front => exact popAck_held bank front

end Cache

end DataflowSim.Memory
