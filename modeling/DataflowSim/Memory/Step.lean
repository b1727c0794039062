import DataflowSim.Library.Run
import DataflowSim.Memory.Cache

/-!
# Atomic steps of the cache

What a function of the cache can do, cut into the smallest changes that keep its invariants:
a request enters a level, is looked up, misses, is answered, is handed below, a line is
released or filled. Every function of the cache is a chain of these steps, so an invariant
is proved once for each step and never for a function.
-/

namespace DataflowSim.Memory

open Relation (ReflTransGen)

/-- The requests of one bank, without their latencies. -/
def Level.reqs (lv : Level) : Nat → List CacheReq := fun bankId =>
  (lv.reqQueue bankId).map Prod.fst

/-- A write, or the write-back of a dirty block, which a level stores the same way. -/
def CacheReq.writes (r : CacheReq) : Bool :=
  r.cacheOp = .WRITE || r.cacheOp = .WRITEBACK_DIRTY_BLOCK

namespace Cache

/-- The states differ in pointers, latencies, bank flags and statistics at most. -/
structure Same (s t : Cache) : Prop where
  reqs : ∀ l, (t.level l).reqs = (s.level l).reqs
  ackQueue : ∀ l, (t.level l).ackQueue = (s.level l).ackQueue
  line : ∀ l, (t.level l).line = (s.level l).line
  mshrTable : ∀ l, (t.level l).mshr.mshrTable = (s.level l).mshr.mshrTable
  entryNum : ∀ l, (t.level l).mshr.entryNum = (s.level l).mshr.entryNum
  entrySize : ∀ l, (t.level l).mshr.entrySize = (s.level l).mshr.entrySize
  allocated : ∀ l, (t.level l).mshr.allocated = (s.level l).mshr.allocated
  reqQueue2Mem : t.reqQueue2Mem = s.reqQueue2Mem
  memAccessCnt : t.memAccessCnt = s.memAccessCnt
  cacheWMemoryCount : t.cacheWMemoryCount = s.cacheWMemoryCount
  history : t.history = s.history

variable (cfg : Config)

/-- What a level can be answered with: a default element of the queues below it, an ack of
the level below it, or a transaction that the memory has got. -/
inductive Answer (s : Cache) (level addr : Nat) (origin : Origin) : Prop where
  | initial (addr_zero : addr = 0) (initial : origin = .initial)
  | acked (req : CacheReq) (mem : .acked (level + 1) req ∈ s.history) (addr_eq : req.addr = addr)
      (origin_eq : req.origin = origin)
  | sent (req : MemReq) (last : level = cfg.llc) (mem : .sent req ∈ s.history)
      (addr_eq : req.addr = addr) (origin_eq : req.origin = origin)

/-- The fill that serves an entry of the level. -/
def fillReq (s : Cache) (level id : Nat) : CacheReq :=
  let entry := (s.level level).mshr.mshrTable id
  { entry.front with origin := .fill level entry.alloc }

/-- The state with another MSHR at one level. -/
def withMshr (s : Cache) (level : Nat) (m : Mshr) : Cache :=
  s.setLevel level { s.level level with mshr := m }

/-- The fill of the entry is on its way. -/
def clearOutstanding (s : Cache) (level id : Nat) : Cache :=
  s.withMshr level ((s.level level).mshr.clearOutstandingFlag [id])

/-- The request at the head of the entry is done. -/
def popEntry (s : Cache) (level id : Nat) : Cache :=
  s.withMshr level ((s.level level).mshr.popEntry id)

/-! Each change touches one part of one level, and records at most one event. -/

section Changes
variable (s : Cache) (l i k b addr : Nat) (r : CacheReq) (origin : Origin) (victim : CacheLine)

theorem enqueue_reqs : ((enqueue cfg s r l).level k).reqs b =
    if k = l ∧ b = cfg.getCacheBank r.addr l then
      (s.level l).reqs b ++ [{ r with stamp := s.history.length }]
    else (s.level k).reqs b := by
  simp only [enqueue, record_level, setLevel_level, Function.update_apply, Level.reqs]
  split_ifs <;> grind
theorem setFrontReady_reqs : ((setFrontReady s l i).level k).reqs b =
    if k = l ∧ b = i then
      match (s.level l).reqs b with
      | [] => []
      | req :: rest => { req with ready := true } :: rest
    else (s.level k).reqs b := by
  simp only [setFrontReady, setLevel_level, Function.update_apply, Level.reqs]
  split_ifs <;> grind
theorem popReq_reqs : ((popReq s l i).level k).reqs b =
    if k = l ∧ b = i then ((s.level l).reqs b).tail else (s.level k).reqs b := by
  simp only [popReq, setLevel_level, Function.update_apply, Level.reqs]
  split_ifs <;> grind [List.map_tail]
theorem pushAck_ackQueue : ((pushAck s l i r).level k).ackQueue b =
    if k = l ∧ b = i then (s.level l).ackQueue b ++ [r] else (s.level k).ackQueue b := by
  simp only [pushAck, record_level, setLevel_level, Function.update_apply]
  split_ifs <;> grind
theorem popAck_ackQueue : ((popAck s l i).level k).ackQueue b =
    if k = l ∧ b = i then ((s.level l).ackQueue b).tail else (s.level k).ackQueue b := by
  simp only [popAck, setLevel_level, Function.update_apply]
  split_ifs <;> grind
theorem setDirty_line : ((setDirty s i l).level k).line =
    if k = l then Function.update (s.level l).line i { (s.level l).line i with dirty := true }
    else (s.level k).line := by
  simp only [setDirty, setLevel_level, Function.update_apply]
  split_ifs <;> rfl
theorem setCacheLine_line : ((setCacheLine cfg s i addr l).level k).line =
    if k = l then Function.update (s.level l).line i
      { tag := cfg.getCacheTag addr l, count := s.tickCount, valid := true }
    else (s.level k).line := by
  simp only [setCacheLine, setLevel_level, Function.update_apply]
  split_ifs <;> rfl
theorem clean_line : ((clean cfg s i l victim).level k).line =
    if k = l then Function.update (s.level l).line i { (s.level l).line i with dirty := false }
    else (s.level k).line := by
  simp only [clean, record_level, setLevel_level, Function.update_apply]
  split_ifs <;> rfl
theorem popEntry_mshr : ((popEntry s l i).level k).mshr =
    if k = l then (s.level l).mshr.popEntry i else (s.level k).mshr := by
  simp only [popEntry, withMshr, setLevel_level, Function.update_apply]
  split_ifs <;> rfl
theorem clearOutstanding_mshr : ((clearOutstanding s l i).level k).mshr =
    if k = l then (s.level l).mshr.clearOutstandingFlag [i] else (s.level k).mshr := by
  simp only [clearOutstanding, withMshr, setLevel_level, Function.update_apply]
  split_ifs <;> rfl
theorem setMshrEntryReady_mshr : ((setMshrEntryReady cfg s addr l).level k).mshr =
    if k = l then (s.level l).mshr.setMshrEntryReady (cfg.getCacheBlockId addr l)
    else (s.level k).mshr := by
  simp only [setMshrEntryReady, setLevel_level, Function.update_apply]
  split_ifs <;> rfl

@[simp] theorem enqueue_frame :
    ((enqueue cfg s r l).level k).ackQueue = (s.level k).ackQueue ∧
      ((enqueue cfg s r l).level k).line = (s.level k).line ∧
      ((enqueue cfg s r l).level k).mshr = (s.level k).mshr := by
  by_cases h : k = l <;> simp [enqueue, h]
@[simp] theorem setFrontReady_frame :
    ((setFrontReady s l i).level k).ackQueue = (s.level k).ackQueue ∧
      ((setFrontReady s l i).level k).line = (s.level k).line ∧
      ((setFrontReady s l i).level k).mshr = (s.level k).mshr := by
  by_cases h : k = l <;> simp [setFrontReady, h]
@[simp] theorem popReq_frame :
    ((popReq s l i).level k).ackQueue = (s.level k).ackQueue ∧
      ((popReq s l i).level k).line = (s.level k).line ∧
      ((popReq s l i).level k).mshr = (s.level k).mshr := by
  by_cases h : k = l <;> simp [popReq, h]
@[simp] theorem pushAck_frame :
    ((pushAck s l i r).level k).reqs = (s.level k).reqs ∧
      ((pushAck s l i r).level k).line = (s.level k).line ∧
      ((pushAck s l i r).level k).mshr = (s.level k).mshr := by
  by_cases h : k = l <;> simp [pushAck, h]
  rfl
@[simp] theorem popAck_frame :
    ((popAck s l i).level k).reqs = (s.level k).reqs ∧
      ((popAck s l i).level k).line = (s.level k).line ∧
      ((popAck s l i).level k).mshr = (s.level k).mshr := by
  by_cases h : k = l <;> simp [popAck, h]
  rfl
@[simp] theorem setDirty_frame :
    ((setDirty s i l).level k).reqs = (s.level k).reqs ∧
      ((setDirty s i l).level k).ackQueue = (s.level k).ackQueue ∧
      ((setDirty s i l).level k).mshr = (s.level k).mshr := by
  by_cases h : k = l <;> simp [setDirty, h]
  rfl
@[simp] theorem setCacheLine_frame :
    ((setCacheLine cfg s i addr l).level k).reqs = (s.level k).reqs ∧
      ((setCacheLine cfg s i addr l).level k).ackQueue = (s.level k).ackQueue ∧
      ((setCacheLine cfg s i addr l).level k).mshr = (s.level k).mshr := by
  by_cases h : k = l <;> simp [setCacheLine, h]
  rfl
@[simp] theorem clean_frame :
    ((clean cfg s i l victim).level k).reqs = (s.level k).reqs ∧
      ((clean cfg s i l victim).level k).ackQueue = (s.level k).ackQueue ∧
      ((clean cfg s i l victim).level k).mshr = (s.level k).mshr := by
  by_cases h : k = l <;> simp [clean, h]
  rfl
@[simp] theorem popEntry_frame :
    ((popEntry s l i).level k).reqs = (s.level k).reqs ∧
      ((popEntry s l i).level k).ackQueue = (s.level k).ackQueue ∧
      ((popEntry s l i).level k).line = (s.level k).line := by
  by_cases h : k = l <;> simp [popEntry, withMshr, h]
  rfl
@[simp] theorem clearOutstanding_frame :
    ((clearOutstanding s l i).level k).reqs = (s.level k).reqs ∧
      ((clearOutstanding s l i).level k).ackQueue = (s.level k).ackQueue ∧
      ((clearOutstanding s l i).level k).line = (s.level k).line := by
  by_cases h : k = l <;> simp [clearOutstanding, withMshr, h]
  rfl
@[simp] theorem setMshrEntryReady_frame :
    ((setMshrEntryReady cfg s addr l).level k).reqs = (s.level k).reqs ∧
      ((setMshrEntryReady cfg s addr l).level k).ackQueue = (s.level k).ackQueue ∧
      ((setMshrEntryReady cfg s addr l).level k).line = (s.level k).line := by
  by_cases h : k = l <;> simp [setMshrEntryReady, h]
  rfl
@[simp] theorem recordResponse_frame : (recordResponse cfg s addr l origin).level = s.level := rfl

@[simp] theorem enqueue_history : (enqueue cfg s r l).history =
    s.history ++ [.accepted l { r with stamp := s.history.length }] := rfl
@[simp] theorem setFrontReady_history : (setFrontReady s l b).history = s.history := rfl
@[simp] theorem setDirty_history : (setDirty s i l).history = s.history := rfl
@[simp] theorem popReq_history : (popReq s l b).history = s.history := rfl
@[simp] theorem pushAck_history : (pushAck s l b r).history = s.history ++ [.acked l r] := rfl
@[simp] theorem popAck_history : (popAck s l b).history = s.history := rfl
@[simp] theorem popEntry_history : (popEntry s l i).history = s.history := rfl
@[simp] theorem clearOutstanding_history : (clearOutstanding s l i).history = s.history := rfl
@[simp] theorem setCacheLine_history : (setCacheLine cfg s i addr l).history = s.history := rfl
@[simp] theorem setMshrEntryReady_history :
    (setMshrEntryReady cfg s addr l).history = s.history := rfl
@[simp] theorem clean_history : (clean cfg s i l victim).history =
    s.history ++ [.evicted l i victim (writeBackAddr cfg victim.tag i l)] := rfl
@[simp] theorem recordResponse_history : (recordResponse cfg s addr l origin).history =
    s.history ++ [.response l addr origin
      (checkCacheHit cfg s (setBase cfg addr l) addr l).isSome (waiting cfg s addr l)] := rfl

theorem missToMshr_frame (free : (s.level l).mshr.seekMshrFreeEntry = true) :
    ((missToMshr cfg s r l).level k).reqs = (s.level k).reqs ∧
      ((missToMshr cfg s r l).level k).ackQueue = (s.level k).ackQueue ∧
      ((missToMshr cfg s r l).level k).line = (s.level k).line := by
  obtain ⟨id, -, eq⟩ | ⟨id, -, eq⟩ := missToMshr_cases cfg r free <;>
    by_cases h : k = l <;> simp [eq, h] <;> rfl

end Changes

/-- The line at `index` is a way of the set of the address, and no way of that set holds it. -/
structure FillPlace (s : Cache) (level index addr : Nat) : Prop where
  way : ∃ way, index = setBase cfg addr level + way ∧
    (0 < (cfg.level level).mappingWays → way < (cfg.level level).mappingWays)
  absent : checkCacheHit cfg s (setBase cfg addr level) addr level = none

/-- Where requests enter and leave the cache: requests of LSEs, acks to LSEs, transactions. -/
inductive Port where
  | core | ack | memory
  deriving DecidableEq, Repr

/-- One atomic step, through one of the given ports or inside the cache. -/
inductive Step (ports : Set Port) : Cache → Cache → Prop where
  | book {s t : Cache} (same : Same s t) : Step ports s t
  | core {s : Cache} (through : .core ∈ ports) (req : CacheReq) (origin : req.origin = .core)
      (waits : req.ready = false) : Step ports s (enqueue cfg s req 0)
  | hit {s : Cache} (level bankId index : Nat) (req : CacheReq) (rest : List CacheReq)
      (bank : bankId < (cfg.level level).bankNum)
      (front : (s.level level).reqs bankId = req :: rest) (waits : req.ready = false)
      (resident : checkCacheHit cfg s (setBase cfg req.addr level) req.addr level = some index)
      (style : req.writes = true → (cfg.level level).writeStrategy = .WRITE_BACK) :
      Step ports s (setFrontReady (if req.writes then setDirty s index level else s) level bankId)
  | through {s : Cache} (level bankId : Nat) (req : CacheReq) (rest : List CacheReq)
      (bank : bankId < (cfg.level level).bankNum)
      (front : (s.level level).reqs bankId = req :: rest) (waits : req.ready = false)
      (free : (s.level level).mshr.seekMshrFreeEntry = true)
      (style : (cfg.level level).writeStrategy = .WRITE_THROUGH) (writes : req.writes = true) :
      Step ports s (setFrontReady (missToMshr cfg s req level) level bankId)
  | miss {s : Cache} (level bankId : Nat) (req : CacheReq) (rest : List CacheReq)
      (bank : bankId < (cfg.level level).bankNum)
      (front : (s.level level).reqs bankId = req :: rest) (waits : req.ready = false)
      (free : (s.level level).mshr.seekMshrFreeEntry = true) :
      Step ports s (popReq (missToMshr cfg s req level) level bankId)
  | sendReady {s : Cache} (level bankId : Nat) (req : CacheReq) (rest : List CacheReq)
      (front : (s.level level).reqs bankId = req :: rest) (ready : req.ready = true) :
      Step ports s (pushAck (popReq s level bankId) level bankId req)
  | popAck {s : Cache} (level bankId : Nat) (through : level = 0 → .ack ∈ ports) :
      Step ports s (popAck s level bankId)
  | respond {s : Cache} (level id : Nat)
      (valid : ((s.level level).mshr.mshrTable id).valid = true)
      (ready : ((s.level level).mshr.mshrTable id).ready = true)
      (keep : ((s.level level).mshr.mshrTable id).front.cacheOp ≠ .WRITEBACK_DIRTY_BLOCK) :
      Step ports s (popEntry (pushAck s level
        (cfg.getCacheBank ((s.level level).mshr.mshrTable id).front.addr level)
        { ((s.level level).mshr.mshrTable id).front with ready := true }) level id)
  | drop {s : Cache} (level id : Nat)
      (valid : ((s.level level).mshr.mshrTable id).valid = true)
      (ready : ((s.level level).mshr.mshrTable id).ready = true)
      (writeBack : ((s.level level).mshr.mshrTable id).front.cacheOp = .WRITEBACK_DIRTY_BLOCK) :
      Step ports s (popEntry s level id)
  | response {s : Cache} (level addr : Nat) (origin : Origin)
      (answer : Answer cfg s level addr origin) :
      Step ports s (recordResponse cfg s addr level origin)
  | setReady {s : Cache} (level addr : Nat) (origin : Origin) (hit : Bool)
      (answered : .response level addr origin hit (waiting cfg s addr level) ∈ s.history) :
      Step ports s (setMshrEntryReady cfg s addr level)
  | evict {s t : Cache} (level index : Nat) (bound : level ≤ cfg.llc)
      (style : (cfg.level level).writeStrategy = .WRITE_BACK)
      (dirty : ((s.level level).line index).dirty = true)
      (send : writeBackDirtyCacheline cfg s ((s.level level).line index).tag index level = some t) :
      Step ports s (clean cfg t index level ((s.level level).line index))
  | install {s : Cache} (level index addr : Nat) (origin : Origin) (entries : List MshrEntry)
      (free : ((s.level level).line index).valid = true →
        (cfg.level level).writeStrategy = .WRITE_BACK →
        ((s.level level).line index).dirty = false)
      (answered : .response level addr origin false entries ∈ s.history)
      (place : FillPlace cfg s level index addr) :
      Step ports s ((setCacheLine cfg s index addr level).record (.installed level addr origin))
  | issue {s t : Cache} (level id : Nat) (bound : level ≤ cfg.llc)
      (valid : ((s.level level).mshr.mshrTable id).valid = true)
      (outstanding : ((s.level level).mshr.mshrTable id).outstanding = true)
      (send : sendBelow cfg s (fillReq s level id) level = some t) :
      Step ports s (clearOutstanding (t.record (.issued level (fillReq s level id))) level id)
  | sendMem {s : Cache} (through : .memory ∈ ports) (req : MemReq) (rest : List MemReq)
      (head : s.reqQueue2Mem = req :: rest) :
      Step ports s ({ s with reqQueue2Mem := rest, memAccessCnt := s.memAccessCnt + 1 }.record
        (.sent req))

/-- A chain of atomic steps. -/
abbrev Steps (ports : Set Port) : Cache → Cache → Prop := ReflTransGen (Step cfg ports)

/-! ## What a step does to each part of the state -/

variable {cfg}
variable {ports : Set Port} {s t : Cache}

theorem missToMshr_history (cfg : Config) (r : CacheReq) {l : Nat}
    (free : (s.level l).mshr.seekMshrFreeEntry = true) :
    (∃ entry, (missToMshr cfg s r l).history = s.history ++ [.joined l r entry]) ∨
      ∃ alloc, (missToMshr cfg s r l).history = s.history ++ [.allocated l r alloc] := by
  obtain ⟨id, -, eq⟩ | ⟨id, -, eq⟩ := missToMshr_cases cfg r free
  · exact .inl ⟨_, by rw [eq]; rfl⟩
  · exact .inr ⟨_, by rw [eq]; rfl⟩

/-- Steps only add to the history. -/
theorem Step.history_grows (h : Step cfg ports s t) : s.history <+: t.history := by
  cases h with
  | book same => rw [same.history]
  | hit level bankId index req rest bank front waits resident style => split <;> simp
  | through level bankId req rest bank front waits free style =>
    obtain ⟨_, eq⟩ | ⟨_, eq⟩ := missToMshr_history cfg req free <;> simp [eq]
  | miss level bankId req rest bank front waits free =>
    obtain ⟨_, eq⟩ | ⟨_, eq⟩ := missToMshr_history cfg req free <;> simp [eq]
  | evict level index bound style dirty send =>
    obtain ⟨inner, rfl⟩ | ⟨last, rfl⟩ := sendBelow_cases send <;> simp
  | issue level id bound valid outstanding send =>
    obtain ⟨inner, rfl⟩ | ⟨last, rfl⟩ := sendBelow_cases send <;> simp
  | _ => simp

theorem Step.ackQueue (h : Step cfg ports s t) {l b : Nat} {r : CacheReq}
    (hr : r ∈ (t.level l).ackQueue b) :
    r ∈ (s.level l).ackQueue b ∨ .acked l r ∈ t.history := by
  cases h with
  | book same => left; rwa [same.ackQueue] at hr
  | hit level bankId index req rest bank front waits resident style =>
    left; split at hr <;> simpa using hr
  | through level bankId req rest bank front waits free style =>
    left; simpa [missToMshr_frame cfg s level l req free] using hr
  | miss level bankId req rest bank front waits free =>
    left; simpa [missToMshr_frame cfg s level l req free] using hr
  | sendReady level bankId req rest front ready =>
    simp only [pushAck_ackQueue, popReq_frame, pushAck_history, popReq_history] at hr ⊢
    grind
  | popAck level bankId through => 
    left
    simp only [popAck_ackQueue] at hr
    grind [List.mem_of_mem_tail]
  | respond level id valid ready keep =>
    simp only [popEntry_frame, pushAck_ackQueue, popEntry_history, pushAck_history] at hr ⊢
    grind
  | evict level index bound style dirty send =>
    left
    obtain ⟨inner, rfl⟩ | ⟨last, rfl⟩ := sendBelow_cases send <;> simpa using hr
  | issue level id bound valid outstanding send =>
    left
    obtain ⟨inner, rfl⟩ | ⟨last, rfl⟩ := sendBelow_cases send <;> simpa using hr
  | _ => left; simpa using hr

/-- A request in a bank was there before, has become ready by a hit, or was accepted. -/
theorem Step.reqs (h : Step cfg ports s t) {l b : Nat} {r : CacheReq} (hr : r ∈ (t.level l).reqs b) :
    r ∈ (s.level l).reqs b ∨
      (∃ q rest, (s.level l).reqs b = q :: rest ∧ r = { q with ready := true } ∧
        ((cfg.level l).writeStrategy = .WRITE_BACK → q.writes = true →
          ∃ index, checkCacheHit cfg s (setBase cfg q.addr l) q.addr l = some index ∧
            (t.level l).line = Function.update (s.level l).line index
              { (s.level l).line index with dirty := true })) ∨
      (.accepted l r ∈ t.history.drop s.history.length ∧ r.stamp = s.history.length) := by
  cases h with
  | book same => left; rwa [same.reqs] at hr
  | core through req origin waits =>
    simp only [enqueue_reqs, enqueue_history, List.drop_left] at hr ⊢
    grind
  | hit level bankId index req rest bank front waits resident style =>
    have reqs (u : Cache) (same : (u.level l).reqs = (s.level l).reqs)
        (mem : r ∈ ((setFrontReady u level bankId).level l).reqs b) :
        r ∈ (s.level l).reqs b ∨ (l = level ∧ b = bankId ∧ r = { req with ready := true }) := by
      rw [setFrontReady_reqs] at mem
      by_cases here : l = level ∧ b = bankId
      · obtain ⟨rfl, rfl⟩ := here
        rw [if_pos ⟨rfl, rfl⟩, same, front] at mem
        obtain rfl | old := List.mem_cons.mp mem
        · exact .inr ⟨rfl, rfl, rfl⟩
        · exact .inl (front ▸ List.mem_cons_of_mem _ old)
      · rw [if_neg here, same] at mem
        exact .inl mem
    by_cases writes : req.writes = true
    · rw [if_pos writes] at hr ⊢
      obtain old | ⟨rfl, rfl, rfl⟩ := reqs _ (setDirty_frame s level index l).1 hr
      · exact .inl old
      · exact .inr (.inl ⟨req, rest, front, rfl, fun _ _ =>
          ⟨index, resident, by simp [setDirty_line]⟩⟩)
    · rw [if_neg writes] at hr ⊢
      obtain old | ⟨rfl, rfl, rfl⟩ := reqs _ rfl hr
      · exact .inl old
      · exact .inr (.inl ⟨req, rest, front, rfl, fun _ h => absurd h writes⟩)
  | through level bankId req rest bank front waits free style =>
    rw [setFrontReady_reqs, (missToMshr_frame cfg s level level req free).1,
      (missToMshr_frame cfg s level l req free).1] at hr
    by_cases here : l = level ∧ b = bankId
    · obtain ⟨rfl, rfl⟩ := here
      rw [if_pos ⟨rfl, rfl⟩, front] at hr
      obtain rfl | old := List.mem_cons.mp hr
      · exact .inr (.inl ⟨req, rest, front, rfl, fun h => by simp [style] at h⟩)
      · exact .inl (front ▸ List.mem_cons_of_mem _ old)
    · rw [if_neg here] at hr
      exact .inl hr
  | miss level bankId req rest bank front waits free =>
    left
    simp only [popReq_reqs, missToMshr_frame cfg s level _ req free] at hr
    grind [List.mem_of_mem_tail]
  | sendReady level bankId req rest front ready =>
    simp only [pushAck_frame, popReq_reqs] at hr
    grind [List.mem_of_mem_tail]
  | evict level index bound style dirty send =>
    obtain ⟨inner, rfl⟩ | ⟨last, rfl⟩ := sendBelow_cases send
    · simp only [clean_frame, enqueue_reqs, clean_history, enqueue_history, List.append_assoc,
        List.drop_left] at hr ⊢
      grind
    · left; simpa using hr
  | issue level id bound valid outstanding send =>
    obtain ⟨inner, rfl⟩ | ⟨last, rfl⟩ := sendBelow_cases send
    · simp only [clearOutstanding_frame, record_level, enqueue_reqs, clearOutstanding_history,
        record_history, enqueue_history, List.append_assoc, List.drop_left] at hr ⊢
      grind
    · left; simpa using hr
  | _ => left; simpa using hr

variable (cfg s t) in
/-- What the state before a step has to do with an event of the step. -/
def Caused : Event → Prop
  | .accepted l r => r.stamp = s.history.length ∧
      ((l = 0 ∧ r.origin = .core ∧ r.ready = false) ∨
        (∃ k id, l = k + 1 ∧ ((s.level k).mshr.mshrTable id).valid = true ∧
          ((s.level k).mshr.mshrTable id).outstanding = true ∧
          r = { fillReq s k id with stamp := s.history.length } ∧
          .issued k (fillReq s k id) ∈ t.history) ∨
        (∃ k i line, l = k + 1 ∧ (∃ n, r.origin = .writeBack k n) ∧
          r.cacheOp = .WRITEBACK_DIRTY_BLOCK ∧ .evicted k i line r.addr ∈ t.history))
  | .joined l r entry => ∃ b rest id, (s.level l).reqs b = r :: rest ∧ r.ready = false ∧
      (s.level l).mshr.joinId (cfg.getCacheBlockId r.addr l) = some id ∧
      entry = (s.level l).mshr.mshrTable id
  | .allocated l r alloc => ∃ b rest, (s.level l).reqs b = r :: rest ∧ r.ready = false ∧
      alloc = (s.level l).mshr.allocated.length
  | .issued l r => ∃ id, ((s.level l).mshr.mshrTable id).valid = true ∧
      ((s.level l).mshr.mshrTable id).outstanding = true ∧ r = fillReq s l id
  | .evicted l i line addr => (cfg.level l).writeStrategy = .WRITE_BACK ∧ line.dirty = true ∧
      line = (s.level l).line i ∧ addr = writeBackAddr cfg line.tag i l
  | .response l addr origin hit entries => Answer cfg s l addr origin ∧
      hit = (checkCacheHit cfg s (setBase cfg addr l) addr l).isSome ∧
      entries = waiting cfg s addr l
  | .installed l addr origin => ∃ entries, .response l addr origin false entries ∈ s.history
  | .acked l r => (∃ b rest, (s.level l).reqs b = r :: rest ∧ r.ready = true) ∨
      ∃ id, ((s.level l).mshr.mshrTable id).valid = true ∧
        ((s.level l).mshr.mshrTable id).ready = true ∧
        r = { ((s.level l).mshr.mshrTable id).front with ready := true }
  | .sent r => ∃ rest, s.reqQueue2Mem = r :: rest

theorem missToMshr_caused {r : CacheReq} {l b : Nat} {rest : List CacheReq}
    (front : (s.level l).reqs b = r :: rest) (waits : r.ready = false)
    (free : (s.level l).mshr.seekMshrFreeEntry = true) :
    ∃ e, (missToMshr cfg s r l).history = s.history ++ [e] ∧ Caused cfg s t e := by
  obtain ⟨id, found, eq⟩ | ⟨id, found, eq⟩ := missToMshr_cases cfg r free
  · exact ⟨.joined l r _, by rw [eq]; rfl, b, rest, id, front, waits, found, rfl⟩
  · exact ⟨.allocated l r _, by rw [eq]; rfl, b, rest, front, waits, rfl⟩

/-- Every event of a step is explained by the state before the step. -/
theorem Step.caused (h : Step cfg ports s t) :
    ∃ es, t.history = s.history ++ es ∧ ∀ e ∈ es, Caused cfg s t e := by
  cases h with
  | book same => exact ⟨[], by simp [same.history], by simp⟩
  | core through req origin waits => exact ⟨_, rfl, by simp [Caused, origin, waits]⟩
  | hit level bankId index req rest bank front waits resident style =>
    exact ⟨[], by split <;> simp, by simp⟩
  | through level bankId req rest bank front waits free style =>
    obtain ⟨e, eq, cause⟩ := missToMshr_caused
      (t := setFrontReady (missToMshr cfg s req level) level bankId) front waits free
    exact ⟨[e], eq, by simpa using cause⟩
  | miss level bankId req rest bank front waits free =>
    obtain ⟨e, eq, cause⟩ := missToMshr_caused
      (t := popReq (missToMshr cfg s req level) level bankId) front waits free
    exact ⟨[e], eq, by simpa using cause⟩
  | sendReady level bankId req rest front ready =>
    refine ⟨_, rfl, ?_⟩
    simp only [List.mem_singleton, forall_eq]
    exact .inl ⟨bankId, rest, front, ready⟩
  | respond level id valid ready keep =>
    refine ⟨_, rfl, ?_⟩
    simp only [List.mem_singleton, forall_eq]
    exact .inr ⟨id, valid, ready, rfl⟩
  | response level addr origin answer =>
    refine ⟨_, rfl, ?_⟩
    simp only [List.mem_singleton, forall_eq]
    exact ⟨answer, rfl, rfl⟩
  | evict level index bound style dirty send =>
    obtain ⟨inner, rfl⟩ | ⟨last, rfl⟩ := sendBelow_cases send
    · refine ⟨_, List.append_assoc _ _ _, ?_⟩
      simp only [List.cons_append, List.nil_append, List.mem_cons, List.not_mem_nil, or_false,
        forall_eq_or_imp, forall_eq]
      exact ⟨⟨rfl, .inr (.inr ⟨level, index, (s.level level).line index, rfl, ⟨_, rfl⟩, rfl,
        by simp⟩)⟩, style, dirty, rfl, rfl⟩
    · refine ⟨_, rfl, ?_⟩
      simp only [List.mem_singleton, forall_eq]
      exact ⟨style, dirty, rfl, rfl⟩
  | install level index addr origin entries free answered place =>
    exact ⟨_, rfl, by simpa [Caused] using ⟨entries, answered⟩⟩
  | issue level id bound valid outstanding send =>
    obtain ⟨inner, rfl⟩ | ⟨last, rfl⟩ := sendBelow_cases send
    · refine ⟨_, List.append_assoc _ _ _, ?_⟩
      simp only [List.cons_append, List.nil_append, List.mem_cons, List.not_mem_nil, or_false,
        forall_eq_or_imp, forall_eq]
      exact ⟨⟨rfl, .inr (.inl ⟨level, id, rfl, valid, outstanding, rfl, by simp⟩)⟩,
        id, valid, outstanding, rfl⟩
    · refine ⟨_, rfl, ?_⟩
      simp only [List.mem_singleton, forall_eq]
      exact ⟨id, valid, outstanding, rfl⟩
  | sendMem through req rest head => exact ⟨_, rfl, by simp [Caused, head]⟩
  | _ => exact ⟨[], by simp, by simp⟩

variable (cfg s t) in
/-- How a step can change the MSHR of a level. -/
inductive MshrChange (l : Nat) : Mshr → Prop where
  | same (m : Mshr) (table : m.mshrTable = (s.level l).mshr.mshrTable)
      (entryNum : m.entryNum = (s.level l).mshr.entryNum)
      (allocated : m.allocated = (s.level l).mshr.allocated) : MshrChange l m
  | join (b id : Nat) (r : CacheReq) (rest : List CacheReq)
      (front : (s.level l).reqs b = r :: rest) (waits : r.ready = false)
      (found : (s.level l).mshr.joinId (cfg.getCacheBlockId r.addr l) = some id)
      (event : t.history = s.history ++ [.joined l r ((s.level l).mshr.mshrTable id)]) :
      MshrChange l ((s.level l).mshr.join id r)
  | allocate (b id : Nat) (r : CacheReq) (rest : List CacheReq)
      (front : (s.level l).reqs b = r :: rest) (waits : r.ready = false)
      (found : (s.level l).mshr.freeId = some id)
      (event : t.history = s.history ++ [.allocated l r (s.level l).mshr.allocated.length]) :
      MshrChange l ((s.level l).mshr.allocate id (cfg.getCacheBlockId r.addr l) r)
  | pop (id : Nat) (valid : ((s.level l).mshr.mshrTable id).valid = true)
      (ready : ((s.level l).mshr.mshrTable id).ready = true) :
      MshrChange l ((s.level l).mshr.popEntry id)
  | setReady (addr : Nat) (origin : Origin) (hit : Bool)
      (answered : .response l addr origin hit (waiting cfg s addr l) ∈ s.history)
      (quiet : t.history = s.history) :
      MshrChange l ((s.level l).mshr.setMshrEntryReady (cfg.getCacheBlockId addr l))
  | issue (id : Nat) (valid : ((s.level l).mshr.mshrTable id).valid = true)
      (outstanding : ((s.level l).mshr.mshrTable id).outstanding = true)
      (event : .issued l (fillReq s l id) ∈ t.history.drop s.history.length) :
      MshrChange l ((s.level l).mshr.clearOutstandingFlag [id])

theorem MshrChange.refl (l : Nat) (h : (t.level l).mshr = (s.level l).mshr) :
    MshrChange cfg s t l (t.level l).mshr := .same _ (by rw [h]) (by rw [h]) (by rw [h])

/-- A miss joins or opens an entry of its own level. -/
theorem missToMshr_change {r : CacheReq} {l b : Nat} {rest : List CacheReq}
    (front : (s.level l).reqs b = r :: rest) (waits : r.ready = false)
    (free : (s.level l).mshr.seekMshrFreeEntry = true)
    (history : t.history = (missToMshr cfg s r l).history) (k : Nat) :
    MshrChange cfg s t k ((missToMshr cfg s r l).level k).mshr := by
  obtain ⟨id, found, eq⟩ | ⟨id, found, eq⟩ := missToMshr_cases cfg r free <;>
    rw [eq] at history ⊢ <;> by_cases here : k = l
  · subst here
    simpa using MshrChange.join b id r rest front waits found history
  · exact .same _ (by simp [here]) (by simp [here]) (by simp [here])
  · subst here
    simpa using MshrChange.allocate b id r rest front waits found history
  · exact .same _ (by simp [here]) (by simp [here]) (by simp [here])

theorem Step.mshr (h : Step cfg ports s t) (l : Nat) : MshrChange cfg s t l (t.level l).mshr := by
  cases h with
  | book same => exact .same _ (same.mshrTable l) (same.entryNum l) (same.allocated l)
  | hit level bankId index req rest bank front waits resident style =>
    apply MshrChange.refl
    split <;> simp
  | through level bankId req rest bank front waits free style =>
    have change := missToMshr_change front waits free
      (t := setFrontReady (missToMshr cfg s req level) level bankId) rfl l
    simpa using change
  | miss level bankId req rest bank front waits free =>
    have change := missToMshr_change front waits free
      (t := popReq (missToMshr cfg s req level) level bankId) rfl l
    simpa using change
  | respond level id valid ready keep =>
    rw [popEntry_mshr]
    split
    · subst l; simpa using MshrChange.pop id valid ready
    · exact .same _ (by simp) (by simp) (by simp)
  | drop level id valid ready writeBack =>
    rw [popEntry_mshr]
    split
    · subst l; exact .pop id valid ready
    · exact .same _ rfl rfl rfl
  | setReady level addr origin hit answered =>
    rw [setMshrEntryReady_mshr]
    split
    · subst l; exact .setReady addr origin hit answered rfl
    · exact .same _ rfl rfl rfl
  | evict level index bound style dirty send =>
    obtain ⟨inner, rfl⟩ | ⟨last, rfl⟩ := sendBelow_cases send <;> exact .refl l (by simp)
  | issue level id bound valid outstanding send =>
    have same : ∀ u, sendBelow cfg s (fillReq s level id) level = some u →
        ∀ k, (u.level k).mshr = (s.level k).mshr := by
      intro u sent k
      obtain ⟨inner, rfl⟩ | ⟨last, rfl⟩ := sendBelow_cases sent <;> simp
    rw [clearOutstanding_mshr, record_level, same _ send, same _ send]
    split
    · subst l
      refine .issue id valid outstanding ?_
      obtain ⟨inner, rfl⟩ | ⟨last, rfl⟩ := sendBelow_cases send <;> simp
    · exact .same _ rfl rfl rfl
  | _ => exact .refl l (by simp)

variable (cfg s t) in
/-- How a step can change the lines of a level. -/
inductive LineChange (l : Nat) : (Nat → CacheLine) → Prop where
  | same : LineChange l (s.level l).line
  | dirty (b index : Nat) (r : CacheReq) (rest : List CacheReq)
      (front : (s.level l).reqs b = r :: rest) (writes : r.writes = true)
      (resident : checkCacheHit cfg s (setBase cfg r.addr l) r.addr l = some index) :
      LineChange l (Function.update (s.level l).line index
        { (s.level l).line index with dirty := true })
  | clean (index : Nat) (dirty : ((s.level l).line index).dirty = true)
      (event : .evicted l index ((s.level l).line index)
        (writeBackAddr cfg ((s.level l).line index).tag index l) ∈
          t.history.drop s.history.length) :
      LineChange l (Function.update (s.level l).line index
        { (s.level l).line index with dirty := false })
  | install (index addr count : Nat) (origin : Origin)
      (free : ((s.level l).line index).valid = true →
        (cfg.level l).writeStrategy = .WRITE_BACK → ((s.level l).line index).dirty = false)
      (place : FillPlace cfg s l index addr)
      (event : t.history = s.history ++ [.installed l addr origin]) :
      LineChange l (Function.update (s.level l).line index
        { tag := cfg.getCacheTag addr l, count := count, valid := true })

theorem Step.line (h : Step cfg ports s t) (l : Nat) : LineChange cfg s t l (t.level l).line := by
  have refl (same : (t.level l).line = (s.level l).line) : LineChange cfg s t l (t.level l).line :=
    same ▸ .same
  cases h with
  | book same => exact refl (same.line l)
  | hit level bankId index req rest bank front waits resident style =>
    by_cases writes : req.writes = true
    · by_cases here : l = level
      · subst here
        simpa [writes, setDirty_line] using .dirty bankId index req rest front writes resident
      · exact refl (by simp [writes, setDirty_line, here])
    · exact refl (by simp [writes])
  | through level bankId req rest bank front waits free style =>
    exact refl (by simp [missToMshr_frame cfg s level l req free])
  | miss level bankId req rest bank front waits free =>
    exact refl (by simp [missToMshr_frame cfg s level l req free])
  | evict level index bound style dirty send =>
    have same : ∀ u, writeBackDirtyCacheline cfg s ((s.level level).line index).tag index level
        = some u → ∀ k, (u.level k).line = (s.level k).line := by
      intro u sent k
      obtain ⟨inner, rfl⟩ | ⟨last, rfl⟩ := sendBelow_cases sent <;> simp
    rw [clean_line, same _ send, same _ send]
    split
    · subst l
      refine .clean index dirty ?_
      obtain ⟨inner, rfl⟩ | ⟨last, rfl⟩ := sendBelow_cases send <;> simp
    · exact .same
  | install level index addr origin entries free answered place =>
    rw [record_level, setCacheLine_line]
    split
    · subst l; exact .install index addr s.tickCount origin free place rfl
    · exact .same
  | issue level id bound valid outstanding send =>
    obtain ⟨inner, rfl⟩ | ⟨last, rfl⟩ := sendBelow_cases send <;> exact refl (by simp)
  | _ => exact refl (by simp)

variable (cfg s t) in
/-- How a step can change the queue to the memory. -/
inductive MemChange : Prop where
  | same (queue : t.reqQueue2Mem = s.reqQueue2Mem) (count : t.memAccessCnt = s.memAccessCnt)
      (unsent : sentReqs t.history = sentReqs s.history)
  | fill (id : Nat) (valid : ((s.level cfg.llc).mshr.mshrTable id).valid = true)
      (outstanding : ((s.level cfg.llc).mshr.mshrTable id).outstanding = true)
      (mshr : (t.level cfg.llc).mshr = (s.level cfg.llc).mshr.clearOutstandingFlag [id])
      (queue : t.reqQueue2Mem =
        s.reqQueue2Mem ++ [transCacheReq2MemReq (fillReq s cfg.llc id)])
      (count : t.memAccessCnt = s.memAccessCnt)
      (event : t.history = s.history ++ [.issued cfg.llc (fillReq s cfg.llc id)])
  | writeBack (index : Nat) (dirty : ((s.level cfg.llc).line index).dirty = true) (r : CacheReq)
      (op : r.cacheOp = .WRITEBACK_DIRTY_BLOCK)
      (origin : r.origin = .writeBack cfg.llc s.cacheWMemoryCount)
      (queue : t.reqQueue2Mem = s.reqQueue2Mem ++ [transCacheReq2MemReq r])
      (victims : t.cacheWMemoryCount = s.cacheWMemoryCount + 1)
      (count : t.memAccessCnt = s.memAccessCnt)
      (event : t.history = s.history ++
        [.evicted cfg.llc index ((s.level cfg.llc).line index) r.addr])
  | send (r : MemReq) (queue : s.reqQueue2Mem = r :: t.reqQueue2Mem)
      (count : t.memAccessCnt = s.memAccessCnt + 1) (event : t.history = s.history ++ [.sent r])

theorem Step.toMem (h : Step cfg ports s t) : MemChange cfg s t := by
  cases h with
  | book same => exact .same same.reqQueue2Mem same.memAccessCnt (by rw [same.history])
  | core through req origin waits => exact .same rfl rfl (by simp [sentReqs])
  | hit level bankId index req rest bank front waits resident style =>
    split <;> exact .same rfl rfl rfl
  | through level bankId req rest bank front waits free style =>
    obtain ⟨id, -, eq⟩ | ⟨id, -, eq⟩ := missToMshr_cases cfg req free <;>
      rw [eq] <;> exact .same rfl rfl (by simp [sentReqs])
  | miss level bankId req rest bank front waits free =>
    obtain ⟨id, -, eq⟩ | ⟨id, -, eq⟩ := missToMshr_cases cfg req free <;>
      rw [eq] <;> exact .same rfl rfl (by simp [sentReqs])
  | evict level index bound style dirty send =>
    obtain ⟨inner, rfl⟩ | ⟨last, rfl⟩ := sendBelow_cases send
    · exact .same rfl rfl (by simp [sentReqs])
    · obtain rfl : level = cfg.llc := by omega
      exact .writeBack index dirty _ rfl rfl rfl rfl rfl rfl
  | issue level id bound valid outstanding send =>
    obtain ⟨inner, rfl⟩ | ⟨last, rfl⟩ := sendBelow_cases send
    · exact .same rfl rfl (by simp [sentReqs])
    · obtain rfl : level = cfg.llc := by omega
      exact .fill id valid outstanding (by simp [clearOutstanding_mshr]) rfl rfl rfl
  | sendMem through req rest head => exact .send req head rfl rfl
  | _ => exact .same rfl rfl (by simp [sentReqs])

theorem Step.quiet (h : Step cfg ports s t) (quiet : .memory ∉ ports) :
    sentReqs t.history = sentReqs s.history := by
  cases h with
  | book same => rw [same.history]
  | hit level bankId index req rest bank front waits resident style => split <;> rfl
  | through level bankId req rest bank front waits free style =>
    obtain ⟨_, eq⟩ | ⟨_, eq⟩ := missToMshr_history cfg req free <;> simp [eq, sentReqs]
  | miss level bankId req rest bank front waits free =>
    obtain ⟨_, eq⟩ | ⟨_, eq⟩ := missToMshr_history cfg req free <;> simp [eq, sentReqs]
  | evict level index bound style dirty send =>
    obtain ⟨inner, rfl⟩ | ⟨last, rfl⟩ := sendBelow_cases send <;> simp [sentReqs]
  | issue level id bound valid outstanding send =>
    obtain ⟨inner, rfl⟩ | ⟨last, rfl⟩ := sendBelow_cases send <;> simp [sentReqs]
  | sendMem through req rest head => exact absurd through quiet
  | _ => simp [sentReqs]

/-- Victims are only ever added. -/
theorem Step.victims (h : Step cfg ports s t) : s.cacheWMemoryCount ≤ t.cacheWMemoryCount := by
  cases h with
  | book same => exact same.cacheWMemoryCount.ge
  | hit level bankId index req rest bank front waits resident style => split <;> exact le_rfl
  | through level bankId req rest bank front waits free style =>
    obtain ⟨id, -, eq⟩ | ⟨id, -, eq⟩ := missToMshr_cases cfg req free <;> rw [eq] <;> exact le_rfl
  | miss level bankId req rest bank front waits free =>
    obtain ⟨id, -, eq⟩ | ⟨id, -, eq⟩ := missToMshr_cases cfg req free <;> rw [eq] <;> exact le_rfl
  | evict level index bound style dirty send =>
    obtain ⟨inner, rfl⟩ | ⟨last, rfl⟩ := sendBelow_cases send <;> exact Nat.le_succ _
  | issue level id bound valid outstanding send =>
    obtain ⟨inner, rfl⟩ | ⟨last, rfl⟩ := sendBelow_cases send <;> exact le_rfl
  | _ => exact le_rfl

end Cache

end DataflowSim.Memory
