import DataflowSim.Memory.Mshr

/-!
# The non-blocking cache

`Cache.h` and `Cache.cpp`: any number of levels, each with banked request and ack queues, a
set-associative line array and an MSHR table, over one queue of transactions to the memory.
Banks and lines are functions on indices. `Debug::throwError` prints a message and returns
in the Linux build, so an error branch continues; only an access outside an array has no
successor state.

`history` lists what the cache has done so far, with the parts of the state that each event
found. No function reads it.
-/

namespace DataflowSim.Memory

structure CacheLine where
  tag : Nat := 0
  count : Nat := 0
  valid : Bool := false
  dirty : Bool := false
  lock : Bool := false
  deriving DecidableEq, Repr

inductive Event where
  /-- The request entered the request queue of the level. -/
  | accepted (level : Nat) (req : CacheReq)
  /-- The missing request joined the open entry. -/
  | joined (level : Nat) (req : CacheReq) (entry : MshrEntry)
  /-- The missing request opened an entry, as the `alloc`-th allocation of the level. -/
  | allocated (level : Nat) (req : CacheReq) (alloc : Nat)
  /-- The demand fill was handed to the next level. -/
  | issued (level : Nat) (req : CacheReq)
  /-- The dirty line at `index` was written back to the next level under `addr`. -/
  | evicted (level index : Nat) (line : CacheLine) (addr : Nat)
  /-- A request of the level was answered from below; `hit` tells whether its block was
  resident, and `waiting` lists the open MSHR entries of its block. -/
  | response (level addr : Nat) (origin : Origin) (hit : Bool) (waiting : List MshrEntry)
  /-- The response installed its block. -/
  | installed (level addr : Nat) (origin : Origin)
  /-- The request entered the ack queue of the level. -/
  | acked (level : Nat) (req : CacheReq)
  /-- The transaction was handed to the memory. -/
  | sent (req : MemReq)
  deriving DecidableEq, Repr

/-- The transactions that the memory has got, in order. -/
def sentReqs (history : List Event) : List MemReq :=
  history.filterMap fun
    | .sent req => some req
    | _ => none

@[simp] theorem sentReqs_append (h k : List Event) :
    sentReqs (h ++ k) = sentReqs h ++ sentReqs k := List.filterMap_append

theorem mem_sentReqs {h : List Event} {r : MemReq} : r ∈ sentReqs h ↔ .sent r ∈ h := by
  simp only [sentReqs, List.mem_filterMap]
  constructor
  · rintro ⟨e, mem, found⟩
    cases e <;> simp_all
  · intro mem
    exact ⟨_, mem, rfl⟩

structure Level where
  reqQueue : Nat → List (CacheReq × Nat) := fun _ => []
  ackQueue : Nat → List CacheReq := fun _ => []
  reqBankConflict : Nat → Bool := fun _ => false
  ackBankConflict : Nat → Bool := fun _ => false
  reqQueueBankPtr : Nat := 0
  ackQueueBankPtr : Nat := 0
  line : Nat → CacheLine := fun _ => {}
  mshr : Mshr
  hitCount : Nat := 0
  missCount : Nat := 0

structure Cache where
  level : Nat → Level
  reqQueue2Mem : List MemReq
  tickCount : Nat := 0
  randCount : Nat := 0
  cacheWMemoryCount : Nat := 0
  cacheAccessCnt : Nat := 0
  memAccessCnt : Nat := 0
  history : List Event := []

namespace Cache

def setLevel (s : Cache) (l : Nat) (lv : Level) : Cache :=
  { s with level := Function.update s.level l lv }

def record (s : Cache) (e : Event) : Cache := { s with history := s.history ++ [e] }

@[simp] theorem setLevel_level (s : Cache) (l : Nat) (lv : Level) :
    (s.setLevel l lv).level = Function.update s.level l lv := rfl
@[simp] theorem setLevel_reqQueue2Mem (s : Cache) (l : Nat) (lv : Level) :
    (s.setLevel l lv).reqQueue2Mem = s.reqQueue2Mem := rfl
@[simp] theorem setLevel_history (s : Cache) (l : Nat) (lv : Level) :
    (s.setLevel l lv).history = s.history := rfl
@[simp] theorem setLevel_cacheWMemoryCount (s : Cache) (l : Nat) (lv : Level) :
    (s.setLevel l lv).cacheWMemoryCount = s.cacheWMemoryCount := rfl
@[simp] theorem setLevel_memAccessCnt (s : Cache) (l : Nat) (lv : Level) :
    (s.setLevel l lv).memAccessCnt = s.memAccessCnt := rfl
@[simp] theorem record_level (s : Cache) (e : Event) : (s.record e).level = s.level := rfl
@[simp] theorem record_reqQueue2Mem (s : Cache) (e : Event) :
    (s.record e).reqQueue2Mem = s.reqQueue2Mem := rfl
@[simp] theorem record_history (s : Cache) (e : Event) :
    (s.record e).history = s.history ++ [e] := rfl
@[simp] theorem record_cacheWMemoryCount (s : Cache) (e : Event) :
    (s.record e).cacheWMemoryCount = s.cacheWMemoryCount := rfl
@[simp] theorem record_memAccessCnt (s : Cache) (e : Event) :
    (s.record e).memAccessCnt = s.memAccessCnt := rfl

variable (cfg : Config)

/-- `Cache::init`. Every ack queue starts full of default requests, and the queue to the
memory starts with one default request for each bank of the last level. -/
def init : Cache where
  level l :=
    { ackQueue := fun b =>
        if b < (cfg.level l).bankNum then
          List.replicate (cfg.level l).ackQueueSizePerBank {}
        else []
      mshr :=
        { entryNum := (cfg.level l).mshrEntryNum
          entrySize := (cfg.level l).mshrSizePerEntry } }
  reqQueue2Mem := List.replicate (cfg.level cfg.llc).bankNum {}

def setBase (addr level : Nat) : Nat :=
  cfg.getCacheSetIndex addr level * (cfg.level level).mappingWays

/-- The line that holds the address, if any way of its set does. -/
def checkCacheHit (s : Cache) (setBase addr level : Nat) : Option Nat :=
  ((List.range (cfg.level level).mappingWays).find? fun i =>
    ((s.level level).line (setBase + i)).valid &&
      ((s.level level).line (setBase + i)).tag == cfg.getCacheTag addr level).map (setBase + ·)

/-- The request behind the others of its bank. -/
def enqueue (s : Cache) (cacheReq : CacheReq) (level : Nat) : Cache :=
  let bankId := cfg.getCacheBank cacheReq.addr level
  let lv := s.level level
  let req := { cacheReq with stamp := s.history.length }
  (s.setLevel level { lv with
    reqQueue := Function.update lv.reqQueue bankId
      (lv.reqQueue bankId ++ [(req, (cfg.level level).accessLatency)])
    reqBankConflict := Function.update lv.reqBankConflict bankId true }).record
      (.accepted level req)

/-- Put a request into its bank, at most one in each clock and only while there is room. -/
def sendReq2CacheBank (s : Cache) (cacheReq : CacheReq) (level : Nat) : Option Cache :=
  let bankId := cfg.getCacheBank cacheReq.addr level
  let lv := s.level level
  if (lv.reqQueue bankId).length < (cfg.level level).reqQueueSizePerBank ∧
      lv.reqBankConflict bankId = false then
    some (enqueue cfg s cacheReq level)
  else none

def sendReq2reqQueue2Mem (s : Cache) (cacheReq : CacheReq) : Option Cache :=
  if s.reqQueue2Mem.length < cfg.reqQueueToMemSize then
    some { s with reqQueue2Mem := s.reqQueue2Mem ++ [transCacheReq2MemReq cacheReq] }
  else none

/-- Hand a request of the level to the level below it, or to the memory. -/
def sendBelow (s : Cache) (cacheReq : CacheReq) (level : Nat) : Option Cache :=
  if level < cfg.llc then sendReq2CacheBank cfg s cacheReq (level + 1)
  else sendReq2reqQueue2Mem cfg s cacheReq

/-- The address of a write-back: the tag above the second argument, which
`getCacheFreeLine` calls with the index of the line in the whole array. -/
def writeBackAddr (tag setIndex level : Nat) : Nat :=
  ((tag <<< ((cfg.level level).cacheSetShift + (cfg.level level).cacheLineShift)) |||
    (setIndex <<< (cfg.level level).cacheLineShift)) % 2 ^ 64

def writeBackDirtyCacheline (s : Cache) (tag setIndex level : Nat) : Option Cache :=
  sendBelow cfg s
    { valid := true
      addr := writeBackAddr cfg tag setIndex level
      cacheOp := .WRITEBACK_DIRTY_BLOCK
      origin := .writeBack level s.cacheWMemoryCount } level

/-- The eligible way with the least count; the search starts from the greatest number. -/
def oldestWay (ways : Nat) (count : Nat → Nat) (eligible : Nat → Bool) : Option Nat :=
  ((List.range ways).foldl (fun best j =>
    if count j < best.1 ∧ eligible j = true then (count j, some j) else best)
    (2 ^ 64 - 1, none)).2

/-- The way that the replacement policy gives up when all ways of the set are valid. -/
def selectVictim (s : Cache) (setBase level : Nat) : Option Nat × Cache :=
  let ways := (cfg.level level).mappingWays
  let line j := (s.level level).line (setBase + j)
  let fallback := oldestWay ways (fun j => (line j).count) fun _ => true
  match (cfg.level level).swapStyle with
  | .CACHE_SWAP_RAND =>
    (some (cfg.rand s.randCount % ways), { s with randCount := s.randCount + 1 })
  | .CACHE_SWAP_LRU | .CACHE_SWAP_FIFO =>
    ((oldestWay ways (fun j => (line j).count) fun j => !(line j).lock).or fallback, s)
  | .CACHE_SWAP_MAX => (fallback, s)

/-- The line at `index` is clean now, and its write-back is recorded. -/
def clean (s : Cache) (index level : Nat) (victim : CacheLine) : Cache :=
  let lv := s.level level
  { (s.setLevel level { lv with
      line := Function.update lv.line index { lv.line index with dirty := false } }).record
        (.evicted level index victim (writeBackAddr cfg victim.tag index level)) with
    cacheWMemoryCount := s.cacheWMemoryCount + 1 }

/-- Give up the line at `index`, writing it back first when it is dirty. -/
def releaseLine (s : Cache) (index level : Nat) : Option Nat × Cache :=
  let victim := (s.level level).line index
  if (cfg.level level).writeStrategy = .WRITE_BACK ∧ victim.dirty = true then
    match writeBackDirtyCacheline cfg s victim.tag index level with
    | some t => (some index, clean cfg t index level victim)
    | none => (none, s)
  else (some index, s)

/-- A line of the set for a new block: an invalid one, else the released victim. -/
def getCacheFreeLine (s : Cache) (setBase level : Nat) : Option Nat × Cache :=
  match (List.range (cfg.level level).mappingWays).find? fun i =>
      !((s.level level).line (setBase + i)).valid with
  | some i => (some (setBase + i), s)
  | none =>
    match selectVictim cfg s setBase level with
    | (some j, s) => releaseLine cfg s (setBase + j) level
    | (none, s) => (none, s)

def setCacheLine (s : Cache) (index addr level : Nat) : Cache :=
  let lv := s.level level
  { s.setLevel level { lv with
      line := Function.update lv.line index
        { tag := cfg.getCacheTag addr level, count := s.tickCount, valid := true } } with
    tickCount := (s.tickCount + 1) % 2 ^ 64 }

/-- Install the block of the address on a miss; `none` when no line can be freed, together
with what the search for one did. -/
def fillBlock (s : Cache) (addr level : Nat) (origin : Origin) : Bool × Cache :=
  if (checkCacheHit cfg s (setBase cfg addr level) addr level).isSome then (true, s)
  else
    match getCacheFreeLine cfg s (setBase cfg addr level) level with
    | (some index, s) =>
      (true, (setCacheLine cfg s index addr level).record (.installed level addr origin))
    | (none, s) => (false, s)

/-- `Cache::setCacheBlock`. -/
def setCacheBlock (s : Cache) (addr level : Nat) (origin : Origin) : Bool × Cache :=
  fillBlock cfg s addr level origin

def setMshrEntryReady (s : Cache) (addr level : Nat) : Cache :=
  let lv := s.level level
  s.setLevel level
    { lv with mshr := lv.mshr.setMshrEntryReady (cfg.getCacheBlockId addr level) }

/-- The open MSHR entries of the block of the address. -/
def waiting (s : Cache) (addr level : Nat) : List MshrEntry :=
  ((List.range (s.level level).mshr.entryNum).map (s.level level).mshr.mshrTable).filter
    fun e => e.valid && e.blockAddr == cfg.getCacheBlockId addr level

def recordResponse (s : Cache) (addr level : Nat) (origin : Origin) : Cache :=
  s.record (.response level addr origin
    (checkCacheHit cfg s (setBase cfg addr level) addr level).isSome (waiting cfg s addr level))

/-- A block arrives from the memory. When no line can be freed the source stores through
the index `-1`, outside the line array. -/
def memReqComplete (s : Cache) (req : MemReq) : Option Cache :=
  match fillBlock cfg (recordResponse cfg s req.addr cfg.llc req.origin) req.addr cfg.llc
      req.origin with
  | (true, s) => some (setMshrEntryReady cfg s req.addr cfg.llc)
  | (false, _) => none

def addTransaction (s : Cache) (req : MemReq) : Option Cache :=
  sendReq2CacheBank cfg s (transMemReq2CacheReq req) 0

/-- The bank without the ack at its head. -/
def popAck (s : Cache) (level bankId : Nat) : Cache :=
  let lv := s.level level
  s.setLevel level
    { lv with ackQueue := Function.update lv.ackQueue bankId (lv.ackQueue bankId).tail }

def callBack (s : Cache) (ackQueueId : Nat) : MemReq × Cache :=
  match (s.level 0).ackQueue ackQueueId with
  | [] => ({}, s)
  | req :: _ => (transCacheReq2MemReq req, popAck s 0 ackQueueId)

/-- Hand the queued transactions to the memory while it accepts them; `accept` lists its
answers to `WillAcceptTransaction`. -/
def sendReq2Mem (s : Cache) : List Bool → Cache
  | true :: accept =>
    match s.reqQueue2Mem with
    | [] => s
    | req :: rest =>
      sendReq2Mem ({ s with reqQueue2Mem := rest, memAccessCnt := s.memAccessCnt + 1 }.record
        (.sent req)) accept
  | _ => s

def resetBankConflictRecorder (s : Cache) : Cache :=
  { s with level := fun l =>
      if l < cfg.cacheMaxLevel then
        { s.level l with
          reqBankConflict := fun _ => false
          ackBankConflict := fun _ => false }
      else s.level l }

def updateReqQueueLatency (s : Cache) (clkAdd : Bool) : Cache :=
  if clkAdd then
    { s with level := fun l =>
        if l < cfg.cacheMaxLevel then
          { s.level l with
            reqQueue := fun b => ((s.level l).reqQueue b).map fun r => (r.1, r.2 - 1) }
        else s.level l }
  else s

/-- Queue a miss of the level and leave the rest of the level alone. -/
def missToMshr (s : Cache) (req : CacheReq) (level : Nat) : Cache :=
  let lv := s.level level
  let blockAddr := cfg.getCacheBlockId req.addr level
  match lv.mshr.send2Mshr blockAddr req with
  | some mshr =>
    (s.setLevel level { lv with mshr := mshr }).record
      (match lv.mshr.joinId blockAddr with
        | some id => .joined level req (lv.mshr.mshrTable id)
        | none => .allocated level req lv.mshr.allocated.length)
  | none => s

def setFrontReady (s : Cache) (level bankId : Nat) : Cache :=
  let lv := s.level level
  s.setLevel level { lv with
    reqQueue := Function.update lv.reqQueue bankId
      (match lv.reqQueue bankId with
        | [] => []
        | (req, latency) :: rest => ({ req with ready := true }, latency) :: rest) }

def countHit (s : Cache) (level : Nat) : Cache :=
  let lv := s.level level
  s.setLevel level { lv with hitCount := lv.hitCount + 1 }

def setDirty (s : Cache) (index level : Nat) : Cache :=
  let lv := s.level level
  s.setLevel level { lv with
    line := Function.update lv.line index { lv.line index with dirty := true } }

/-- The bank without the request at its head. -/
def popReq (s : Cache) (level bankId : Nat) : Cache :=
  let lv := s.level level
  s.setLevel level
    { lv with reqQueue := Function.update lv.reqQueue bankId (lv.reqQueue bankId).tail }

def countMiss (s : Cache) (level : Nat) : Cache :=
  let lv := s.level level
  s.setLevel level { lv with missCount := lv.missCount + 1 }

/-- Look up the request at the head of one bank once its latency has passed. -/
def lookup (s : Cache) (level bankId : Nat) : Cache :=
  match (s.level level).reqQueue bankId with
  | [] => s
  | (req, latency) :: _ =>
    if latency = 0 ∧ req.ready = false then
      match checkCacheHit cfg s (setBase cfg req.addr level) req.addr level with
      | some index =>
        let s :=
          if req.cacheOp = .WRITE ∨ req.cacheOp = .WRITEBACK_DIRTY_BLOCK then
            match (cfg.level level).writeStrategy with
            | .WRITE_BACK => setFrontReady (setDirty s index level) level bankId
            | .WRITE_THROUGH => setFrontReady (missToMshr cfg s req level) level bankId
          else setFrontReady s level bankId
        countHit s level
      | none => countMiss (popReq (missToMshr cfg s req level) level bankId) level
    else s

/-- Round robin over the banks; the loop stops when the MSHR has no free entry. -/
def lookupBanks (s : Cache) (level ptr : Nat) : List Nat → Cache
  | [] => s
  | i :: banks =>
    if (s.level level).mshr.seekMshrFreeEntry then
      lookupBanks (lookup cfg s level ((ptr + i) % (cfg.level level).bankNum)) level ptr banks
    else s

def updateReqQueueLevel (s : Cache) (level : Nat) : Cache :=
  let s := lookupBanks cfg s level (s.level level).reqQueueBankPtr
    (List.range (cfg.level level).bankNum)
  let lv := s.level level
  s.setLevel level
    { lv with reqQueueBankPtr := (lv.reqQueueBankPtr + 1) % (cfg.level level).bankNum }

def updateReqQueue (s : Cache) : Cache :=
  (List.range cfg.cacheMaxLevel).foldl (updateReqQueueLevel cfg) s

/-- The head of every ack bank of the level, in round robin order, and the level without
them. -/
def popAckQueue (s : Cache) (level : Nat) : List CacheReq × Cache :=
  let lv := s.level level
  let n := (cfg.level level).bankNum
  (((List.range n).map fun i => (lv.ackQueueBankPtr + i) % n).filterMap fun b =>
      (lv.ackQueue b).head?,
    s.setLevel level { lv with
      ackQueue := fun b => if b < n then (lv.ackQueue b).tail else lv.ackQueue b
      ackQueueBankPtr := (lv.ackQueueBankPtr + 1) % n })

/-- An ack of the level below reaches `level`. -/
def fillUpper (level : Nat) (s : Cache) (req : CacheReq) : Cache :=
  let s := setMshrEntryReady cfg (recordResponse cfg s req.addr level req.origin) req.addr level
  if req.cacheOp = .WRITE ∧ (cfg.level level).writeAllocate = .WRITE_NON_ALLOCATE then s
  else (setCacheBlock cfg s req.addr level req.origin).2

def pushAck (s : Cache) (level bankId : Nat) (req : CacheReq) : Cache :=
  let lv := s.level level
  (s.setLevel level { lv with
    ackQueue := Function.update lv.ackQueue bankId (lv.ackQueue bankId ++ [req]) }).record
      (.acked level req)

/-- Offer the head of one ready MSHR entry to its ack bank. A dirty write-back is dropped
without an ack. The result tells whether the head is to be popped. -/
def respond (s : Cache) (level : Nat) (req : CacheReq) : Bool × Cache :=
  let lv := s.level level
  let bankId := cfg.getCacheBank req.addr level
  if req.cacheOp = .WRITEBACK_DIRTY_BLOCK then (true, s)
  else if lv.ackBankConflict bankId = false ∧
      (lv.ackQueue bankId).length < (cfg.level level).ackQueueSizePerBank then
    let s := s.setLevel level
      { lv with ackBankConflict := Function.update lv.ackBankConflict bankId true }
    (true, pushAck s level bankId { req with ready := true })
  else (false, s)

/-- The entries whose heads were answered, and the state after the answers. -/
def respondAll (s : Cache) (level : Nat) : List (Nat × CacheReq) → List Nat × Cache
  | [] => ([], s)
  | (id, req) :: rest =>
    match respond cfg s level req with
    | (true, s) => let out := respondAll s level rest; (id :: out.1, out.2)
    | (false, s) => respondAll s level rest

def respondMshr (s : Cache) (level : Nat) : Cache :=
  let lv := s.level level
  let (reqVec, mshr) := lv.mshr.peekMshrReadyEntry
  let (entryIdVec, s) := respondAll cfg (s.setLevel level { lv with mshr := mshr }) level reqVec
  let lv := s.level level
  s.setLevel level { lv with mshr := lv.mshr.clearMshrEntry entryIdVec }

/-- Move the ready request at the head of one bank to the ack queue. -/
def sendReady (level : Nat) (s : Cache) (bankId : Nat) : Cache :=
  let lv := s.level level
  match lv.reqQueue bankId with
  | [] => s
  | (req, _) :: _ =>
    if req.ready = true ∧ lv.ackBankConflict bankId = false ∧
        (lv.ackQueue bankId).length < (cfg.level level).ackQueueSizePerBank then
      pushAck (popReq s level bankId) level bankId req
    else s

def updateAckQueueLevel (s : Cache) (level : Nat) : Cache :=
  let s :=
    if 0 < level then
      let (cacheReqVec, s) := popAckQueue cfg s level
      cacheReqVec.foldl (fillUpper cfg (level - 1)) s
    else s
  let s := respondMshr cfg s level
  (List.range (cfg.level level).bankNum).foldl (sendReady cfg level) s

/-- From the last level to the first. -/
def updateAckQueue (s : Cache) : Cache :=
  (List.range cfg.cacheMaxLevel).reverse.foldl (updateAckQueueLevel cfg) s

/-- Send the outstanding fills of the level; the result lists the entries that were sent. -/
def sendFills (s : Cache) (level : Nat) : List (Nat × CacheReq) → List Nat × Cache
  | [] => ([], s)
  | (id, req) :: rest =>
    match sendBelow cfg s req level with
    | some t => let out := sendFills (t.record (.issued level req)) level rest; (id :: out.1, out.2)
    | none => sendFills s level rest

def sendMshrOutstandingReqLevel (s : Cache) (level : Nat) : Cache :=
  let (mshrEntryId, s) := sendFills cfg s level ((s.level level).mshr.getOutstandingReq level)
  let lv := s.level level
  s.setLevel level { lv with mshr := lv.mshr.clearOutstandingFlag mshrEntryId }

def sendMshrOutstandingReq (s : Cache) : Cache :=
  (List.range cfg.cacheMaxLevel).foldl (sendMshrOutstandingReqLevel cfg) s

def cacheUpdate (s : Cache) (clkAdd : Bool) : Cache :=
  updateReqQueueLatency cfg
    (updateReqQueue cfg
      (sendMshrOutstandingReq cfg
        (updateAckQueue cfg (resetBankConflictRecorder cfg s)))) clkAdd

def updateCacheAccessCnt (s : Cache) : Cache := { s with cacheAccessCnt := s.cacheAccessCnt + 1 }

/-! ## What each operation can do -/

variable {cfg}
variable {s t : Cache}

theorem sendReq2CacheBank_eq_some {req : CacheReq} {level : Nat} :
    sendReq2CacheBank cfg s req level = some t ↔
      ((s.level level).reqQueue (cfg.getCacheBank req.addr level)).length <
          (cfg.level level).reqQueueSizePerBank ∧
        (s.level level).reqBankConflict (cfg.getCacheBank req.addr level) = false ∧
        enqueue cfg s req level = t := by
  simp only [sendReq2CacheBank, Option.ite_none_right_eq_some, Option.some.injEq, and_assoc]

theorem sendReq2reqQueue2Mem_eq_some {req : CacheReq} :
    sendReq2reqQueue2Mem cfg s req = some t ↔
      s.reqQueue2Mem.length < cfg.reqQueueToMemSize ∧
        { s with reqQueue2Mem := s.reqQueue2Mem ++ [transCacheReq2MemReq req] } = t := by
  simp only [sendReq2reqQueue2Mem, Option.ite_none_right_eq_some, Option.some.injEq]

/-- A request goes to the next level, or behind the transactions for the memory. -/
theorem sendBelow_cases {req : CacheReq} {level : Nat} (send : sendBelow cfg s req level = some t) :
    (level < cfg.llc ∧ t = enqueue cfg s req (level + 1)) ∨
      (¬ level < cfg.llc ∧
        t = { s with reqQueue2Mem := s.reqQueue2Mem ++ [transCacheReq2MemReq req] }) := by
  unfold sendBelow at send
  by_cases inner : level < cfg.llc
  · rw [if_pos inner] at send
    exact .inl ⟨inner, (sendReq2CacheBank_eq_some.mp send).2.2.symm⟩
  · rw [if_neg inner] at send
    exact .inr ⟨inner, (sendReq2reqQueue2Mem_eq_some.mp send).2.symm⟩

theorem releaseLine_some {index level i : Nat}
    (released : releaseLine cfg s index level = (some i, t)) :
    i = index ∧
      ((¬ ((cfg.level level).writeStrategy = .WRITE_BACK ∧
          ((s.level level).line index).dirty = true) ∧ t = s) ∨
        ((cfg.level level).writeStrategy = .WRITE_BACK ∧
          ((s.level level).line index).dirty = true ∧
          ∃ u, writeBackDirtyCacheline cfg s ((s.level level).line index).tag index level = some u ∧
            t = clean cfg u index level ((s.level level).line index))) := by
  unfold releaseLine at released
  by_cases dirty : (cfg.level level).writeStrategy = .WRITE_BACK ∧
      ((s.level level).line index).dirty = true
  · simp only [dirty, and_self, ↓reduceIte] at released
    cases sent : writeBackDirtyCacheline cfg s ((s.level level).line index).tag index level with
    | none => simp [sent] at released
    | some u =>
      simp only [sent, Prod.mk.injEq, Option.some.injEq] at released
      exact ⟨released.1.symm, .inr ⟨dirty.1, dirty.2, u, rfl, released.2.symm⟩⟩
  · simp only [dirty, ↓reduceIte, Prod.mk.injEq, Option.some.injEq] at released
    exact ⟨released.1.symm, .inl ⟨dirty, released.2.symm⟩⟩

theorem releaseLine_none {index level : Nat}
    (released : releaseLine cfg s index level = (none, t)) : t = s := by
  unfold releaseLine at released
  by_cases dirty : (cfg.level level).writeStrategy = .WRITE_BACK ∧
      ((s.level level).line index).dirty = true
  · simp only [dirty, and_self, ↓reduceIte] at released
    cases sent : writeBackDirtyCacheline cfg s ((s.level level).line index).tag index level with
    | none => simpa [sent] using released.symm
    | some u => simp [sent] at released
  · simp [dirty] at released

/-- With a free entry a miss joins an open entry of its block or opens an entry. -/
theorem missToMshr_cases (cfg : Config) (req : CacheReq) {level : Nat}
    (free : (s.level level).mshr.seekMshrFreeEntry = true) :
    (∃ id, (s.level level).mshr.joinId (cfg.getCacheBlockId req.addr level) = some id ∧
      missToMshr cfg s req level =
        (s.setLevel level { s.level level with mshr := (s.level level).mshr.join id req }).record
          (.joined level req ((s.level level).mshr.mshrTable id))) ∨
    (∃ id, (s.level level).mshr.freeId = some id ∧
      missToMshr cfg s req level =
        (s.setLevel level { s.level level with
          mshr := (s.level level).mshr.allocate id (cfg.getCacheBlockId req.addr level) req }).record
          (.allocated level req (s.level level).mshr.allocated.length)) := by
  obtain ⟨m, hm⟩ := Option.isSome_iff_exists.mp
    (Mshr.send2Mshr_isSome (cfg.getCacheBlockId req.addr level) req free)
  obtain ⟨id, found, rfl⟩ | ⟨id, absent, found, rfl⟩ := Mshr.send2Mshr_cases hm
  · exact .inl ⟨id, found, by simp only [missToMshr, hm, found]⟩
  · exact .inr ⟨id, found, by simp only [missToMshr, hm, absent]⟩

end Cache

end DataflowSim.Memory
