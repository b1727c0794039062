import DataflowSim.Memory.Hierarchy

/-!
# The memory system

`MemSystem.cpp` with `Coalescer.cpp` and `MemoryDataBus.cpp`: requests of the LSEs enter
through the bank recorder, where reads of one block are coalesced, and travel through banked
queues and the cache; acks travel back. A `Tick` holds everything an update takes from
outside: what the LSEs expose, what the memory accepts and completes, and whether the clock
advances.

`admitted` and `acked` list the requests that `setInflight` and `ackCallback` were called
with. No function reads them.
-/

namespace DataflowSim.Memory

structure SysConfig where
  cache : Config
  lseNum : Nat
  /-- `memSystem_queue_bank_num`. -/
  bankNum : Nat
  reqQueueSizePerBank : Nat
  ackQueueSizePerBank : Nat
  coalescerEntryNum : Nat
  coalescerSizePerEntry : Nat
  cacheAllHit : Bool
  busDelay : Nat

structure BankRecorderEntry where
  valid : Bool := false
  addrTag : Nat := 0
  hasRegisteredCoalescer : Bool := false
  reqQueue : List MemReq := []
  deriving DecidableEq, Repr

structure CoalescerEntry where
  blockAddr : Nat
  coalescerQueue : List MemReq
  deriving DecidableEq, Repr

/-- Where the source reports an error or leaves defined behaviour: no line can be freed for a
block that arrives from the memory, a coalesced ack finds no coalescer entry, the coalescer is
full, or a request queue is full when it gets a request. -/
inductive Fault where
  | noLine | noEntry | tableFull | queueFull
  deriving DecidableEq, Repr

structure MemSystem where
  cache : Cache
  reqQueueWritePtr : Nat := 0
  ackQueueReadPtr : Nat := 0
  reqQueue : Nat → List MemReq := fun _ => []
  ackQueue : Nat → List MemReq := fun _ => []
  reqAckStack : List MemReq := []
  busDelayFifo : List (MemReq × Nat) := []
  coalescerTable : List CoalescerEntry := []
  bankRecorder : Nat → BankRecorderEntry := fun _ => {}
  coalescerFreeEntryNum : Nat := 0
  admitted : List MemReq := []
  acked : List MemReq := []

/-- What one update takes from outside. -/
structure Tick where
  clkAdd : Bool
  /-- What `peekReqQueue` of each LSE returns until `setInflight` is called. -/
  offers : Nat → Option MemReq
  /-- The transactions that the memory completes, as positions in the order of sending. -/
  completions : List Nat
  /-- The answers of the memory to `WillAcceptTransaction`. -/
  accept : List Bool

namespace MemSystem

variable (cfg : SysConfig)

def init : MemSystem where
  cache := Cache.init cfg.cache

def getBankId (addr : Nat) : Nat := cfg.cache.getCacheBank addr 0

def getAddrTag (addr : Nat) : Nat := cfg.cache.getCacheBlockId addr 0

/-- The first `k` stops of a scan over `n` places: `ptr = (ptr + i) % n` for growing `i`. -/
def scan (n : Nat) : Nat → Nat → Nat → List Nat
  | 0, _, _ => []
  | k + 1, i, ptr => (ptr + i) % n :: scan n k (i + 1) ((ptr + i) % n)

/-! ## Acks to the LSEs -/

def searchCoalescer (s : MemSystem) (blockAddr : Nat) : Option Nat :=
  s.coalescerTable.findIdx? fun entry => entry.blockAddr == blockAddr

/-- Which requests of a coalescer queue are acknowledged while each LSE takes one ack, and
which stay. -/
def drain (lseRecorder : Nat → Bool) : List MemReq → (Nat → Bool) × List MemReq × List MemReq
  | [] => (lseRecorder, [], [])
  | req :: rest =>
    if lseRecorder req.lseId then
      let out := drain lseRecorder rest
      (out.1, out.2.1, req :: out.2.2)
    else
      let out := drain (Function.update lseRecorder req.lseId true) rest
      (out.1, req :: out.2.1, out.2.2)

def sendBackBank (s : MemSystem × (Nat → Bool)) (bankId : Nat) :
    Except Fault (MemSystem × (Nat → Bool)) :=
  let (s, lseRecorder) := s
  match s.ackQueue bankId with
  | [] => .ok (s, lseRecorder)
  | req :: rest =>
    if req.coalesced then
      match s.searchCoalescer (getAddrTag cfg req.addr) with
      | none => .error .noEntry
      | some id =>
        let entry := s.coalescerTable.getD id ⟨0, []⟩
        let (lseRecorder, acks, left) := drain lseRecorder entry.coalescerQueue
        if left.isEmpty then
          .ok ({ s with
            ackQueue := Function.update s.ackQueue bankId rest
            coalescerTable := s.coalescerTable.eraseIdx id
            acked := s.acked ++ acks }, lseRecorder)
        else
          .ok ({ s with
            coalescerTable := s.coalescerTable.set id { entry with coalescerQueue := left }
            acked := s.acked ++ acks }, lseRecorder)
    else if lseRecorder req.lseId then .ok (s, lseRecorder)
    else
      .ok ({ s with
        ackQueue := Function.update s.ackQueue bankId rest
        acked := s.acked ++ [req] }, Function.update lseRecorder req.lseId true)

def sendBack2Lse (s : MemSystem) : Except Fault MemSystem :=
  match (scan cfg.bankNum cfg.bankNum 0 s.ackQueueReadPtr).foldlM (sendBackBank cfg)
      (s, fun _ => false) with
  | .ok (s, _) => .ok s
  | .error fault => .error fault

/-! ## Cache and memory -/

def getFromCacheBank (s : MemSystem) (queueId : Nat) : MemSystem :=
  if (s.ackQueue queueId).length < cfg.ackQueueSizePerBank then
    let (ack, cache) := s.cache.callBack queueId
    if ack.valid then
      { s with
        cache := cache
        ackQueue := Function.update s.ackQueue queueId (s.ackQueue queueId ++ [ack]) }
    else { s with cache := cache }
  else s

def getFromCache (s : MemSystem) : MemSystem :=
  (List.range cfg.bankNum).foldl (getFromCacheBank cfg) s

def returnReqAck (s : MemSystem) : Except Fault MemSystem :=
  match s.reqAckStack.foldlM (Cache.memReqComplete cfg.cache) s.cache with
  | some cache => .ok { s with cache := cache, reqAckStack := [] }
  | none => .error .noLine

/-- One step of the bus delay; everything at the head that has waited long enough leaves. -/
def memoryDataBusUpdate (s : MemSystem) : MemSystem :=
  let busDelayFifo := s.busDelayFifo.map fun r => (r.1, r.2 - 1)
  { s with
    reqAckStack := s.reqAckStack ++
      (busDelayFifo.takeWhile fun r => r.2 == 0).map Prod.fst
    busDelayFifo := busDelayFifo.dropWhile fun r => r.2 == 0 }

/-- The memory calls `mem_read_complete` or `mem_write_complete`, which only get the address. -/
def dramUpdate (s : MemSystem) (completions : List Nat) : MemSystem :=
  { s with
    busDelayFifo := s.busDelayFifo ++ completions.filterMap fun i =>
      (sentReqs s.cache.history)[i]?.map fun req =>
        ({ valid := true, isWrite := req.isWrite, addr := req.addr, origin := req.origin },
          cfg.busDelay) }

def send2CacheBank (s : MemSystem) (bankId : Nat) : MemSystem :=
  match s.reqQueue bankId with
  | [] => s
  | req :: rest =>
    if cfg.cacheAllHit then
      if (s.ackQueue bankId).length < cfg.ackQueueSizePerBank then
        { s with
          ackQueue := Function.update s.ackQueue bankId (s.ackQueue bankId ++ [req])
          reqQueue := Function.update s.reqQueue bankId rest
          cache := s.cache.updateCacheAccessCnt }
      else s
    else
      match Cache.addTransaction cfg.cache s.cache req with
      | some cache =>
        { s with
          reqQueue := Function.update s.reqQueue bankId rest
          cache := cache.updateCacheAccessCnt }
      | none => s

def send2Cache (s : MemSystem) : MemSystem :=
  (List.range cfg.bankNum).foldl (send2CacheBank cfg) s

/-- What an update does when the clock advances, in the reverse order of the path. -/
def serve (s : MemSystem) (tick : Tick) : Except Fault MemSystem :=
  match returnReqAck cfg (getFromCache cfg s) with
  | .error fault => .error fault
  | .ok s =>
    let s := send2Cache cfg (dramUpdate cfg (memoryDataBusUpdate s) tick.completions)
    .ok { s with cache := (Cache.cacheUpdate cfg.cache s.cache true).sendReq2Mem tick.accept }

/-! ## Requests of the LSEs -/

/-- What an LSE exposes is a request of its own that waits for the memory. -/
def peekReqQueue (offers : Nat → Option MemReq) (lse : Nat) : Option MemReq :=
  (offers lse).map fun req =>
    { req with valid := true, ready := false, lseId := lse, origin := .core }

def setEntry (s : MemSystem) (bankId : Nat) (entry : BankRecorderEntry) : MemSystem :=
  { s with bankRecorder := Function.update s.bankRecorder bankId entry }

/-- The request enters the bank recorder, and its LSE learns that it is in flight. -/
def enter (s : MemSystem) (bankId : Nat) (entry : BankRecorderEntry) (req : MemReq) : MemSystem :=
  { s.setEntry bankId { entry with reqQueue := entry.reqQueue ++ [req] } with
    admitted := s.admitted ++ [req] }

/-- The first request that coalesces with an entry occupies a coalescer entry for it. -/
def register (s : MemSystem) (bankId : Nat) : MemSystem :=
  let entry := s.bankRecorder bankId
  if entry.hasRegisteredCoalescer then s
  else
    { s.setEntry bankId { entry with hasRegisteredCoalescer := true } with
      coalescerFreeEntryNum := s.coalescerFreeEntryNum - 1 }

/-- Offer one request to its bank; the result tells whether it was taken. -/
def tryAdmit (s : MemSystem) (req : MemReq) : Bool × MemSystem :=
  let bankId := getBankId cfg req.addr
  let entry := s.bankRecorder bankId
  if (s.reqQueue bankId).length < cfg.reqQueueSizePerBank then
    if entry.valid = false then
      (true, enter s bankId
        { entry with valid := true, addrTag := getAddrTag cfg req.addr } req)
    else if req.isWrite = false ∧ (entry.reqQueue.headD {}).isWrite = false ∧
        0 < s.coalescerFreeEntryNum ∧ getAddrTag cfg req.addr = entry.addrTag then
      let s := register s bankId
      if entry.reqQueue.length < cfg.coalescerSizePerEntry then
        (true, enter s bankId (s.bankRecorder bankId) { req with coalesced := true })
      else (false, s)
    else (false, s)
  else (false, s)

/-- One stop of the scan over the LSEs. A request that was taken is not exposed any more. -/
def visitLse (s : MemSystem × (Nat → Option MemReq)) (lse : Nat) :
    MemSystem × (Nat → Option MemReq) :=
  match peekReqQueue s.2 lse with
  | none => s
  | some req =>
    match tryAdmit cfg s.1 req with
    | (true, t) => (t, Function.update s.2 lse none)
    | (false, t) => (t, s.2)

def send2Coalescer (s : MemSystem) (entryId : Nat) : Except Fault MemSystem :=
  let entry := s.bankRecorder entryId
  if entry.valid ∧ entry.hasRegisteredCoalescer then
    if s.coalescerTable.length < cfg.coalescerEntryNum then
      .ok { s with coalescerTable := s.coalescerTable ++ [⟨entry.addrTag, entry.reqQueue⟩] }
    else .error .tableFull
  else .ok s

def resetBankRecorder (s : MemSystem) (entryId : Nat) : MemSystem :=
  s.setEntry entryId { s.bankRecorder entryId with
    valid := false, hasRegisteredCoalescer := false, reqQueue := [] }

def addTransaction (s : MemSystem) (req : MemReq) : Except Fault MemSystem :=
  let bankId := getBankId cfg req.addr
  if (s.reqQueue bankId).length < cfg.reqQueueSizePerBank then
    .ok { s with reqQueue := Function.update s.reqQueue bankId (s.reqQueue bankId ++ [req]) }
  else .error .queueFull

/-- The request at the front represents all requests that were coalesced with it. -/
def sendFront (s : MemSystem) (entryId : Nat) : Except Fault MemSystem :=
  let entry := s.bankRecorder entryId
  if entry.valid then
    let req :=
      { entry.reqQueue.headD {} with coalesced := entry.hasRegisteredCoalescer }
    let s := s.setEntry entryId { entry with reqQueue := req :: entry.reqQueue.tail }
    match addTransaction cfg s req with
    | .ok s => .ok (resetBankRecorder s entryId)
    | .error fault => .error fault
  else .ok s

/-- When the clock advances, the bank recorder is emptied into the coalescer and the
request queues. -/
def flush (s : MemSystem) : Except Fault MemSystem :=
  match (List.range (cfg.cache.level 0).bankNum).foldlM (send2Coalescer cfg) s with
  | .error fault => .error fault
  | .ok s =>
    match (List.range (cfg.cache.level 0).bankNum).foldlM (sendFront cfg) s with
    | .error fault => .error fault
    | .ok s =>
      .ok { s with coalescerFreeEntryNum := cfg.coalescerEntryNum - s.coalescerTable.length }

def getLseReq (s : MemSystem) (tick : Tick) : Except Fault MemSystem :=
  let (s, _) := (scan cfg.lseNum cfg.lseNum 0 s.reqQueueWritePtr).foldl (visitLse cfg)
    (s, tick.offers)
  let s := { s with reqQueueWritePtr := (s.reqQueueWritePtr + 1) % cfg.lseNum }
  if tick.clkAdd then flush cfg s else .ok s

def memSystemUpdate (s : MemSystem) (tick : Tick) : Except Fault MemSystem :=
  match sendBack2Lse cfg s with
  | .error fault => .error fault
  | .ok s =>
    if tick.clkAdd then
      match serve cfg s tick with
      | .error fault => .error fault
      | .ok s => getLseReq cfg s tick
    else getLseReq cfg s tick

end MemSystem

end DataflowSim.Memory
