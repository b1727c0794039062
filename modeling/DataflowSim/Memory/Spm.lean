import DataflowSim.Memory.Request

/-!
# The scratchpad memory

`Spm.cpp`: a request waits in a slot of `reqQueue` for its access latency, is sent to the memory
when the memory accepts it, and is handed back when the memory has completed it. The memory names
a transaction that is complete by its address and its kind only; it completes them in any order.

`ticket` numbers the requests in the order of acceptance; `accepted`, `sent` and `acked` list what
`addTransaction` took, what `sendReq2Mem` sent and what `callBack` returned. No function reads them.
`outstanding` is what the memory has not completed.
-/

namespace DataflowSim.Memory

structure SpmEntry where
  req : MemReq := {}
  spmReqQueueIndex : Nat := 0
  latency : Nat := 0
  ticket : Nat := 0
  deriving DecidableEq, Repr

structure Transaction where
  addr : Nat
  isWrite : Bool
  deriving DecidableEq, Repr

structure Spm where
  reqQueue : List SpmEntry
  sendPtr : Nat := 0
  memAccessCnt : Nat := 0
  outstanding : List Transaction := []
  accepted : List MemReq := []
  sent : List Nat := []
  acked : List (Nat × MemReq) := []

inductive SpmEvent where
  | addTransaction (req : MemReq)
  | callBack
  | spmUpdate (clkAdd : Bool)
  /-- The answers of the memory to `WillAcceptTransaction`. -/
  | sendReq2Mem (accept : List Bool)
  /-- The memory completes a transaction, given by its position. -/
  | complete (position : Nat)
  deriving DecidableEq, Repr

def SpmEntry.transaction (e : SpmEntry) : Transaction := ⟨e.req.addr, e.req.isWrite⟩

namespace Spm

def init (size : Nat) : Spm where
  reqQueue := List.replicate size {}

def setEntry (s : Spm) (i : Nat) (e : SpmEntry) : Spm := { s with reqQueue := s.reqQueue.set i e }

def addTransaction (latency : Nat) (s : Spm) (req : MemReq) : Bool × Spm :=
  match s.reqQueue.findIdx? fun e => !e.req.valid with
  | some i =>
    let e : SpmEntry := ⟨req, i, latency, s.accepted.length⟩
    (true, { s.setEntry i e with accepted := s.accepted ++ [req] })
  | none => (false, s)

def isReady (e : SpmEntry) : Bool := e.req.valid && e.req.ready

def clear (e : SpmEntry) : SpmEntry :=
  if isReady e then { e with req := { e.req with valid := false } } else e

def callBack (s : Spm) : List MemReq × Spm :=
  let ready := s.reqQueue.filter isReady
  (ready.map SpmEntry.req, { s with
    reqQueue := s.reqQueue.map clear
    acked := s.acked ++ ready.map fun e => (e.ticket, e.req) })

def reqQueueUpdate (s : Spm) (clkAdd : Bool) : Spm :=
  if clkAdd then
    { s with reqQueue := s.reqQueue.map fun e => { e with latency := e.latency - 1 } }
  else s

/-- Whether `sendReq2Mem` offers the request to the memory. -/
def offers (e : SpmEntry) : Bool :=
  e.req.valid && !e.req.inflight && !e.req.ready && e.latency == 0

def send (s : Spm) (i : Nat) (e : SpmEntry) : Spm :=
  { s.setEntry i { e with req := { e.req with inflight := true } } with
    memAccessCnt := s.memAccessCnt + 1
    outstanding := s.outstanding ++ [e.transaction]
    sent := s.sent ++ [e.ticket] }

def advance (s : Spm) : Spm := { s with sendPtr := (s.sendPtr + 1) % s.reqQueue.length }

/-- The turns of the loop; it ends when the memory does not accept a request. -/
def sendLoop : Nat → List Bool → Spm → Spm
  | 0, _, s => s
  | k + 1, accept, s =>
    let e := s.reqQueue.getD s.sendPtr {}
    if offers e then
      match accept with
      | true :: accept => sendLoop k accept (send s s.sendPtr e).advance
      | _ => s
    else sendLoop k accept s.advance

def sendReq2Mem (s : Spm) (accept : List Bool) : Spm := sendLoop s.reqQueue.length accept s

/-- The entries that `mem_req_complete` takes for the one that was completed. -/
def answers (t : Transaction) (e : SpmEntry) : Bool :=
  e.req.valid && !e.req.ready && e.req.addr == t.addr && e.req.isWrite == t.isWrite

def finish (e : SpmEntry) : SpmEntry := { e with req := { e.req with ready := true, inflight := false } }

def memReqComplete (s : Spm) (t : Transaction) : Spm :=
  match s.reqQueue.findIdx? (answers t) with
  | some i => s.setEntry i (finish (s.reqQueue.getD i {}))
  | none => s

/-- A request that nobody has sent yet. -/
def Fresh (req : MemReq) : Prop := req.valid = true ∧ req.inflight = false ∧ req.ready = false

instance (req : MemReq) : Decidable (Fresh req) := inferInstanceAs (Decidable (_ ∧ _))

/-- What is added is a fresh request, and what is completed is a transaction that the memory has. -/
def step (latency : Nat) (s : Spm) : SpmEvent → Option Spm
  | .addTransaction req => if Fresh req then some (addTransaction latency s req).2 else none
  | .callBack => some (callBack s).2
  | .spmUpdate clkAdd => some (reqQueueUpdate s clkAdd)
  | .sendReq2Mem accept => some (sendReq2Mem s accept)
  | .complete position =>
    s.outstanding[position]?.map fun t =>
      { memReqComplete s t with outstanding := s.outstanding.eraseIdx position }

end Spm

end DataflowSim.Memory
