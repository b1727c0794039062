import DataflowSim.Memory.Held
import DataflowSim.Memory.MemSystem

/-!
# Conservation of requests

With a write-back first level, every request that was taken out of an LSE is either
acknowledged or held in exactly one queue. A coalesced group travels as one request that
carries the flag `coalesced`, while the requests themselves wait in the bank recorder and
then in the coalescer; so the flagged request is not counted on the path, and there are as
many flagged requests of a block as there are coalescer entries of it. A write-through first
level copies writes, which are never coalesced, so the flagged requests are conserved there
too.
-/

namespace DataflowSim.Memory

/-- What a request is known by: its address, its LSE and its slot there. -/
structure Key where
  addr : Nat
  lseId : Nat
  lseReqQueueIndex : Nat
  deriving DecidableEq, Repr

def MemReq.key (r : MemReq) : Key := ⟨r.addr, r.lseId, r.lseReqQueueIndex⟩

/-- A request on the path that stands for itself. -/
def Ident.single (f : Key → Bool) (i : Ident) : Bool :=
  i.valid && !i.coalesced && f ⟨i.addr, i.lseId, i.lseReqQueueIndex⟩

/-- A request on the path that stands for a coalesced group of the block. -/
def Ident.group (cfg : SysConfig) (blockAddr : Nat) (i : Ident) : Bool :=
  i.valid && i.coalesced && MemSystem.getAddrTag cfg i.addr == blockAddr

namespace MemSystem

variable (cfg : SysConfig)

/-- Requests of the path from the request queues through the cache to the ack queues. -/
def onPath (s : MemSystem) (p : Ident → Bool) : Nat :=
  tally cfg.bankNum s.reqQueue (p ·.ident) + s.cache.held cfg.cache p +
    tally cfg.bankNum s.ackQueue (p ·.ident)

def inRecorder (s : MemSystem) (f : Key → Bool) : Nat :=
  tally cfg.bankNum (fun b => (s.bankRecorder b).reqQueue) (f ·.key)

def inCoalescer (table : List CoalescerEntry) (f : Key → Bool) : Nat :=
  (table.map fun entry => entry.coalescerQueue.countP (f ·.key)).sum

/-- All places where a request can be held. -/
def heldIn (s : MemSystem) (f : Key → Bool) : Nat :=
  inRecorder cfg s f + onPath cfg s (Ident.single f) + inCoalescer s.coalescerTable f

/-- The number of bank recorder entries that own a coalescer entry. -/
def registered (s : MemSystem) : Nat :=
  tally cfg.bankNum (fun b => [s.bankRecorder b]) fun entry => entry.hasRegisteredCoalescer

/-- A request as an LSE exposes it. -/
structure Waits (r : MemReq) : Prop where
  valid : r.valid = true
  ready : r.ready = false
  origin : r.origin = .core

/-- A request of a request queue. -/
structure Queued (r : MemReq) : Prop extends Waits r where
  reads : r.coalesced = true → r.isWrite = false

/-- An entry of the bank recorder holds requests of its own bank, and of one block as soon
as there are several. -/
structure EntryOk (bankId : Nat) (entry : BankRecorderEntry) : Prop where
  closed : entry.valid = false → entry.reqQueue = [] ∧ entry.hasRegisteredCoalescer = false
  opened : entry.valid = true → entry.reqQueue ≠ []
  alone : entry.hasRegisteredCoalescer = false → entry.reqQueue.length ≤ 1
  reads : entry.hasRegisteredCoalescer = true → (entry.reqQueue.headD {}).isWrite = false
  waits : ∀ r ∈ entry.reqQueue, Waits r
  bank : ∀ r ∈ entry.reqQueue, getBankId cfg r.addr = bankId
  block : ∀ r ∈ entry.reqQueue, getAddrTag cfg r.addr = entry.addrTag

/-- The memory system has as many banks as the first level, and at least one. -/
structure Banked : Prop where
  banks : 0 < (cfg.cache.level 0).bankNum
  bankNum : (cfg.cache.level 0).bankNum = cfg.bankNum

structure OneLevel : Prop where
  cache : Cache.OneLevel cfg.cache
  bankNum : (cfg.cache.level 0).bankNum = cfg.bankNum

/-- The invariant of the memory system. -/
structure Conserved (s : MemSystem) : Prop where
  cache : Cache.Sound cfg.cache s.cache
  stack : ∀ r ∈ s.reqAckStack,
    ∃ q, .sent q ∈ s.cache.history ∧ q.addr = r.addr ∧ q.origin = r.origin
  bus : ∀ r ∈ s.busDelayFifo,
    ∃ q, .sent q ∈ s.cache.history ∧ q.addr = r.1.addr ∧ q.origin = r.1.origin
  reqs : ∀ b, ∀ r ∈ s.reqQueue b, Queued r
  acks : ∀ b, ∀ r ∈ s.ackQueue b, r.valid = true
  entries : ∀ b, EntryOk cfg b (s.bankRecorder b)
  room : ∀ b, (s.bankRecorder b).valid = true →
    (s.reqQueue b).length < cfg.reqQueueSizePerBank
  free : s.coalescerFreeEntryNum + registered cfg s + s.coalescerTable.length ≤
    cfg.coalescerEntryNum
  groups : ∀ T, onPath cfg s (Ident.group cfg T) = s.coalescerTable.countP (·.blockAddr == T)
  counts : (cfg.cache.level 0).writeStrategy = .WRITE_BACK →
    ∀ f, s.admitted.countP (f ·.key) = s.acked.countP (f ·.key) + heldIn cfg s f

variable {cfg}
variable {s t : MemSystem} {f : Key → Bool}

theorem OneLevel.banked (one : OneLevel cfg) : Banked cfg := ⟨one.cache.banks, one.bankNum⟩

theorem Banked.some_bank (banked : Banked cfg) : 0 < cfg.bankNum := banked.bankNum ▸ banked.banks

theorem getBankId_lt (banked : Banked cfg) (addr : Nat) : getBankId cfg addr < cfg.bankNum :=
  banked.bankNum ▸ Nat.mod_lt _ banked.banks

theorem mem_scan {n k i ptr b : Nat} (some_place : 0 < n) (mem : b ∈ scan n k i ptr) : b < n := by
  induction k generalizing i ptr with
  | zero => simp [scan] at mem
  | succ k ih =>
    rw [scan, List.mem_cons] at mem
    obtain rfl | rest := mem
    · exact Nat.mod_lt _ some_place
    · exact ih rest

/-- A property of all queued requests survives the replacement of one queue. -/
theorem forall_update {P : MemReq → Prop} {q : Nat → List MemReq} {l : List MemReq} {i : Nat}
    (old : ∀ b, ∀ r ∈ q b, P r) (new : ∀ r ∈ l, P r) :
    ∀ b, ∀ r ∈ Function.update q i l b, P r := by
  intro b r mem
  rw [Function.update_apply] at mem
  split at mem
  · exact new r mem
  · exact old b r mem

theorem init_conserved (cfg : SysConfig) : Conserved cfg (init cfg) := by
  have path (p : Ident → Bool) (real : p ({} : CacheReq).ident = false) :
      onPath cfg (init cfg) p = 0 := by
    simp [onPath, init, Cache.init_held cfg.cache real]
  constructor
  · exact Cache.init_sound
  · simp [init]
  · simp [init]
  · simp [init]
  · simp [init]
  · intro b
    constructor <;> simp [init]
  · simp [init]
  · simp [init, registered, tally]
  · intro T
    rw [path _ rfl]
    rfl
  · intro _ f
    rw [heldIn, path _ rfl]
    simp [init, inRecorder, inCoalescer]

/-! ## Acks to the LSEs -/

/-- Every request of a coalescer queue is acknowledged or stays. -/
theorem drain_count (queue : List MemReq) (lseRecorder : Nat → Bool) :
    (drain lseRecorder queue).2.1.countP (f ·.key) + (drain lseRecorder queue).2.2.countP (f ·.key) =
      queue.countP (f ·.key) := by
  induction queue generalizing lseRecorder with
  | nil => rfl
  | cons req rest ih =>
    rw [drain]
    split
    · have := ih lseRecorder
      simp only [List.countP_cons]
      omega
    · have := ih (Function.update lseRecorder req.lseId true)
      simp only [List.countP_cons]
      omega

theorem inCoalescer_append (l m : List CoalescerEntry) :
    inCoalescer (l ++ m) f = inCoalescer l f + inCoalescer m f := by
  simp [inCoalescer]

theorem inCoalescer_cons (e : CoalescerEntry) (l : List CoalescerEntry) :
    inCoalescer (e :: l) f = e.coalescerQueue.countP (f ·.key) + inCoalescer l f := by
  simp [inCoalescer]

/-- A coalesced ack finds the first coalescer entry of its block. -/
theorem searchCoalescer_some {blockAddr : Nat}
    (present : 0 < s.coalescerTable.countP (·.blockAddr == blockAddr)) :
    ∃ before entry after, s.coalescerTable = before ++ entry :: after ∧
      entry.blockAddr = blockAddr ∧ s.searchCoalescer blockAddr = some before.length := by
  obtain ⟨entry, mem, eq⟩ := List.countP_pos_iff.mp present
  cases found : s.searchCoalescer blockAddr with
  | none =>
    have absent := List.findIdx?_eq_none_iff.mp found entry mem
    simp [eq] at absent
  | some id =>
    obtain ⟨bound, eq, -⟩ := List.findIdx?_eq_some_iff_getElem.mp found
    refine ⟨s.coalescerTable.take id, s.coalescerTable[id], s.coalescerTable.drop (id + 1), ?_,
      by simpa using eq, ?_⟩
    · rw [List.cons_getElem_drop_succ, List.take_append_drop]
    · rw [List.length_take_of_le bound.le]

/-- What one bank does with the ack at its head, as a change of the state. -/
theorem sendBackBank_cases {bankId : Nat} (bank : bankId < cfg.bankNum)
    (lseRecorder : Nat → Bool) (h : Conserved cfg s) :
    ∃ t out, sendBackBank cfg (s, lseRecorder) bankId = .ok (t, out) ∧
      (t = s ∨
        (∃ req rest, s.ackQueue bankId = req :: rest ∧ req.coalesced = false ∧
          t = { s with
            ackQueue := Function.update s.ackQueue bankId rest
            acked := s.acked ++ [req] }) ∨
        ∃ req rest before entry after acks left, s.ackQueue bankId = req :: rest ∧
          req.coalesced = true ∧ s.coalescerTable = before ++ entry :: after ∧
          entry.blockAddr = getAddrTag cfg req.addr ∧
          (∀ f : Key → Bool, acks.countP (f ·.key) + left.countP (f ·.key) =
            entry.coalescerQueue.countP (f ·.key)) ∧
          ((left = [] ∧ t = { s with
              ackQueue := Function.update s.ackQueue bankId rest
              coalescerTable := before ++ after
              acked := s.acked ++ acks }) ∨
            t = { s with
              coalescerTable := before ++ ⟨entry.blockAddr, left⟩ :: after
              acked := s.acked ++ acks })) := by
  unfold sendBackBank
  dsimp only
  cases front : s.ackQueue bankId with
  | nil => exact ⟨s, lseRecorder, rfl, .inl rfl⟩
  | cons req rest =>
    dsimp only
    have mem : req ∈ s.ackQueue bankId := front ▸ List.mem_cons_self
    cases coalesced : req.coalesced with
    | false =>
      simp only [Bool.false_eq_true, ↓reduceIte]
      split
      · exact ⟨s, lseRecorder, rfl, .inl rfl⟩
      · exact ⟨_, _, rfl, .inr (.inl ⟨req, rest, rfl, coalesced, rfl⟩)⟩
    | true =>
      have grouped : Ident.group cfg (getAddrTag cfg req.addr) req.ident = true := by
        simp [Ident.group, MemReq.ident, h.acks bankId req mem, coalesced]
      have onway := Tally.pos bank mem (p := fun r => Ident.group cfg (getAddrTag cfg req.addr)
        r.ident) grouped
      have present : 0 < s.coalescerTable.countP (·.blockAddr == getAddrTag cfg req.addr) := by
        rw [← h.groups]
        unfold onPath
        omega
      obtain ⟨before, entry, after, table, block, found⟩ := searchCoalescer_some present
      have split := fun f : Key → Bool => drain_count (f := f) entry.coalescerQueue lseRecorder
      have this : s.coalescerTable.getD before.length ⟨0, []⟩ = entry := by simp [table]
      simp only [↓reduceIte, found, this]
      cases left : (drain lseRecorder entry.coalescerQueue).2.2 with
      | nil =>
        simp only [List.isEmpty_nil, ↓reduceIte]
        refine ⟨_, _, rfl, .inr (.inr ⟨req, rest, before, entry, after, _, [], rfl, coalesced,
          table, block, fun f => left ▸ split f, .inl ⟨rfl, ?_⟩⟩)⟩
        rw [table, List.eraseIdx_append_of_length_le le_rfl]
        simp
      | cons r l =>
        simp only [List.isEmpty_cons, Bool.false_eq_true, ↓reduceIte]
        refine ⟨_, _, rfl, .inr (.inr ⟨req, rest, before, entry, after, _, r :: l, rfl, coalesced,
          table, block, fun f => left ▸ split f, .inr ?_⟩)⟩
        simp [table]

/-- Acks of one bank. The count moves from the path or from the coalescer to the acks. -/
theorem sendBackBank_conserved {bankId : Nat} (bank : bankId < cfg.bankNum)
    (lseRecorder : Nat → Bool) (h : Conserved cfg s) :
    ∃ t out, sendBackBank cfg (s, lseRecorder) bankId = .ok (t, out) ∧ Conserved cfg t ∧
      t.admitted = s.admitted ∧ s.acked <+: t.acked := by
  obtain ⟨t, out, eq, rfl | ⟨req, rest, front, coalesced, rfl⟩ |
    ⟨req, rest, before, entry, after, acks, left, front, coalesced, table, block, split,
      ⟨rfl, rfl⟩ | rfl⟩⟩ := sendBackBank_cases bank lseRecorder h
  · exact ⟨t, out, eq, h, rfl, List.prefix_rfl⟩
  · refine ⟨_, out, eq, ?_, rfl, List.prefix_append _ _⟩
    have mem : req ∈ s.ackQueue bankId := front ▸ List.mem_cons_self
    have valid := h.acks bankId req mem
    refine { h with acks := ?_, groups := ?_, counts := ?_ }
    · exact forall_update h.acks fun r hr => h.acks bankId r (front ▸ List.mem_cons_of_mem req hr)
    · intro T
      have popped := Tally.pop bank front fun r : MemReq => Ident.group cfg T r.ident
      have single : Ident.group cfg T req.ident = false := by
        simp [Ident.group, MemReq.ident, coalesced]
      have groups := h.groups T
      simp only [single, Bool.false_eq_true, ↓reduceIte] at popped
      unfold onPath at groups ⊢
      dsimp only
      omega
    · intro style f
      have popped := Tally.pop bank front fun r : MemReq => Ident.single f r.ident
      have single : Ident.single f req.ident = f req.key := by
        simp [Ident.single, MemReq.ident, MemReq.key, coalesced, valid]
      have counts := h.counts style f
      simp only [single] at popped
      unfold heldIn onPath inRecorder at counts ⊢
      simp only [List.countP_append, List.countP_singleton]
      omega
  · have mem : req ∈ s.ackQueue bankId := front ▸ List.mem_cons_self
    have valid := h.acks bankId req mem
    refine ⟨_, out, eq, ?_, rfl, List.prefix_append _ _⟩
    refine { h with acks := ?_, free := ?_, groups := ?_, counts := ?_ }
    · exact forall_update h.acks fun r hr => h.acks bankId r (front ▸ List.mem_cons_of_mem req hr)
    · have free := h.free
      rw [table] at free
      simp only [List.length_append, List.length_cons, registered] at free ⊢
      omega
    · intro T
      have popped := Tally.pop bank front fun r : MemReq => Ident.group cfg T r.ident
      have member : Ident.group cfg T req.ident = (entry.blockAddr == T) := by
        simp [Ident.group, MemReq.ident, coalesced, valid, block]
      have groups := h.groups T
      rw [table] at groups
      simp only [member] at popped
      simp only [onPath, List.countP_append, List.countP_cons] at groups ⊢
      omega
    · intro style f
      have popped := Tally.pop bank front fun r : MemReq => Ident.single f r.ident
      have single : Ident.single f req.ident = false := by
        simp [Ident.single, MemReq.ident, coalesced]
      have counts := h.counts style f
      have drained := split f
      simp only [single, Bool.false_eq_true, ↓reduceIte] at popped
      simp only [heldIn, onPath, inRecorder, table, inCoalescer_append, inCoalescer_cons,
        List.countP_append, List.countP_nil] at counts drained ⊢
      omega
  · refine ⟨_, out, eq, ?_, rfl, List.prefix_append _ _⟩
    refine { h with free := ?_, groups := ?_, counts := ?_ }
    · have free := h.free
      rw [table] at free
      simp only [List.length_append, List.length_cons, registered] at free ⊢
      omega
    · intro T
      have groups := h.groups T
      rw [table] at groups
      simp only [onPath, List.countP_append, List.countP_cons] at groups ⊢
      omega
    · intro style f
      have counts := h.counts style f
      have drained := split f
      simp only [heldIn, onPath, inRecorder, table, inCoalescer_append, inCoalescer_cons,
        List.countP_append] at counts drained ⊢
      omega

theorem sendBack2Lse_conserved (banked : Banked cfg) (h : Conserved cfg s) :
    ∃ t, sendBack2Lse cfg s = .ok t ∧ Conserved cfg t ∧ t.admitted = s.admitted ∧
      s.acked <+: t.acked := by
  have stops : ∀ b ∈ scan cfg.bankNum cfg.bankNum 0 s.ackQueueReadPtr, b < cfg.bankNum :=
    fun b => mem_scan banked.some_bank
  have run : ∀ (banks : List Nat) (lseRecorder : Nat → Bool) (s : MemSystem),
      (∀ b ∈ banks, b < cfg.bankNum) → Conserved cfg s →
      ∃ t out, banks.foldlM (sendBackBank cfg) (s, lseRecorder) = .ok (t, out) ∧
        Conserved cfg t ∧ t.admitted = s.admitted ∧ s.acked <+: t.acked := by
    intro banks
    induction banks with
    | nil => exact fun lseRecorder s _ h => ⟨s, lseRecorder, rfl, h, rfl, List.prefix_rfl⟩
    | cons b banks ih =>
      intro lseRecorder s stops h
      obtain ⟨u, out, first, kept, admitted, acked⟩ :=
        sendBackBank_conserved (stops b List.mem_cons_self) lseRecorder h
      obtain ⟨t, last, rest, kept, admitted', acked'⟩ :=
        ih out u (fun b mem => stops b (List.mem_cons_of_mem _ mem)) kept
      refine ⟨t, last, ?_, kept, admitted'.trans admitted, acked.trans acked'⟩
      rw [List.foldlM_cons, first]
      exact rest
  obtain ⟨t, out, eq, kept, admitted, acked⟩ := run _ (fun _ => false) s stops h
  exact ⟨t, by rw [sendBack2Lse, eq], kept, admitted, acked⟩

/-! ## Cache and memory -/

/-- The requests with the property are requests of LSEs, not default elements, and the first
level does not copy them. -/
structure Passes (cfg : SysConfig) (p : Ident → Bool) : Prop where
  real : ∀ i, p i = true → i.valid = true
  uncopied : Cache.Uncopied cfg.cache p

theorem Passes.default {p : Ident → Bool} (passes : Passes cfg p) :
    p ({} : MemReq).ident = false := by
  cases counted : p ({} : MemReq).ident with
  | false => rfl
  | true => exact absurd (passes.real _ counted) (by decide)

theorem single_passes (style : (cfg.cache.level 0).writeStrategy = .WRITE_BACK)
    (f : Key → Bool) : Passes cfg (Ident.single f) := by
  refine ⟨fun i hi => ?_, .inl style⟩
  simp only [Ident.single, Bool.and_eq_true] at hi
  exact hi.1.1

theorem group_passes (T : Nat) : Passes cfg (Ident.group cfg T) := by
  refine ⟨fun i hi => ?_, .inr fun i hi => ?_⟩
  · simp only [Ident.group, Bool.and_eq_true] at hi
    exact hi.1.1
  · simp only [Ident.group, Bool.and_eq_true] at hi
    exact hi.1.2

/-- Requests that only move along the path stay conserved. -/
theorem Conserved.move {c : Cache} {reqQueue ackQueue : Nat → List MemReq} (h : Conserved cfg s)
    (cache : Cache.Sound cfg.cache c) (grown : s.cache.history <+: c.history)
    (reqs : ∀ b, ∀ r ∈ reqQueue b, Queued r) (acks : ∀ b, ∀ r ∈ ackQueue b, r.valid = true)
    (room : ∀ b, (reqQueue b).length ≤ (s.reqQueue b).length)
    (path : ∀ p, Passes cfg p → tally cfg.bankNum reqQueue (p ·.ident) + c.held cfg.cache p +
      tally cfg.bankNum ackQueue (p ·.ident) = onPath cfg s p) :
    Conserved cfg { s with cache := c, reqQueue := reqQueue, ackQueue := ackQueue } := by
  refine { h with
    cache := cache, stack := ?_, bus := ?_, reqs := reqs, acks := acks, room := ?_
    groups := ?_, counts := ?_ }
  · intro r mem
    obtain ⟨q, sent, rest⟩ := h.stack r mem
    exact ⟨q, grown.subset sent, rest⟩
  · intro r mem
    obtain ⟨q, sent, rest⟩ := h.bus r mem
    exact ⟨q, grown.subset sent, rest⟩
  · intro b valid
    exact (room b).trans_lt (h.room b valid)
  · intro T
    exact (path _ (group_passes T)).trans (h.groups T)
  · intro style f
    have path := path _ (single_passes style f)
    have counts := h.counts style f
    unfold heldIn onPath inRecorder at *
    dsimp only
    omega

/-- Work inside the cache, or between cache and memory, moves no request. -/
theorem Conserved.inner {c : Cache} (banked : Banked cfg) (h : Conserved cfg s)
    (steps : Cache.Steps cfg.cache {.memory} s.cache c) : Conserved cfg { s with cache := c } := by
  obtain ⟨sound, same⟩ := steps.inner banked.banks h.cache
  exact h.move sound steps.history_grows h.reqs h.acks (fun _ => le_rfl) fun p passes => by
    rw [same p passes.uncopied, onPath]

/-- Conserved, and nothing was admitted or acknowledged since `s`. -/
structure Kept (cfg : SysConfig) (s t : MemSystem) : Prop where
  conserved : Conserved cfg t
  admitted : t.admitted = s.admitted
  acked : t.acked = s.acked

theorem getFromCacheBank_kept (banked : Banked cfg) {queueId : Nat} (bank : queueId < cfg.bankNum)
    (h : Conserved cfg s) : Kept cfg s (getFromCacheBank cfg s queueId) := by
  obtain ⟨sound, moved⟩ := Cache.callBack_held (banked.bankNum ▸ bank) h.cache
  have grown : s.cache.history <+: (s.cache.callBack queueId).2.history := by
    unfold Cache.callBack
    split <;> exact List.prefix_rfl
  unfold getFromCacheBank
  dsimp only
  split_ifs with room valid
  · refine ⟨h.move sound grown h.reqs ?_ (fun _ => le_rfl) ?_, rfl, rfl⟩
    · refine forall_update h.acks fun r hr => ?_
      obtain old | new := List.mem_append.mp hr
      · exact h.acks queueId r old
      · rw [List.mem_singleton.mp new]
        exact valid
    · intro p passes
      have moved := moved p passes.default
      have pushed := Tally.push bank s.ackQueue (s.cache.callBack queueId).1
        fun r : MemReq => p r.ident
      unfold onPath
      omega
  · refine ⟨h.move sound grown h.reqs h.acks (fun _ => le_rfl) ?_, rfl, rfl⟩
    -- the popped element is a default one
    intro p passes
    have moved := moved p passes.default
    have fake : ¬ p (s.cache.callBack queueId).1.ident = true := fun hp =>
      valid (passes.real _ hp)
    rw [if_neg fake] at moved
    unfold onPath
    omega
  · exact ⟨h, rfl, rfl⟩

theorem send2CacheBank_kept (banked : Banked cfg) {bankId : Nat} (bank : bankId < cfg.bankNum)
    (h : Conserved cfg s) : Kept cfg s (send2CacheBank cfg s bankId) := by
  unfold send2CacheBank
  cases front : s.reqQueue bankId with
  | nil => exact ⟨h, rfl, rfl⟩
  | cons req rest =>
    have waits := h.reqs bankId req (front ▸ List.mem_cons_self)
    have left := forall_update (i := bankId) h.reqs fun r hr =>
      h.reqs bankId r (front ▸ List.mem_cons_of_mem req hr)
    have shrunk (b : Nat) : (Function.update s.reqQueue bankId rest b).length ≤
        (s.reqQueue b).length := by
      rw [Function.update_apply]
      split_ifs with here
      · simp [here, front]
      · exact le_rfl
    have popped (p : Ident → Bool) := Tally.pop bank front fun r : MemReq => p r.ident
    have counted (c : Cache) : Cache.Steps cfg.cache {.memory} c c.updateCacheAccessCnt :=
      .single (.book (by constructor <;> intros <;> rfl))
    dsimp only
    split_ifs with hit full
    · -- every access hits: the request becomes its own ack
      obtain ⟨sound, same⟩ := (counted s.cache).inner banked.banks h.cache
      refine ⟨h.move sound List.prefix_rfl left ?_ shrunk ?_, rfl, rfl⟩
      · refine forall_update h.acks fun r hr => ?_
        obtain old | new := List.mem_append.mp hr
        · exact h.acks bankId r old
        · rw [List.mem_singleton.mp new]
          exact waits.valid
      · intro p passes
        have popped := popped p
        have pushed := Tally.push bank s.ackQueue req fun r : MemReq => p r.ident
        rw [same p passes.uncopied, onPath]
        omega
    · exact ⟨h, rfl, rfl⟩
    · cases sent : Cache.addTransaction cfg.cache s.cache req with
      | none => exact ⟨h, rfl, rfl⟩
      | some c =>
        obtain ⟨sound, moved⟩ :=
          Cache.addTransaction_held banked.banks h.cache waits.origin waits.ready waits.reads
            sent
        obtain ⟨sound, same⟩ := (counted c).inner banked.banks sound
        have steps : Cache.Steps cfg.cache Set.univ s.cache c :=
          Cache.addTransaction_steps (Set.mem_univ _) waits.origin waits.ready sent
        refine ⟨h.move sound steps.history_grows left h.acks shrunk ?_, rfl, rfl⟩
        intro p passes
        have popped := popped p
        rw [same p passes.uncopied, moved p, onPath]
        omega

/-- Completions of transactions that were sent are work between cache and memory. -/
theorem completes_steps (stack : List MemReq) {c d : Cache}
    (sent : ∀ r ∈ stack, ∃ q, .sent q ∈ c.history ∧ q.addr = r.addr ∧ q.origin = r.origin)
    (done : stack.foldlM (Cache.memReqComplete cfg.cache) c = some d) :
    Cache.Steps cfg.cache {.memory} c d := by
  induction stack generalizing c with
  | nil => exact Run.nil_eq_some.mp done ▸ .refl
  | cons r stack ih =>
    obtain ⟨u, first, rest⟩ := Run.cons_eq_some.mp done
    obtain ⟨q, mem, addr, origin⟩ := sent r List.mem_cons_self
    have steps : Cache.Steps cfg.cache {.memory} c u :=
      Cache.memReqComplete_steps mem addr origin first
    refine steps.trans (ih (fun r' mem' => ?_) rest)
    obtain ⟨q', old, same⟩ := sent r' (List.mem_cons_of_mem r mem')
    exact ⟨q', steps.history_grows.subset old, same⟩

theorem returnReqAck_kept (banked : Banked cfg) (h : Conserved cfg s)
    (done : returnReqAck cfg s = .ok t) : Kept cfg s t := by
  unfold returnReqAck at done
  cases completed : s.reqAckStack.foldlM (Cache.memReqComplete cfg.cache) s.cache with
  | none => simp [completed] at done
  | some c =>
    simp only [completed, Except.ok.injEq] at done
    subst done
    have inner := h.inner banked (completes_steps s.reqAckStack h.stack completed)
    exact ⟨{ inner with stack := by simp }, rfl, rfl⟩

theorem returnReqAck_error {fault : Fault} (failed : returnReqAck cfg s = .error fault) :
    fault = .noLine := by
  unfold returnReqAck at failed
  split at failed <;> simp_all

theorem memoryDataBusUpdate_conserved (h : Conserved cfg s) :
    Conserved cfg (memoryDataBusUpdate s) := by
  have moved : ∀ r ∈ s.busDelayFifo.map fun r => (r.1, r.2 - 1),
      ∃ q, .sent q ∈ s.cache.history ∧ q.addr = r.1.addr ∧ q.origin = r.1.origin := by
    intro r mem
    obtain ⟨q, old, rfl⟩ := List.mem_map.mp mem
    exact h.bus q old
  refine { h with stack := ?_, bus := ?_ }
  · intro r mem
    obtain old | new := List.mem_append.mp mem
    · exact h.stack r old
    · obtain ⟨q, taken, rfl⟩ := List.mem_map.mp new
      exact moved q ((List.takeWhile_sublist _).subset taken)
  · intro r mem
    exact moved r ((List.dropWhile_sublist _).subset mem)

theorem dramUpdate_conserved (h : Conserved cfg s) (completions : List Nat) :
    Conserved cfg (dramUpdate cfg s completions) := by
  refine { h with bus := ?_ }
  intro r mem
  obtain old | new := List.mem_append.mp mem
  · exact h.bus r old
  · obtain ⟨i, -, completed⟩ := List.mem_filterMap.mp new
    obtain ⟨q, sent, rfl⟩ := Option.map_eq_some_iff.mp completed
    exact ⟨q, mem_sentReqs.mp (List.mem_of_getElem? sent), rfl, rfl⟩

/-- A loop over the banks keeps what the work on one bank keeps. -/
theorem foldl_kept {f : MemSystem → Nat → MemSystem} {n : Nat}
    (one : ∀ s, ∀ b < n, Conserved cfg s → Kept cfg s (f s b)) (h : Conserved cfg s) :
    Kept cfg s ((List.range n).foldl f s) := by
  refine List.foldlRecOn (motive := Kept cfg s) _ _ ⟨h, rfl, rfl⟩ ?_
  intro t kept b mem
  obtain ⟨conserved, admitted, acked⟩ := one t b (List.mem_range.mp mem) kept.conserved
  exact ⟨conserved, admitted.trans kept.admitted, acked.trans kept.acked⟩

theorem serve_kept (banked : Banked cfg) (h : Conserved cfg s) {tick : Tick}
    (done : serve cfg s tick = .ok t) : Kept cfg s t := by
  have fromCache : Kept cfg s (getFromCache cfg s) :=
    foldl_kept (fun _ _ bank h => getFromCacheBank_kept banked bank h) h
  unfold serve at done
  cases returned : returnReqAck cfg (getFromCache cfg s) with
  | error fault => simp [returned] at done
  | ok u =>
    obtain ⟨conserved, admitted, acked⟩ := returnReqAck_kept banked fromCache.conserved returned
    have bus := dramUpdate_conserved (memoryDataBusUpdate_conserved conserved) tick.completions
    have toCache : Kept cfg _ (send2Cache cfg _) :=
      foldl_kept (fun _ _ bank h => send2CacheBank_kept banked bank h) bus
    simp only [returned, Except.ok.injEq] at done
    subst done
    have updated : Cache.Steps cfg.cache {.memory} _ _ :=
      Cache.cacheUpdate_steps toCache.conserved.cache.recorded true
    refine ⟨toCache.conserved.inner banked (updated.trans
      (Cache.sendReq2Mem_steps cfg.cache (Set.mem_singleton _) _ _)),
      ?_, ?_⟩
    · exact toCache.admitted.trans (admitted.trans fromCache.admitted)
    · exact toCache.acked.trans (acked.trans fromCache.acked)

theorem serve_error {tick : Tick} {fault : Fault} (failed : serve cfg s tick = .error fault) :
    fault = .noLine := by
  unfold serve at failed
  cases returned : returnReqAck cfg (getFromCache cfg s) with
  | error fault =>
    simp only [returned, Except.error.injEq] at failed
    exact failed ▸ returnReqAck_error returned
  | ok u => simp [returned] at failed

/-! ## Requests of the LSEs -/

theorem registered_setEntry {bankId : Nat} (bank : bankId < cfg.bankNum)
    (entry : BankRecorderEntry) :
    registered cfg (s.setEntry bankId entry) +
        (if (s.bankRecorder bankId).hasRegisteredCoalescer then 1 else 0) =
      registered cfg s + if entry.hasRegisteredCoalescer then 1 else 0 := by
  have family : (fun b => [Function.update s.bankRecorder bankId entry b]) =
      Function.update (fun b => [s.bankRecorder b]) bankId [entry] := by
    funext b
    simp only [Function.update_apply]
    split_ifs <;> rfl
  have replaced := Tally.update bank (fun b => [s.bankRecorder b]) [entry]
    (·.hasRegisteredCoalescer)
  rw [← family, List.countP_singleton, List.countP_singleton] at replaced
  exact replaced

theorem inRecorder_setEntry {bankId : Nat} (bank : bankId < cfg.bankNum)
    (entry : BankRecorderEntry) :
    inRecorder cfg (s.setEntry bankId entry) f +
        (s.bankRecorder bankId).reqQueue.countP (f ·.key) =
      inRecorder cfg s f + entry.reqQueue.countP (f ·.key) := by
  have family : (fun b => (Function.update s.bankRecorder bankId entry b).reqQueue) =
      Function.update (fun b => (s.bankRecorder b).reqQueue) bankId entry.reqQueue := by
    funext b
    simp only [Function.update_apply]
    split_ifs <;> rfl
  have replaced := Tally.update bank (fun b => (s.bankRecorder b).reqQueue) entry.reqQueue
    (f ·.key)
  rw [← family] at replaced
  exact replaced

theorem entries_setEntry {bankId : Nat} {entry : BankRecorderEntry}
    (old : ∀ b, EntryOk cfg b (s.bankRecorder b)) (new : EntryOk cfg bankId entry) :
    ∀ b, EntryOk cfg b ((s.setEntry bankId entry).bankRecorder b) := by
  intro b
  simp only [setEntry, Function.update_apply]
  split
  · subst b
    exact new
  · exact old b

theorem room_setEntry {bankId : Nat} {entry : BankRecorderEntry}
    (old : ∀ b, (s.bankRecorder b).valid = true → (s.reqQueue b).length < cfg.reqQueueSizePerBank)
    (new : (s.reqQueue bankId).length < cfg.reqQueueSizePerBank) :
    ∀ b, ((s.setEntry bankId entry).bankRecorder b).valid = true →
      ((s.setEntry bankId entry).reqQueue b).length < cfg.reqQueueSizePerBank := by
  intro b valid
  simp only [setEntry, Function.update_apply] at valid ⊢
  split at valid
  · subst b
    exact new
  · exact old b valid

theorem register_conserved {bankId : Nat} (bank : bankId < cfg.bankNum) (h : Conserved cfg s)
    (valid : (s.bankRecorder bankId).valid = true)
    (reads : ((s.bankRecorder bankId).reqQueue.headD {}).isWrite = false)
    (free : 0 < s.coalescerFreeEntryNum) : Conserved cfg (register s bankId) := by
  unfold register
  cases owned : (s.bankRecorder bankId).hasRegisteredCoalescer with
  | true =>
    dsimp only
    rwa [if_pos owned]
  | false =>
    have ok := h.entries bankId
    have count := registered_setEntry (s := s) bank
      { s.bankRecorder bankId with hasRegisteredCoalescer := true }
    simp only [owned, Bool.false_eq_true, ↓reduceIte] at count ⊢
    refine { h with entries := ?_, room := ?_, free := ?_, counts := ?_ }
    · refine entries_setEntry h.entries
        { ok with closed := ?_, alone := ?_, reads := fun _ => reads }
      · intro invalid
        simp [valid] at invalid
      · intro unowned
        simp at unowned
    · exact room_setEntry h.room (h.room bankId valid)
    · have old := h.free
      unfold registered at count old ⊢
      dsimp only [setEntry] at count ⊢
      omega
    · intro style f
      have same := inRecorder_setEntry (s := s) (f := f) bank
        { s.bankRecorder bankId with hasRegisteredCoalescer := true }
      have counts := h.counts style f
      unfold heldIn inRecorder at counts same ⊢
      dsimp only [setEntry, onPath] at counts same ⊢
      omega

/-- A request that enters the bank recorder is counted there. -/
theorem enter_conserved {bankId : Nat} (bank : bankId < cfg.bankNum) {entry : BankRecorderEntry}
    {req : MemReq} (h : Conserved cfg s)
    (ok : EntryOk cfg bankId { entry with reqQueue := entry.reqQueue ++ [req] })
    (queue : entry.reqQueue = (s.bankRecorder bankId).reqQueue)
    (owned : entry.hasRegisteredCoalescer = (s.bankRecorder bankId).hasRegisteredCoalescer)
    (room : (s.reqQueue bankId).length < cfg.reqQueueSizePerBank) :
    Conserved cfg (enter s bankId entry req) := by
  refine { h with entries := ?_, room := ?_, free := ?_, counts := ?_ }
  · exact entries_setEntry h.entries ok
  · exact room_setEntry h.room room
  · have same := registered_setEntry (s := s) bank
      { entry with reqQueue := entry.reqQueue ++ [req] }
    have old := h.free
    have own : (if entry.hasRegisteredCoalescer then 1 else 0) =
        if (s.bankRecorder bankId).hasRegisteredCoalescer then 1 else 0 := by rw [owned]
    unfold registered at same old ⊢
    dsimp only [setEntry, enter] at same ⊢
    omega
  · intro style f
    have entered := inRecorder_setEntry (s := s) (f := f) bank
      { entry with reqQueue := entry.reqQueue ++ [req] }
    have counts := h.counts style f
    rw [← queue] at entered
    simp only [List.countP_append] at entered
    unfold heldIn inRecorder at counts
    unfold inRecorder at entered
    dsimp only [setEntry, enter, onPath, heldIn, inRecorder] at counts entered ⊢
    simp only [List.countP_append]
    omega

theorem register_frame (s : MemSystem) (bankId : Nat) :
    (register s bankId).bankRecorder bankId =
        { s.bankRecorder bankId with hasRegisteredCoalescer := true } ∧
      (register s bankId).reqQueue = s.reqQueue ∧
      (register s bankId).admitted = s.admitted ∧ (register s bankId).acked = s.acked := by
  unfold register
  dsimp only
  split_ifs with owned
  · refine ⟨?_, rfl, rfl, rfl⟩
    rw [← owned]
  · exact ⟨Function.update_self .., rfl, rfl, rfl⟩

/-- The request is refused, or enters the bank recorder as the last of an entry. -/
theorem tryAdmit_conserved (banked : Banked cfg) {req : MemReq} (h : Conserved cfg s)
    (waits : Waits req) :
    Conserved cfg (tryAdmit cfg s req).2 ∧ (tryAdmit cfg s req).2.acked = s.acked ∧
      ((tryAdmit cfg s req).1 = false → (tryAdmit cfg s req).2.admitted = s.admitted) ∧
      ((tryAdmit cfg s req).1 = true →
        ∃ r, r.key = req.key ∧ (tryAdmit cfg s req).2.admitted = s.admitted ++ [r]) := by
  have bank := getBankId_lt banked req.addr
  have ok := h.entries (getBankId cfg req.addr)
  unfold tryAdmit
  dsimp only
  split_ifs with room fresh joins fits
  · refine ⟨enter_conserved bank h ?_ rfl rfl room, rfl, by simp, fun _ => ⟨req, rfl, rfl⟩⟩
    obtain ⟨empty, unowned⟩ := ok.closed fresh
    constructor <;> simp [empty, unowned, waits]
  · obtain ⟨-, reads, free, block⟩ := joins
    have valid : (s.bankRecorder (getBankId cfg req.addr)).valid = true := by simpa using fresh
    have kept := register_conserved bank h valid reads free
    obtain ⟨entry, queue, admitted, acked⟩ := register_frame s (getBankId cfg req.addr)
    refine ⟨enter_conserved bank kept ?_ rfl rfl (by rwa [queue]), acked, by simp,
      fun _ => ⟨{ req with coalesced := true }, rfl, by rw [← admitted]; rfl⟩⟩
    have waits' : Waits { req with coalesced := true } := ⟨waits.valid, waits.ready, waits.origin⟩
    have same : getAddrTag cfg ({ req with coalesced := true } : MemReq).addr =
        (s.bankRecorder (getBankId cfg req.addr)).addrTag := block
    rw [entry]
    obtain ⟨head, rest, cons⟩ := List.exists_cons_of_ne_nil (ok.opened valid)
    constructor
    · simp [valid]
    · simp
    · simp
    · rw [cons] at reads ⊢
      exact fun _ => reads
    · intro r mem
      obtain old | new := List.mem_append.mp mem
      · exact ok.waits r old
      · rwa [List.mem_singleton.mp new]
    · intro r mem
      obtain old | new := List.mem_append.mp mem
      · exact ok.bank r old
      · rw [List.mem_singleton.mp new]
    · intro r mem
      obtain old | new := List.mem_append.mp mem
      · exact ok.block r old
      · rwa [List.mem_singleton.mp new]
  · obtain ⟨-, reads, free, -⟩ := joins
    have valid : (s.bankRecorder (getBankId cfg req.addr)).valid = true := by simpa using fresh
    obtain ⟨-, -, admitted, acked⟩ := register_frame s (getBankId cfg req.addr)
    exact ⟨register_conserved bank h valid reads free, acked, fun _ => admitted, by simp⟩
  · exact ⟨h, rfl, fun _ => rfl, by simp⟩
  · exact ⟨h, rfl, fun _ => rfl, by simp⟩

/-! ## The bank recorder is emptied -/

/-- The coalescer entries that the first `n` bank recorder entries make. -/
def groupsOf (s : MemSystem) (n : Nat) : List CoalescerEntry :=
  (List.range n).filterMap fun b =>
    if (s.bankRecorder b).hasRegisteredCoalescer then
      some ⟨(s.bankRecorder b).addrTag, (s.bankRecorder b).reqQueue⟩
    else none

theorem groupsOf_succ (s : MemSystem) (n : Nat) : groupsOf s (n + 1) = groupsOf s n ++
    if (s.bankRecorder n).hasRegisteredCoalescer then
      [⟨(s.bankRecorder n).addrTag, (s.bankRecorder n).reqQueue⟩] else [] := by
  rw [groupsOf, List.range_succ, List.filterMap_append]
  congr 1
  simp only [List.filterMap_cons, List.filterMap_nil]
  split_ifs <;> rfl

theorem groupsOf_length (s : MemSystem) (n : Nat) : (groupsOf s n).length =
    tally n (fun b => [s.bankRecorder b]) (·.hasRegisteredCoalescer) := by
  induction n with
  | zero => rfl
  | succ n ih =>
    rw [groupsOf_succ, List.length_append, ih, Tally.succ, List.countP_singleton]
    split_ifs <;> rfl

theorem groupsOf_count (s : MemSystem) (f : Key → Bool) (n : Nat) : inCoalescer (groupsOf s n) f =
    tally n (fun b => if (s.bankRecorder b).hasRegisteredCoalescer then
      (s.bankRecorder b).reqQueue else []) (f ·.key) := by
  induction n with
  | zero => rfl
  | succ n ih =>
    rw [groupsOf_succ, inCoalescer_append, ih, Tally.succ]
    split_ifs <;> simp [inCoalescer]

theorem groupsOf_block (s : MemSystem) (T n : Nat) :
    (groupsOf s n).countP (·.blockAddr == T) =
      tally n (fun b => if (s.bankRecorder b).hasRegisteredCoalescer then
        [(s.bankRecorder b).addrTag] else []) (· == T) := by
  induction n with
  | zero => rfl
  | succ n ih =>
    rw [groupsOf_succ, List.countP_append, ih, Tally.succ]
    split_ifs <;> simp

/-- The coalescer has room for all entries that are registered. -/
theorem send2Coalescer_all (h : Conserved cfg s) {n : Nat} (le : n ≤ cfg.bankNum) :
    (List.range n).foldlM (send2Coalescer cfg) s =
      .ok { s with coalescerTable := s.coalescerTable ++ groupsOf s n } := by
  induction n with
  | zero => simp [groupsOf]; rfl
  | succ n ih =>
    rw [List.range_succ, List.foldlM_append, ih (by omega)]
    simp only [List.foldlM_cons, List.foldlM_nil, bind_pure]
    change send2Coalescer cfg { s with coalescerTable := s.coalescerTable ++ groupsOf s n } n = _
    have next := groupsOf_succ s n
    unfold send2Coalescer
    dsimp only
    by_cases owned : (s.bankRecorder n).hasRegisteredCoalescer = true
    · have valid : (s.bankRecorder n).valid = true := by
        by_contra invalid
        have closed := (h.entries n).closed (by simpa using invalid)
        simp [owned] at closed
      have space : (s.coalescerTable ++ groupsOf s n).length < cfg.coalescerEntryNum := by
        have length := groupsOf_length s (n + 1)
        have bound := Tally.mono (q := fun b => [s.bankRecorder b])
          (p := fun entry => entry.hasRegisteredCoalescer) le
        have free := h.free
        rw [next, if_pos owned] at length
        unfold registered at free
        simp only [List.length_append, List.length_singleton] at length ⊢
        omega
      rw [if_pos ⟨valid, owned⟩, if_pos space, next, if_pos owned, List.append_assoc]
    · rw [if_neg (fun both => owned both.2), next, if_neg owned, List.append_nil]

/-- What the first `n` entries of the bank recorder send to the request queues. -/
def fronts (s : MemSystem) (b : Nat) : List MemReq :=
  if (s.bankRecorder b).valid then
    [{ (s.bankRecorder b).reqQueue.headD {} with
      coalesced := (s.bankRecorder b).hasRegisteredCoalescer }]
  else []

/-- The request queues have room for all fronts. -/
theorem sendFront_all (h : Conserved cfg s) {u : MemSystem}
    (recorder : u.bankRecorder = s.bankRecorder) (queue : u.reqQueue = s.reqQueue) (n : Nat) :
    (List.range n).foldlM (sendFront cfg) u =
      .ok { u with
        reqQueue := fun b => if b < n then s.reqQueue b ++ fronts s b else s.reqQueue b
        bankRecorder := fun b =>
          if b < n ∧ (s.bankRecorder b).valid then
            { s.bankRecorder b with
              valid := false, hasRegisteredCoalescer := false, reqQueue := [] }
          else s.bankRecorder b } := by
  induction n with
  | zero =>
    simp [← recorder, ← queue]
    rfl
  | succ n ih =>
    rw [List.range_succ, List.foldlM_append, ih]
    simp only [List.foldlM_cons, List.foldlM_nil, bind_pure]
    change sendFront cfg _ n = _
    unfold sendFront
    dsimp only
    simp only [lt_irrefl, false_and, ↓reduceIte]
    split_ifs with valid
    · obtain ⟨head, rest, cons⟩ := List.exists_cons_of_ne_nil ((h.entries n).opened valid)
      have bank : getBankId cfg head.addr = n := (h.entries n).bank head (cons ▸ List.mem_cons_self)
      have room : (s.reqQueue n).length < cfg.reqQueueSizePerBank := h.room n valid
      simp only [addTransaction, setEntry, cons, List.headD_cons, bank, lt_irrefl, ↓reduceIte,
        room, resetBankRecorder, Function.update_self]
      congr 2
      · funext b
        rcases eq_or_ne b n with rfl | ne
        · simp [fronts, valid, cons]
        · have before : b < n + 1 ↔ b < n := by omega
          simp [ne, before]
      · funext b
        rcases eq_or_ne b n with rfl | ne
        · simp [valid]
        · have before : b < n + 1 ↔ b < n := by omega
          simp [ne, before]
    · congr 2
      · funext b
        rcases eq_or_ne b n with rfl | ne
        · simp [fronts, valid]
        · have before : b < n + 1 ↔ b < n := by omega
          simp [before]
      · funext b
        rcases eq_or_ne b n with rfl | ne
        · simp [valid]
        · have before : b < n + 1 ↔ b < n := by omega
          simp [before]

theorem mem_fronts {b : Nat} {r : MemReq} (h : Conserved cfg s) (mem : r ∈ fronts s b) :
    (s.bankRecorder b).valid = true ∧ ∃ head rest, (s.bankRecorder b).reqQueue = head :: rest ∧
      r = { head with coalesced := (s.bankRecorder b).hasRegisteredCoalescer } := by
  unfold fronts at mem
  split_ifs at mem with valid
  · obtain ⟨head, rest, cons⟩ := List.exists_cons_of_ne_nil ((h.entries b).opened valid)
    rw [cons, List.headD_cons, List.mem_singleton] at mem
    exact ⟨valid, head, rest, cons, mem⟩
  · simp at mem

/-- A front that stands for itself is the only request of its entry. -/
theorem fronts_single (h : Conserved cfg s) (f : Key → Bool) (b : Nat) :
    (s.bankRecorder b).reqQueue.countP (f ·.key) =
      (fronts s b).countP (Ident.single f ·.ident) +
        (if (s.bankRecorder b).hasRegisteredCoalescer then (s.bankRecorder b).reqQueue
          else []).countP (f ·.key) := by
  have ok := h.entries b
  cases valid : (s.bankRecorder b).valid with
  | false =>
    obtain ⟨empty, unowned⟩ := ok.closed valid
    simp [fronts, valid, empty, unowned]
  | true =>
    obtain ⟨head, rest, cons⟩ := List.exists_cons_of_ne_nil (ok.opened valid)
    have waits := ok.waits head (cons ▸ List.mem_cons_self)
    cases owned : (s.bankRecorder b).hasRegisteredCoalescer with
    | true => simp [fronts, valid, owned, cons, Ident.single, MemReq.ident]
    | false =>
      have alone := ok.alone owned
      obtain rfl : rest = [] := by
        rw [cons, List.length_cons] at alone
        exact List.eq_nil_of_length_eq_zero (by omega)
      simp [fronts, valid, owned, cons, Ident.single, MemReq.ident, MemReq.key, waits.valid,
        List.countP_cons]

/-- The other fronts stand for the coalescer entries that are made. -/
theorem fronts_group (h : Conserved cfg s) (T b : Nat) :
    (fronts s b).countP (Ident.group cfg T ·.ident) =
      (if (s.bankRecorder b).hasRegisteredCoalescer then
        [(s.bankRecorder b).addrTag] else []).countP (· == T) := by
  have ok := h.entries b
  cases valid : (s.bankRecorder b).valid with
  | false =>
    obtain ⟨empty, unowned⟩ := ok.closed valid
    simp [fronts, valid, unowned]
  | true =>
    obtain ⟨head, rest, cons⟩ := List.exists_cons_of_ne_nil (ok.opened valid)
    have waits := ok.waits head (cons ▸ List.mem_cons_self)
    have block := ok.block head (cons ▸ List.mem_cons_self)
    cases owned : (s.bankRecorder b).hasRegisteredCoalescer <;>
      simp [fronts, valid, owned, cons, Ident.group, MemReq.ident, waits.valid, block]

/-- Flushing moves single requests to the path, and groups to the coalescer. -/
theorem flush_conserved (banked : Banked cfg) (h : Conserved cfg s) :
    ∃ t, flush cfg s = .ok t ∧ Conserved cfg t ∧ t.admitted = s.admitted ∧ t.acked = s.acked := by
  have stored := send2Coalescer_all h le_rfl
  have sent := sendFront_all h (u := { s with
    coalescerTable := s.coalescerTable ++ groupsOf s cfg.bankNum }) rfl rfl cfg.bankNum
  unfold flush
  rw [banked.bankNum, stored]
  dsimp only
  rw [sent]
  dsimp only
  refine ⟨_, rfl, ?_, rfl, rfl⟩
  have path (p : Ident → Bool) : tally cfg.bankNum
      (fun b => if b < cfg.bankNum then s.reqQueue b ++ fronts s b else s.reqQueue b)
      (p ·.ident) = tally cfg.bankNum s.reqQueue (p ·.ident) +
        tally cfg.bankNum (fronts s) (p ·.ident) := by
    refine Tally.split fun b hb => ?_
    simp [hb]
  -- afterwards no entry of the bank recorder is in use
  set recorder : Nat → BankRecorderEntry := fun b =>
    if b < cfg.bankNum ∧ (s.bankRecorder b).valid then
      { s.bankRecorder b with valid := false, hasRegisteredCoalescer := false, reqQueue := [] }
    else s.bankRecorder b with eq
  have emptied (b : Nat) (bank : b < cfg.bankNum) : (recorder b).valid = false ∧
      (recorder b).reqQueue = [] ∧ (recorder b).hasRegisteredCoalescer = false := by
    simp only [eq]
    split_ifs with valid
    · exact ⟨rfl, rfl, rfl⟩
    · have invalid : (s.bankRecorder b).valid = false := by simpa [bank] using valid
      obtain ⟨empty, unowned⟩ := (h.entries b).closed invalid
      exact ⟨invalid, empty, unowned⟩
  refine { h with
    reqs := ?_, entries := ?_, room := ?_, free := ?_, groups := ?_, counts := ?_ }
  · intro b r mem
    dsimp only at mem
    split_ifs at mem
    · obtain old | new := List.mem_append.mp mem
      · exact h.reqs b r old
      · obtain ⟨-, head, rest, cons, rfl⟩ := mem_fronts h new
        have ok := h.entries b
        obtain ⟨valid, ready, origin⟩ := ok.waits head (cons ▸ List.mem_cons_self)
        refine ⟨⟨valid, ready, origin⟩, fun owned => ?_⟩
        have reads := ok.reads owned
        rwa [cons] at reads
    · exact h.reqs b r mem
  · intro b
    simp only [eq]
    split_ifs
    · constructor <;> simp
    · exact h.entries b
  · intro b valid
    rcases Nat.lt_or_ge b cfg.bankNum with bank | beyond
    · simp [emptied b bank] at valid
    · have same : ¬ b < cfg.bankNum := by omega
      simp only [eq, same, false_and, ↓reduceIte] at valid ⊢
      exact h.room b valid
  · have none : tally cfg.bankNum (fun b => [recorder b]) (·.hasRegisteredCoalescer) = 0 := by
      refine Tally.eq_zero fun b hb => ?_
      simp [emptied b hb]
    have length := groupsOf_length s cfg.bankNum
    have free := h.free
    unfold registered at free ⊢
    simp only [none, List.length_append]
    omega
  · intro T
    have made := groupsOf_block s T cfg.bankNum
    have moved : tally cfg.bankNum (fronts s) (Ident.group cfg T ·.ident) = _ :=
      Tally.congr fun b _ => fronts_group h T b
    have path := path (Ident.group cfg T)
    have groups := h.groups T
    unfold onPath at groups ⊢
    simp only [List.countP_append]
    omega
  · intro style f
    have none : tally cfg.bankNum (fun b => (recorder b).reqQueue) (f ·.key) = 0 := by
      refine Tally.eq_zero fun b hb => ?_
      simp [emptied b hb]
    have made := groupsOf_count s f cfg.bankNum
    have moved : inRecorder cfg s f = _ := Tally.split fun b _ => fronts_single h f b
    have path := path (Ident.single f)
    have counts := h.counts style f
    unfold heldIn inRecorder onPath at *
    simp only [none, inCoalescer_append]
    omega

end MemSystem

end DataflowSim.Memory
