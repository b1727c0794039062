import DataflowSim.Memory.Request

/-!
# Miss status holding registers

`Mshr.h` and `Mshr.cpp`. The table is a function on entry numbers of which the first
`entryNum` are in use. Each entry also remembers which allocation opened it, and
`allocated` lists the block addresses of all allocations so far; both are bookkeeping.
-/

namespace DataflowSim.Memory

structure MshrEntry where
  blockAddr : Nat := 0
  mshrQueue : List CacheReq := []
  valid : Bool := false
  ready : Bool := false
  outstanding : Bool := false
  alloc : Nat := 0
  deriving DecidableEq, Repr

/-- The request at the head of the queue; a valid entry has one. -/
def MshrEntry.front (e : MshrEntry) : CacheReq := e.mshrQueue.headD {}

structure Mshr where
  entryNum : Nat
  entrySize : Nat
  mshrTable : Nat → MshrEntry := fun _ => {}
  mshrRdPtr : Nat := 0
  allocated : List Nat := []

namespace Mshr

def setEntry (m : Mshr) (id : Nat) (e : MshrEntry) : Mshr :=
  { m with mshrTable := Function.update m.mshrTable id e }

@[simp] theorem setEntry_entryNum (m : Mshr) (id : Nat) (e : MshrEntry) :
    (m.setEntry id e).entryNum = m.entryNum := rfl
@[simp] theorem setEntry_entrySize (m : Mshr) (id : Nat) (e : MshrEntry) :
    (m.setEntry id e).entrySize = m.entrySize := rfl
@[simp] theorem setEntry_allocated (m : Mshr) (id : Nat) (e : MshrEntry) :
    (m.setEntry id e).allocated = m.allocated := rfl
@[simp] theorem setEntry_mshrTable (m : Mshr) (id : Nat) (e : MshrEntry) :
    (m.setEntry id e).mshrTable = Function.update m.mshrTable id e := rfl

/-- The entry that a request for the block joins: the first open one with room. -/
def joinId (m : Mshr) (blockAddr : Nat) : Option Nat :=
  (List.range m.entryNum).find? fun i =>
    (m.mshrTable i).valid && (m.mshrTable i).blockAddr == blockAddr &&
      (m.mshrTable i).mshrQueue.length < m.entrySize

/-- The first entry that is not in use. -/
def freeId (m : Mshr) : Option Nat :=
  (List.range m.entryNum).find? fun i => !(m.mshrTable i).valid

def join (m : Mshr) (id : Nat) (cacheReq : CacheReq) : Mshr :=
  let entry := m.mshrTable id
  m.setEntry id { entry with mshrQueue := entry.mshrQueue ++ [cacheReq] }

def allocate (m : Mshr) (id blockAddr : Nat) (cacheReq : CacheReq) : Mshr :=
  let entry := m.mshrTable id
  { m.setEntry id { entry with
      valid := true
      outstanding := true
      blockAddr := blockAddr
      mshrQueue := entry.mshrQueue ++ [cacheReq]
      alloc := m.allocated.length } with
    allocated := m.allocated ++ [blockAddr] }

/-- Queue a miss; `none` when the block has no open entry with room and no entry is free. -/
def send2Mshr (m : Mshr) (blockAddr : Nat) (cacheReq : CacheReq) : Option Mshr :=
  match m.joinId blockAddr with
  | some id => some (m.join id cacheReq)
  | none =>
    match m.freeId with
    | some id => some (m.allocate id blockAddr cacheReq)
    | none => none

def setMshrEntryReady (m : Mshr) (blockAddr : Nat) : Mshr :=
  { m with mshrTable := fun i =>
      if (m.mshrTable i).valid && (m.mshrTable i).blockAddr == blockAddr then
        { m.mshrTable i with ready := true }
      else m.mshrTable i }

/-- The ready entries, in the order in which the round robin meets them. -/
def readyIds (m : Mshr) : List Nat :=
  ((List.range m.entryNum).map fun i => (m.mshrRdPtr + i) % m.entryNum).filter fun id =>
    (m.mshrTable id).valid && (m.mshrTable id).ready

def peekMshrReadyEntry (m : Mshr) : List (Nat × CacheReq) × Mshr :=
  (m.readyIds.map fun id => (id, (m.mshrTable id).front),
    { m with mshrRdPtr := (m.mshrRdPtr + 1) % m.entryNum })

/-- Pop the head of one entry and close the entry when its queue runs empty. -/
def popEntry (m : Mshr) (id : Nat) : Mshr :=
  let entry := m.mshrTable id
  let queue := entry.mshrQueue.tail
  if queue.isEmpty then
    m.setEntry id { entry with mshrQueue := queue, valid := false, ready := false }
  else m.setEntry id { entry with mshrQueue := queue }

def clearMshrEntry (m : Mshr) (entryIdVec : List Nat) : Mshr := entryIdVec.foldl popEntry m

def seekMshrFreeEntry (m : Mshr) : Bool := m.freeId.isSome

def outstandingIds (m : Mshr) : List Nat :=
  (List.range m.entryNum).filter fun id =>
    (m.mshrTable id).valid && (m.mshrTable id).outstanding

/-- The head of every entry whose fill has not been sent. The origin of the copy is the
allocation that it serves. -/
def getOutstandingReq (m : Mshr) (level : Nat) : List (Nat × CacheReq) :=
  m.outstandingIds.map fun id =>
    (id, { (m.mshrTable id).front with origin := .fill level (m.mshrTable id).alloc })

/-- Clear the flag of the listed entries. An entry without the flag would be an error; the
message is printed and nothing else happens. -/
def clearOutstandingFlag (m : Mshr) (entryIdVec : List Nat) : Mshr :=
  entryIdVec.foldl (fun m id => m.setEntry id { m.mshrTable id with outstanding := false }) m

theorem joinId_some {m : Mshr} {b id : Nat} (h : m.joinId b = some id) :
    id < m.entryNum ∧ (m.mshrTable id).valid = true ∧ (m.mshrTable id).blockAddr = b ∧
      (m.mshrTable id).mshrQueue.length < m.entrySize := by
  have hp := List.find?_some h
  have hm := List.mem_of_find?_eq_some h
  simp only [Bool.and_eq_true, beq_iff_eq, decide_eq_true_eq] at hp
  exact ⟨List.mem_range.mp hm, hp.1.1, hp.1.2, hp.2⟩

theorem freeId_some {m : Mshr} {id : Nat} (h : m.freeId = some id) :
    id < m.entryNum ∧ (m.mshrTable id).valid = false := by
  have hp := List.find?_some h
  have hm := List.mem_of_find?_eq_some h
  exact ⟨List.mem_range.mp hm, by simpa using hp⟩

/-- With a free entry a miss is always queued: it joins an open entry or opens a new one. -/
theorem send2Mshr_cases {m m' : Mshr} {b : Nat} {r : CacheReq} (h : m.send2Mshr b r = some m') :
    (∃ id, m.joinId b = some id ∧ m' = m.join id r) ∨
      (∃ id, m.joinId b = none ∧ m.freeId = some id ∧ m' = m.allocate id b r) := by
  unfold send2Mshr at h
  cases hj : m.joinId b with
  | some id => simp only [hj, Option.some.injEq] at h; exact .inl ⟨id, rfl, h.symm⟩
  | none =>
    cases hf : m.freeId with
    | some id => simp only [hj, hf, Option.some.injEq] at h; exact .inr ⟨id, rfl, rfl, h.symm⟩
    | none => simp [hj, hf] at h

theorem send2Mshr_isSome {m : Mshr} (b : Nat) (r : CacheReq) (free : m.seekMshrFreeEntry = true) :
    (m.send2Mshr b r).isSome = true := by
  unfold send2Mshr
  cases m.joinId b with
  | some id => rfl
  | none =>
    unfold seekMshrFreeEntry at free
    obtain ⟨id, hid⟩ := Option.isSome_iff_exists.mp free
    simp [hid]

theorem mem_readyIds {m : Mshr} {id : Nat} (h : id ∈ m.readyIds) :
    id < m.entryNum ∧ (m.mshrTable id).valid = true ∧ (m.mshrTable id).ready = true := by
  simp only [readyIds, List.mem_filter, List.mem_map, List.mem_range, Bool.and_eq_true] at h
  obtain ⟨⟨i, hi, rfl⟩, hv, hr⟩ := h
  exact ⟨Nat.mod_lt _ (by omega), hv, hr⟩

/-- The round robin meets every entry once. -/
theorem readyIds_nodup (m : Mshr) : m.readyIds.Nodup := by
  refine List.Nodup.filter _ ((List.nodup_range).map_on ?_)
  intro i hi j hj hij
  rw [List.mem_range] at hi hj
  have := Nat.ModEq.add_left_cancel' m.mshrRdPtr (show m.mshrRdPtr + i ≡ m.mshrRdPtr + j
    [MOD m.entryNum] from hij)
  rwa [Nat.ModEq, Nat.mod_eq_of_lt hi, Nat.mod_eq_of_lt hj] at this

theorem mem_outstandingIds {m : Mshr} {id : Nat} (h : id ∈ m.outstandingIds) :
    id < m.entryNum ∧ (m.mshrTable id).valid = true ∧ (m.mshrTable id).outstanding = true := by
  simpa [outstandingIds, and_assoc] using h

theorem outstandingIds_nodup (m : Mshr) : m.outstandingIds.Nodup := List.nodup_range.filter _

/-! ## The table invariant -/

/-- Open entries hold requests of their own block, under an allocation of their own. -/
structure Valid (blockOf : CacheReq → Nat) (m : Mshr) : Prop where
  bound : ∀ i, (m.mshrTable i).valid = true → i < m.entryNum
  opened : ∀ i, (m.mshrTable i).valid = true → (m.mshrTable i).mshrQueue ≠ []
  closed : ∀ i, (m.mshrTable i).valid = false →
    (m.mshrTable i).mshrQueue = [] ∧ (m.mshrTable i).ready = false
  block : ∀ i, ∀ r ∈ (m.mshrTable i).mshrQueue, blockOf r = (m.mshrTable i).blockAddr
  allocation : ∀ i, (m.mshrTable i).valid = true →
    m.allocated[(m.mshrTable i).alloc]? = some (m.mshrTable i).blockAddr
  distinct : ∀ i j, (m.mshrTable i).valid = true → (m.mshrTable j).valid = true →
    (m.mshrTable i).alloc = (m.mshrTable j).alloc → i = j

theorem Valid.congr {blockOf : CacheReq → Nat} {m n : Mshr} (h : m.Valid blockOf)
    (table : n.mshrTable = m.mshrTable) (entryNum : n.entryNum = m.entryNum)
    (allocated : n.allocated = m.allocated) : n.Valid blockOf := by
  obtain ⟨bound, opened, closed, block, allocation, distinct⟩ := h
  constructor <;> simpa only [table, entryNum, allocated]

/-- The head of an open entry is one of its requests. -/
theorem Valid.front_mem {blockOf : CacheReq → Nat} {m : Mshr} (h : m.Valid blockOf) {i : Nat}
    (open_ : (m.mshrTable i).valid = true) :
    (m.mshrTable i).front ∈ (m.mshrTable i).mshrQueue := by
  have := h.opened i open_
  unfold MshrEntry.front
  cases queue : (m.mshrTable i).mshrQueue with
  | nil => contradiction
  | cons r rest => simp

variable {blockOf : CacheReq → Nat} {m : Mshr}

theorem join_valid (h : m.Valid blockOf) {id : Nat} {r : CacheReq}
    (found : m.joinId (blockOf r) = some id) : (m.join id r).Valid blockOf := by
  obtain ⟨bound, valid, eq, -⟩ := joinId_some found
  obtain ⟨hb, ho, hc, hk, ha, hd⟩ := h
  constructor <;> intro i <;> by_cases here : i = id <;>
    simp only [join, setEntry_mshrTable, setEntry_entryNum, setEntry_allocated, here,
      Function.update_self, ne_eq, not_false_eq_true, Function.update_of_ne] <;>
    grind [List.append_eq_nil_iff]

theorem allocate_valid (h : m.Valid blockOf) {id : Nat} {r : CacheReq}
    (found : m.freeId = some id) : (m.allocate id (blockOf r) r).Valid blockOf := by
  obtain ⟨bound, invalid⟩ := freeId_some found
  obtain ⟨hb, ho, hc, hk, ha, hd⟩ := h
  have old : ∀ i, (m.mshrTable i).valid = true → (m.mshrTable i).alloc < m.allocated.length := by
    intro i hi
    exact (List.getElem?_eq_some_iff.mp (ha i hi)).1
  constructor <;> intro i <;> by_cases here : i = id <;>
    simp only [allocate, setEntry_mshrTable, setEntry_entryNum, here,
      Function.update_self, ne_eq, not_false_eq_true, Function.update_of_ne] <;> grind

theorem popEntry_table (m : Mshr) (id i : Nat) : (m.popEntry id).mshrTable i =
    if i = id then
      { m.mshrTable id with
        mshrQueue := (m.mshrTable id).mshrQueue.tail
        valid := (m.mshrTable id).valid && !(m.mshrTable id).mshrQueue.tail.isEmpty
        ready := (m.mshrTable id).ready && !(m.mshrTable id).mshrQueue.tail.isEmpty }
    else m.mshrTable i := by
  unfold popEntry
  by_cases last : (m.mshrTable id).mshrQueue.tail.isEmpty = true <;> by_cases here : i = id <;>
    simp_all

@[simp] theorem popEntry_frame (m : Mshr) (id : Nat) :
    (m.popEntry id).entryNum = m.entryNum ∧ (m.popEntry id).allocated = m.allocated := by
  unfold popEntry
  by_cases last : (m.mshrTable id).mshrQueue.tail.isEmpty = true <;> simp [last]

theorem popEntry_valid (h : m.Valid blockOf) (id : Nat) : (m.popEntry id).Valid blockOf := by
  obtain ⟨hb, ho, hc, hk, ha, hd⟩ := h
  constructor <;> intro i <;> by_cases here : i = id <;>
    simp only [popEntry_table, popEntry_frame, here, ↓reduceIte] <;>
    grind [List.mem_of_mem_tail]

theorem setMshrEntryReady_valid (h : m.Valid blockOf) (b : Nat) :
    (m.setMshrEntryReady b).Valid blockOf := by
  obtain ⟨hb, ho, hc, hk, ha, hd⟩ := h
  constructor <;> intro i <;> simp only [setMshrEntryReady] <;> grind

theorem clearOutstandingFlag_valid (h : m.Valid blockOf) (id : Nat) :
    (m.clearOutstandingFlag [id]).Valid blockOf := by
  obtain ⟨hb, ho, hc, hk, ha, hd⟩ := h
  constructor <;> intro i <;> by_cases here : i = id <;>
    simp only [clearOutstandingFlag, List.foldl_cons, List.foldl_nil, setEntry_mshrTable,
      setEntry_entryNum, setEntry_allocated, here, Function.update_self, ne_eq,
      not_false_eq_true, Function.update_of_ne] <;> grind

end Mshr

end DataflowSim.Memory
