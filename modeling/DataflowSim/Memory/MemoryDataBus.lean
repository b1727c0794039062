import DataflowSim.Library.DelayLine
import DataflowSim.Memory.MemSystem

/-!
# The memory data bus

`MemoryDataBus.cpp` and its use in `MemSystem.cpp`: the memory reports reads and writes that are
complete, and every update of the memory system first hands the acks that it got from the bus to
the SPM and the cache and then takes those that have waited long enough.
-/

namespace DataflowSim.Memory

structure MemoryDataBus where
  busDelayFifo : List (MemReq × Nat) := []
  /-- In the memory system. -/
  reqAckStack : List MemReq := []
  /-- What each update of the bus returned, and what each update of the memory system handed to the
  SPM and the cache. Nothing reads them. -/
  returned : List (List MemReq) := []
  delivered : List (List MemReq) := []

inductive BusEvent where
  | readComplete (addr : Nat)
  | writeComplete (addr : Nat)
  | update
  deriving DecidableEq, Repr

namespace MemoryDataBus

def memReadComplete (busDelay : Nat) (s : MemoryDataBus) (addr : Nat) : MemoryDataBus :=
  { s with busDelayFifo :=
      s.busDelayFifo ++ [({ valid := true, isWrite := false, addr := addr }, busDelay)] }

def memWriteComplete (busDelay : Nat) (s : MemoryDataBus) (addr : Nat) : MemoryDataBus :=
  { s with busDelayFifo :=
      s.busDelayFifo ++ [({ valid := true, isWrite := true, addr := addr }, busDelay)] }

/-- Count down, and return what is ready at the front. -/
def memoryDataBusUpdate (s : MemoryDataBus) : List MemReq × MemoryDataBus :=
  let busDelayFifo := s.busDelayFifo.map fun r => (r.1, r.2 - 1)
  let acks := (busDelayFifo.takeWhile fun r => r.2 == 0).map Prod.fst
  (acks, { s with
    busDelayFifo := busDelayFifo.dropWhile fun r => r.2 == 0
    returned := s.returned ++ [acks] })

def returnReqAck (s : MemoryDataBus) : MemoryDataBus :=
  { s with reqAckStack := [], delivered := s.delivered ++ [s.reqAckStack] }

def getReqAckFromMemoryDataBus (r : List MemReq × MemoryDataBus) : MemoryDataBus :=
  { r.2 with reqAckStack := r.2.reqAckStack ++ r.1 }

def step (busDelay : Nat) (s : MemoryDataBus) : BusEvent → MemoryDataBus
  | .readComplete addr => memReadComplete busDelay s addr
  | .writeComplete addr => memWriteComplete busDelay s addr
  | .update => getReqAckFromMemoryDataBus (memoryDataBusUpdate (returnReqAck s))

def run (busDelay : Nat) (events : List BusEvent) : MemoryDataBus := events.foldl (step busDelay) {}

/-- The bus is a delay line of acks. -/
def event : BusEvent → DelayLine.Event MemReq
  | .readComplete addr => .push { valid := true, isWrite := false, addr := addr }
  | .writeComplete addr => .push { valid := true, isWrite := true, addr := addr }
  | .update => .tick

/-- The completions, with the number of updates before each of them. -/
def completions (events : List BusEvent) : List (MemReq × Nat) :=
  DelayLine.arrivals 0 (events.map event)

def updates (events : List BusEvent) : Nat := DelayLine.ticks (events.map event)

/-- The part of the memory system that the bus is. -/
theorem memoryDataBusUpdate_memSystem (s : MemSystem) :
    let r := memoryDataBusUpdate { busDelayFifo := s.busDelayFifo }
    s.memoryDataBusUpdate =
      { s with reqAckStack := s.reqAckStack ++ r.1, busDelayFifo := r.2.busDelayFifo } := rfl

/-- What the acks are handed over as: one update of the memory system later, as a whole. -/
theorem run_line (busDelay : Nat) (events : List BusEvent) :
    (run busDelay events).busDelayFifo = (DelayLine.run busDelay (events.map event)).queue ∧
      (run busDelay events).returned = (DelayLine.run busDelay (events.map event)).out ∧
      (run busDelay events).delivered ++ [(run busDelay events).reqAckStack] =
        [] :: (run busDelay events).returned := by
  induction events using List.reverseRecOn with
  | nil => exact ⟨rfl, rfl, rfl⟩
  | append_singleton events e ih =>
    obtain ⟨queue, out, handed⟩ := ih
    have last : run busDelay (events ++ [e]) = step busDelay (run busDelay events) e := by simp [run]
    rw [List.map_append, List.map_singleton, DelayLine.run_concat, last]
    generalize run busDelay events = s at queue out handed
    generalize DelayLine.run busDelay (events.map event) = line at queue out
    obtain ⟨_, _, _, _⟩ := s
    obtain ⟨_, _⟩ := line
    cases queue
    cases out
    cases e with
    | readComplete addr => exact ⟨rfl, rfl, handed⟩
    | writeComplete addr => exact ⟨rfl, rfl, handed⟩
    | update =>
      refine ⟨rfl, rfl, ?_⟩
      simp only [step, returnReqAck, memoryDataBusUpdate, getReqAckFromMemoryDataBus, List.nil_append]
      rw [handed, List.cons_append]

/-- Every completion is returned once, in the order of arrival, by the update that its delay asks
for, and handed over by the memory system with the next one; after an update nothing that is ready
is in the bus. -/
theorem run_delivers (busDelay : Nat) (events : List BusEvent) :
    (run busDelay events).returned = (List.range (updates events)).map (fun m =>
      ((completions events).filter fun a => a.2 + max busDelay 1 = m + 1).map Prod.fst) ∧
    (run busDelay events).returned.flatten ++ (run busDelay events).busDelayFifo.map Prod.fst =
      (completions events).map Prod.fst ∧
    (run busDelay events).delivered ++ [(run busDelay events).reqAckStack] =
      [] :: (run busDelay events).returned ∧
    ∀ r ∈ (run busDelay (events ++ [.update])).busDelayFifo, 0 < r.2 := by
  obtain ⟨queue, out, handed⟩ := run_line busDelay events
  refine ⟨?_, ?_, handed, ?_⟩
  · rw [out]
    exact DelayLine.run_out busDelay (events.map event)
  · rw [out, queue]
    exact DelayLine.run_flatten busDelay (events.map event)
  · rw [(run_line busDelay (events ++ [BusEvent.update])).1, List.map_append]
    exact DelayLine.tick_positive busDelay (events.map event)

/-- A read and, one update later, a write, with a delay of two. -/
example : (run 2 [.readComplete 16, .update, .writeComplete 32, .update, .update]).returned =
    [[], [{ valid := true, addr := 16 }], [{ valid := true, isWrite := true, addr := 32 }]] := by
  decide

end MemoryDataBus

end DataflowSim.Memory
