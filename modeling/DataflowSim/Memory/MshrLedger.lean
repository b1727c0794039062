import DataflowSim.Library.Run
import DataflowSim.Memory.Mshr

/-!
# The calls on an MSHR

How the phases of a cache cycle use an MSHR: `updateReqQueue` sends a miss while an entry is free,
`sendMshrOutstandingReq` asks for the outstanding requests and clears the flags of those that the
level below accepted, an answer from below makes the entries of its block ready, and
`updateAckQueue` offers the heads of the ready entries and pops those that were taken. The ledger
lists for each allocation what arrived, which fills were issued and what left.
-/

namespace DataflowSim.Memory

inductive MshrCall where
  | miss (req : CacheReq)
  | fills (accepted : List Bool)
  | answered (blockAddr : Nat)
  | respond (accepted : List Bool)
  deriving DecidableEq, Repr

/-- Where the source reports an error, or reads the head of an empty queue. -/
inductive MshrError where
  | sendUnsuccessful | notOutstanding | emptyQueue
  deriving DecidableEq, Repr

def MshrError.text : MshrError → String
  | .sendUnsuccessful => "Send to MSHR unsuccessfully!"
  | .notOutstanding => "This entry is not an outstanding req"
  | .emptyQueue => ""

/-- The elements of a list that were accepted. -/
def accepted {α : Type*} : List α → List Bool → List α
  | a :: as, true :: answers => a :: accepted as answers
  | _ :: as, false :: answers => accepted as answers
  | _, _ => []

theorem accepted_sublist {α : Type*} (as : List α) (answers : List Bool) :
    (accepted as answers).Sublist as := by
  fun_induction accepted as answers with
  | case1 a as answers ih => exact ih.cons_cons a
  | case2 a as answers ih => exact ih.cons a
  | case3 as answers => exact List.nil_sublist as

theorem exists_accepted {α : Type*} {as bs : List α} (sub : bs.Sublist as) :
    ∃ answers, accepted as answers = bs := by
  induction sub with
  | slnil => exact ⟨[], rfl⟩
  | cons a _ ih =>
    obtain ⟨answers, rfl⟩ := ih
    exact ⟨false :: answers, rfl⟩
  | cons_cons a _ ih =>
    obtain ⟨answers, rfl⟩ := ih
    exact ⟨true :: answers, rfl⟩

theorem accepted_replicate {α : Type*} {n : Nat} {as : List α} (le : as.length ≤ n) :
    accepted as (List.replicate n true) = as := by
  induction as generalizing n with
  | nil => rfl
  | cons a as ih =>
    obtain ⟨m, rfl⟩ := Nat.exists_eq_add_one_of_ne_zero (Nat.ne_zero_of_lt le)
    rw [List.replicate_succ, accepted, ih (Nat.le_of_succ_le_succ le)]

/-- What a call does to the table. -/
def Mshr.call (blockOf : CacheReq → Nat) (m : Mshr) : MshrCall → Mshr
  | .miss req => if m.seekMshrFreeEntry then (m.send2Mshr (blockOf req) req).getD m else m
  | .fills answers => m.clearOutstandingFlag (accepted m.outstandingIds answers)
  | .answered blockAddr => m.setMshrEntryReady blockAddr
  | .respond answers => m.peekMshrReadyEntry.2.clearMshrEntry (accepted m.readyIds answers)

/-- The ack that a request leaves with. A write-back leaves without one. -/
def ackOf (req : CacheReq) : List CacheReq :=
  if req.cacheOp = .WRITEBACK_DIRTY_BLOCK then [] else [{ req with ready := true }]

structure Departure where
  alloc : Nat
  req : CacheReq
  ready : Bool
  deriving DecidableEq, Repr

structure Ledger where
  mshr : Mshr
  arrived : List (Nat × CacheReq) := []
  filled : List Nat := []
  departed : List Departure := []

namespace Ledger

/-- The allocation whose entry a request for the block goes to. -/
def allocOf (m : Mshr) (blockAddr : Nat) : Nat :=
  match m.joinId blockAddr with
  | some id => (m.mshrTable id).alloc
  | none => m.allocated.length

def send (u : Ledger) (blockAddr : Nat) (req : CacheReq) : Except MshrError Ledger :=
  match u.mshr.send2Mshr blockAddr req with
  | some m => .ok { u with mshr := m, arrived := u.arrived ++ [(allocOf u.mshr blockAddr, req)] }
  | none => .error .sendUnsuccessful

/-- The fill was accepted below, and the flag of its entry is cleared. -/
def issue (u : Ledger) (id : Nat) : Except MshrError Ledger :=
  if (u.mshr.mshrTable id).outstanding then
    .ok { u with
      mshr := u.mshr.clearOutstandingFlag [id]
      filled := u.filled ++ [(u.mshr.mshrTable id).alloc] }
  else .error .notOutstanding

/-- The head of the entry was taken. -/
def depart (u : Ledger) (id : Nat) : Except MshrError Ledger :=
  let entry := u.mshr.mshrTable id
  match entry.mshrQueue with
  | req :: _ =>
    .ok { u with
      mshr := u.mshr.popEntry id
      departed := u.departed ++ [⟨entry.alloc, req, entry.valid && entry.ready⟩] }
  | [] => .error .emptyQueue

variable (blockOf : CacheReq → Nat)

def call (u : Ledger) : MshrCall → Except MshrError Ledger
  | .miss req => if u.mshr.seekMshrFreeEntry then u.send (blockOf req) req else .ok u
  | .fills answers => (accepted u.mshr.outstandingIds answers).foldlM issue u
  | .answered blockAddr => .ok { u with mshr := u.mshr.setMshrEntryReady blockAddr }
  | .respond answers =>
    (accepted u.mshr.readyIds answers).foldlM depart { u with mshr := u.mshr.peekMshrReadyEntry.2 }

variable {blockOf}
variable {u v : Ledger}

/-- The ledger follows the table. -/
theorem call_mshr {c : MshrCall} (done : u.call blockOf c = .ok v) : v.mshr = u.mshr.call blockOf c := by
  cases c with
  | miss req =>
    simp only [call, send] at done
    rw [Mshr.call]
    split at done
    · next free =>
      rw [if_pos free]
      split at done
      · next m sent =>
        cases done
        rw [sent, Option.getD_some]
      · cases done
    · next full =>
      cases done
      rw [if_neg full]
  | fills answers =>
    refine Run.viewed (fun s id t issued => ?_) done
    unfold issue at issued
    split at issued <;> cases issued
    rfl
  | answered blockAddr =>
    cases done
    rfl
  | respond answers =>
    refine Run.viewed (fun s id t left => ?_) done
    unfold depart at left
    dsimp only at left
    split at left <;> cases left
    rfl

/-! ## The accounts -/

def arrivedAt (u : Ledger) (alloc : Nat) : List CacheReq :=
  (u.arrived.filter (·.1 == alloc)).map Prod.snd

def departedAt (u : Ledger) (alloc : Nat) : List CacheReq :=
  (u.departed.filter (·.alloc == alloc)).map Departure.req

/-- The acks of what has left. -/
def acks (u : Ledger) : List CacheReq := u.departed.flatMap fun d => ackOf d.req

/-- The accounts of an MSHR: what arrived for an allocation has left in order, up to what is in the
queue of its entry, and nothing is there any more once the entry is closed. -/
structure Balanced (blockOf : CacheReq → Nat) (u : Ledger) : Prop where
  table : u.mshr.Valid blockOf
  size : ∀ i, (u.mshr.mshrTable i).mshrQueue.length ≤ max 1 u.mshr.entrySize
  waiting : ∀ i, (u.mshr.mshrTable i).valid = true → u.arrivedAt (u.mshr.mshrTable i).alloc =
    u.departedAt (u.mshr.mshrTable i).alloc ++ (u.mshr.mshrTable i).mshrQueue
  gone : ∀ a, (∀ i, (u.mshr.mshrTable i).valid = true → (u.mshr.mshrTable i).alloc ≠ a) →
    u.arrivedAt a = u.departedAt a
  known : ∀ x ∈ u.arrived, x.1 < u.mshr.allocated.length
  whileReady : ∀ d ∈ u.departed, d.ready = true
  once : u.filled.Nodup
  filledKnown : ∀ a ∈ u.filled, a < u.mshr.allocated.length
  unfilled : ∀ i, (u.mshr.mshrTable i).valid = true → (u.mshr.mshrTable i).outstanding = true →
    (u.mshr.mshrTable i).alloc ∉ u.filled

def init (entryNum entrySize : Nat) : Ledger where
  mshr := { entryNum := entryNum, entrySize := entrySize }

theorem init_balanced (entryNum entrySize : Nat) : Balanced blockOf (init entryNum entrySize) := by
  constructor <;> simp [init, arrivedAt, departedAt]
  constructor <;> simp

/-- An open entry is one of a known allocation. -/
theorem Balanced.alloc_lt (h : Balanced blockOf u) {i : Nat} (open_ : (u.mshr.mshrTable i).valid = true) :
    (u.mshr.mshrTable i).alloc < u.mshr.allocated.length :=
  (List.getElem?_eq_some_iff.mp (h.table.allocation i open_)).1

theorem arrivedAt_arrive (u : Ledger) (m : Mshr) (a b : Nat) (r : CacheReq) :
    arrivedAt { u with mshr := m, arrived := u.arrived ++ [(a, r)] } b =
      u.arrivedAt b ++ if a = b then [r] else [] := by
  by_cases here : a = b <;> simp [arrivedAt, here]

theorem departedAt_depart (u : Ledger) (m : Mshr) (d : Departure) (b : Nat) :
    departedAt { u with mshr := m, departed := u.departed ++ [d] } b =
      u.departedAt b ++ if d.alloc = b then [d.req] else [] := by
  by_cases here : d.alloc = b <;> simp [departedAt, here]

/-- What a change of one entry has to keep, where `w` is the ledger after it. -/
theorem Balanced.entry {w : Ledger} {id : Nat} {e : MshrEntry} (h : Balanced blockOf u)
    (changed : ∀ i, w.mshr.mshrTable i = if i = id then e else u.mshr.mshrTable i)
    (entrySize : w.mshr.entrySize = u.mshr.entrySize)
    (own : (u.mshr.mshrTable id).valid = true → (u.mshr.mshrTable id).alloc = e.alloc)
    (others : ∀ i, i ≠ id → (u.mshr.mshrTable i).valid = true → (u.mshr.mshrTable i).alloc ≠ e.alloc)
    (elsewhere : ∀ a, a ≠ e.alloc → w.arrivedAt a = u.arrivedAt a ∧ w.departedAt a = u.departedAt a)
    (size : e.mshrQueue.length ≤ max 1 u.mshr.entrySize)
    (waiting : e.valid = true → w.arrivedAt e.alloc = w.departedAt e.alloc ++ e.mshrQueue)
    (gone : e.valid = false → w.arrivedAt e.alloc = w.departedAt e.alloc) :
    (∀ i, (w.mshr.mshrTable i).mshrQueue.length ≤ max 1 w.mshr.entrySize) ∧
    (∀ i, (w.mshr.mshrTable i).valid = true → w.arrivedAt (w.mshr.mshrTable i).alloc =
      w.departedAt (w.mshr.mshrTable i).alloc ++ (w.mshr.mshrTable i).mshrQueue) ∧
    ∀ a, (∀ i, (w.mshr.mshrTable i).valid = true → (w.mshr.mshrTable i).alloc ≠ a) →
      w.arrivedAt a = w.departedAt a := by
  refine ⟨fun i => ?_, fun i => ?_, fun a closed => ?_⟩
  · rw [changed, entrySize]
    split_ifs
    · exact size
    · exact h.size i
  · rw [changed]
    split_ifs with here
    · exact waiting
    · intro valid
      obtain ⟨arrived, departed⟩ := elsewhere _ (others i here valid)
      rw [arrived, departed]
      exact h.waiting i valid
  · by_cases same : a = e.alloc
    · subst same
      refine gone (Bool.eq_false_iff.mpr fun valid => ?_)
      have open_ := closed id
      rw [changed, if_pos rfl] at open_
      exact open_ valid rfl
    · obtain ⟨arrived, departed⟩ := elsewhere a same
      rw [arrived, departed]
      refine h.gone a fun i valid => ?_
      by_cases here : i = id
      · subst here
        exact own valid ▸ Ne.symm same
      · have kept := closed i
        rw [changed, if_neg here] at kept
        exact kept valid

theorem Balanced.join (h : Balanced blockOf u) {id : Nat} {r : CacheReq}
    (found : u.mshr.joinId (blockOf r) = some id) :
    Balanced blockOf { u with
      mshr := u.mshr.join id r, arrived := u.arrived ++ [((u.mshr.mshrTable id).alloc, r)] } := by
  obtain ⟨bound, open_, -, room⟩ := Mshr.joinId_some found
  have lt := h.alloc_lt open_
  have changed (i : Nat) : (u.mshr.join id r).mshrTable i = if i = id then
      { u.mshr.mshrTable id with mshrQueue := (u.mshr.mshrTable id).mshrQueue ++ [r] }
      else u.mshr.mshrTable i := by
    rw [Mshr.join, Mshr.setEntry_mshrTable, Function.update_apply]
  obtain ⟨size, waiting, gone⟩ := @Balanced.entry blockOf u { u with
      mshr := u.mshr.join id r, arrived := u.arrived ++ [((u.mshr.mshrTable id).alloc, r)] } id _ h
    changed rfl (fun _ => rfl)
    (fun i ne valid same => ne (h.table.distinct i id valid open_ same))
    (fun a ne => ⟨by rw [arrivedAt_arrive, if_neg (Ne.symm ne), List.append_nil], rfl⟩)
    (by
      rw [List.length_append, List.length_singleton]
      exact le_max_of_le_right room)
    (fun _ => by
      rw [arrivedAt_arrive, if_pos rfl, h.waiting id open_]
      exact List.append_assoc _ _ _)
    (fun closed => by simp [open_] at closed)
  refine ⟨Mshr.join_valid h.table found, size, waiting, gone, fun x mem => ?_, h.whileReady, h.once,
    h.filledKnown, fun i => ?_⟩
  · rcases List.mem_append.mp mem with old | new
    · exact h.known x old
    · obtain rfl := List.mem_singleton.mp new
      exact lt
  · dsimp only
    rw [changed]
    split_ifs with here
    · exact h.unfilled id
    · exact h.unfilled i

/-- Nothing is known of an allocation that is still to come. -/
theorem Balanced.fresh (h : Balanced blockOf u) :
    u.arrivedAt u.mshr.allocated.length = [] ∧ u.departedAt u.mshr.allocated.length = [] := by
  have none_arrived : u.arrivedAt u.mshr.allocated.length = [] := by
    rw [arrivedAt, List.map_eq_nil_iff, List.filter_eq_nil_iff]
    intro x mem
    simpa using (h.known x mem).ne
  exact ⟨none_arrived, (h.gone _ fun i open_ => (h.alloc_lt open_).ne) ▸ none_arrived⟩

theorem Balanced.allocate (h : Balanced blockOf u) {id : Nat} {r : CacheReq}
    (found : u.mshr.freeId = some id) :
    Balanced blockOf { u with
      mshr := u.mshr.allocate id (blockOf r) r
      arrived := u.arrived ++ [(u.mshr.allocated.length, r)] } := by
  obtain ⟨bound, free⟩ := Mshr.freeId_some found
  obtain ⟨none_arrived, none_departed⟩ := h.fresh
  have empty := (h.table.closed id free).1
  have changed (i : Nat) : (u.mshr.allocate id (blockOf r) r).mshrTable i = if i = id then
      { u.mshr.mshrTable id with
        valid := true, outstanding := true, blockAddr := blockOf r, mshrQueue := [r],
        alloc := u.mshr.allocated.length }
      else u.mshr.mshrTable i := by
    simp only [Mshr.allocate, Mshr.setEntry_mshrTable, Function.update_apply, empty, List.nil_append]
  have grown : (u.mshr.allocate id (blockOf r) r).allocated.length = u.mshr.allocated.length + 1 := by
    simp [Mshr.allocate]
  obtain ⟨size, waiting, gone⟩ := @Balanced.entry blockOf u { u with
      mshr := u.mshr.allocate id (blockOf r) r, arrived := u.arrived ++ [(u.mshr.allocated.length, r)] } id _ h
    changed rfl (fun valid => by simp [free] at valid)
    (fun i _ valid => (h.alloc_lt valid).ne)
    (fun a ne => ⟨by rw [arrivedAt_arrive, if_neg (Ne.symm ne), List.append_nil], rfl⟩)
    (le_max_left 1 _)
    (fun _ => by
      rw [arrivedAt_arrive, if_pos rfl, none_arrived]
      exact congrArg (· ++ [r]) none_departed.symm)
    (fun closed => by simp at closed)
  refine ⟨Mshr.allocate_valid h.table found, size, waiting, gone, fun x mem => ?_, h.whileReady, h.once,
    fun a mem => ?_, fun i => ?_⟩
  · dsimp only
    rw [grown]
    rcases List.mem_append.mp mem with old | new
    · exact (h.known x old).trans (Nat.lt_succ_self _)
    · obtain rfl := List.mem_singleton.mp new
      exact Nat.lt_succ_self _
  · dsimp only
    rw [grown]
    exact (h.filledKnown a mem).trans (Nat.lt_succ_self _)
  · dsimp only
    rw [changed]
    split_ifs
    · intro _ _ mem
      exact (h.filledKnown _ mem).false
    · exact h.unfilled i

theorem Balanced.setReady (h : Balanced blockOf u) (blockAddr : Nat) :
    Balanced blockOf { u with mshr := u.mshr.setMshrEntryReady blockAddr } := by
  have flagged (i : Nat) : ∃ ready, (u.mshr.setMshrEntryReady blockAddr).mshrTable i =
      { u.mshr.mshrTable i with ready := ready } := by
    unfold Mshr.setMshrEntryReady
    dsimp only
    split_ifs
    · exact ⟨true, rfl⟩
    · exact ⟨_, rfl⟩
  choose ready flagged using flagged
  refine ⟨Mshr.setMshrEntryReady_valid h.table blockAddr, fun i => ?_, fun i => ?_, fun a closed => ?_,
    h.known, h.whileReady, h.once, h.filledKnown, fun i => ?_⟩
  · dsimp only
    rw [flagged]
    exact h.size i
  · dsimp only
    rw [flagged]
    exact h.waiting i
  · refine h.gone a fun i valid => ?_
    have kept := closed i
    dsimp only at kept
    rw [flagged] at kept
    exact kept valid
  · dsimp only
    rw [flagged]
    exact h.unfilled i

theorem Balanced.pop (h : Balanced blockOf u) {id : Nat} {req : CacheReq} {rest : List CacheReq}
    (open_ : (u.mshr.mshrTable id).valid = true) (queue : (u.mshr.mshrTable id).mshrQueue = req :: rest) :
    Balanced blockOf { u with
      mshr := u.mshr.popEntry id
      departed := u.departed ++ [⟨(u.mshr.mshrTable id).alloc, req, true⟩] } := by
  have changed (i : Nat) : (u.mshr.popEntry id).mshrTable i = if i = id then
      { u.mshr.mshrTable id with
        mshrQueue := rest, valid := !rest.isEmpty
        ready := (u.mshr.mshrTable id).ready && !rest.isEmpty }
      else u.mshr.mshrTable i := by
    rw [Mshr.popEntry_table, queue, open_, List.tail_cons, Bool.true_and]
  obtain ⟨entryNum, allocated⟩ := Mshr.popEntry_frame u.mshr id
  have entrySize : (u.mshr.popEntry id).entrySize = u.mshr.entrySize := by
    unfold Mshr.popEntry
    dsimp only
    split_ifs <;> rfl
  have held := h.waiting id open_
  have room := h.size id
  rw [queue] at held room
  have left : u.arrivedAt (u.mshr.mshrTable id).alloc =
      (u.departedAt (u.mshr.mshrTable id).alloc ++ [req]) ++ rest := held.trans (List.append_cons _ _ _)
  obtain ⟨size, waiting, gone⟩ := @Balanced.entry blockOf u { u with
      mshr := u.mshr.popEntry id
      departed := u.departed ++ [⟨(u.mshr.mshrTable id).alloc, req, true⟩] } id _ h
    changed entrySize (fun _ => rfl)
    (fun i ne valid same => ne (h.table.distinct i id valid open_ same))
    (fun a ne => ⟨rfl, by rw [departedAt_depart, if_neg (Ne.symm ne), List.append_nil]⟩)
    ((Nat.le_succ _).trans room)
    (fun _ => by
      rw [departedAt_depart, if_pos rfl]
      exact left)
    (fun closed => by
      -- the last request has left
      have last : rest = [] := by simpa using closed
      rw [last, List.append_nil] at left
      rw [departedAt_depart, if_pos rfl]
      exact left)
  refine ⟨Mshr.popEntry_valid h.table id, size, waiting, gone, ?_, fun d mem => ?_, h.once, ?_, fun i => ?_⟩
  · dsimp only
    rw [allocated]
    exact h.known
  · rcases List.mem_append.mp mem with old | new
    · exact h.whileReady d old
    · obtain rfl := List.mem_singleton.mp new
      rfl
  · dsimp only
    rw [allocated]
    exact h.filledKnown
  · dsimp only
    rw [changed]
    split_ifs
    · exact fun _ => h.unfilled id open_
    · exact h.unfilled i

/-- The ledger when the head of a ready entry has left. -/
def left (u : Ledger) (id : Nat) : Ledger :=
  { u with
    mshr := u.mshr.popEntry id
    departed := u.departed ++ [⟨(u.mshr.mshrTable id).alloc, (u.mshr.mshrTable id).front, true⟩] }

theorem Balanced.depart (h : Balanced blockOf u) {id : Nat} (open_ : (u.mshr.mshrTable id).valid = true)
    (ready : (u.mshr.mshrTable id).ready = true) :
    u.depart id = .ok (u.left id) ∧ Balanced blockOf (u.left id) := by
  obtain ⟨req, rest, queue⟩ := List.exists_cons_of_ne_nil (h.table.opened id open_)
  have front : (u.mshr.mshrTable id).front = req := by rw [MshrEntry.front, queue, List.headD_cons]
  refine ⟨?_, ?_⟩
  · simp only [Ledger.depart, left, queue, open_, ready, front, Bool.and_self]
  · rw [left, front]
    exact h.pop open_ queue

theorem acks_left (u : Ledger) (id : Nat) :
    (u.left id).acks = u.acks ++ ackOf (u.mshr.mshrTable id).front := by
  rw [acks, left, List.flatMap_append, List.flatMap_singleton]
  rfl

/-- Other entries are not touched. -/
theorem left_other (u : Ledger) {id j : Nat} (ne : j ≠ id) :
    (u.left id).mshr.mshrTable j = u.mshr.mshrTable j := by
  rw [left, Mshr.popEntry_table, if_neg ne]

/-- The heads of distinct ready entries leave one after the other. -/
theorem Balanced.departs (h : Balanced blockOf u) {ids : List Nat} (distinct : ids.Nodup)
    (flags : ∀ id ∈ ids, (u.mshr.mshrTable id).valid = true ∧ (u.mshr.mshrTable id).ready = true) :
    ids.foldlM Ledger.depart u = .ok (ids.foldl left u) ∧ Balanced blockOf (ids.foldl left u) := by
  induction ids generalizing u with
  | nil => exact ⟨rfl, h⟩
  | cons id ids ih =>
    obtain ⟨fresh, distinct⟩ := List.nodup_cons.mp distinct
    obtain ⟨here, rest⟩ := List.forall_mem_cons.mp flags
    obtain ⟨first, balanced⟩ := h.depart here.1 here.2
    rw [List.foldlM_cons, first, List.foldl_cons]
    refine ih balanced distinct fun j mem => ?_
    rw [left_other u (ne_of_mem_of_not_mem mem fresh)]
    exact rest j mem

theorem Balanced.issue (h : Balanced blockOf u) {id : Nat} (open_ : (u.mshr.mshrTable id).valid = true)
    (outstanding : (u.mshr.mshrTable id).outstanding = true) :
    ∃ v, u.issue id = .ok v ∧ Balanced blockOf v ∧ ∀ j, j ≠ id → v.mshr.mshrTable j = u.mshr.mshrTable j := by
  have changed (i : Nat) : (u.mshr.clearOutstandingFlag [id]).mshrTable i = if i = id then
      { u.mshr.mshrTable id with outstanding := false } else u.mshr.mshrTable i := by
    simp only [Mshr.clearOutstandingFlag, List.foldl_cons, List.foldl_nil, Mshr.setEntry_mshrTable,
      Function.update_apply]
  refine ⟨_, by rw [Ledger.issue, if_pos outstanding], ?_, fun j ne => ?_⟩
  · obtain ⟨size, waiting, gone⟩ := @Balanced.entry blockOf u { u with
        mshr := u.mshr.clearOutstandingFlag [id]
        filled := u.filled ++ [(u.mshr.mshrTable id).alloc] } id _ h
      changed rfl (fun _ => rfl)
      (fun i ne valid same => ne (h.table.distinct i id valid open_ same))
      (fun _ _ => ⟨rfl, rfl⟩) (h.size id) (fun _ => h.waiting id open_)
      (fun closed => by simp [open_] at closed)
    refine ⟨Mshr.clearOutstandingFlag_valid h.table id, size, waiting, gone, h.known, h.whileReady, ?_,
      fun a mem => ?_, fun i => ?_⟩
    · exact h.once.append (List.nodup_singleton _) (by simpa using h.unfilled id open_ outstanding)
    · rcases List.mem_append.mp mem with old | new
      · exact h.filledKnown a old
      · obtain rfl := List.mem_singleton.mp new
        exact h.alloc_lt open_
    · dsimp only
      rw [changed]
      split_ifs with here
      · intro _ flag
        cases flag
      · intro valid flag mem
        rcases List.mem_append.mp mem with old | new
        · exact h.unfilled i valid flag old
        · exact here (h.table.distinct i id valid open_ (List.mem_singleton.mp new))
  · dsimp only
    rw [changed, if_neg ne]

/-- Every call goes through and keeps the accounts. -/
theorem Balanced.call (h : Balanced blockOf u) (c : MshrCall) :
    ∃ v, u.call blockOf c = .ok v ∧ Balanced blockOf v := by
  cases c with
  | miss req =>
    unfold Ledger.call
    dsimp only
    split_ifs with free
    · obtain ⟨m, sent⟩ := Option.isSome_iff_exists.mp (Mshr.send2Mshr_isSome (blockOf req) req free)
      refine ⟨_, by rw [Ledger.send, sent], ?_⟩
      obtain ⟨id, found, rfl⟩ | ⟨id, absent, found, rfl⟩ := Mshr.send2Mshr_cases sent
      · rw [allocOf, found]
        exact h.join found
      · rw [allocOf, absent]
        exact h.allocate found
    · exact ⟨u, rfl, h⟩
  | fills answers =>
    have sub := accepted_sublist u.mshr.outstandingIds answers
    refine Run.all_possible (Q := fun s id => (s.mshr.mshrTable id).valid = true ∧
      (s.mshr.mshrTable id).outstanding = true) ?_ (u.mshr.outstandingIds_nodup.sublist sub) h ?_
    · rintro s id balanced ⟨open_, outstanding⟩
      obtain ⟨t, issued, kept, others⟩ := balanced.issue open_ outstanding
      exact ⟨t, issued, kept, fun j ne flags => by rwa [others j ne]⟩
    · exact fun id mem => (Mshr.mem_outstandingIds (sub.subset mem)).2
  | answered blockAddr => exact ⟨_, rfl, h.setReady blockAddr⟩
  | respond answers =>
    have sub := accepted_sublist u.mshr.readyIds answers
    have peeked : Balanced blockOf { u with mshr := u.mshr.peekMshrReadyEntry.2 } :=
      { h with table := h.table.congr rfl rfl rfl }
    exact ⟨_, peeked.departs (u.mshr.readyIds_nodup.sublist sub)
      fun id mem => (Mshr.mem_readyIds (sub.subset mem)).2⟩

/-- Every sequence of calls goes through and keeps the accounts. -/
theorem calls_balanced (entryNum entrySize : Nat) (calls : List MshrCall) :
    ∃ u, calls.foldlM (call blockOf) (init entryNum entrySize) = .ok u ∧ Balanced blockOf u ∧
      u.mshr = calls.foldl (Mshr.call blockOf) (init entryNum entrySize).mshr := by
  suffices go : ∀ u, Balanced blockOf u → ∃ v, calls.foldlM (call blockOf) u = .ok v ∧ Balanced blockOf v by
    obtain ⟨u, run, balanced⟩ := go _ (init_balanced entryNum entrySize)
    exact ⟨u, run, balanced, Run.viewed (fun _ _ _ done => call_mshr done) run⟩
  induction calls with
  | nil => exact fun u h => ⟨u, rfl, h⟩
  | cons c calls ih =>
    intro u h
    obtain ⟨v, first, kept⟩ := h.call c
    obtain ⟨w, rest, balanced⟩ := ih v kept
    exact ⟨w, by rw [List.foldlM_cons, first]; exact rest, balanced⟩

/-! ## Ready entries run empty -/

/-- The round robin reaches every entry from where it stands. -/
theorem roundRobin_reaches {n i : Nat} (ptr : Nat) (lt : i < n) : ∃ k < n, (ptr + k) % n = i := by
  refine ⟨(i + (n - ptr % n)) % n, Nat.mod_lt _ (by omega), ?_⟩
  have below := Nat.mod_lt ptr (show 0 < n by omega)
  have whole : ptr + (i + (n - ptr % n)) = i + n * (ptr / n + 1) := by
    have parts := Nat.div_add_mod ptr n
    rw [Nat.mul_succ]
    omega
  rw [Nat.add_mod_mod, whole, Nat.add_mul_mod_self_left, Nat.mod_eq_of_lt lt]

theorem mem_readyIds_iff {m : Mshr} {i : Nat} (lt : i < m.entryNum) :
    i ∈ m.readyIds ↔ (m.mshrTable i).valid = true ∧ (m.mshrTable i).ready = true := by
  refine ⟨fun mem => (Mshr.mem_readyIds mem).2, fun ⟨valid, ready⟩ => ?_⟩
  obtain ⟨k, below, at_i⟩ := roundRobin_reaches m.mshrRdPtr lt
  exact List.mem_filter.mpr ⟨List.mem_map.mpr ⟨k, List.mem_range.mpr below, at_i⟩, by simp [valid, ready]⟩

/-- All heads that are offered are taken. -/
def takeAll (entryNum : Nat) : MshrCall := .respond (List.replicate entryNum true)

theorem left_alloc (u : Ledger) (id j : Nat) :
    ((u.left id).mshr.mshrTable j).alloc = (u.mshr.mshrTable j).alloc := by
  rw [left, Mshr.popEntry_table]
  split_ifs with here
  · rw [here]
  · rfl

/-- What leaves other entries changes nothing at an entry and its allocation. -/
theorem foldl_left_away {i a : Nat} {ids : List Nat}
    (away : ∀ j ∈ ids, j ≠ i ∧ (u.mshr.mshrTable j).alloc ≠ a) :
    (ids.foldl left u).mshr.mshrTable i = u.mshr.mshrTable i ∧
      (ids.foldl left u).departedAt a = u.departedAt a := by
  induction ids generalizing u with
  | nil => exact ⟨rfl, rfl⟩
  | cons id ids ih =>
    obtain ⟨⟨ne, other⟩, rest⟩ := List.forall_mem_cons.mp away
    obtain ⟨table, departed⟩ := @ih (u.left id) fun j mem => by
      rw [left_alloc]
      exact rest j mem
    rw [List.foldl_cons, table, departed, left_other u ne.symm, left, departedAt_depart,
      if_neg other, List.append_nil]
    exact ⟨rfl, rfl⟩

/-- An entry whose head leaves with those of others loses the head only. -/
theorem foldl_left_here {i : Nat} {ids : List Nat} (distinct : ids.Nodup) (mem : i ∈ ids)
    (others : ∀ j ∈ ids, j ≠ i → (u.mshr.mshrTable j).alloc ≠ (u.mshr.mshrTable i).alloc) :
    (ids.foldl left u).mshr.mshrTable i = (u.left i).mshr.mshrTable i ∧
      (ids.foldl left u).departedAt (u.mshr.mshrTable i).alloc =
        u.departedAt (u.mshr.mshrTable i).alloc ++ [(u.mshr.mshrTable i).front] := by
  induction ids generalizing u with
  | nil => cases mem
  | cons id ids ih =>
    obtain ⟨fresh, distinct⟩ := List.nodup_cons.mp distinct
    rw [List.foldl_cons]
    by_cases here : id = i
    · subst here
      obtain ⟨table, departed⟩ := @foldl_left_away (u.left id) id (u.mshr.mshrTable id).alloc ids
        fun j at_j => by
          have ne := ne_of_mem_of_not_mem at_j fresh
          rw [left_alloc]
          exact ⟨ne, others j (List.mem_cons_of_mem id at_j) ne⟩
      rw [table, departed, left, departedAt_depart, if_pos rfl]
      exact ⟨rfl, rfl⟩
    · have kept := left_other u (Ne.symm here)
      obtain ⟨table, departed⟩ := @ih (u.left id) distinct
        ((List.mem_cons.mp mem).resolve_left (Ne.symm here)) fun j at_j ne => by
          rw [left_alloc, left_alloc]
          exact others j (List.mem_cons_of_mem id at_j) ne
      rw [kept] at departed
      refine ⟨table.trans ?_, departed.trans ?_⟩
      · simp only [left, Mshr.popEntry_table, if_true, if_neg (Ne.symm here)]
      · rw [left, departedAt_depart, if_neg (others id List.mem_cons_self here), List.append_nil]

theorem foldl_left_frame (u : Ledger) (ids : List Nat) :
    (ids.foldl left u).arrived = u.arrived ∧ (ids.foldl left u).mshr.entryNum = u.mshr.entryNum := by
  refine List.foldlRecOn (motive := fun v : Ledger =>
    v.arrived = u.arrived ∧ v.mshr.entryNum = u.mshr.entryNum) _ _ ⟨rfl, rfl⟩ fun v same id _ => ?_
  exact ⟨same.1, (Mshr.popEntry_frame v.mshr id).1.trans same.2⟩

/-- When all offers are taken, a ready entry loses its head. -/
theorem Balanced.takeAll (h : Balanced blockOf u) {i : Nat}
    (open_ : (u.mshr.mshrTable i).valid = true) (ready : (u.mshr.mshrTable i).ready = true) :
    ∃ v, u.call blockOf (takeAll u.mshr.entryNum) = .ok v ∧ Balanced blockOf v ∧
      v.mshr.mshrTable i = (u.left i).mshr.mshrTable i ∧
      v.departedAt (u.mshr.mshrTable i).alloc =
        u.departedAt (u.mshr.mshrTable i).alloc ++ [(u.mshr.mshrTable i).front] ∧
      v.arrived = u.arrived ∧ v.mshr.entryNum = u.mshr.entryNum := by
  let peeked : Ledger := { u with mshr := u.mshr.peekMshrReadyEntry.2 }
  have balanced : Balanced blockOf peeked := { h with table := h.table.congr rfl rfl rfl }
  have length : u.mshr.readyIds.length ≤ u.mshr.entryNum := by
    refine (List.length_filter_le _ _).trans ?_
    rw [List.length_map, List.length_range]
  have mem : i ∈ u.mshr.readyIds := (mem_readyIds_iff (h.table.bound i open_)).mpr ⟨open_, ready⟩
  have flags := fun id (mem : id ∈ u.mshr.readyIds) => (Mshr.mem_readyIds mem).2
  obtain ⟨run, kept⟩ := balanced.departs u.mshr.readyIds_nodup flags
  obtain ⟨table, departed⟩ := @foldl_left_here peeked i _ u.mshr.readyIds_nodup mem
    fun j at_j ne same => ne (h.table.distinct j i (flags j at_j).1 open_ same)
  obtain ⟨arrived, entryNum⟩ := foldl_left_frame peeked u.mshr.readyIds
  have same : (peeked.left i).mshr.mshrTable i = (u.left i).mshr.mshrTable i := by
    simp only [left, Mshr.popEntry_table, if_true]
    rfl
  refine ⟨_, ?_, kept, table.trans same, departed, arrived, entryNum⟩
  rw [Ledger.takeAll, Ledger.call, accepted_replicate length]
  exact run

/-- After as many such calls as it has requests, a ready entry is empty. -/
theorem Balanced.drains (h : Balanced blockOf u) {i : Nat}
    (ready : (u.mshr.mshrTable i).mshrQueue = [] ∨ (u.mshr.mshrTable i).ready = true) : ∃ v,
      (List.replicate (u.mshr.mshrTable i).mshrQueue.length
        (Ledger.takeAll u.mshr.entryNum)).foldlM (Ledger.call blockOf) u = .ok v ∧
      v.arrived = u.arrived ∧ v.departedAt (u.mshr.mshrTable i).alloc =
        u.departedAt (u.mshr.mshrTable i).alloc ++ (u.mshr.mshrTable i).mshrQueue := by
  induction queue : (u.mshr.mshrTable i).mshrQueue generalizing u with
  | nil => exact ⟨u, rfl, rfl, (List.append_nil _).symm⟩
  | cons req rest ih =>
    have ready := ready.resolve_left (by simp [queue])
    have open_ : (u.mshr.mshrTable i).valid = true := by
      by_contra closed
      simp [(h.table.closed i (by simpa using closed)).2] at ready
    obtain ⟨v, first, balanced, table, departed, arrived, entryNum⟩ := h.takeAll open_ ready
    have lost : v.mshr.mshrTable i = { u.mshr.mshrTable i with
        mshrQueue := rest, valid := !rest.isEmpty, ready := !rest.isEmpty } := by
      rw [table, left, Mshr.popEntry_table, if_pos rfl, queue, open_, ready]
      rfl
    have still : (v.mshr.mshrTable i).mshrQueue = [] ∨ (v.mshr.mshrTable i).ready = true := by
      rw [lost]
      cases rest with
      | nil => exact .inl rfl
      | cons => exact .inr rfl
    obtain ⟨w, run, arrived', departed'⟩ := ih balanced still (by rw [lost])
    refine ⟨w, ?_, arrived'.trans arrived, ?_⟩
    · rw [List.length_cons, List.replicate_succ, List.foldlM_cons, first, ← entryNum]
      exact run
    · have front : (u.mshr.mshrTable i).front = req := by rw [MshrEntry.front, queue, List.headD_cons]
      rw [lost] at departed'
      rw [departed', departed, front, List.append_assoc]
      rfl

/-! ## The law -/

/-- What holds of an MSHR after any calls. -/
structure Law (blockOf : CacheReq → Nat) (u : Ledger) : Prop where
  valid_iff : ∀ i, (u.mshr.mshrTable i).valid = true ↔ (u.mshr.mshrTable i).mshrQueue ≠ []
  valid_of_ready : ∀ i, (u.mshr.mshrTable i).ready = true → (u.mshr.mshrTable i).valid = true
  /-- An entry takes the request that opens it whatever its size. -/
  size : ∀ i, (u.mshr.mshrTable i).mshrQueue.length ≤ max 1 u.mshr.entrySize
  block : ∀ i, ∀ r ∈ (u.mshr.mshrTable i).mshrQueue, blockOf r = (u.mshr.mshrTable i).blockAddr
  oneFill : u.filled.Nodup
  /-- What arrived in an open entry has left it in order, up to what is in its queue. -/
  fifo : ∀ i, (u.mshr.mshrTable i).valid = true → u.arrivedAt (u.mshr.mshrTable i).alloc =
    u.departedAt (u.mshr.mshrTable i).alloc ++ (u.mshr.mshrTable i).mshrQueue
  /-- All that arrived has left when the entry is closed. -/
  gone : ∀ a, (∀ i, (u.mshr.mshrTable i).valid = true → (u.mshr.mshrTable i).alloc ≠ a) →
    u.arrivedAt a = u.departedAt a
  whileReady : ∀ d ∈ u.departed, d.ready = true
  /-- The head of a ready entry is offered. -/
  offered : ∀ i, (u.mshr.mshrTable i).ready = true →
    (i, (u.mshr.mshrTable i).front) ∈ u.mshr.peekMshrReadyEntry.1
  /-- All that arrived in an open entry leaves when its block is answered and the offers are taken as
  often as the queue is long. -/
  drains : ∀ i, (u.mshr.mshrTable i).valid = true → ∃ v,
    (.answered (u.mshr.mshrTable i).blockAddr :: List.replicate (u.mshr.mshrTable i).mshrQueue.length
      (takeAll u.mshr.entryNum)).foldlM (call blockOf) u = .ok v ∧ v.arrived = u.arrived ∧
    v.departedAt (u.mshr.mshrTable i).alloc = v.arrivedAt (u.mshr.mshrTable i).alloc

theorem Balanced.law (h : Balanced blockOf u) : Law blockOf u := by
  have valid_of_ready (i : Nat) (ready : (u.mshr.mshrTable i).ready = true) :
      (u.mshr.mshrTable i).valid = true := by
    by_contra closed
    simp [(h.table.closed i (by simpa using closed)).2] at ready
  refine ⟨fun i => ⟨h.table.opened i, fun some => ?_⟩, valid_of_ready, h.size, h.table.block, h.once,
    h.waiting, h.gone, h.whileReady, fun i ready => ?_, fun i valid => ?_⟩
  · by_contra closed
    exact some (h.table.closed i (by simpa using closed)).1
  · have valid := valid_of_ready i ready
    exact List.mem_map.mpr ⟨i, (mem_readyIds_iff (h.table.bound i valid)).mpr ⟨valid, ready⟩, rfl⟩
  · let answered : Ledger := { u with mshr := u.mshr.setMshrEntryReady (u.mshr.mshrTable i).blockAddr }
    have entry : answered.mshr.mshrTable i = { u.mshr.mshrTable i with ready := true } := by
      simp [answered, Mshr.setMshrEntryReady, valid]
    obtain ⟨v, run, arrived, departed⟩ := (h.setReady (u.mshr.mshrTable i).blockAddr).drains (i := i)
      (.inr (by rw [entry]))
    rw [entry] at run departed
    refine ⟨v, run, arrived, ?_⟩
    calc v.departedAt (u.mshr.mshrTable i).alloc
        = u.departedAt (u.mshr.mshrTable i).alloc ++ (u.mshr.mshrTable i).mshrQueue := departed
      _ = u.arrivedAt (u.mshr.mshrTable i).alloc := (h.waiting i valid).symm
      _ = v.arrivedAt (u.mshr.mshrTable i).alloc := by rw [arrivedAt, arrivedAt, arrived]

end Ledger

end DataflowSim.Memory
