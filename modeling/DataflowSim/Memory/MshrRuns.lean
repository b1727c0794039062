import DataflowSim.Memory.BankOrder
import DataflowSim.Memory.MshrLedger

/-!
# The MSHRs of a run

A run of the cache is a chain of atomic steps. At each level a step is a call on the MSHR, the ack
of a request that was found in the cache, or nothing of that. So a run has a ledger at each level,
which lists what the history of the run lists.
-/

namespace DataflowSim.Memory

namespace Mshr

variable {m n o : Mshr}

/-- The MSHRs differ in the place of the round robin at most. -/
def Alike (m n : Mshr) : Prop := ∃ ptr, m = { n with mshrRdPtr := ptr }

theorem Alike.through (first : m.Alike n) (other : o.Alike n) : m.Alike o := by
  obtain ⟨p, rfl⟩ := first
  obtain ⟨q, rfl⟩ := other
  exact ⟨p, rfl⟩

theorem Alike.mshrTable (alike : m.Alike n) : m.mshrTable = n.mshrTable := by
  obtain ⟨ptr, rfl⟩ := alike
  rfl

theorem Alike.send2Mshr (alike : m.Alike n) {b : Nat} {r : CacheReq} {n' : Mshr}
    (sent : n.send2Mshr b r = some n') : ∃ m', m.send2Mshr b r = some m' ∧ m'.Alike n' := by
  obtain ⟨ptr, rfl⟩ := alike
  have join : ({ n with mshrRdPtr := ptr } : Mshr).joinId b = n.joinId b := rfl
  have free : ({ n with mshrRdPtr := ptr } : Mshr).freeId = n.freeId := rfl
  unfold Mshr.send2Mshr
  rw [join, free]
  obtain ⟨id, found, rfl⟩ | ⟨id, absent, found, rfl⟩ := Mshr.send2Mshr_cases sent
  · rw [found]
    exact ⟨_, rfl, ptr, rfl⟩
  · rw [absent, found]
    exact ⟨_, rfl, ptr, rfl⟩

theorem Alike.clearOutstandingFlag (alike : m.Alike n) (id : Nat) :
    (m.clearOutstandingFlag [id]).Alike (n.clearOutstandingFlag [id]) := by
  obtain ⟨ptr, rfl⟩ := alike
  exact ⟨ptr, rfl⟩

theorem Alike.setMshrEntryReady (alike : m.Alike n) (blockAddr : Nat) :
    (m.setMshrEntryReady blockAddr).Alike (n.setMshrEntryReady blockAddr) := by
  obtain ⟨ptr, rfl⟩ := alike
  exact ⟨ptr, rfl⟩

theorem Alike.peeked (alike : m.Alike n) : m.peekMshrReadyEntry.2.Alike n := by
  obtain ⟨ptr, rfl⟩ := alike
  exact ⟨_, rfl⟩

theorem Alike.popEntry (alike : m.Alike n) (id : Nat) : (m.popEntry id).Alike (n.popEntry id) := by
  obtain ⟨ptr, rfl⟩ := alike
  refine ⟨ptr, ?_⟩
  unfold Mshr.popEntry
  dsimp only
  split_ifs <;> rfl

end Mshr

namespace Cache

variable {cfg : Config} {ports : Set Port} {s t : Cache} {l : Nat}

def blockOf (cfg : Config) (level : Nat) (r : CacheReq) : Nat := cfg.getCacheBlockId r.addr level

/-! ## The history of a level -/

/-- The requests that the MSHR of the level got, with the allocations that they went to. -/
def arrivals (l : Nat) (h : List Event) : List (Nat × CacheReq) :=
  h.filterMap fun
    | .joined k r entry => if k = l then some (entry.alloc, r) else none
    | .allocated k r alloc => if k = l then some (alloc, r) else none
    | _ => none

/-- The allocations whose demand fills were handed to the next level. -/
def demandFills (l : Nat) (h : List Event) : List Nat :=
  h.filterMap fun
    | .issued k r =>
      match r.origin with
      | .fill _ alloc => if k = l then some alloc else none
      | _ => none
    | _ => none

def acks (l : Nat) (h : List Event) : List CacheReq :=
  h.filterMap fun
    | .acked k r => if k = l then some r else none
    | _ => none

/-- What the history has of the level. -/
def logs (l : Nat) (h : List Event) : List (Nat × CacheReq) × List Nat × List CacheReq :=
  (arrivals l h, demandFills l h, acks l h)

theorem logs_iff {h : List Event} {a : List (Nat × CacheReq)} {f : List Nat} {k : List CacheReq} :
    logs l h = (a, f, k) ↔ arrivals l h = a ∧ demandFills l h = f ∧ acks l h = k := by
  simp only [logs, Prod.mk.injEq]

/-- A write that goes to the MSHR though it was found, and is acknowledged from its bank too. -/
def Copied (cfg : Config) (l : Nat) (r : CacheReq) : Prop :=
  r.writes = true ∧ (cfg.level l).writeStrategy = .WRITE_THROUGH

variable (cfg s t l) in
/-- What a step does at a level. -/
inductive MshrUse : Prop where
  | unused (mshr : Mshr.Alike (t.level l).mshr (s.level l).mshr)
      (logs : logs l t.history = logs l s.history)
  | hit (b : Nat) (r : CacheReq) (rest : List CacheReq) (front : (s.level l).reqs b = r :: rest)
      (mshr : (t.level l).mshr = (s.level l).mshr) (popped : (t.level l).reqs b = rest)
      (logs : logs l t.history =
        (arrivals l s.history, demandFills l s.history, acks l s.history ++ [r]))
  | miss (b : Nat) (r : CacheReq) (rest : List CacheReq) (front : (s.level l).reqs b = r :: rest)
      (free : (s.level l).mshr.seekMshrFreeEntry = true)
      (mshr : (s.level l).mshr.send2Mshr (blockOf cfg l r) r = some (t.level l).mshr)
      (stays : ∀ q ∈ (t.level l).reqs b, q ∈ rest ∨ q = { r with ready := true } ∧ Copied cfg l r)
      (logs : logs l t.history =
        (arrivals l s.history ++ [(Ledger.allocOf (s.level l).mshr (blockOf cfg l r), r)],
          demandFills l s.history, acks l s.history))
  | issue (id : Nat) (valid : ((s.level l).mshr.mshrTable id).valid = true)
      (outstanding : ((s.level l).mshr.mshrTable id).outstanding = true)
      (mshr : (t.level l).mshr = (s.level l).mshr.clearOutstandingFlag [id])
      (logs : logs l t.history = (arrivals l s.history,
        demandFills l s.history ++ [((s.level l).mshr.mshrTable id).alloc], acks l s.history))
  | leave (id : Nat) (valid : ((s.level l).mshr.mshrTable id).valid = true)
      (ready : ((s.level l).mshr.mshrTable id).ready = true)
      (mshr : (t.level l).mshr = (s.level l).mshr.popEntry id)
      (logs : logs l t.history = (arrivals l s.history, demandFills l s.history, acks l s.history ++
        ackOf ((s.level l).mshr.mshrTable id).front))
  | answer (blockAddr : Nat) (mshr : (t.level l).mshr = (s.level l).mshr.setMshrEntryReady blockAddr)
      (logs : logs l t.history = logs l s.history)

theorem MshrUse.of_same (mshr : (t.level l).mshr = (s.level l).mshr)
    (logs : logs l t.history = logs l s.history) : MshrUse cfg s t l :=
  .unused ⟨_, mshr⟩ logs

theorem Same.alike (same : Same s t) (l : Nat) : Mshr.Alike (t.level l).mshr (s.level l).mshr := by
  have table := same.mshrTable l
  have entryNum := same.entryNum l
  have entrySize := same.entrySize l
  have allocated := same.allocated l
  refine ⟨(t.level l).mshr.mshrRdPtr, ?_⟩
  rw [← table, ← entryNum, ← entrySize, ← allocated]

/-- A miss at its own level. -/
theorem missToMshr_logged (cfg : Config) (r : CacheReq)
    (free : (s.level l).mshr.seekMshrFreeEntry = true) :
    (s.level l).mshr.send2Mshr (blockOf cfg l r) r = some ((missToMshr cfg s r l).level l).mshr ∧
      logs l (missToMshr cfg s r l).history =
        (arrivals l s.history ++ [(Ledger.allocOf (s.level l).mshr (blockOf cfg l r), r)],
          demandFills l s.history, acks l s.history) := by
  obtain ⟨m, sent⟩ := Option.isSome_iff_exists.mp
    (Mshr.send2Mshr_isSome (cfg.getCacheBlockId r.addr l) r free)
  rw [blockOf, sent, missToMshr, sent]
  refine ⟨by simp, ?_⟩
  cases found : (s.level l).mshr.joinId (cfg.getCacheBlockId r.addr l) <;>
    simp [logs, arrivals, demandFills, acks, Ledger.allocOf, found]

theorem missToMshr_elsewhere (cfg : Config) (r : CacheReq) {k : Nat} (ne : l ≠ k)
    (free : (s.level k).mshr.seekMshrFreeEntry = true) :
    ((missToMshr cfg s r k).level l).mshr = (s.level l).mshr ∧
      logs l (missToMshr cfg s r k).history = logs l s.history := by
  obtain ⟨id, -, eq⟩ | ⟨id, -, eq⟩ := missToMshr_cases cfg r free <;> rw [eq] <;>
    simp [logs, arrivals, demandFills, acks, ne, ne.symm]

theorem Step.mshrUse (step : Step cfg ports s t) (l : Nat) : MshrUse cfg s t l := by
  cases step with
  | book same => exact .unused (same.alike l) (by rw [same.history])
  | hit level bankId index req rest bank front waits resident style =>
    split <;> exact .of_same (by simp) (by simp)
  | through level bankId req rest bank front waits free style writes =>
    by_cases here : l = level
    · subst here
      obtain ⟨mshr, logged⟩ := missToMshr_logged cfg req free
      refine .miss bankId req rest front free (by simpa using mshr) (fun q mem => ?_) logged
      rw [setFrontReady_reqs, if_pos ⟨rfl, rfl⟩, (missToMshr_frame cfg s l l req free).1, front] at mem
      obtain rfl | old := List.mem_cons.mp mem
      · exact .inr ⟨rfl, writes, style⟩
      · exact .inl old
    · obtain ⟨mshr, logged⟩ := missToMshr_elsewhere cfg req here free
      exact .of_same (by simpa using mshr) logged
  | miss level bankId req rest bank front waits free =>
    by_cases here : l = level
    · subst here
      obtain ⟨mshr, logged⟩ := missToMshr_logged cfg req free
      refine .miss bankId req rest front free (by simpa using mshr) (fun q mem => ?_) logged
      rw [popReq_reqs, if_pos ⟨rfl, rfl⟩, (missToMshr_frame cfg s l l req free).1, front] at mem
      exact .inl mem
    · obtain ⟨mshr, logged⟩ := missToMshr_elsewhere cfg req here free
      exact .of_same (by simpa using mshr) logged
  | sendReady level bankId req rest front ready =>
    by_cases here : l = level
    · subst here
      refine .hit bankId req rest front (by simp) ?_ (by simp [logs, arrivals, demandFills, acks])
      rw [(pushAck_frame ..).1, popReq_reqs, if_pos ⟨rfl, rfl⟩, front, List.tail_cons]
    · exact .of_same (by simp) (by simp [logs, arrivals, demandFills, acks, Ne.symm here])
  | respond level id valid ready keep =>
    by_cases here : l = level
    · subst here
      refine .leave id valid ready (by simp [popEntry_mshr]) ?_
      simp [logs, arrivals, demandFills, acks, ackOf, keep]
    · exact .of_same (by simp [popEntry_mshr, here])
        (by simp [logs, arrivals, demandFills, acks, Ne.symm here])
  | drop level id valid ready writeBack =>
    by_cases here : l = level
    · subst here
      exact .leave id valid ready (by simp [popEntry_mshr]) (by simp [logs, ackOf, writeBack])
    · exact .of_same (by simp [popEntry_mshr, here]) rfl
  | setReady level addr origin hit answered =>
    by_cases here : l = level
    · subst here
      exact .answer (cfg.getCacheBlockId addr l) (by simp [setMshrEntryReady_mshr]) rfl
    · exact .of_same (by simp [setMshrEntryReady_mshr, here]) rfl
  | evict level index bound style dirty send =>
    obtain ⟨inner, rfl⟩ | ⟨last, rfl⟩ := sendBelow_cases send <;>
      exact .of_same (by simp) (by simp [logs, arrivals, demandFills, acks])
  | issue level id bound valid outstanding send =>
    by_cases here : l = level
    · subst here
      refine .issue id valid outstanding ?_ ?_
      · rw [clearOutstanding_mshr, if_pos rfl, record_level, sendBelow_mshr send]
      · obtain ⟨inner, rfl⟩ | ⟨last, rfl⟩ := sendBelow_cases send <;>
          simp [logs, arrivals, demandFills, acks, fillReq]
    · refine .of_same ?_ ?_
      · rw [clearOutstanding_mshr, if_neg here, record_level, sendBelow_mshr send]
      · obtain ⟨inner, rfl⟩ | ⟨last, rfl⟩ := sendBelow_cases send <;>
          simp [logs, arrivals, demandFills, acks, fillReq, Ne.symm here]
  | _ => exact .of_same (by simp) (by simp [logs, arrivals, demandFills, acks])

/-! ## Requests of a bank and requests that were answered -/

/-- What left the banks of the level entered them before all that is still there; only a copied write
is in its bank yet when the MSHR has it. -/
structure Apart (cfg : Config) (l : Nat) (s : Cache) (hits : List CacheReq) : Prop where
  hits : ∀ q ∈ hits, q.stamp < s.history.length ∧
    ∀ r ∈ (s.level l).reqs (cfg.getCacheBank q.addr l), q.stamp < r.stamp
  arrived : ∀ x ∈ arrivals l s.history, x.2.stamp < s.history.length ∧
    ∀ r ∈ (s.level l).reqs (cfg.getCacheBank x.2.addr l),
      x.2.stamp < r.stamp ∨ r = { x.2 with ready := true } ∧ Copied cfg l x.2

theorem BankChange.split {b : Nat} {rs : List CacheReq} (change : BankChange cfg s t l b rs)
    {r : CacheReq} (mem : r ∈ rs) : r ∈ (s.level l).reqs b ∨
      (∃ p ∈ (s.level l).reqs b, p.ready = false ∧ r = { p with ready := true }) ∨
      r.stamp = s.history.length := by
  cases change with
  | same => exact .inl mem
  | push q stamp home grown =>
    obtain old | rfl := by simpa using mem
    · exact .inl old
    · exact .inr (.inr stamp)
  | ready q rest front waits =>
    rw [front]
    obtain rfl | old := List.mem_cons.mp mem
    · exact .inr (.inl ⟨q, List.mem_cons_self, waits, rfl⟩)
    · exact .inl (List.mem_cons_of_mem q old)
  | miss q rest front waits => exact .inl (front ▸ List.mem_cons_of_mem q mem)
  | ack q rest front ready event => exact .inl (front ▸ List.mem_cons_of_mem q mem)

/-- Whatever a step does, it keeps what left before it apart from the banks. -/
theorem Step.apart_old (step : Step cfg ports s t) {hits : List CacheReq} (h : Apart cfg l s hits) :
    (∀ q ∈ hits, q.stamp < t.history.length ∧
      ∀ r ∈ (t.level l).reqs (cfg.getCacheBank q.addr l), q.stamp < r.stamp) ∧
    ∀ x ∈ arrivals l s.history, x.2.stamp < t.history.length ∧
      ∀ r ∈ (t.level l).reqs (cfg.getCacheBank x.2.addr l),
        x.2.stamp < r.stamp ∨ r = { x.2 with ready := true } ∧ Copied cfg l x.2 := by
  have longer := step.history_grows.length_le
  refine ⟨fun q mem => ?_, fun x mem => ?_⟩
  · obtain ⟨old, behind⟩ := h.hits q mem
    refine ⟨old.trans_le longer, fun r at_r => ?_⟩
    obtain there | ⟨p, there, -, rfl⟩ | new := (step.bank l _).split at_r
    · exact behind r there
    · exact behind p there
    · exact new ▸ old
  · obtain ⟨old, behind⟩ := h.arrived x mem
    refine ⟨old.trans_le longer, fun r at_r => ?_⟩
    obtain there | ⟨p, there, waits, rfl⟩ | new := (step.bank l _).split at_r
    · exact behind r there
    · refine .inl ((behind p there).resolve_right ?_)
      rintro ⟨rfl, -⟩
      cases waits
    · exact .inl (new ▸ old)

/-- All behind the head of a bank entered later. -/
theorem Lined.behind_head (lined : Lined cfg s) {b : Nat} {r : CacheReq} {rest : List CacheReq}
    (front : (s.level l).reqs b = r :: rest) :
    cfg.getCacheBank r.addr l = b ∧ r.stamp < s.history.length ∧ ∀ q ∈ rest, r.stamp < q.stamp := by
  have mem : r ∈ (s.level l).reqs b := front ▸ List.mem_cons_self
  have sorted := lined.inOrder l b
  rw [front, List.pairwise_cons] at sorted
  exact ⟨lined.home l b r mem, lined.entered l b r mem, sorted.1⟩

/-! ## The ledger of a run -/

/-- The ledger of a level at the start of a run. -/
def ledger (cfg : Config) (level : Nat) : Ledger :=
  .init (cfg.level level).mshrEntryNum (cfg.level level).mshrSizePerEntry

/-- The ledger lists what the history of the level lists. Its acks are those that the MSHR gave;
the others are of requests that were found in the cache. -/
structure Agrees (cfg : Config) (l : Nat) (s : Cache) (u : Ledger) (hits : List CacheReq) :
    Prop where
  mshr : Mshr.Alike u.mshr (s.level l).mshr
  arrived : u.arrived = arrivals l s.history
  filled : u.filled = demandFills l s.history
  acked : (acks l s.history).Perm (u.acks ++ hits)
  inOrder : u.acks.Sublist (acks l s.history)
  /-- No request is acknowledged twice as a hit. -/
  distinct : hits.Nodup
  /-- What the MSHR got is no hit, but for the writes that are copied. -/
  apart : ∀ q ∈ hits, ∀ x ∈ u.arrived, q = { x.2 with ready := true } → Copied cfg l x.2

/-- A run up to here has a ledger. -/
structure Booked (cfg : Config) (l : Nat) (s : Cache) (u : Ledger) (hits : List CacheReq) :
    Prop where
  calls : ∃ calls : List MshrCall, calls.foldlM (Ledger.call (blockOf cfg l)) (ledger cfg l) = .ok u
  agrees : Agrees cfg l s u hits
  apart : Apart cfg l s hits

theorem Booked.balanced {u : Ledger} {hits : List CacheReq} (h : Booked cfg l s u hits) :
    u.Balanced (blockOf cfg l) := by
  obtain ⟨calls, run⟩ := h.calls
  obtain ⟨v, run', balanced, -⟩ := Ledger.calls_balanced (cfg.level l).mshrEntryNum
    (cfg.level l).mshrSizePerEntry calls
  obtain rfl := Except.ok.inj (run.symm.trans run')
  exact balanced

theorem foldlM_concat {Error State Input : Type*} {f : State → Input → Except Error State}
    {s t u : State} {is : List Input} (run : is.foldlM f s = .ok t) {i : Input}
    (last : f t i = .ok u) : (is ++ [i]).foldlM f s = .ok u := by
  rw [List.foldlM_append, run]
  show [i].foldlM f t = .ok u
  rw [List.foldlM_cons, last]
  rfl

variable {u : Ledger} {hits : List CacheReq}

theorem Booked.call (h : Booked cfg l s u hits) {c : MshrCall} {v : Ledger}
    (done : u.call (blockOf cfg l) c = .ok v) :
    ∃ calls : List MshrCall, calls.foldlM (Ledger.call (blockOf cfg l)) (ledger cfg l) = .ok v := by
  obtain ⟨calls, run⟩ := h.calls
  exact ⟨calls ++ [c], foldlM_concat run done⟩

/-- A step that the ledger does not see. -/
theorem Booked.frame (h : Booked cfg l s u hits) (step : Step cfg ports s t)
    (mshr : (t.level l).mshr.Alike (s.level l).mshr) (same : logs l t.history = logs l s.history) :
    Booked cfg l t u hits := by
  obtain ⟨arrived, filled, acked⟩ := logs_iff.mp same
  have agrees := h.agrees
  obtain ⟨apart_hits, apart_arrived⟩ := step.apart_old h.apart
  exact ⟨h.calls, ⟨agrees.mshr.through mshr, arrived ▸ agrees.arrived, filled ▸ agrees.filled,
    acked ▸ agrees.acked, acked ▸ agrees.inOrder, agrees.distinct, agrees.apart⟩,
    ⟨apart_hits, arrived ▸ apart_arrived⟩⟩

/-- The ack of a hit. -/
theorem Booked.hit (h : Booked cfg l s u hits) (step : Step cfg ports s t) (lined : Lined cfg s)
    {b : Nat} {r : CacheReq} {rest : List CacheReq} (front : (s.level l).reqs b = r :: rest)
    (mshr : (t.level l).mshr = (s.level l).mshr) (popped : (t.level l).reqs b = rest)
    (logged : logs l t.history =
      (arrivals l s.history, demandFills l s.history, acks l s.history ++ [r])) :
    Booked cfg l t u (hits ++ [r]) := by
  obtain ⟨arrived, filled, acked⟩ := logs_iff.mp logged
  obtain ⟨home, entered, behind⟩ := lined.behind_head front
  have agrees := h.agrees
  obtain ⟨apart_hits, apart_arrived⟩ := step.apart_old h.apart
  have longer := step.history_grows.length_le
  have there : r ∈ (s.level l).reqs b := front ▸ List.mem_cons_self
  have fresh : r ∉ hits := fun mem => lt_irrefl _ ((h.apart.hits r mem).2 r (home ▸ there))
  refine ⟨h.calls, ⟨mshr ▸ agrees.mshr, arrived ▸ agrees.arrived, filled ▸ agrees.filled, ?_, ?_, ?_, ?_⟩,
    fun q mem => ?_, arrived ▸ apart_arrived⟩
  · rw [acked, ← List.append_assoc]
    exact agrees.acked.append_right [r]
  · rw [acked]
    exact agrees.inOrder.trans (List.sublist_append_left _ _)
  · exact agrees.distinct.append (List.nodup_singleton r) (List.disjoint_singleton.mpr fresh)
  · intro q mem x arrival same
    rcases List.mem_append.mp mem with old | new
    · exact agrees.apart q old x arrival same
    · obtain rfl := List.mem_singleton.mp new
      rw [agrees.arrived] at arrival
      have addr : q.addr = x.2.addr := by rw [same]
      have stamp : q.stamp = x.2.stamp := by rw [same]
      obtain before | ⟨-, copied⟩ := (h.apart.arrived x arrival).2 q (addr ▸ home ▸ there)
      · exact absurd before (by rw [stamp]; exact lt_irrefl _)
      · exact copied
  · rcases List.mem_append.mp mem with old | new
    · exact apart_hits q old
    · obtain rfl := List.mem_singleton.mp new
      rw [home, popped]
      exact ⟨entered.trans_le longer, behind⟩

theorem Booked.miss (h : Booked cfg l s u hits) (step : Step cfg ports s t) (lined : Lined cfg s)
    {b : Nat} {r : CacheReq} {rest : List CacheReq} (front : (s.level l).reqs b = r :: rest)
    (free : (s.level l).mshr.seekMshrFreeEntry = true)
    (mshr : (s.level l).mshr.send2Mshr (blockOf cfg l r) r = some (t.level l).mshr)
    (stays : ∀ q ∈ (t.level l).reqs b, q ∈ rest ∨ q = { r with ready := true } ∧ Copied cfg l r)
    (logged : logs l t.history =
      (arrivals l s.history ++ [(Ledger.allocOf (s.level l).mshr (blockOf cfg l r), r)],
        demandFills l s.history, acks l s.history)) : ∃ v, Booked cfg l t v hits := by
  obtain ⟨arrived, filled, acked⟩ := logs_iff.mp logged
  obtain ⟨home, entered, behind⟩ := lined.behind_head front
  have agrees := h.agrees
  obtain ⟨apart_hits, apart_arrived⟩ := step.apart_old h.apart
  have longer := step.history_grows.length_le
  have there : r ∈ (s.level l).reqs b := front ▸ List.mem_cons_self
  obtain ⟨m, sent, alike⟩ := agrees.mshr.send2Mshr mshr
  obtain ⟨seek, alloc⟩ : u.mshr.seekMshrFreeEntry = true ∧ Ledger.allocOf u.mshr (blockOf cfg l r) =
      Ledger.allocOf (s.level l).mshr (blockOf cfg l r) := by
    obtain ⟨ptr, same⟩ := agrees.mshr
    rw [same]
    exact ⟨free, rfl⟩
  have sends : u.call (blockOf cfg l) (.miss r) = .ok { u with
      mshr := m, arrived := u.arrived ++ [(Ledger.allocOf u.mshr (blockOf cfg l r), r)] } := by
    rw [Ledger.call, if_pos seek, Ledger.send, sent]
  refine ⟨_, h.call sends, ⟨alike, ?_, filled ▸ agrees.filled, acked ▸ agrees.acked,
    acked ▸ agrees.inOrder, agrees.distinct, ?_⟩, apart_hits, ?_⟩
  · rw [arrived, ← alloc, ← agrees.arrived]
  · intro q mem x arrival same
    rcases List.mem_append.mp arrival with old | new
    · exact agrees.apart q mem x old same
    · obtain rfl := List.mem_singleton.mp new
      have addr : q.addr = r.addr := by rw [same]
      have stamp : q.stamp = r.stamp := by rw [same]
      have before := (h.apart.hits q mem).2 r (by rw [addr, home]; exact there)
      exact absurd before (by rw [stamp]; exact lt_irrefl _)
  · rw [arrived]
    intro x mem
    rcases List.mem_append.mp mem with old | new
    · exact apart_arrived x old
    · obtain rfl := List.mem_singleton.mp new
      rw [home]
      refine ⟨entered.trans_le longer, fun q at_q => ?_⟩
      obtain later | copied := stays q at_q
      · exact .inl (behind q later)
      · exact .inr copied

theorem Booked.issue (h : Booked cfg l s u hits) (step : Step cfg ports s t) {id : Nat}
    (valid : ((s.level l).mshr.mshrTable id).valid = true)
    (outstanding : ((s.level l).mshr.mshrTable id).outstanding = true)
    (mshr : (t.level l).mshr = (s.level l).mshr.clearOutstandingFlag [id])
    (logged : logs l t.history = (arrivals l s.history,
      demandFills l s.history ++ [((s.level l).mshr.mshrTable id).alloc], acks l s.history)) :
    ∃ v, Booked cfg l t v hits := by
  obtain ⟨arrived, filled, acked⟩ := logs_iff.mp logged
  have agrees := h.agrees
  obtain ⟨apart_hits, apart_arrived⟩ := step.apart_old h.apart
  have table : u.mshr.mshrTable = (s.level l).mshr.mshrTable := agrees.mshr.mshrTable
  rw [← table] at valid outstanding
  have mem : id ∈ u.mshr.outstandingIds := List.mem_filter.mpr
    ⟨List.mem_range.mpr (h.balanced.table.bound id valid), by rw [valid, outstanding]; rfl⟩
  obtain ⟨answers, one⟩ := exists_accepted (List.singleton_sublist.mpr mem)
  have issued : u.call (blockOf cfg l) (.fills answers) = .ok { u with
      mshr := u.mshr.clearOutstandingFlag [id]
      filled := u.filled ++ [(u.mshr.mshrTable id).alloc] } := by
    rw [Ledger.call, one, List.foldlM_cons, Ledger.issue, if_pos outstanding]
    rfl
  refine ⟨_, h.call issued, ⟨?_, arrived ▸ agrees.arrived, ?_, acked ▸ agrees.acked,
    acked ▸ agrees.inOrder, agrees.distinct, agrees.apart⟩, apart_hits, arrived ▸ apart_arrived⟩
  · exact mshr ▸ agrees.mshr.clearOutstandingFlag id
  · rw [filled, ← agrees.filled, table]

theorem Booked.answer (h : Booked cfg l s u hits) (step : Step cfg ports s t) {blockAddr : Nat}
    (mshr : (t.level l).mshr = (s.level l).mshr.setMshrEntryReady blockAddr)
    (same : logs l t.history = logs l s.history) : ∃ v, Booked cfg l t v hits := by
  obtain ⟨arrived, filled, acked⟩ := logs_iff.mp same
  have agrees := h.agrees
  obtain ⟨apart_hits, apart_arrived⟩ := step.apart_old h.apart
  have answered : u.call (blockOf cfg l) (.answered blockAddr) =
    .ok { u with mshr := u.mshr.setMshrEntryReady blockAddr } := rfl
  exact ⟨_, h.call answered, ⟨mshr ▸ agrees.mshr.setMshrEntryReady blockAddr, arrived ▸ agrees.arrived,
    filled ▸ agrees.filled, acked ▸ agrees.acked, acked ▸ agrees.inOrder, agrees.distinct, agrees.apart⟩,
    apart_hits, arrived ▸ apart_arrived⟩

theorem Booked.leave (h : Booked cfg l s u hits) (step : Step cfg ports s t) {id : Nat}
    (valid : ((s.level l).mshr.mshrTable id).valid = true)
    (ready : ((s.level l).mshr.mshrTable id).ready = true)
    (mshr : (t.level l).mshr = (s.level l).mshr.popEntry id)
    (logged : logs l t.history = (arrivals l s.history, demandFills l s.history, acks l s.history ++
      ackOf ((s.level l).mshr.mshrTable id).front)) :
    ∃ v, Booked cfg l t v hits := by
  obtain ⟨arrived, filled, acked⟩ := logs_iff.mp logged
  have agrees := h.agrees
  obtain ⟨apart_hits, apart_arrived⟩ := step.apart_old h.apart
  have table : u.mshr.mshrTable = (s.level l).mshr.mshrTable := agrees.mshr.mshrTable
  rw [← table] at valid ready acked
  have mem := (Ledger.mem_readyIds_iff (h.balanced.table.bound id valid)).mpr ⟨valid, ready⟩
  obtain ⟨answers, one⟩ := exists_accepted (List.singleton_sublist.mpr mem)
  -- the offer of the other ready entries is not taken now
  let peeked : Ledger := { u with mshr := u.mshr.peekMshrReadyEntry.2 }
  have balanced : peeked.Balanced (blockOf cfg l) :=
    { h.balanced with table := h.balanced.table.congr rfl rfl rfl }
  have left : peeked.depart id = .ok (peeked.left id) := (balanced.depart valid ready).1
  have gone : u.call (blockOf cfg l) (.respond answers) = .ok (peeked.left id) := by
    rw [Ledger.call, one, List.foldlM_cons, left]
    rfl
  refine ⟨peeked.left id, h.call gone, ⟨?_, arrived ▸ agrees.arrived, filled ▸ agrees.filled, ?_, ?_,
    agrees.distinct, agrees.apart⟩, apart_hits, arrived ▸ apart_arrived⟩
  · exact mshr ▸ agrees.mshr.peeked.popEntry id
  · rw [acked, peeked.acks_left id]
    have moved : (u.acks ++ hits ++ ackOf (u.mshr.mshrTable id).front).Perm
        (u.acks ++ ackOf (u.mshr.mshrTable id).front ++ hits) := by
      rw [List.append_assoc, List.append_assoc]
      exact List.perm_append_comm.append_left u.acks
    exact (agrees.acked.append_right _).trans moved
  · rw [acked, peeked.acks_left id]
    exact agrees.inOrder.append (List.Sublist.refl _)

/-- Each step is a call, the ack of a hit, or nothing that the ledger sees. -/
theorem Step.booked (step : Step cfg ports s t) (lined : Lined cfg s)
    (h : Booked cfg l s u hits) : ∃ v hits', Booked cfg l t v hits' := by
  cases step.mshrUse l with
  | unused mshr same => exact ⟨u, hits, h.frame step mshr same⟩
  | hit b r rest front mshr popped logged =>
    exact ⟨u, hits ++ [r], h.hit step lined front mshr popped logged⟩
  | miss b r rest front free mshr stays logged =>
    obtain ⟨v, kept⟩ := h.miss step lined front free mshr stays logged
    exact ⟨v, hits, kept⟩
  | issue id valid outstanding mshr logged =>
    obtain ⟨v, kept⟩ := h.issue step valid outstanding mshr logged
    exact ⟨v, hits, kept⟩
  | leave id valid ready mshr logged =>
    obtain ⟨v, kept⟩ := h.leave step valid ready mshr logged
    exact ⟨v, hits, kept⟩
  | answer blockAddr mshr same =>
    obtain ⟨v, kept⟩ := h.answer step mshr same
    exact ⟨v, hits, kept⟩

theorem init_booked (cfg : Config) (l : Nat) : Booked cfg l (init cfg) (ledger cfg l) [] := by
  refine ⟨⟨[], rfl⟩, ⟨⟨0, rfl⟩, rfl, rfl, .refl _, .refl _, List.nodup_nil, ?_⟩, ?_, ?_⟩ <;>
    simp [arrivals, init]

theorem run_booked {ops : List Op} (done : run cfg ops = some s) (l : Nat) :
    ∃ u hits, Booked cfg l s u hits := by
  have kept := run_invariant
    (P := fun s => Traced cfg s ∧ Lined cfg s ∧ ∃ u hits, Booked cfg l s u hits)
    ⟨init_traced, init_lined, _, _, init_booked cfg l⟩
    (fun _ _ step ⟨traced, lined, _, _, booked⟩ =>
      ⟨step.traced traced, step.lined traced lined, step.booked lined booked⟩) done
  exact kept.1.2.2

/-- The accounts of the MSHRs: all calls go through and keep the law, and at each level every run of
the cache has a ledger of such calls, which lists what the run did. -/
theorem mshr_accounts (cfg : Config) (level : Nat) :
    (∀ calls : List MshrCall, ∃ u, calls.foldlM (Ledger.call (blockOf cfg level)) (ledger cfg level) = .ok u ∧
      u.Law (blockOf cfg level)) ∧
    ∀ ops s, run cfg ops = some s → ∃ (calls : List MshrCall) (u : Ledger) (hits : List CacheReq),
      calls.foldlM (Ledger.call (blockOf cfg level)) (ledger cfg level) = .ok u ∧
        u.Law (blockOf cfg level) ∧ Agrees cfg level s u hits := by
  refine ⟨fun calls => ?_, fun ops s done => ?_⟩
  · obtain ⟨u, through, balanced, -⟩ := Ledger.calls_balanced _ _ calls
    exact ⟨u, through, balanced.law⟩
  · obtain ⟨u, hits, booked⟩ := run_booked done level
    obtain ⟨calls, through⟩ := booked.calls
    exact ⟨calls, u, hits, through, booked.balanced.law, booked.agrees⟩

/-- Two reads of one block, the answer of the memory, and a third read that finds the block. -/
def threeReads : List Op :=
  [.addTransaction { valid := true, addr := 16 }, .cacheUpdate true, .cacheUpdate true,
    .addTransaction { valid := true, addr := 17 }, .cacheUpdate true, .cacheUpdate true,
    .sendReq2Mem [true, true], .complete 1, .cacheUpdate true, .callBack 0, .callBack 0, .callBack 0,
    .cacheUpdate true, .callBack 0, .cacheUpdate true,
    .addTransaction { valid := true, addr := 18 }, .cacheUpdate true, .cacheUpdate true, .cacheUpdate true]

/-- One fill answers the first two reads; the third is a hit. -/
theorem mshr_accounts_threeReads : ∃ s, run tiny threeReads = some s ∧
    demandFills 0 s.history = [0] ∧ (acks 0 s.history).map (·.addr) = [16, 17, 18] ∧
    ∃ (calls : List MshrCall) (u : Ledger) (hits : List CacheReq),
      calls.foldlM (Ledger.call (blockOf tiny 0)) (ledger tiny 0) = .ok u ∧
        u.Law (blockOf tiny 0) ∧ Agrees tiny 0 s u hits := by
  have shape : ((run tiny threeReads).map fun s => (demandFills 0 s.history, (acks 0 s.history).map (·.addr))) =
      some ([0], [16, 17, 18]) := by decide +kernel
  obtain ⟨s, done, logged⟩ := Option.map_eq_some_iff.mp shape
  obtain ⟨filled, acked⟩ := Prod.mk.inj logged
  exact ⟨s, done, filled, acked, (mshr_accounts tiny 0).2 _ s done⟩

/-- The small hierarchy with MSHR entries of size zero. -/
def sizeless : Config :=
  { tiny with level := fun l => { tiny.level l with mshrSizePerEntry := 0 } }

/-- The request that opens an entry is in its queue, though the size is zero. -/
theorem sizeless_entry_filled :
    ∃ s, run sizeless [.addTransaction { valid := true, addr := 16 }, .cacheUpdate true, .cacheUpdate true] =
        some s ∧
      (s.level 0).mshr.entrySize < ((s.level 0).mshr.mshrTable 0).mshrQueue.length := by
  have shape : ((run sizeless [.addTransaction { valid := true, addr := 16 }, .cacheUpdate true,
      .cacheUpdate true]).map fun s => decide ((s.level 0).mshr.entrySize <
        ((s.level 0).mshr.mshrTable 0).mshrQueue.length)) = some true := by decide +kernel
  obtain ⟨s, done, larger⟩ := Option.map_eq_some_iff.mp shape
  exact ⟨s, done, of_decide_eq_true larger⟩

end Cache

end DataflowSim.Memory
