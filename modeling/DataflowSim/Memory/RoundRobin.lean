import DataflowSim.Library.Run
import DataflowSim.Library.Strides
import DataflowSim.Memory.Reservation

/-!
# The scans of the memory system

`getLseReq` goes over the LSEs and `sendBack2Lse` over the ack queues. Both add the loop counter
to the pointer that they have moved before, so the strides grow. The start of the first scan
moves by one place with every update; the start of the second one stays.
-/

namespace DataflowSim.Memory.MemSystem

variable {cfg : SysConfig} {s t : MemSystem}

theorem scan_eq_map (n k i start : Nat) :
    scan n k (i + 1) ((start + Strides.triangle i) % n) =
      (List.range k).map fun j => (start + Strides.triangle (i + 1 + j)) % n := by
  induction k generalizing i with
  | zero => rfl
  | succ k ih =>
    have stop : ((start + Strides.triangle i) % n + (i + 1)) % n =
        (start + Strides.triangle (i + 1)) % n := by
      rw [Nat.mod_add_mod, Strides.triangle, Nat.add_assoc]
    rw [scan, stop, ih, List.range_succ_eq_map, List.map_cons, List.map_map]
    congr 1
    refine List.map_congr_left fun j _ => ?_
    simp only [Function.comp, Nat.succ_eq_add_one, Nat.add_assoc, Nat.add_comm 1 j]

/-- A scan is one of growing strides. -/
theorem scan_eq_stops (n start : Nat) : scan n n 0 start = Strides.stops n start := by
  cases n with
  | zero => rfl
  | succ m =>
    have first := scan_eq_map (m + 1) m 0 start
    simp only [Strides.triangle, Nat.add_zero, Nat.zero_add] at first
    rw [scan, Nat.add_zero, Nat.zero_add, first, Strides.stops, List.range_succ_eq_map,
      List.map_cons, List.map_map]
    congr 1
    refine List.map_congr_left fun j _ => ?_
    simp only [Function.comp, Nat.succ_eq_add_one, Nat.add_comm 1 j]

/-! ## The pointers -/

/-- The places where the scans start. -/
def ptrs (s : MemSystem) : Nat × Nat := (s.reqQueueWritePtr, s.ackQueueReadPtr)

theorem sendBackBank_ptrs {a b : MemSystem × (Nat → Bool)} {bankId : Nat}
    (done : sendBackBank cfg a bankId = .ok b) : b.1.ptrs = a.1.ptrs := by
  obtain ⟨s, lseRecorder⟩ := a
  unfold sendBackBank at done
  dsimp only at done
  split at done
  · cases done
    rfl
  · split_ifs at done
    · split at done
      · cases done
      · split_ifs at done <;> cases done <;> rfl
    · cases done
      rfl
    · cases done
      rfl

theorem sendBack2Lse_ptrs (done : sendBack2Lse cfg s = .ok t) : t.ptrs = s.ptrs := by
  unfold sendBack2Lse at done
  split at done
  · next u lseRecorder run =>
    cases done
    exact Run.unchanged (fun a bankId b one => sendBackBank_ptrs one) run
  · cases done

theorem getFromCacheBank_ptrs (queueId : Nat) : (getFromCacheBank cfg s queueId).ptrs = s.ptrs := by
  unfold getFromCacheBank
  dsimp only
  split_ifs <;> rfl

theorem send2CacheBank_ptrs (bankId : Nat) : (send2CacheBank cfg s bankId).ptrs = s.ptrs := by
  unfold send2CacheBank
  split
  · rfl
  · split_ifs
    · rfl
    · rfl
    · split <;> rfl

theorem foldl_ptrs {α : Type*} {f : MemSystem → α → MemSystem} (one : ∀ s a, (f s a).ptrs = s.ptrs)
    (l : List α) : (l.foldl f s).ptrs = s.ptrs :=
  List.foldlRecOn (motive := fun u => u.ptrs = s.ptrs) l f rfl fun u same a _ => (one u a).trans same

theorem returnReqAck_ptrs (done : returnReqAck cfg s = .ok t) : t.ptrs = s.ptrs := by
  unfold returnReqAck at done
  split at done
  · cases done
    rfl
  · cases done

theorem serve_ptrs {tick : Tick} (done : serve cfg s tick = .ok t) : t.ptrs = s.ptrs := by
  unfold serve at done
  split at done
  · cases done
  · next u returned =>
    have got : (getFromCache cfg s).ptrs = s.ptrs := foldl_ptrs (fun s => getFromCacheBank_ptrs) _
    have sent : (send2Cache cfg (dramUpdate cfg u.memoryDataBusUpdate tick.completions)).ptrs =
        u.ptrs := foldl_ptrs (fun s => send2CacheBank_ptrs) _
    cases done
    exact sent.trans ((returnReqAck_ptrs returned).trans got)

theorem tryAdmit_ptrs (req : MemReq) : (tryAdmit cfg s req).2.ptrs = s.ptrs := by
  have registered (bankId : Nat) : (register s bankId).ptrs = s.ptrs := by
    unfold register
    dsimp only
    split_ifs <;> rfl
  unfold tryAdmit
  dsimp only
  split_ifs <;> first | rfl | exact registered _

theorem visitLse_ptrs (a : MemSystem × (Nat → Option MemReq)) (lse : Nat) :
    (visitLse cfg a lse).1.ptrs = a.1.ptrs := by
  unfold visitLse
  split
  · rfl
  · next req offered =>
    have same : (tryAdmit cfg a.1 req).2.ptrs = a.1.ptrs := tryAdmit_ptrs req
    split <;> simp_all

theorem flush_ptrs (done : flush cfg s = .ok t) : t.ptrs = s.ptrs := by
  have coalesced (s : MemSystem) (entryId : Nat) (t : MemSystem)
      (done : send2Coalescer cfg s entryId = .ok t) : t.ptrs = s.ptrs := by
    unfold send2Coalescer at done
    dsimp only at done
    split_ifs at done <;> cases done <;> rfl
  have sent (s : MemSystem) (entryId : Nat) (t : MemSystem)
      (done : sendFront cfg s entryId = .ok t) : t.ptrs = s.ptrs := by
    unfold sendFront addTransaction at done
    dsimp only at done
    split_ifs at done <;> cases done <;> rfl
  unfold flush at done
  split at done
  · cases done
  · next u first =>
    split at done
    · cases done
    · next v second =>
      cases done
      exact (Run.unchanged sent second).trans (Run.unchanged coalesced first)

theorem foldl_visitLse_ptrs (lses : List Nat) (a : MemSystem × (Nat → Option MemReq)) :
    (lses.foldl (visitLse cfg) a).1.ptrs = a.1.ptrs :=
  List.foldlRecOn (motive := fun b => b.1.ptrs = a.1.ptrs) lses (visitLse cfg) rfl
    fun b same lse _ => (visitLse_ptrs b lse).trans same

theorem getLseReq_ptrs {tick : Tick} (done : getLseReq cfg s tick = .ok t) :
    t.ptrs = ((s.reqQueueWritePtr + 1) % cfg.lseNum, s.ackQueueReadPtr) := by
  have scanned := @foldl_visitLse_ptrs cfg (scan cfg.lseNum cfg.lseNum 0 s.reqQueueWritePtr)
    (s, tick.offers)
  unfold getLseReq at done
  generalize (scan cfg.lseNum cfg.lseNum 0 s.reqQueueWritePtr).foldl (visitLse cfg)
    (s, tick.offers) = a at scanned done
  simp only [ptrs, Prod.mk.injEq] at scanned
  dsimp only at done
  rw [scanned.1] at done
  split_ifs at done
  · rw [flush_ptrs done, ptrs]
    simp only [scanned.2]
  · cases done
    simp only [ptrs, scanned.2]

/-- An update moves the start of the scan over the LSEs, and no other. -/
theorem memSystemUpdate_ptrs {tick : Tick} (done : memSystemUpdate cfg s tick = .ok t) :
    t.reqQueueWritePtr = (s.reqQueueWritePtr + 1) % cfg.lseNum ∧
      t.ackQueueReadPtr = s.ackQueueReadPtr := by
  unfold memSystemUpdate at done
  split at done
  · cases done
  · next u returned =>
    have acked := sendBack2Lse_ptrs returned
    split_ifs at done
    · split at done
      · cases done
      · next v served =>
        have same := (serve_ptrs served).trans acked
        have final := getLseReq_ptrs done
        simp only [ptrs, Prod.mk.injEq] at same final
        exact ⟨final.1.trans (by rw [same.1]), final.2.trans same.2⟩
    · have final := getLseReq_ptrs done
      simp only [ptrs, Prod.mk.injEq] at acked final
      exact ⟨final.1.trans (by rw [acked.1]), final.2.trans acked.2⟩

/-! ## Round robin -/

/-- From every start the scan of `n` places stops at each of them once. -/
def Complete (n : Nat) : Prop := ∀ start < n, (scan n n 0 start).Perm (List.range n)

/-- The states before the updates of a run without end. -/
structure Unending (cfg : SysConfig) (before : Nat → MemSystem) : Prop where
  start : before 0 = init cfg
  update : ∀ k, ∃ tick, memSystemUpdate cfg (before k) tick = .ok (before (k + 1))

/-- Every scan is complete, and in no run a place is the last one of all scans. -/
def RoundRobin (cfg : SysConfig) (n : Nat) (start : MemSystem → Nat) : Prop :=
  Complete n ∧ ∀ before, Unending cfg before →
    ∀ p, ∃ k, (scan n n 0 (start (before k))).getLast? ≠ some p

theorem complete_iff {n : Nat} (pos : 0 < n) : Complete n ↔ ∃ k, n = 2 ^ k := by
  constructor
  · intro complete
    have perm := complete 0 pos
    rwa [scan_eq_stops, Strides.stops_perm_iff pos] at perm
  · intro power start _
    rwa [scan_eq_stops, Strides.stops_perm_iff pos]

/-! ## A run in which nothing is requested -/

/-- No LSE has a request, and the clock does not advance. -/
def idle : Tick := { clkAdd := false, offers := fun _ => none, completions := [], accept := [] }

def idleState (cfg : SysConfig) (k : Nat) : MemSystem :=
  { init cfg with reqQueueWritePtr := k % cfg.lseNum }

theorem sendBack2Lse_idle (empty : ∀ b, s.ackQueue b = []) : sendBack2Lse cfg s = .ok s := by
  have run (banks : List Nat) (lseRecorder : Nat → Bool) :
      banks.foldlM (sendBackBank cfg) (s, lseRecorder) = .ok (s, lseRecorder) := by
    induction banks with
    | nil => rfl
    | cons b banks ih =>
      have one : sendBackBank cfg (s, lseRecorder) b = .ok (s, lseRecorder) := by
        simp [sendBackBank, empty]
      rw [List.foldlM_cons, one]
      exact ih
  rw [sendBack2Lse, run]

theorem getLseReq_idle :
    getLseReq cfg s idle = .ok { s with reqQueueWritePtr := (s.reqQueueWritePtr + 1) % cfg.lseNum } := by
  have scanned (lses : List Nat) : lses.foldl (visitLse cfg) (s, idle.offers) = (s, idle.offers) := by
    induction lses with
    | nil => rfl
    | cons lse lses ih => exact ih
  rw [getLseReq, scanned]
  rfl

theorem idle_unending (cfg : SysConfig) : Unending cfg (idleState cfg) where
  start := by simp [idleState, init]
  update k := by
    refine ⟨idle, ?_⟩
    rw [memSystemUpdate, sendBack2Lse_idle (by simp [idleState, init])]
    have next : getLseReq cfg (idleState cfg k) idle = .ok (idleState cfg (k + 1)) := by
      rw [getLseReq_idle]
      simp [idleState]
    simpa [idle] using next

/-- The scan over the LSEs is round robin exactly when their number is a power of two above one,
that over the ack queues never: it is complete when their number is a power of two, but its start
does not move. -/
theorem scans_roundRobin_iff (cfg : SysConfig) (lses : 0 < cfg.lseNum) (banks : 0 < cfg.bankNum) :
    (RoundRobin cfg cfg.lseNum reqQueueWritePtr ↔ ∃ k, cfg.lseNum = 2 ^ (k + 1)) ∧
    (Complete cfg.bankNum ↔ ∃ k, cfg.bankNum = 2 ^ k) ∧
    ¬ RoundRobin cfg cfg.bankNum ackQueueReadPtr := by
  refine ⟨⟨?_, ?_⟩, complete_iff banks, ?_⟩
  · rintro ⟨complete, moves⟩
    obtain ⟨k, power⟩ := (complete_iff lses).mp complete
    cases k with
    | zero =>
      -- a single LSE is always the last one
      obtain ⟨k, other⟩ := moves _ (idle_unending cfg) 0
      rw [scan_eq_stops, Strides.stops_getLast? lses, power] at other
      simp [Nat.mod_one] at other
    | succ k => exact ⟨k, power⟩
  · rintro ⟨k, power⟩
    refine ⟨(complete_iff lses).mpr ⟨k + 1, power⟩, fun before run p => ?_⟩
    have two : 2 ≤ cfg.lseNum := by
      rw [power, pow_succ]
      have pos := Nat.two_pow_pos k
      omega
    by_contra same
    push Not at same
    obtain ⟨tick, updated⟩ := run.update 0
    have moved := (memSystemUpdate_ptrs updated).1
    have first := same 0
    have second := same 1
    rw [scan_eq_stops] at first second
    rw [moved] at second
    exact Strides.getLast?_ne two _ (second.trans first.symm)
  · rintro ⟨-, moves⟩
    obtain ⟨k, other⟩ := moves _ (idle_unending cfg) ((Strides.triangle (cfg.bankNum - 1)) % cfg.bankNum)
    rw [scan_eq_stops, Strides.stops_getLast? banks] at other
    simp [idleState, init] at other

/-- Three LSEs and four banks over the small hierarchy. -/
def threeLses : SysConfig := { tiny with lseNum := 3, bankNum := 4 }

theorem scans_roundRobin_iff_three :
    (RoundRobin threeLses 3 reqQueueWritePtr ↔ ∃ k, 3 = 2 ^ (k + 1)) ∧
    (Complete 4 ↔ ∃ k, 4 = 2 ^ k) ∧ ¬ RoundRobin threeLses 4 ackQueueReadPtr :=
  scans_roundRobin_iff threeLses (by decide) (by decide)

/-- The scan over three LSEs stops twice at the first one and never at the last. -/
theorem three_lses_incomplete : scan 3 3 0 0 = [0, 1, 0] ∧ ¬ Complete 3 := by
  refine ⟨by decide, fun complete => ?_⟩
  exact absurd (complete 0 (by decide)) (by decide)

end DataflowSim.Memory.MemSystem
