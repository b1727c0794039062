import DataflowSim.Memory.Reservation

/-!
# Every request is acknowledged once

Runs of the memory system against any memory and any LSEs that expose the request of a slot
again only after it was acknowledged. In every state that is reached, the acks of a slot are
the requests that were taken from it, in the same order, up to the last one; and that one,
as long as it is not acknowledged, is held in one place.
-/

namespace DataflowSim.Memory.MemSystem

/-- The requests of one slot of an LSE, in order. -/
def slotKeys (reqs : List MemReq) (lse slot : Nat) : List Key :=
  (reqs.map MemReq.key).filter fun k => k.lseId == lse && k.lseReqQueueIndex == slot

/-- Everything that was taken from the slot has been acknowledged. -/
def Idle (s : MemSystem) (lse slot : Nat) : Prop :=
  slotKeys s.admitted lse slot = slotKeys s.acked lse slot

/-- The slots that are exposed are idle. -/
def Exposes (s : MemSystem) (offers : Nat → Option MemReq) : Prop :=
  ∀ lse req, offers lse = some req → Idle s lse req.lseReqQueueIndex

/-- The states of all runs. -/
inductive Reachable (cfg : SysConfig) : MemSystem → Prop where
  | init : Reachable cfg (init cfg)
  | update {s t : MemSystem} (reached : Reachable cfg s) (tick : Tick)
      (exposes : Exposes s tick.offers) (updated : memSystemUpdate cfg s tick = .ok t) :
      Reachable cfg t

/-- Acks come in the order of the requests, and at most the last request waits for its own. -/
def InOrder (s : MemSystem) : Prop :=
  ∀ lse slot, ∃ out, slotKeys s.admitted lse slot = slotKeys s.acked lse slot ++ out ∧
    out.length ≤ 1

variable {cfg : SysConfig} {s t : MemSystem}

theorem slotKeys_append (l m : List MemReq) (lse slot : Nat) :
    slotKeys (l ++ m) lse slot = slotKeys l lse slot ++ slotKeys m lse slot := by
  simp [slotKeys]

theorem slotKeys_length (l : List MemReq) (lse slot : Nat) : (slotKeys l lse slot).length =
    l.countP fun r => r.key.lseId == lse && r.key.lseReqQueueIndex == slot := by
  rw [slotKeys, ← List.countP_eq_length_filter, List.countP_map]
  rfl

/-- In one slot, a request is counted as in all slots. -/
theorem slotKeys_count (l : List MemReq) {lse slot : Nat} {k : Key} (lseId : k.lseId = lse)
    (index : k.lseReqQueueIndex = slot) :
    (slotKeys l lse slot).count k = l.countP fun r => r.key == k := by
  rw [slotKeys, List.count_filter (by simp [lseId, index]), List.count, List.countP_map]
  rfl

theorem mem_slotKeys {l : List MemReq} {lse slot : Nat} {k : Key} (mem : k ∈ slotKeys l lse slot) :
    k.lseId = lse ∧ k.lseReqQueueIndex = slot := by
  simpa using (List.mem_filter.mp mem).2

/-- A list that extends another by at most one element absorbs any extension that it covers. -/
theorem absorb {α : Type*} [DecidableEq α] {requests acks out more : List α}
    (eq : requests = acks ++ out) (one : out.length ≤ 1)
    (covers : ∀ k ∈ more, (acks ++ more).count k ≤ requests.count k) :
    ∃ out, requests = acks ++ more ++ out ∧ out.length ≤ 1 := by
  subst eq
  have within : more.Subperm out := by
    rw [List.subperm_ext_iff]
    intro k mem
    have := covers k mem
    rw [List.count_append, List.count_append] at this
    omega
  have length := within.length_le
  cases more with
  | nil => exact ⟨out, by simp, one⟩
  | cons k more =>
    obtain ⟨x, rfl⟩ := List.length_eq_one_iff.mp (by
      rw [List.length_cons] at length
      omega : out.length = 1)
    obtain rfl : more = [] := List.eq_nil_of_length_eq_zero (by simpa using length)
    obtain rfl : k = x := by simpa using within.subset List.mem_cons_self
    exact ⟨[], by simp, by simp⟩

/-- New acks that are conserved come in order. -/
theorem InOrder.ack (one : OneLevel cfg) (order : InOrder s) (conserved : Conserved cfg t)
    (admitted : t.admitted = s.admitted) (acked : s.acked <+: t.acked) : InOrder t := by
  intro lse slot
  obtain ⟨out, eq, last⟩ := order lse slot
  obtain ⟨more, grown⟩ := acked
  have absorbed := absorb eq last (show ∀ k ∈ slotKeys more lse slot, _ by
    intro k mem
    obtain ⟨lseId, index⟩ := mem_slotKeys mem
    have counts := conserved.counts one.cache.style (· == k)
    rw [← slotKeys_append, grown, slotKeys_count _ lseId index, slotKeys_count _ lseId index,
      ← admitted]
    omega)
  rwa [← slotKeys_append, grown, ← admitted] at absorbed

/-- An idle slot stays idle while others are acknowledged. -/
theorem Idle.ack {lse slot : Nat} (idle : Idle s lse slot) (order : InOrder t)
    (admitted : t.admitted = s.admitted) (acked : s.acked <+: t.acked) : Idle t lse slot := by
  obtain ⟨out, eq, one⟩ := order lse slot
  obtain ⟨more, grown⟩ := acked
  unfold Idle at idle ⊢
  rw [admitted, idle, ← grown, slotKeys_append, List.append_assoc] at eq
  have nothing : slotKeys more lse slot ++ out = [] := by simpa using eq.symm
  rw [admitted, idle, ← grown, slotKeys_append, (List.append_eq_nil_iff.mp nothing).1,
    List.append_nil]

/-- Where the scan over the LSEs stands. -/
structure Scanning (cfg : SysConfig) (s : MemSystem) (offers : Nat → Option MemReq) : Prop where
  conserved : Conserved cfg s
  order : InOrder s
  exposes : Exposes s offers

theorem visitLse_scanning (one : OneLevel cfg) {offers : Nat → Option MemReq}
    (h : Scanning cfg s offers) (lse : Nat) :
    Scanning cfg (visitLse cfg (s, offers) lse).1 (visitLse cfg (s, offers) lse).2 := by
  unfold visitLse
  cases peek : peekReqQueue offers lse with
  | none => simpa [peek] using h
  | some req =>
    obtain ⟨offer, offered, rfl⟩ := Option.map_eq_some_iff.mp peek
    set req : MemReq := { offer with valid := true, ready := false, lseId := lse, origin := .core }
    obtain ⟨conserved, acked, refused, taken⟩ :=
      tryAdmit_conserved one.banked h.conserved (show Waits req from ⟨rfl, rfl, rfl⟩)
    dsimp only
    cases result : tryAdmit cfg s req with
    | mk ok t =>
      rw [result] at conserved acked refused taken
      cases ok with
      | false =>
        have admitted : t.admitted = s.admitted := refused rfl
        refine ⟨conserved, ?_, ?_⟩
        · intro l slot
          rw [admitted, acked]
          exact h.order l slot
        · intro l r mem
          unfold Idle
          rw [admitted, acked]
          exact h.exposes l r mem
      | true =>
        obtain ⟨r, key, admitted⟩ := taken rfl
        have idle : Idle s lse req.lseReqQueueIndex := h.exposes lse offer offered
        -- only the slot of the request gains one, and it was idle
        have entered (l slot : Nat) : slotKeys t.admitted l slot = slotKeys s.admitted l slot ++
            if l = lse ∧ slot = req.lseReqQueueIndex then [req.key] else [] := by
          have own : slotKeys [r] l slot =
              if l = lse ∧ slot = req.lseReqQueueIndex then [req.key] else [] := by
            simp only [slotKeys, List.map_cons, List.map_nil, List.filter_cons, List.filter_nil,
              key, Bool.and_eq_true, beq_iff_eq]
            exact if_congr ⟨fun h => ⟨h.1.symm, h.2.symm⟩, fun h => ⟨h.1.symm, h.2.symm⟩⟩ rfl rfl
          rw [admitted, slotKeys_append, own]
        refine ⟨conserved, ?_, ?_⟩
        · intro l slot
          rw [entered, acked]
          split_ifs with here
          · obtain ⟨rfl, rfl⟩ := here
            exact ⟨[req.key], by rw [idle], le_rfl⟩
          · simpa using h.order l slot
        · intro l q mem
          dsimp only at mem ⊢
          rw [Function.update_apply] at mem
          split_ifs at mem with here
          unfold Idle
          rw [entered, acked, if_neg (fun both => here both.1), List.append_nil]
          exact h.exposes l q mem

theorem getLseReq_spec (one : OneLevel cfg) {tick : Tick} (h : Scanning cfg s tick.offers) :
    ∃ t, getLseReq cfg s tick = .ok t ∧ Conserved cfg t ∧ InOrder t := by
  have scanned : Scanning cfg
      ((scan cfg.lseNum cfg.lseNum 0 s.reqQueueWritePtr).foldl (visitLse cfg) (s, tick.offers)).1
      ((scan cfg.lseNum cfg.lseNum 0 s.reqQueueWritePtr).foldl (visitLse cfg)
        (s, tick.offers)).2 := by
    refine List.foldlRecOn (motive := fun u : MemSystem × (Nat → Option MemReq) =>
      Scanning cfg u.1 u.2) _ _ h ?_
    rintro ⟨u, offers⟩ visited lse -
    exact visitLse_scanning one visited lse
  unfold getLseReq
  generalize (scan cfg.lseNum cfg.lseNum 0 s.reqQueueWritePtr).foldl (visitLse cfg)
    (s, tick.offers) = u at scanned
  have conserved : Conserved cfg
      { u.1 with reqQueueWritePtr := (u.1.reqQueueWritePtr + 1) % cfg.lseNum } :=
    { scanned.conserved with }
  dsimp only
  split
  · obtain ⟨t, flushed, kept, admitted, acked⟩ := flush_conserved one.banked conserved
    refine ⟨t, flushed, kept, ?_⟩
    intro lse slot
    rw [admitted, acked]
    exact scanned.order lse slot
  · exact ⟨_, rfl, conserved, scanned.order⟩

/-- An update goes through, unless no line can be freed for a block. -/
theorem memSystemUpdate_spec (one : OneLevel cfg) {tick : Tick} (h : Scanning cfg s tick.offers) :
    (∃ t, memSystemUpdate cfg s tick = .ok t ∧ Conserved cfg t ∧ InOrder t) ∨
      memSystemUpdate cfg s tick = .error .noLine := by
  obtain ⟨u, returned, conserved, admitted, acked⟩ := sendBack2Lse_conserved one.banked h.conserved
  have order : InOrder u := h.order.ack one conserved admitted acked
  have exposes : Exposes u tick.offers := fun lse req offered =>
    (h.exposes lse req offered).ack order admitted acked
  unfold memSystemUpdate
  rw [returned]
  dsimp only
  split
  · cases served : serve cfg u tick with
    | error fault => exact .inr (by rw [serve_error served])
    | ok v =>
      obtain ⟨conserved, admitted, acked⟩ := serve_kept one.banked conserved served
      left
      apply getLseReq_spec one
      refine ⟨conserved, ?_, ?_⟩
      · intro lse slot
        rw [admitted, acked]
        exact order lse slot
      · intro lse req offered
        unfold Idle
        rw [admitted, acked]
        exact exposes lse req offered
  · exact .inl (getLseReq_spec one ⟨conserved, order, exposes⟩)

theorem reachable_conserved (one : OneLevel cfg) (reached : Reachable cfg s) :
    Conserved cfg s ∧ InOrder s := by
  induction reached with
  | init => exact ⟨init_conserved cfg, fun lse slot => ⟨[], by simp [init, slotKeys], by simp⟩⟩
  | update reached tick exposes updated ih =>
    obtain ⟨t, done, kept⟩ | failed := memSystemUpdate_spec one ⟨ih.1, ih.2, exposes⟩
    · rw [updated] at done
      exact Except.ok.inj done ▸ kept
    · rw [updated] at failed
      cases failed

/-- In every reachable state each request that was taken out of a slot is acknowledged, or it
is the last one of its slot and is held in exactly one queue; acks come once, in order and
with the address, LSE and slot of their requests. An update never finds the coalescer full or
without the entry of a coalesced ack. -/
theorem requests_exactly_once (one : OneLevel cfg) (reached : Reachable cfg s) :
    (∀ f : Key → Bool, s.admitted.countP (f ·.key) =
      s.acked.countP (f ·.key) + heldIn cfg s f) ∧
    (∀ lse slot,
      (slotKeys s.admitted lse slot = slotKeys s.acked lse slot ∧
        heldIn cfg s (fun k => k.lseId == lse && k.lseReqQueueIndex == slot) = 0) ∨
      ∃ k, slotKeys s.admitted lse slot = slotKeys s.acked lse slot ++ [k] ∧
        heldIn cfg s (· == k) = 1 ∧
        heldIn cfg s (fun k => k.lseId == lse && k.lseReqQueueIndex == slot) = 1) ∧
    ∀ tick fault, Exposes s tick.offers → memSystemUpdate cfg s tick = .error fault →
      fault = .noLine := by
  obtain ⟨conserved, order⟩ := reachable_conserved one reached
  refine ⟨conserved.counts one.cache.style, ?_, ?_⟩
  · intro lse slot
    obtain ⟨out, eq, le⟩ := order lse slot
    have total := conserved.counts one.cache.style fun k => k.lseId == lse && k.lseReqQueueIndex == slot
    rw [← slotKeys_length, ← slotKeys_length, eq, List.length_append] at total
    match out, le with
    | [], _ =>
      left
      refine ⟨by simpa using eq, ?_⟩
      simpa using total
    | [k], _ =>
      right
      refine ⟨k, eq, ?_, by simpa using total.symm⟩
      have mem : k ∈ slotKeys s.admitted lse slot := by simp [eq]
      obtain ⟨lseId, index⟩ := mem_slotKeys mem
      have counts := conserved.counts one.cache.style (· == k)
      rw [← slotKeys_count _ lseId index, ← slotKeys_count _ lseId index, eq,
        List.count_append] at counts
      simpa using counts.symm
  · intro tick fault exposes failed
    obtain ⟨t, done, -⟩ | no := memSystemUpdate_spec one ⟨conserved, order, exposes⟩
    · simp [failed] at done
    · rw [failed] at no
      exact Except.error.inj no

/-- After two updates the two reads have been coalesced. -/
theorem requests_exactly_once_tiny : ∃ s, Reachable tiny s ∧ s.admitted.length = 2 ∧
    s.coalescerTable.length = 1 ∧
    ∀ f : Key → Bool, s.admitted.countP (f ·.key) = s.acked.countP (f ·.key) + heldIn tiny s f := by
  obtain ⟨s, first⟩ : ∃ s, memSystemUpdate tiny (init tiny) (bothRead false) = .ok s := ⟨_, rfl⟩
  have reached : Reachable tiny s := .update .init _ (fun _ _ _ => rfl) first
  obtain ⟨t, second⟩ : ∃ t, memSystemUpdate tiny s (bothRead true) = .ok t := by
    cases first
    exact ⟨_, rfl⟩
  have reached : Reachable tiny t := by
    refine .update reached _ ?_ second
    cases first
    exact fun _ _ _ => rfl
  refine ⟨t, reached, ?_, ?_, (requests_exactly_once tiny_oneLevel reached).1⟩
  · cases first
    cases second
    rfl
  · cases first
    cases second
    rfl

end DataflowSim.Memory.MemSystem
