import DataflowSim.Library.Run
import DataflowSim.Memory.Spm

/-!
# Whom a completion is for

`mem_req_complete` marks the first request of the address and kind that is not ready, whether it
has been sent or not. As long as that is one in flight, the requests in flight are those that the
memory has, and every request that was sent is acknowledged once.
-/

namespace DataflowSim.Memory.Spm

variable {s : Spm} {t : Transaction}

/-- The first request that a completion can be for is in flight. -/
def Attributable (s : Spm) (t : Transaction) : Prop :=
  ∀ e, s.reqQueue.find? (answers t) = some e → e.req.inflight = true

instance (s : Spm) (t : Transaction) : Decidable (Attributable s t) := by
  unfold Attributable
  exact decidable_of_iff (∀ e ∈ s.reqQueue.find? (answers t), e.req.inflight = true) Iff.rfl

/-- The completion marks one request in flight of the address and kind, and nothing else. -/
def MarksOne (s : Spm) (t : Transaction) : Prop :=
  ∃ front e back, s.reqQueue = front ++ e :: back ∧ e.req.valid = true ∧ e.req.inflight = true ∧
    e.transaction = t ∧ (memReqComplete s t).reqQueue = front ++ finish e :: back

/-! ## The invariant -/

def tickets (s : Spm) : List Nat := (s.reqQueue.filter fun e => e.req.valid).map SpmEntry.ticket

def isSent (e : SpmEntry) : Bool := e.req.valid && (e.req.inflight || e.req.ready)

/-- The requests that have been sent and not been handed back. -/
def underway (s : Spm) : List Nat := (s.reqQueue.filter isSent).map SpmEntry.ticket

def inFlight (e : SpmEntry) : Bool := e.req.valid && e.req.inflight

def pending (s : Spm) : List Transaction := (s.reqQueue.filter inFlight).map SpmEntry.transaction

/-- The request is the one of the ticket, with its LSE and slot. -/
def Own (s : Spm) (ticket : Nat) (r : MemReq) : Prop :=
  ∃ q, s.accepted[ticket]? = some q ∧ r.addr = q.addr ∧ r.isWrite = q.isWrite ∧ r.cnt = q.cnt ∧
    r.lseId = q.lseId ∧ r.lseReqQueueIndex = q.lseReqQueueIndex

structure Attributed (s : Spm) : Prop where
  held : (s.acked.map Prod.fst ++ tickets s).Perm (List.range s.accepted.length)
  sent : (s.acked.map Prod.fst ++ underway s).Perm s.sent
  outstanding : (pending s).Perm s.outstanding
  separate : ∀ e ∈ s.reqQueue, e.req.valid = true → ¬ (e.req.inflight = true ∧ e.req.ready = true)
  own : ∀ e ∈ s.reqQueue, e.req.valid = true → Own s e.ticket e.req
  ackedOwn : ∀ a ∈ s.acked, Own s a.1 a.2

theorem init_attributed (size : Nat) : Attributed (init size) := by
  constructor
  · simp [tickets, init]
  · simp [underway, isSent, init]
  · simp [pending, inFlight, init]
  · simp [init]
  · intro e mem
    obtain rfl := List.eq_of_mem_replicate mem
    simp
  · simp [init]

/-- One entry of the queue is replaced. -/
theorem setEntry_split {i : Nat} {e : SpmEntry} (there : s.reqQueue[i]? = some e) :
    ∃ front back, s.reqQueue = front ++ e :: back ∧
      ∀ e', (s.setEntry i e').reqQueue = front ++ e' :: back := by
  obtain ⟨bound, rfl⟩ := List.getElem?_eq_some_iff.mp there
  refine ⟨s.reqQueue.take i, s.reqQueue.drop (i + 1), ?_, fun e' => ?_⟩
  · rw [← List.drop_eq_getElem_cons bound, List.take_append_drop]
  · rw [setEntry, List.set_eq_take_append_cons_drop, if_pos bound]

theorem Own.mono {u : Spm} (grown : s.accepted <+: u.accepted) {ticket : Nat} {r : MemReq}
    (h : Own s ticket r) : Own u ticket r := by
  obtain ⟨q, found, same⟩ := h
  obtain ⟨more, eq⟩ := grown
  refine ⟨q, ?_, same⟩
  rw [← eq, List.getElem?_append_left (List.getElem?_eq_some_iff.mp found).1, found]

/-- The index of a search is a split of the queue. -/
theorem findIdx?_split {p : SpmEntry → Bool} {i : Nat} (found : s.reqQueue.findIdx? p = some i) :
    ∃ e, s.reqQueue[i]? = some e ∧ p e = true ∧ s.reqQueue.find? p = some e := by
  obtain ⟨bound, holds, before⟩ := List.findIdx?_eq_some_iff_getElem.mp found
  refine ⟨_, List.getElem?_eq_getElem bound, holds, ?_⟩
  rw [List.find?_eq_some_iff_getElem]
  exact ⟨holds, i, bound, rfl, fun j lt => by simpa using before j lt⟩

/-- The parts of the queue that the invariant counts, around one entry. -/
theorem counted_split {front back : List SpmEntry} {e : SpmEntry} (queue : s.reqQueue = front ++ e :: back) :
    tickets s = (front.filter fun e => e.req.valid).map SpmEntry.ticket ++
      ((if e.req.valid then [e.ticket] else []) ++
        (back.filter fun e => e.req.valid).map SpmEntry.ticket) ∧
    underway s = (front.filter isSent).map SpmEntry.ticket ++
      ((if isSent e then [e.ticket] else []) ++ (back.filter isSent).map SpmEntry.ticket) ∧
    pending s = (front.filter inFlight).map SpmEntry.transaction ++
      ((if inFlight e then [e.transaction] else []) ++
        (back.filter inFlight).map SpmEntry.transaction) := by
  simp only [tickets, underway, pending, queue, List.filter_append, List.map_append, List.filter_cons]
  refine ⟨?_, ?_, ?_⟩ <;> split_ifs <;> rfl

/-- A part of a list is exchanged on both sides. -/
theorem perm_exchange {α : Type*} [DecidableEq α] {x front back p p' r r' : List α}
    (before : (x ++ (front ++ (p ++ back))).Perm r) (change : (r ++ p').Perm (r' ++ p)) :
    (x ++ (front ++ (p' ++ back))).Perm r' := by
  rw [List.perm_iff_count] at before change ⊢
  intro a
  have one := before a
  have two := change a
  simp only [List.count_append] at one two ⊢
  omega

/-- What a change of one entry has to keep. -/
theorem Attributed.replace {u : Spm} {front back : List SpmEntry} {e e' : SpmEntry} (h : Attributed s)
    (queue : s.reqQueue = front ++ e :: back) (queue' : u.reqQueue = front ++ e' :: back)
    (acked : u.acked = s.acked) (grown : s.accepted <+: u.accepted)
    (held : (List.range s.accepted.length ++ if e'.req.valid then [e'.ticket] else []).Perm
      (List.range u.accepted.length ++ if e.req.valid then [e.ticket] else []))
    (sent : (s.sent ++ if isSent e' then [e'.ticket] else []).Perm
      (u.sent ++ if isSent e then [e.ticket] else []))
    (outstanding : (s.outstanding ++ if inFlight e' then [e'.transaction] else []).Perm
      (u.outstanding ++ if inFlight e then [e.transaction] else []))
    (separate : ¬ (e'.req.inflight = true ∧ e'.req.ready = true))
    (own : e'.req.valid = true → Own u e'.ticket e'.req) : Attributed u := by
  obtain ⟨tickets_s, underway_s, pending_s⟩ := counted_split queue
  obtain ⟨tickets_u, underway_u, pending_u⟩ := counted_split queue'
  have members (f : SpmEntry) (mem : f ∈ u.reqQueue) : f = e' ∨ f ∈ s.reqQueue := by
    rw [queue'] at mem
    rw [queue]
    grind
  refine ⟨?_, ?_, ?_, fun f mem valid => ?_, fun f mem valid => ?_, fun a mem => ?_⟩
  · rw [acked, tickets_u]
    exact perm_exchange (tickets_s ▸ h.held) held
  · rw [acked, underway_u]
    exact perm_exchange (underway_s ▸ h.sent) sent
  · rw [pending_u]
    exact @perm_exchange _ _ [] _ _ _ _ _ _ (pending_s ▸ h.outstanding) outstanding
  · rcases members f mem with rfl | old
    · exact separate
    · exact h.separate f old valid
  · rcases members f mem with rfl | old
    · exact own valid
    · exact (h.own f old valid).mono grown
  · exact (h.ackedOwn a (acked ▸ mem)).mono grown

theorem Attributed.addTransaction (h : Attributed s) (latency : Nat) {req : MemReq} (fresh : Fresh req) :
    Attributed (Spm.addTransaction latency s req).2 := by
  obtain ⟨valid, unsent, unready⟩ := fresh
  unfold Spm.addTransaction
  split
  · next i found =>
    obtain ⟨e, there, free, -⟩ := findIdx?_split found
    obtain ⟨front, back, queue, replaced⟩ := setEntry_split there
    have free : e.req.valid = false := by simpa using free
    refine h.replace queue (replaced _) rfl (List.prefix_append _ _) ?_ ?_ ?_ ?_ fun _ => ?_
    · simp [free, valid, List.range_succ]
    · simp [free, isSent, setEntry, unsent, unready]
    · simp [free, inFlight, setEntry, unsent]
    · simp [unready]
    · exact ⟨_, List.getElem?_concat_length, rfl, rfl, rfl, rfl, rfl⟩
  · exact h

theorem Attributed.send (h : Attributed s) {i : Nat} {e : SpmEntry} (there : s.reqQueue[i]? = some e)
    (offered : offers e = true) : Attributed (Spm.send s i e) := by
  obtain ⟨front, back, queue, replaced⟩ := setEntry_split there
  simp only [offers, Bool.and_eq_true, Bool.not_eq_true'] at offered
  obtain ⟨⟨⟨valid, unsent⟩, unready⟩, -⟩ := offered
  refine h.replace queue (replaced _) rfl List.prefix_rfl ?_ ?_ ?_ ?_ fun _ => ?_
  · simp [valid, Spm.send, setEntry]
  · simp [valid, unsent, unready, isSent, Spm.send, setEntry]
  · simp [valid, unsent, inFlight, Spm.send, setEntry, SpmEntry.transaction]
  · simp [unready]
  · obtain ⟨q, found, same⟩ := h.own e (queue ▸ by simp) valid
    exact ⟨q, found, same⟩

theorem Attributed.sendLoop (h : Attributed s) (k : Nat) (accept : List Bool) :
    Attributed (Spm.sendLoop k accept s) := by
  induction k generalizing s accept with
  | zero => exact h
  | succ k ih =>
    have onward {u : Spm} (hu : Attributed u) : Attributed u.advance :=
      ⟨hu.held, hu.sent, hu.outstanding, hu.separate, hu.own, hu.ackedOwn⟩
    unfold Spm.sendLoop
    dsimp only
    split
    · next offered =>
      split
      · refine ih (onward (h.send ?_ offered)) _
        rw [List.getD_eq_getElem?_getD] at offered ⊢
        cases there : s.reqQueue[s.sendPtr]? with
        | none => simp [there, offers] at offered
        | some e => rfl
      · exact h
    · exact ih (onward h) accept

theorem Attributed.reqQueueUpdate (h : Attributed s) (clkAdd : Bool) :
    Attributed (Spm.reqQueueUpdate s clkAdd) := by
  unfold Spm.reqQueueUpdate
  split_ifs
  · obtain ⟨held, sent, outstanding, separate, own, ackedOwn⟩ := h
    refine ⟨?_, ?_, ?_, ?_, ?_, ackedOwn⟩
    · rw [tickets, List.filter_map, List.map_map]
      exact held
    · rw [underway, List.filter_map, List.map_map]
      exact sent
    · rw [pending, List.filter_map, List.map_map]
      exact outstanding
    · rw [List.forall_mem_map]
      exact separate
    · rw [List.forall_mem_map]
      exact own
  · exact h

/-- What is ready leaves the lists that count it. -/
theorem callBack_perm {p : SpmEntry → Bool} (left : ∀ e, p (clear e) = (p e && !isReady e))
    (ready : ∀ e, isReady e = true → p e = true) (q : List SpmEntry) :
    ((q.filter isReady).map SpmEntry.ticket ++ ((q.map clear).filter p).map SpmEntry.ticket).Perm
      ((q.filter p).map SpmEntry.ticket) := by
  induction q with
  | nil => rfl
  | cons e q ih =>
    have same : (clear e).ticket = e.ticket := by
      unfold clear
      split_ifs <;> rfl
    simp only [List.map_cons, List.filter_cons, left]
    cases done : isReady e with
    | true => simpa [ready e done] using ih
    | false =>
      cases counted : p e with
      | true => simpa [same] using List.perm_middle.trans (ih.cons e.ticket)
      | false => simpa using ih

/-- What is in flight stays as it is. -/
theorem callBack_filter_inFlight {q : List SpmEntry}
    (separate : ∀ e ∈ q, e.req.valid = true → ¬ (e.req.inflight = true ∧ e.req.ready = true)) :
    (q.map clear).filter inFlight = q.filter inFlight := by
  induction q with
  | nil => rfl
  | cons e q ih =>
    have same : inFlight (clear e) = inFlight e ∧ (inFlight e = true → clear e = e) := by
      have apart := separate e (by simp)
      cases done : isReady e with
      | true =>
        obtain ⟨valid, ready⟩ := Bool.and_eq_true_iff.mp done
        have unsent : e.req.inflight = false := by simpa [ready] using apart valid
        simp [clear, done, inFlight, unsent]
      | false => simp [clear, done]
    rw [List.map_cons, List.filter_cons, List.filter_cons, same.1, ih fun e mem => separate e (.tail _ mem)]
    split_ifs with flying
    · rw [same.2 flying]
    · rfl

theorem Attributed.callBack (h : Attributed s) : Attributed (Spm.callBack s).2 := by
  have kept (e : SpmEntry) : (clear e).req.valid = true → e.req.valid = true ∧ clear e = e := by
    unfold clear
    split_ifs <;> simp
  have acked : (Spm.callBack s).2.acked.map Prod.fst =
      s.acked.map Prod.fst ++ (s.reqQueue.filter isReady).map SpmEntry.ticket := by
    simp [Spm.callBack, Function.comp_def]
  refine ⟨?_, ?_, ?_, ?_, ?_, ?_⟩
  · rw [acked, List.append_assoc]
    refine .trans (.append_left _ (callBack_perm (fun e => ?_) (fun e => ?_) s.reqQueue)) h.held
    · cases done : isReady e <;> simp [clear, done]
    · simp only [isReady, Bool.and_eq_true]
      exact And.left
  · rw [acked, List.append_assoc]
    refine .trans (.append_left _ (callBack_perm (fun e => ?_) (fun e => ?_) s.reqQueue)) h.sent
    · cases done : isReady e <;> simp [clear, done, isSent]
    · simp only [isReady, isSent, Bool.and_eq_true, Bool.or_eq_true]
      exact fun ⟨valid, ready⟩ => ⟨valid, .inr ready⟩
  · rw [pending, Spm.callBack, callBack_filter_inFlight h.separate]
    exact h.outstanding
  · rw [Spm.callBack, List.forall_mem_map]
    intro e mem valid
    rw [(kept e valid).2]
    exact h.separate e mem (kept e valid).1
  · rw [Spm.callBack, List.forall_mem_map]
    intro e mem valid
    rw [(kept e valid).2]
    exact h.own e mem (kept e valid).1
  · intro a mem
    rcases List.mem_append.mp mem with old | new
    · exact h.ackedOwn a old
    · obtain ⟨e, there, rfl⟩ := List.mem_map.mp new
      obtain ⟨there, done⟩ := List.mem_filter.mp there
      exact h.own e there (Bool.and_eq_true_iff.mp done).1

/-- A transaction that the memory has is one of a request in flight. -/
theorem Attributed.exists_answer (h : Attributed s) (there : t ∈ s.outstanding) :
    ∃ i, s.reqQueue.findIdx? (answers t) = some i := by
  obtain ⟨e, mem, rfl⟩ := List.mem_map.mp (h.outstanding.mem_iff.mpr there)
  obtain ⟨mem, flying⟩ := List.mem_filter.mp mem
  obtain ⟨valid, sent⟩ := Bool.and_eq_true_iff.mp flying
  have unready : e.req.ready = false := by simpa [sent] using h.separate e mem valid
  rw [← Option.isSome_iff_exists, List.findIdx?_isSome, List.any_eq_true]
  exact ⟨e, mem, by simp [answers, valid, unready, SpmEntry.transaction]⟩

/-- What an attributable completion does to the queue. -/
theorem Attributed.marked (h : Attributed s) (there : t ∈ s.outstanding) (attributable : Attributable s t) :
    MarksOne s t := by
  obtain ⟨i, found⟩ := h.exists_answer there
  obtain ⟨e, at_i, answering, first⟩ := findIdx?_split found
  obtain ⟨front, back, queue, replaced⟩ := setEntry_split at_i
  have sent := attributable e first
  simp only [answers, Bool.and_eq_true, beq_iff_eq] at answering
  obtain ⟨⟨⟨valid, -⟩, addr⟩, kind⟩ := answering
  refine ⟨front, e, back, queue, valid, sent, ?_, ?_⟩
  · rw [SpmEntry.transaction, addr, kind]
  · rw [memReqComplete, found]
    dsimp only
    rw [List.getD_eq_getElem?_getD, at_i]
    exact replaced _

theorem Attributed.complete (h : Attributed s) {position : Nat} (there : s.outstanding[position]? = some t)
    (attributable : Attributable s t) :
    Attributed { memReqComplete s t with outstanding := s.outstanding.eraseIdx position } := by
  obtain ⟨bound, at_position⟩ := List.getElem?_eq_some_iff.mp there
  obtain ⟨front, e, back, queue, valid, sent, rfl, marked⟩ :=
    h.marked (List.mem_of_getElem? there) attributable
  have unready : e.req.ready = false := by simpa [sent] using h.separate e (queue ▸ by simp) valid
  have frame : (memReqComplete s e.transaction).acked = s.acked ∧
      (memReqComplete s e.transaction).accepted = s.accepted ∧
      (memReqComplete s e.transaction).sent = s.sent := by
    unfold memReqComplete
    split <;> exact ⟨rfl, rfl, rfl⟩
  refine h.replace queue marked frame.1 (frame.2.1 ▸ List.prefix_rfl) ?_ ?_ ?_ ?_ fun _ => ?_
  · simp [frame, finish, valid]
  · simp [frame, finish, valid, isSent, sent]
  · have back := List.getElem_cons_eraseIdx_perm bound
    rw [at_position] at back
    simpa [finish, valid, sent, inFlight] using (back.symm.trans (List.perm_append_singleton _ _).symm)
  · simp [finish]
  · obtain ⟨q, found, same⟩ := h.own e (queue ▸ by simp) valid
    exact ⟨q, by rw [← found]; exact congrArg (·[e.ticket]?) frame.2.1, same⟩

/-- Only an attributable completion marks a request in flight. -/
theorem MarksOne.attributable (h : MarksOne s t) : Attributable s t := by
  obtain ⟨front, e, back, queue, -, sent, -, marked⟩ := h
  intro f first
  cases found : s.reqQueue.findIdx? (answers t) with
  | none =>
    have none_answers := List.findIdx?_eq_none_iff.mp found f (List.mem_of_find?_eq_some first)
    simp [List.find?_some first] at none_answers
  | some i =>
    obtain ⟨g, at_i, answering, first'⟩ := findIdx?_split found
    obtain rfl : f = g := Option.some.inj (first.symm.trans first')
    have unready : f.req.ready = false := by simp_all [answers]
    have after : (memReqComplete s t).reqQueue[i]? = some (finish f) := by
      obtain ⟨bound, here⟩ := List.getElem?_eq_some_iff.mp at_i
      rw [memReqComplete, found]
      simp [setEntry, List.getD_eq_getElem?_getD, bound, here]
    -- where the queue differs from what it was is the place of `e`
    rw [marked] at after
    rw [queue] at at_i
    by_cases place : i = front.length
    · grind
    · have kept : (front ++ finish e :: back)[i]? = (front ++ e :: back)[i]? := by grind
      have same : finish f = f := Option.some.inj (after.symm.trans (kept.trans at_i))
      have ready : (finish f).req.ready = true := rfl
      simp [same, unready] at ready

/-! ## Runs -/

/-- The completions of a run are attributable. -/
def Allowed (s : Spm) : SpmEvent → Prop
  | .complete position => ∀ t ∈ s.outstanding[position]?, Attributable s t
  | _ => True

instance (s : Spm) (event : SpmEvent) : Decidable (Allowed s event) :=
  match event with
  | .complete position => inferInstanceAs (Decidable (∀ t ∈ s.outstanding[position]?, Attributable s t))
  | .addTransaction _ | .callBack | .spmUpdate _ | .sendReq2Mem _ => inferInstanceAs (Decidable True)

def attributedStep (latency : Nat) (s : Spm) (event : SpmEvent) : Option Spm :=
  if Allowed s event then step latency s event else none

/-- What is acknowledged was sent, once and with the LSE slot it came from; nothing that was sent
is left when the memory has completed all it got. -/
structure Answered (s : Spm) : Prop where
  once : (s.acked.map Prod.fst).Nodup
  wasSent : ∀ a ∈ s.acked, a.1 ∈ s.sent
  readySent : ∀ e ∈ s.reqQueue, isReady e = true → e.ticket ∈ s.sent
  ownSlot : ∀ a ∈ s.acked, ∃ q, s.accepted[a.1]? = some q ∧ a.2.lseId = q.lseId ∧
    a.2.lseReqQueueIndex = q.lseReqQueueIndex ∧ a.2.addr = q.addr ∧ a.2.isWrite = q.isWrite
  allAnswered : s.outstanding = [] → ((callBack s).2.acked.map Prod.fst).Perm s.sent

theorem Attributed.step (h : Attributed s) {u : Spm} {latency : Nat} {event : SpmEvent}
    (stepped : attributedStep latency s event = some u) : Attributed u := by
  unfold attributedStep at stepped
  split at stepped
  case isFalse => cases stepped
  case isTrue allowed =>
    cases event with
    | addTransaction req =>
      simp only [Spm.step, Option.ite_none_right_eq_some, Option.some.injEq] at stepped
      obtain ⟨fresh, rfl⟩ := stepped
      exact h.addTransaction latency fresh
    | callBack =>
      cases stepped
      exact h.callBack
    | spmUpdate clkAdd =>
      cases stepped
      exact h.reqQueueUpdate clkAdd
    | sendReq2Mem accept =>
      cases stepped
      exact h.sendLoop _ accept
    | complete position =>
      simp only [Spm.step, Option.map_eq_some_iff] at stepped
      obtain ⟨t, there, rfl⟩ := stepped
      exact h.complete there (allowed t there)

theorem Attributed.answered (h : Attributed s) : Answered s := by
  have distinct : (s.acked.map Prod.fst ++ tickets s).Nodup := h.held.nodup_iff.mpr List.nodup_range
  refine ⟨(List.nodup_append.mp distinct).1, fun a mem => ?_, fun e mem ready => ?_, fun a mem => ?_,
    fun done => ?_⟩
  · exact h.sent.mem_iff.mp (List.mem_append_left _ (List.mem_map_of_mem mem))
  · refine h.sent.mem_iff.mp (List.mem_append_right _ (List.mem_map_of_mem (List.mem_filter.mpr ⟨mem, ?_⟩)))
    simp_all [isReady, isSent]
  · obtain ⟨q, found, addr, kind, -, lse, slot⟩ := h.ackedOwn a mem
    exact ⟨q, found, lse, slot, addr, kind⟩
  · have left : underway (Spm.callBack s).2 = [] := by
      have none_flying : (s.reqQueue.map clear).filter inFlight = [] :=
        List.map_eq_nil_iff.mp (List.perm_nil.mp (done ▸ h.callBack.outstanding))
      have none_sent : (s.reqQueue.map clear).filter isSent = [] := by
        rw [List.filter_eq_nil_iff, List.forall_mem_map] at none_flying ⊢
        intro e mem sent
        have unsent := none_flying e mem
        cases finished : isReady e with
        | true => simp [clear, finished, isSent] at sent
        | false =>
          have same : clear e = e := by simp [clear, finished]
          rw [same] at unsent sent
          grind [isSent, inFlight, isReady]
      exact List.map_eq_nil_iff.mpr none_sent
    have all := h.callBack.sent
    rwa [left, List.append_nil] at all

/-- In every run whose completions are attributable, a transaction marks the one request it is for
when it is attributable and only then, and every request that was sent is acknowledged once. -/
theorem run_answered {size latency : Nat} {events : List SpmEvent}
    (done : events.foldlM (attributedStep latency) (init size) = some s) :
    Answered s ∧ ∀ t ∈ s.outstanding, MarksOne s t ↔ Attributable s t := by
  have h : Attributed s :=
    Run.invariant (fun _ _ _ h stepped => h.step stepped) (init_attributed size) done
  exact ⟨h.answered, fun t there => ⟨MarksOne.attributable, h.marked there⟩⟩

/-- Two LSEs read the same address. -/
def sharedAddress : List SpmEvent :=
  [.addTransaction { valid := true, addr := 8, lseId := 1 }, .sendReq2Mem [true],
    .addTransaction { valid := true, addr := 8, lseId := 2 }, .sendReq2Mem [true]]

/-- The first is answered, a third LSE takes its slot for another address, and the second is
answered. -/
def otherAddress : List SpmEvent :=
  sharedAddress ++ [.complete 0, .callBack, .addTransaction { valid := true, addr := 16, lseId := 3 },
    .sendReq2Mem [true], .complete 0, .callBack]

theorem run_answered_otherAddress :
    ∃ s, otherAddress.foldlM (attributedStep 0) (init 2) = some s ∧
      s.acked.map (·.2.lseId) = [1, 2] ∧ s.outstanding.length = 1 ∧
      Answered s ∧ ∀ t ∈ s.outstanding, MarksOne s t ↔ Attributable s t := by
  have runs : (otherAddress.foldlM (attributedStep 0) (init 2)).map (fun s =>
      (s.acked.map (·.2.lseId), s.outstanding.length)) = some ([1, 2], 1) := by
    decide +kernel
  obtain ⟨s, done, facts⟩ := Option.map_eq_some_iff.mp runs
  obtain ⟨acked, one⟩ := Prod.mk.inj facts
  exact ⟨s, done, acked, one, run_answered done⟩

/-- The request of a third LSE for the same address takes the slot of the first. -/
def reusedSlot : List SpmEvent :=
  sharedAddress ++ [.complete 0, .callBack, .addTransaction { valid := true, addr := 8, lseId := 3 }]

/-- The third request is acknowledged though it was never sent: the completion of the second one
marks it. -/
theorem reused_slot_marked :
    ∃ s t, reusedSlot.foldlM (step 0) (init 2) = some s ∧ t ∈ s.outstanding ∧ ¬ MarksOne s t ∧
      ∃ a ∈ (callBack (memReqComplete s t)).2.acked, a.1 ∉ s.sent ∧ a.2.lseId = 3 := by
  have shape : (reusedSlot.foldlM (step 0) (init 2)).map (fun s =>
      decide (⟨8, false⟩ ∈ s.outstanding ∧ ¬ Attributable s ⟨8, false⟩ ∧
        ∃ a ∈ (callBack (memReqComplete s ⟨8, false⟩)).2.acked, a.1 ∉ s.sent ∧ a.2.lseId = 3)) = some true := by
    decide +kernel
  obtain ⟨s, done, facts⟩ := Option.map_eq_some_iff.mp shape
  obtain ⟨there, unattributable, acked⟩ := of_decide_eq_true facts
  exact ⟨s, _, done, there, fun marks => unattributable marks.attributable, acked⟩

end DataflowSim.Memory.Spm
