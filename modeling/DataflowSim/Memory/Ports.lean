import DataflowSim.Memory.BankOrder
import DataflowSim.Memory.Phases

/-!
# The ports of a bank

In each clock a bank takes at most one request and gives at most one response, its queues stay
within their sizes, and a request waits for the access latency before it is looked up.
-/

namespace DataflowSim.Memory.Cache

/-- The events since an earlier state. -/
def news (s t : Cache) : List Event := t.history.drop s.history.length

section Counts

variable (cfg : Config) (l b : Nat)

def entersBank : Event → Bool
  | .accepted k r => k == l && cfg.getCacheBank r.addr l == b
  | _ => false

def answersBank : Event → Bool
  | .acked k r => k == l && cfg.getCacheBank r.addr l == b
  | _ => false

/-- How many requests entered the request queue of the bank. -/
def entries (es : List Event) : Nat := es.countP (entersBank cfg l b)

/-- How many responses entered the ack queue of the bank. -/
def responses (es : List Event) : Nat := es.countP (answersBank cfg l b)

end Counts

variable {cfg : Config} {l b : Nat} {enters acks : Prop} {s t u : Cache}

@[simp] theorem news_self (s : Cache) : news s s = [] := by simp [news]

theorem news_eq {es : List Event} (history : t.history = s.history ++ es) : news s t = es := by
  rw [news, history, List.drop_left]

theorem news_trans (first : s.history <+: t.history) (second : t.history <+: u.history) :
    news s u = news s t ++ news t u := by
  obtain ⟨es, first⟩ := first
  obtain ⟨fs, second⟩ := second
  rw [news_eq first.symm, news_eq second.symm]
  exact news_eq (by rw [← second, ← first, List.append_assoc])

@[simp] theorem entries_nil : entries cfg l b [] = 0 := rfl
@[simp] theorem responses_nil : responses cfg l b [] = 0 := rfl

@[simp] theorem entries_append (es fs : List Event) :
    entries cfg l b (es ++ fs) = entries cfg l b es + entries cfg l b fs := List.countP_append

@[simp] theorem responses_append (es fs : List Event) :
    responses cfg l b (es ++ fs) = responses cfg l b es + responses cfg l b fs :=
  List.countP_append

/-! ## What passes through the ports -/

variable (cfg l b) in
/-- The queues and the flags of the bank stay as they are. -/
structure Calm (s t : Cache) : Prop where
  grows : ∃ es, t.history = s.history ++ es ∧
    ∀ e ∈ es, entersBank cfg l b e = false ∧ answersBank cfg l b e = false
  reqQueue : (t.level l).reqQueue b = (s.level l).reqQueue b
  ackQueue : (t.level l).ackQueue b = (s.level l).ackQueue b
  reqBankConflict : (t.level l).reqBankConflict b = (s.level l).reqBankConflict b
  ackBankConflict : (t.level l).ackBankConflict b = (s.level l).ackBankConflict b

variable (cfg l b) in
/-- A request enters only under the flag of the bank and while there is room, and nothing else
changes a latency. `enters` and `acks` say when requests and responses may enter at all. -/
structure Flow (enters acks : Prop) (s t : Cache) : Prop where
  grows : s.history <+: t.history
  entered : entries cfg l b (news s t) + ((s.level l).reqBankConflict b).toNat ≤
    ((t.level l).reqBankConflict b).toNat
  closed : enters ∨ entries cfg l b (news s t) = 0
  silent : acks ∨ responses cfg l b (news s t) = 0 ∧
    (t.level l).ackBankConflict b = (s.level l).ackBankConflict b
  reqs : ∀ p ∈ (t.level l).reqQueue b, (∃ r, (r, p.2) ∈ (s.level l).reqQueue b ∧
    r.stamp = p.1.stamp) ∨ p.2 = (cfg.level l).accessLatency
  reqRoom : ((s.level l).reqQueue b).length ≤ (cfg.level l).reqQueueSizePerBank →
    ((t.level l).reqQueue b).length ≤ (cfg.level l).reqQueueSizePerBank
  ackRoom : ((s.level l).ackQueue b).length ≤ (cfg.level l).ackQueueSizePerBank →
    ((t.level l).ackQueue b).length ≤ (cfg.level l).ackQueueSizePerBank

theorem Calm.refl (s : Cache) : Calm cfg l b s s :=
  ⟨⟨[], by simp, by simp⟩, rfl, rfl, rfl, rfl⟩

theorem Calm.trans (first : Calm cfg l b s t) (second : Calm cfg l b t u) : Calm cfg l b s u := by
  obtain ⟨es, first_grows, first_quiet⟩ := first.grows
  obtain ⟨fs, second_grows, second_quiet⟩ := second.grows
  refine ⟨⟨es ++ fs, by rw [second_grows, first_grows, List.append_assoc], ?_⟩,
    second.reqQueue.trans first.reqQueue, second.ackQueue.trans first.ackQueue,
    second.reqBankConflict.trans first.reqBankConflict,
    second.ackBankConflict.trans first.ackBankConflict⟩
  intro e mem
  exact (List.mem_append.mp mem).elim (first_quiet e) (second_quiet e)

/-- Lines, MSHR, pointers and statistics are no part of a bank. -/
theorem Calm.setLevel {k : Nat} {lv : Level} (h : Calm cfg l b s t)
    (reqQueue : lv.reqQueue = (t.level k).reqQueue := by rfl)
    (ackQueue : lv.ackQueue = (t.level k).ackQueue := by rfl)
    (reqBankConflict : lv.reqBankConflict = (t.level k).reqBankConflict := by rfl)
    (ackBankConflict : lv.ackBankConflict = (t.level k).ackBankConflict := by rfl) :
    Calm cfg l b s (t.setLevel k lv) := by
  refine h.trans ⟨⟨[], by simp, by simp⟩, ?_, ?_, ?_, ?_⟩ <;>
    by_cases here : l = k <;> simp [here, reqQueue, ackQueue, reqBankConflict, ackBankConflict]

theorem Calm.record {e : Event} (h : Calm cfg l b s t) (enters : entersBank cfg l b e = false := by rfl)
    (answers : answersBank cfg l b e = false := by rfl) : Calm cfg l b s (t.record e) :=
  h.trans ⟨⟨[e], rfl, by simpa using ⟨enters, answers⟩⟩, rfl, rfl, rfl, rfl⟩

/-- A change of one bank is no change of the others. -/
theorem Calm.elsewhere {k i : Nat} {lv : Level} (other : ¬ (l = k ∧ b = i))
    (reqQueue : ∀ j ≠ i, lv.reqQueue j = (s.level k).reqQueue j := by simp)
    (ackQueue : ∀ j ≠ i, lv.ackQueue j = (s.level k).ackQueue j := by simp)
    (reqBankConflict : ∀ j ≠ i, lv.reqBankConflict j = (s.level k).reqBankConflict j := by simp)
    (ackBankConflict : ∀ j ≠ i, lv.ackBankConflict j = (s.level k).ackBankConflict j := by simp) :
    Calm cfg l b s (s.setLevel k lv) := by
  by_cases here : l = k
  · subst here
    have ne : b ≠ i := fun same => other ⟨rfl, same⟩
    refine ⟨⟨[], by simp, by simp⟩, ?_, ?_, ?_, ?_⟩ <;> rw [setLevel_level, Function.update_self]
    · exact reqQueue b ne
    · exact ackQueue b ne
    · exact reqBankConflict b ne
    · exact ackBankConflict b ne
  · refine ⟨⟨[], by simp, by simp⟩, ?_, ?_, ?_, ?_⟩ <;>
      rw [setLevel_level, Function.update_of_ne here]

/-- The same levels and the same history. -/
theorem Calm.of_level (level : t.level = s.level) (history : t.history = s.history) :
    Calm cfg l b s t :=
  ⟨⟨[], by simp [history], by simp⟩, by rw [level], by rw [level], by rw [level], by rw [level]⟩

theorem Calm.flow (h : Calm cfg l b s t) : Flow cfg l b enters acks s t := by
  obtain ⟨es, grown, quiet⟩ := h.grows
  have none : entries cfg l b (news s t) = 0 := by
    rw [news_eq grown]
    exact List.countP_eq_zero.mpr fun e mem => by simp [(quiet e mem).1]
  have silent : responses cfg l b (news s t) = 0 := by
    rw [news_eq grown]
    exact List.countP_eq_zero.mpr fun e mem => by simp [(quiet e mem).2]
  refine ⟨⟨es, grown.symm⟩, ?_, .inr none, .inr ⟨silent, h.ackBankConflict⟩, ?_, ?_, ?_⟩
  · rw [none, h.reqBankConflict, Nat.zero_add]
  · rw [h.reqQueue]
    exact fun p mem => .inl ⟨p.1, mem, rfl⟩
  · rw [h.reqQueue]
    exact id
  · rw [h.ackQueue]
    exact id

theorem Flow.refl (s : Cache) : Flow cfg l b enters acks s s := (Calm.refl s).flow

theorem Flow.trans (first : Flow cfg l b enters acks s t) (second : Flow cfg l b enters acks t u) :
    Flow cfg l b enters acks s u := by
  have split := news_trans first.grows second.grows
  refine ⟨first.grows.trans second.grows, ?_, ?_, ?_, ?_, second.reqRoom ∘ first.reqRoom,
    second.ackRoom ∘ first.ackRoom⟩
  · have := first.entered
    have := second.entered
    rw [split, entries_append]
    omega
  · rw [split, entries_append]
    obtain always | none := first.closed
    · exact .inl always
    · exact second.closed.imp_right fun later => by rw [none, later]
  · rw [split, responses_append]
    obtain always | ⟨none, same⟩ := first.silent
    · exact .inl always
    · exact second.silent.imp_right fun later => ⟨by rw [none, later.1], later.2.trans same⟩
  · intro p mem
    obtain ⟨r, old, stamp⟩ | new := second.reqs p mem
    · exact (first.reqs (r, p.2) old).imp_left fun ⟨q, older, same⟩ => ⟨q, older, same.trans stamp⟩
    · exact .inr new

theorem Flow.mono {enters' acks' : Prop} (h : Flow cfg l b enters acks s t)
    (more : enters → enters') (loud : acks → acks') : Flow cfg l b enters' acks' s t :=
  ⟨h.grows, h.entered, h.closed.imp_left more, h.silent.imp_left loud, h.reqs, h.reqRoom, h.ackRoom⟩

/-! ## The functions -/

theorem enqueue_flow {k : Nat} {r : CacheReq}
    (room : ((s.level k).reqQueue (cfg.getCacheBank r.addr k)).length <
      (cfg.level k).reqQueueSizePerBank)
    (free : (s.level k).reqBankConflict (cfg.getCacheBank r.addr k) = false) :
    Flow cfg l b (l = k) False s (enqueue cfg s r k) := by
  have grown := enqueue_history cfg s k r
  by_cases here : l = k ∧ b = cfg.getCacheBank r.addr k
  · obtain ⟨rfl, rfl⟩ := here
    refine ⟨⟨_, grown.symm⟩, ?_, .inl rfl, .inr ⟨?_, ?_⟩, ?_, ?_, ?_⟩
    · rw [news_eq grown]
      simp [entries, entersBank, enqueue, free]
    · rw [news_eq grown]
      rfl
    · simp [enqueue]
    · simp only [enqueue, record_level, setLevel_level, Function.update_self, List.mem_append,
        List.mem_singleton]
      rintro p (old | rfl)
      · exact .inl ⟨p.1, old, rfl⟩
      · exact .inr rfl
    · intro _
      simpa [enqueue] using room
    · simp [enqueue]
  · refine Calm.flow (.record (.elsewhere here (by grind) (by grind) (by grind) (by grind)) ?_ rfl)
    simp only [entersBank, Bool.and_eq_false_iff, beq_eq_false_iff_ne]
    grind

theorem sendBelow_flow {k : Nat} {r : CacheReq} (sent : sendBelow cfg s r k = some t) :
    Flow cfg l b (l = k + 1 ∧ k < cfg.llc) False s t := by
  unfold sendBelow at sent
  split_ifs at sent with inner
  · obtain ⟨room, free, rfl⟩ := sendReq2CacheBank_eq_some.mp sent
    exact (enqueue_flow room free).mono (fun h => ⟨h, inner⟩) id
  · obtain ⟨-, rfl⟩ := sendReq2reqQueue2Mem_eq_some.mp sent
    exact Calm.flow (.of_level rfl rfl)

theorem missToMshr_calm (s : Cache) (req : CacheReq) (k : Nat) :
    Calm cfg l b s (missToMshr cfg s req k) := by
  unfold missToMshr
  dsimp only
  split
  · refine .record (.setLevel (.refl s)) ?_ ?_ <;> split <;> rfl
  · exact .refl s

/-- Requests that leave a bank or become ready keep their latencies. -/
theorem Flow.of_reqQueue {k i : Nat} {queue : List (CacheReq × Nat)}
    (kept : ∀ p ∈ queue, ∃ r, (r, p.2) ∈ (s.level k).reqQueue i ∧ r.stamp = p.1.stamp)
    (shorter : queue.length ≤ ((s.level k).reqQueue i).length) :
    Flow cfg l b enters acks s (s.setLevel k { s.level k with
      reqQueue := Function.update (s.level k).reqQueue i queue }) := by
  by_cases here : l = k ∧ b = i
  · obtain ⟨rfl, rfl⟩ := here
    refine ⟨by simp, by simp [news], by simp [news], by simp [news], ?_, ?_, by simp⟩
    · simp only [setLevel_level, Function.update_self]
      exact fun p mem => .inl (kept p mem)
    · simp only [setLevel_level, Function.update_self]
      exact shorter.trans
  · exact Calm.flow (.elsewhere here (by grind) (by grind) (by grind) (by grind))

theorem setFrontReady_flow (s : Cache) (k i : Nat) :
    Flow cfg l b enters acks s (setFrontReady s k i) := by
  refine .of_reqQueue ?_ ?_ <;> cases (s.level k).reqQueue i with
  | nil => simp
  | cons head rest => grind

theorem popReq_flow (s : Cache) (k i : Nat) : Flow cfg l b enters acks s (popReq s k i) :=
  .of_reqQueue (fun p mem => ⟨p.1, List.mem_of_mem_tail mem, rfl⟩) (by simp)

theorem lookup_flow (s : Cache) (k i : Nat) : Flow cfg l b enters acks s (lookup cfg s k i) := by
  have counted (u : Cache) : Calm cfg l b u (countHit u k) := .setLevel (.refl u)
  unfold lookup
  split
  case h_1 => exact .refl s
  case h_2 req latency rest front =>
    split_ifs with due writes
    · split
      case h_1 index resident =>
        refine .trans ?_ (counted _).flow
        cases (cfg.level k).writeStrategy with
        | WRITE_BACK => exact .trans (Calm.setLevel (.refl s)).flow (setFrontReady_flow _ k i)
        | WRITE_THROUGH => exact (missToMshr_calm s req k).flow.trans (setFrontReady_flow _ k i)
      case h_2 =>
        exact ((missToMshr_calm s req k).flow.trans (popReq_flow _ k i)).trans
          (Calm.setLevel (.refl _)).flow
    · split
      case h_1 index resident => exact (setFrontReady_flow s k i).trans (counted _).flow
      case h_2 =>
        exact ((missToMshr_calm s req k).flow.trans (popReq_flow _ k i)).trans
          (Calm.setLevel (.refl _)).flow
    · exact .refl s

theorem releaseLine_flow (s : Cache) (index k : Nat) :
    Flow cfg l b (l = k + 1 ∧ k < cfg.llc) False s (releaseLine cfg s index k).2 := by
  cases released : releaseLine cfg s index k with
  | mk i u =>
    cases i with
    | none =>
      obtain rfl := releaseLine_none released
      exact .refl u
    | some i =>
      obtain ⟨-, ⟨-, rfl⟩ | ⟨-, -, v, sent, rfl⟩⟩ := releaseLine_some released
      · exact .refl u
      · refine (sendBelow_flow sent).trans (Calm.flow ?_)
        exact (Calm.record (.setLevel (.refl v))).trans (.of_level rfl rfl)

theorem getCacheFreeLine_flow (s : Cache) (base k : Nat) :
    Flow cfg l b (l = k + 1 ∧ k < cfg.llc) False s (getCacheFreeLine cfg s base k).2 := by
  have chosen : Calm cfg l b s (selectVictim cfg s base k).2 :=
    .of_level (selectVictim_level cfg s base k) (selectVictim_same cfg s base k).history
  unfold getCacheFreeLine
  split
  · exact .refl s
  · split <;> rename_i u eq <;> rw [eq] at chosen
    · exact chosen.flow.trans (releaseLine_flow u _ k)
    · exact chosen.flow

theorem fillBlock_flow (s : Cache) (addr k : Nat) (origin : Origin) :
    Flow cfg l b (l = k + 1 ∧ k < cfg.llc) False s (fillBlock cfg s addr k origin).2 := by
  have searched : Flow cfg l b (l = k + 1 ∧ k < cfg.llc) False s
      (getCacheFreeLine cfg s (setBase cfg addr k) k).2 := getCacheFreeLine_flow s _ k
  unfold fillBlock
  split_ifs
  · exact .refl s
  · split <;> rename_i u found <;> rw [found] at searched
    · refine searched.trans (Calm.flow (.record ?_))
      exact (Calm.setLevel (.refl u)).trans (.of_level rfl rfl)
    · exact searched

theorem sendFills_flow (k : Nat) (reqs : List (Nat × CacheReq)) (s : Cache) :
    Flow cfg l b (l = k + 1 ∧ k < cfg.llc) False s (sendFills cfg s k reqs).2 := by
  induction reqs generalizing s with
  | nil => exact .refl s
  | cons head rest ih =>
    obtain ⟨id, req⟩ := head
    rw [sendFills]
    split
    case h_1 u sent => exact ((sendBelow_flow sent).trans (Calm.record (.refl u)).flow).trans (ih _)
    case h_2 => exact ih s

theorem sendReq2Mem_calm (accept : List Bool) (s : Cache) :
    Calm cfg l b s (sendReq2Mem s accept) := by
  fun_induction sendReq2Mem s accept with
  | case1 => exact .refl _
  | case2 s accept req rest queue ih =>
    refine .trans (.record ?_) ih
    exact .of_level rfl rfl
  | case3 => exact .refl _

/-- Acks that leave their queues, and flags of ack queues. -/
theorem Flow.of_acks {k : Nat} {lv : Level}
    (shorter : ∀ i, (lv.ackQueue i).length ≤ ((s.level k).ackQueue i).length)
    (silent : (l = k → acks) ∨ lv.ackBankConflict = (s.level k).ackBankConflict)
    (reqQueue : lv.reqQueue = (s.level k).reqQueue := by rfl)
    (reqBankConflict : lv.reqBankConflict = (s.level k).reqBankConflict := by rfl) :
    Flow cfg l b enters acks s (s.setLevel k lv) := by
  by_cases here : l = k
  · subst here
    refine ⟨by simp, by simp [news, reqBankConflict], by simp [news], ?_, ?_,
      by simp [reqQueue], ?_⟩
    · refine silent.imp (· rfl) fun same => ⟨by simp [news], by simp [same]⟩
    · rw [setLevel_level, Function.update_self, reqQueue]
      exact fun p mem => .inl ⟨p.1, mem, rfl⟩
    · rw [setLevel_level, Function.update_self]
      exact (shorter b).trans
  · refine Calm.flow ⟨⟨[], by simp, by simp⟩, ?_, ?_, ?_, ?_⟩ <;>
      rw [setLevel_level, Function.update_of_ne here]

theorem callBack_flow (s : Cache) (i : Nat) : Flow cfg l b enters acks s (callBack s i).2 := by
  unfold callBack
  split
  · exact .refl s
  · refine .of_acks (fun j => ?_) (.inr rfl)
    by_cases same : j = i <;> simp [same]

theorem popAckQueue_flow (s : Cache) (k : Nat) :
    Flow cfg l b enters acks s (popAckQueue cfg s k).2 := by
  refine .of_acks (fun j => ?_) (.inr rfl)
  dsimp only
  split_ifs <;> simp

/-- An ack of one bank is no event of the others. -/
theorem pushAck_calm {k i : Nat} {r : CacheReq} (home : cfg.getCacheBank r.addr k = i)
    (other : ¬ (l = k ∧ b = i)) : Calm cfg l b s (pushAck s k i r) := by
  refine .record (.elsewhere other (by grind) (by grind) (by grind) (by grind)) rfl ?_
  simp only [answersBank, Bool.and_eq_false_iff, beq_eq_false_iff_ne]
  grind

theorem pushAck_flow {k i : Nat} {r : CacheReq}
    (room : ((s.level k).ackQueue i).length < (cfg.level k).ackQueueSizePerBank) :
    Flow cfg l b enters (l = k) s (pushAck s k i r) := by
  have grown := pushAck_history s k i r
  by_cases here : l = k
  · subst here
    refine ⟨⟨_, grown.symm⟩, ?_, .inr ?_, .inl rfl, ?_, by simp [pushAck], ?_⟩
    · rw [news_eq grown]
      simp [entries, entersBank, pushAck]
    · rw [news_eq grown]
      rfl
    · simp only [pushAck, record_level, setLevel_level, Function.update_self]
      exact fun p mem => .inl ⟨p.1, mem, rfl⟩
    · simp only [pushAck, record_level, setLevel_level, Function.update_self, Function.update_apply]
      split_ifs with same
      · subst same
        intro _
        simpa using room
      · exact id
  · refine Calm.flow (.record (.elsewhere (i := i) (fun both => here both.1) (by grind) (by grind)
      (by grind) (by grind)) rfl ?_)
    simp only [answersBank, Bool.and_eq_false_iff, beq_eq_false_iff_ne]
    grind

/-! ## Responses -/

variable (cfg l b) in
/-- A response enters only under the flag of the bank. -/
structure Replies (s t : Cache) : Prop where
  grows : s.history <+: t.history
  replied : responses cfg l b (news s t) + ((s.level l).ackBankConflict b).toNat ≤
    ((t.level l).ackBankConflict b).toNat

theorem Flow.replies (h : Flow cfg l b enters acks s t) (never : ¬ acks) : Replies cfg l b s t := by
  obtain ⟨none, same⟩ := h.silent.resolve_left never
  exact ⟨h.grows, by rw [none, same, Nat.zero_add]⟩

theorem Replies.refl (s : Cache) : Replies cfg l b s s := ⟨List.prefix_rfl, by simp⟩

theorem Replies.trans (first : Replies cfg l b s t) (second : Replies cfg l b t u) :
    Replies cfg l b s u := by
  refine ⟨first.grows.trans second.grows, ?_⟩
  have := first.replied
  have := second.replied
  rw [news_trans first.grows second.grows, responses_append]
  omega

/-- The flag of the bank goes up with the response. -/
theorem pushAck_replies {k i : Nat} {r : CacheReq} (home : cfg.getCacheBank r.addr k = i)
    (free : (s.level k).ackBankConflict i = false) {v : Cache}
    (flagged : v = s.setLevel k { s.level k with
      ackBankConflict := Function.update (s.level k).ackBankConflict i true }) :
    Replies cfg l b s (pushAck v k i r) := by
  have grown : (pushAck v k i r).history = s.history ++ [.acked k r] := by
    rw [pushAck_history, flagged, setLevel_history]
  by_cases here : l = k ∧ b = i
  · obtain ⟨rfl, rfl⟩ := here
    refine ⟨⟨_, grown.symm⟩, ?_⟩
    rw [news_eq grown, flagged]
    simp [responses, answersBank, pushAck, free, home]
  · have before : Calm cfg l b s v := flagged ▸
      .elsewhere here (by grind) (by grind) (by grind) (by grind)
    have flow : Flow cfg l b False False s (pushAck v k i r) :=
      (before.trans (pushAck_calm home here)).flow
    exact flow.replies id

theorem respond_ports (s : Cache) (k : Nat) (req : CacheReq) :
    Flow cfg l b enters (l = k) s (respond cfg s k req).2 ∧
      Replies cfg l b s (respond cfg s k req).2 := by
  unfold respond
  dsimp only
  split_ifs with op room
  · exact ⟨.refl s, .refl s⟩
  · have flagged : Flow cfg l b enters (l = k) s (s.setLevel k { s.level k with
        ackBankConflict := Function.update (s.level k).ackBankConflict
          (cfg.getCacheBank req.addr k) true }) := .of_acks (fun _ => le_rfl) (.inl id)
    refine ⟨flagged.trans (pushAck_flow ?_), pushAck_replies (r := { req with ready := true }) rfl room.1 rfl⟩
    simpa using room.2
  · exact ⟨.refl s, .refl s⟩

theorem respondAll_ports (k : Nat) (reqs : List (Nat × CacheReq)) (s : Cache) :
    Flow cfg l b enters (l = k) s (respondAll cfg s k reqs).2 ∧
      Replies cfg l b s (respondAll cfg s k reqs).2 := by
  induction reqs generalizing s with
  | nil => exact ⟨.refl s, .refl s⟩
  | cons head rest ih =>
    obtain ⟨id, req⟩ := head
    obtain ⟨flow, replies⟩ := respond_ports (l := l) (b := b) s k req
    rw [respondAll]
    split <;> rename_i u eq <;> rw [eq] at flow replies <;>
      exact ⟨flow.trans (ih u).1, replies.trans (ih u).2⟩

theorem respondMshr_ports (s : Cache) (k : Nat) :
    Flow cfg l b enters (l = k) s (respondMshr cfg s k) ∧
      Replies cfg l b s (respondMshr cfg s k) := by
  have calm (u : Cache) (m : Mshr) : Calm cfg l b u (u.setLevel k { u.level k with mshr := m }) :=
    .setLevel (.refl u)
  have quiet (u : Cache) (m : Mshr) :
      Replies cfg l b u (u.setLevel k { u.level k with mshr := m }) := by
    have flow : Flow cfg l b False False u (u.setLevel k { u.level k with mshr := m }) :=
      (calm u m).flow
    exact flow.replies id
  obtain ⟨flow, replies⟩ := respondAll_ports (l := l) (b := b) k
    (s.level k).mshr.peekMshrReadyEntry.1
    (s.setLevel k { s.level k with mshr := (s.level k).mshr.peekMshrReadyEntry.2 })
  exact ⟨((calm s _).flow.trans flow).trans (calm _ _).flow,
    ((quiet s _).trans replies).trans (quiet _ _)⟩

/-- A ready request that moves to the ack queue. -/
theorem sendReady_cases (s : Cache) (k i : Nat) :
    sendReady cfg k s i = s ∨
      ∃ r latency rest, (s.level k).reqQueue i = (r, latency) :: rest ∧ r.ready = true ∧
        (s.level k).ackBankConflict i = false ∧
        ((s.level k).ackQueue i).length < (cfg.level k).ackQueueSizePerBank ∧
        sendReady cfg k s i = pushAck (popReq s k i) k i r := by
  unfold sendReady
  dsimp only
  cases queue : (s.level k).reqQueue i with
  | nil => exact .inl rfl
  | cons head rest =>
    obtain ⟨r, latency⟩ := head
    dsimp only
    split_ifs with go
    · exact .inr ⟨r, latency, rest, rfl, go.1, go.2.1, go.2.2, rfl⟩
    · exact .inl rfl

theorem sendReady_flow (s : Cache) (k i : Nat) :
    Flow cfg l b enters (l = k) s (sendReady cfg k s i) := by
  obtain same | ⟨r, latency, rest, -, -, -, room, moved⟩ := sendReady_cases s k i
  · rw [same]
    exact .refl s
  · rw [moved]
    refine (popReq_flow s k i).trans (pushAck_flow ?_)
    rwa [(popReq_frame s k i k).1]

/-- The bank's own turn comes under its flag, and gives one response at most. -/
theorem sendReady_once (s : Cache) : responses cfg l b (news s (sendReady cfg l s b)) +
    ((s.level l).ackBankConflict b).toNat ≤ 1 := by
  obtain same | ⟨r, latency, rest, -, -, free, -, moved⟩ := sendReady_cases s l b
  · rw [same, news_self, responses_nil, Nat.zero_add]
    exact Bool.toNat_le _
  · have grown : (pushAck (popReq s l b) l b r).history = s.history ++ [.acked l r] := rfl
    rw [moved, news_eq grown, free]
    exact List.countP_le_length

/-- A bank holds its own requests only, so the turns of the others give it no response. -/
theorem sendReady_other (lined : Lined cfg s) {k i : Nat} (other : ¬ (l = k ∧ b = i)) :
    responses cfg l b (news s (sendReady cfg k s i)) = 0 ∧
      ((sendReady cfg k s i).level l).ackBankConflict b = (s.level l).ackBankConflict b := by
  obtain same | ⟨r, latency, rest, front, -, -, -, moved⟩ := sendReady_cases s k i
  · rw [same, news_self]
    exact ⟨rfl, rfl⟩
  · have home : cfg.getCacheBank r.addr k = i := lined.home k i r (by simp [Level.reqs, front])
    have popped : Calm cfg l b s (popReq s k i) :=
      .elsewhere other (by grind) (by grind) (by grind) (by grind)
    have flow : Flow cfg l b False False s (pushAck (popReq s k i) k i r) :=
      (popped.trans (pushAck_calm home other)).flow
    rw [moved]
    exact flow.silent.resolve_left id

/-! ## The functions of an update -/

/-- The functions between the reset of the flags and the count down of the latencies. -/
def Part.serves : Part → Prop
  | addTransaction _ | resetBankConflictRecorder | updateReqQueueLatency _ => False
  | _ => True

/-- The functions that give responses of the level. -/
def Part.responds (l : Nat) : Part → Prop
  | respondMshr k => l = k
  | sendReady k _ => l = k
  | _ => False

theorem Part.flow {p : Part} (serves : p.serves) (s : Cache) :
    Flow cfg l b (0 < l) (p.responds l) s (p.apply cfg s) := by
  have below {k : Nat} (next : l = k + 1 ∧ k < cfg.llc) : 0 < l := by omega
  cases p with
  | lookup k i => exact lookup_flow s k i
  | fillBlock addr k origin => exact (fillBlock_flow s addr k origin).mono below id
  | callBack i => exact callBack_flow s i
  | sendReq2Mem accept => exact (sendReq2Mem_calm accept s).flow
  | recordResponse addr k origin => exact Calm.flow (.record (.refl s))
  | setMshrEntryReady addr k => exact Calm.flow (.setLevel (.refl s))
  | popAckQueue k => exact popAckQueue_flow s k
  | respondMshr k => exact (respondMshr_ports s k).1
  | sendReady k i => exact sendReady_flow s k i
  | sendMshrOutstandingReqLevel k =>
    have sent : Flow cfg l b (l = k + 1 ∧ k < cfg.llc) False s
        (sendFills cfg s k ((s.level k).mshr.getOutstandingReq k)).2 := sendFills_flow k _ s
    exact (sent.mono below id).trans (Calm.setLevel (.refl _)).flow
  | nextBank k => exact Calm.flow (.setLevel (.refl s))
  | addTransaction req => exact serves.elim
  | resetBankConflictRecorder => exact serves.elim
  | updateReqQueueLatency clkAdd => exact serves.elim

theorem play_flow {ps : List Part} (serves : ∀ p ∈ ps, p.serves) (s : Cache) :
    Flow cfg l b (0 < l) True s (play cfg s ps) := by
  induction ps generalizing s with
  | nil => exact .refl s
  | cons p ps ih =>
    obtain ⟨here, rest⟩ := List.forall_mem_cons.mp serves
    exact ((Part.flow here s).mono id fun _ => trivial).trans (ih rest _)

/-- Only the MSHR of the level and the bank's own turn give it responses. -/
theorem Part.silent {p : Part} (serves : p.serves) (lined : Lined cfg s)
    (mshr : p ≠ .respondMshr l) (own : p ≠ .sendReady l b) :
    responses cfg l b (news s (p.apply cfg s)) = 0 ∧
      ((p.apply cfg s).level l).ackBankConflict b = (s.level l).ackBankConflict b := by
  have flow : Flow cfg l b (0 < l) (p.responds l) s (p.apply cfg s) := Part.flow serves s
  by_cases responds : p.responds l
  · cases p with
    | respondMshr k => exact absurd (congrArg Part.respondMshr responds.symm) mshr
    | sendReady k i =>
      refine sendReady_other lined fun ⟨level, bank⟩ => own ?_
      rw [level, bank]
    | _ => exact responds.elim
  · exact flow.silent.resolve_left responds

/-- All but the bank's own turn happen under the flag. -/
theorem Part.replies {p : Part} (serves : p.serves) (lined : Lined cfg s)
    (own : p ≠ .sendReady l b) : Replies cfg l b s (p.apply cfg s) := by
  by_cases mshr : p = .respondMshr l
  · subst mshr
    have ports : Flow cfg l b True (l = l) s (Cache.respondMshr cfg s l) ∧
      Replies cfg l b s (Cache.respondMshr cfg s l) := respondMshr_ports s l
    exact ports.2
  · obtain ⟨none, same⟩ := Part.silent serves lined mshr own
    have flow : Flow cfg l b (0 < l) (p.responds l) s (p.apply cfg s) := Part.flow serves s
    exact ⟨flow.grows, by rw [none, same, Nat.zero_add]⟩

variable (l b) in
/-- After the bank's own turn neither it nor the MSHR of the level has another one. -/
def TurnLast (p q : Part) : Prop :=
  p = .sendReady l b → q ≠ .respondMshr l ∧ q ≠ .sendReady l b

theorem play_silent {ports : Set Port} {ps : List Part} (stepwise : Stepwise cfg ports s ps)
    (traced : Traced cfg s) (lined : Lined cfg s) (serves : ∀ p ∈ ps, p.serves)
    (never : ∀ p ∈ ps, p ≠ .respondMshr l ∧ p ≠ .sendReady l b) :
    responses cfg l b (news s (play cfg s ps)) = 0 := by
  induction ps generalizing s with
  | nil => rw [play_nil, news_self, responses_nil]
  | cons p ps ih =>
    obtain ⟨here, later⟩ := List.forall_mem_cons.mp serves
    obtain ⟨⟨mshr, own⟩, none⟩ := List.forall_mem_cons.mp never
    obtain ⟨traced', lined'⟩ := stepwise.1.lined traced lined
    rw [play_cons, news_trans stepwise.1.history_grows stepwise.2.steps.history_grows,
      responses_append, (Part.silent here lined mshr own).1,
      ih stepwise.2 traced' lined' later none]

/-- Under the order of the functions, each bank gets one response at most. -/
theorem play_responses {ports : Set Port} {ps : List Part} (stepwise : Stepwise cfg ports s ps)
    (traced : Traced cfg s) (lined : Lined cfg s) (serves : ∀ p ∈ ps, p.serves)
    (order : ps.Pairwise (TurnLast l b)) :
    responses cfg l b (news s (play cfg s ps)) + ((s.level l).ackBankConflict b).toNat ≤ 1 := by
  induction ps generalizing s with
  | nil =>
    rw [play_nil, news_self, responses_nil, Nat.zero_add]
    exact Bool.toNat_le _
  | cons p ps ih =>
    obtain ⟨here, later⟩ := List.forall_mem_cons.mp serves
    obtain ⟨last, order⟩ := List.pairwise_cons.mp order
    obtain ⟨traced', lined'⟩ := stepwise.1.lined traced lined
    rw [play_cons, news_trans stepwise.1.history_grows stepwise.2.steps.history_grows,
      responses_append]
    by_cases own : p = .sendReady l b
    · -- the bank's own turn: nothing follows it
      have none := play_silent stepwise.2 traced' lined' later fun q mem => last q mem own
      subst own
      have one : responses cfg l b (news s ((Part.sendReady l b).apply cfg s)) +
        ((s.level l).ackBankConflict b).toNat ≤ 1 := sendReady_once s
      omega
    · have first := (Part.replies here lined own).replied
      have rest := ih stepwise.2 traced' lined' later order
      omega

/-! ## The order of the functions -/

theorem upperParts_mem {p : Part} {k : Nat} (mem : p ∈ upperParts cfg s k) :
    p.serves ∧ ¬ p.responds l := by
  unfold upperParts at mem
  split_ifs at mem
  · obtain rfl | filled := List.mem_cons.mp mem
    · exact ⟨trivial, id⟩
    · obtain ⟨req, -, mem⟩ := List.mem_flatMap.mp filled
      unfold fillUpperParts at mem
      split_ifs at mem <;> simp only [List.mem_cons, List.not_mem_nil, or_false] at mem
      · obtain rfl | rfl := mem <;> exact ⟨trivial, id⟩
      · obtain rfl | rfl | rfl := mem <;> exact ⟨trivial, id⟩
  · simp at mem

theorem ackParts_mem {p : Part} {k : Nat} (mem : p ∈ ackParts cfg s k) :
    p.serves ∧ (p.responds l → l = k) := by
  simp only [ackParts, List.mem_append, List.mem_cons, List.mem_map] at mem
  obtain upper | rfl | ⟨i, -, rfl⟩ := mem
  · obtain ⟨serves, never⟩ := upperParts_mem (l := l) upper
    exact ⟨serves, fun responds => absurd responds never⟩
  · exact ⟨trivial, id⟩
  · exact ⟨trivial, id⟩

theorem queueParts_mem {p : Part} {k : Nat} (mem : p ∈ queueParts cfg s k) :
    p.serves ∧ ¬ p.responds l := by
  have looked (ptr : Nat) (banks : List Nat) (s : Cache)
      (mem : p ∈ lookupParts cfg s k ptr banks) : p.serves ∧ ¬ p.responds l := by
    induction banks generalizing s with
    | nil => simp [lookupParts] at mem
    | cons i banks ih =>
      rw [lookupParts] at mem
      split_ifs at mem
      · obtain rfl | later := List.mem_cons.mp mem
        · exact ⟨trivial, id⟩
        · exact ih _ later
      · simp at mem
  obtain look | last := List.mem_append.mp mem
  · exact looked _ _ _ look
  · obtain rfl := List.mem_singleton.mp last
    exact ⟨trivial, id⟩

/-- The bank's own turn comes after that of the MSHR. -/
theorem ackParts_order (s : Cache) (k : Nat) : (ackParts cfg s k).Pairwise (TurnLast l b) := by
  have turns : ((List.range (cfg.level k).bankNum).map (Part.sendReady k)).Pairwise
      (TurnLast l b) := by
    refine List.pairwise_map.mpr (List.nodup_range.imp fun {i j} ne own => ⟨by simp, ?_⟩)
    simp only [Part.sendReady.injEq] at own
    simp only [ne_eq, Part.sendReady.injEq]
    omega
  refine List.pairwise_append.mpr ⟨List.pairwise_of_forall_mem_list ?_,
    List.pairwise_cons.mpr ⟨fun q _ own => by simp at own, turns⟩, ?_⟩
  · rintro p mem q - rfl
    exact absurd rfl (upperParts_mem (l := l) mem).2
  · rintro p mem q - rfl
    exact absurd rfl (upperParts_mem (l := l) mem).2

theorem ackRounds_order {levels : List Nat} (distinct : levels.Nodup) (s : Cache) :
    (roundParts cfg (ackParts cfg) s levels).Pairwise (TurnLast l b) := by
  induction levels generalizing s with
  | nil => exact .nil
  | cons k levels ih =>
    obtain ⟨fresh, distinct⟩ := List.nodup_cons.mp distinct
    refine List.pairwise_append.mpr ⟨ackParts_order s k, ih distinct _, ?_⟩
    rintro p mem q later rfl
    obtain rfl : l = k := (ackParts_mem mem).2 rfl
    obtain ⟨k, listed, u, found⟩ := mem_roundParts later
    have elsewhere : ¬ q.responds l := fun responds =>
      fresh ((ackParts_mem found).2 responds ▸ listed)
    constructor <;> rintro rfl <;> exact elsewhere rfl

/-- An update resets the flags, then serves the banks in an order that gives each of them one
response at most. -/
theorem serveParts_cons (cfg : Config) (s : Cache) :
    ∃ rest, serveParts cfg s = .resetBankConflictRecorder :: rest ∧ (∀ p ∈ rest, p.serves) ∧
      ∀ l b, rest.Pairwise (TurnLast l b) := by
  refine ⟨_, rfl, fun p mem => ?_, fun l b => ?_⟩
  · simp only [List.append_eq, List.mem_append, List.mem_map] at mem
    obtain (acks | ⟨k, -, rfl⟩) | lookups := mem
    · obtain ⟨k, -, u, found⟩ := mem_roundParts acks
      exact (ackParts_mem (l := 0) found).1
    · trivial
    · obtain ⟨k, -, u, found⟩ := mem_roundParts lookups
      exact (queueParts_mem (l := 0) found).1
  · have quiet {p q : Part} (never : ¬ q.responds l) : TurnLast l b p q := by
      intro own
      constructor <;> rintro rfl <;> exact never rfl
    have acks : (roundParts cfg (ackParts cfg) (resetBankConflictRecorder cfg s)
        (List.range cfg.cacheMaxLevel).reverse).Pairwise (TurnLast l b) :=
      ackRounds_order (List.nodup_reverse.mpr List.nodup_range) _
    have sent (p q : Part) (mem : q ∈ (List.range cfg.cacheMaxLevel).map
        Part.sendMshrOutstandingReqLevel) : TurnLast l b p q := by
      obtain ⟨k, -, rfl⟩ := List.mem_map.mp mem
      exact quiet id
    have looked (u : Cache) (is : List Nat) (p q : Part)
        (mem : q ∈ roundParts cfg (queueParts cfg) u is) : TurnLast l b p q := by
      obtain ⟨k, -, v, found⟩ := mem_roundParts mem
      exact quiet (queueParts_mem found).2
    refine List.pairwise_append.mpr ⟨List.pairwise_append.mpr ⟨acks,
      List.pairwise_of_forall_mem_list fun p _ q mem => sent p q mem, fun p _ q mem => sent p q mem⟩,
      List.pairwise_of_forall_mem_list fun p _ q mem => looked _ _ p q mem,
      fun p _ q mem => looked _ _ p q mem⟩

/-! ## Sizes and latencies -/

variable (cfg) in
/-- No queue of a bank is longer than it was configured. -/
structure Sized (s : Cache) : Prop where
  reqQueue : ∀ l b, ((s.level l).reqQueue b).length ≤ (cfg.level l).reqQueueSizePerBank
  ackQueue : ∀ l b, ((s.level l).ackQueue b).length ≤ (cfg.level l).ackQueueSizePerBank

variable (cfg) in
/-- Of the latency of a request that entered after the first `n` events, at most `j` clocks
have passed. -/
def Aged (n j : Nat) (s : Cache) : Prop :=
  ∀ l b, ∀ p ∈ (s.level l).reqQueue b, n ≤ p.1.stamp → (cfg.level l).accessLatency ≤ p.2 + j

theorem init_sized : Sized cfg (init cfg) := by
  refine ⟨fun l b => by simp [init], fun l b => ?_⟩
  simp only [init]
  split_ifs <;> simp

theorem Sized.flow {e : Nat → Prop} (h : Sized cfg s)
    (flow : ∀ l b, Flow cfg l b (e l) True s t) : Sized cfg t :=
  ⟨fun l b => (flow l b).reqRoom (h.reqQueue l b), fun l b => (flow l b).ackRoom (h.ackQueue l b)⟩

theorem Aged.flow {e : Nat → Prop} {n j : Nat} (h : Aged cfg n j s)
    (flow : ∀ l b, Flow cfg l b (e l) True s t) : Aged cfg n j t := by
  intro l b p mem later
  obtain ⟨r, old, stamp⟩ | new := (flow l b).reqs p mem
  · exact h l b (r, p.2) old (later.trans_eq stamp.symm)
  · omega

theorem reset_reqQueue (s : Cache) (l : Nat) :
    ((resetBankConflictRecorder cfg s).level l).reqQueue = (s.level l).reqQueue ∧
      ((resetBankConflictRecorder cfg s).level l).ackQueue = (s.level l).ackQueue := by
  unfold resetBankConflictRecorder
  dsimp only
  split_ifs <;> exact ⟨rfl, rfl⟩

theorem Sized.reset (h : Sized cfg s) : Sized cfg (resetBankConflictRecorder cfg s) :=
  ⟨fun l b => by rw [(reset_reqQueue s l).1]; exact h.reqQueue l b,
    fun l b => by rw [(reset_reqQueue s l).2]; exact h.ackQueue l b⟩

theorem Aged.reset {n j : Nat} (h : Aged cfg n j s) :
    Aged cfg n j (resetBankConflictRecorder cfg s) := by
  intro l b p mem
  rw [(reset_reqQueue s l).1] at mem
  exact h l b p mem

theorem Sized.countDown (h : Sized cfg s) : Sized cfg (updateReqQueueLatency cfg s true) := by
  refine ⟨fun l b => ?_, fun l b => ?_⟩ <;> simp only [updateReqQueueLatency, ↓reduceIte] <;>
    split_ifs
  · simpa using h.reqQueue l b
  · exact h.reqQueue l b
  · exact h.ackQueue l b
  · exact h.ackQueue l b

/-- One more clock has passed. -/
theorem Aged.countDown {n j : Nat} (h : Aged cfg n j s) :
    Aged cfg n (j + 1) (updateReqQueueLatency cfg s true) := by
  intro l b p mem later
  simp only [updateReqQueueLatency, ↓reduceIte] at mem
  split_ifs at mem
  · obtain ⟨q, old, rfl⟩ := List.mem_map.mp mem
    have := h l b q old later
    dsimp only
    omega
  · have := h l b p mem later
    omega

/-- Nothing has entered since the present event. -/
theorem Lined.aged (lined : Lined cfg s) : Aged cfg s.history.length 0 s := by
  intro l b p mem later
  have := lined.entered l b p.1 (List.mem_map_of_mem mem)
  omega

/-! ## One clock -/

theorem makeCalls_flow {calls : List Call} (made : makeCalls cfg s calls = some t) :
    Flow cfg l b (l = 0) False s t := by
  unfold makeCalls at made
  rw [List.foldlM_map] at made
  refine Run.related Flow.refl Flow.trans (fun u call v stepped => ?_) made
  cases call with
  | addTransaction req =>
    obtain rfl := Option.some.inj stepped
    cases sent : addTransaction cfg u { req with ready := false, origin := .core } with
    | none => exact .refl u
    | some v =>
      obtain ⟨room, free, rfl⟩ := sendReq2CacheBank_eq_some.mp sent
      exact enqueue_flow room free
  | callBack ackQueueId => exact Option.some.inj stepped ▸ callBack_flow u ackQueueId
  | complete i =>
    simp only [Call.op, step] at stepped
    split at stepped
    case h_2 => simp at stepped
    case h_1 req found =>
      have answered : Calm cfg l b u (recordResponse cfg u req.addr cfg.llc req.origin) :=
        .record (.refl u)
      have filled : Flow cfg l b (l = cfg.llc + 1 ∧ cfg.llc < cfg.llc) False
          (recordResponse cfg u req.addr cfg.llc req.origin)
          (fillBlock cfg (recordResponse cfg u req.addr cfg.llc req.origin) req.addr cfg.llc
            req.origin).2 := fillBlock_flow _ _ _ _
      unfold memReqComplete at stepped
      split at stepped
      case h_2 => simp at stepped
      case h_1 w eq =>
        obtain rfl := Option.some.inj stepped
        rw [eq] at filled
        refine (answered.flow.trans (filled.mono (fun never => ?_) id)).trans
          (Calm.setLevel (.refl w)).flow
        exact absurd never.2 (lt_irrefl _)

variable (cfg) in
/-- The state is one that the clock goes through: between two calls, between two functions of
the update, or at the end. -/
inductive Visits (s : Cache) (c : ClockInput) : Cache → Prop where
  | call {calls : List Call} {u : Cache} (some_calls : calls <+: c.calls)
      (made : makeCalls cfg s calls = some u) : Visits s c u
  | update {parts : List Part} {u : Cache} (made : makeCalls cfg s c.calls = some u)
      (some_parts : parts <+: updateParts cfg u) : Visits s c (play cfg u parts)
  | finish {t : Cache} (done : clock cfg s c = some t) : Visits s c t

variable (cfg) in
/-- In the clock the bank looks up the request; `hit` tells whether it finds the block. -/
inductive LooksUp (s : Cache) (c : ClockInput) (l b : Nat) (r : CacheReq) (hit : Bool) : Prop where
  | intro {u : Cache} {before after : List Part} {rest : List (CacheReq × Nat)}
      (made : makeCalls cfg s c.calls = some u)
      (turn : updateParts cfg u = before ++ .lookup l b :: after)
      (front : ((play cfg u before).level l).reqQueue b = (r, 0) :: rest)
      (waits : r.ready = false)
      (found : (checkCacheHit cfg (play cfg u before) (setBase cfg r.addr l) r.addr l).isSome = hit)

/-- The update as the reset of the flags, the functions that serve the banks, and the count
down of the latencies. -/
theorem update_shape (cfg : Config) (u : Cache) :
    ∃ parts, updateParts cfg u =
        .resetBankConflictRecorder :: (parts ++ [.updateReqQueueLatency true]) ∧
      (∀ p ∈ parts, p.serves) ∧ (∀ l b, parts.Pairwise (TurnLast l b)) ∧
      cacheUpdate cfg u true =
        updateReqQueueLatency cfg (play cfg (resetBankConflictRecorder cfg u) parts) true := by
  obtain ⟨parts, split, serves, order⟩ := serveParts_cons cfg u
  have shape : updateParts cfg u =
      .resetBankConflictRecorder :: (parts ++ [.updateReqQueueLatency true]) := by
    rw [updateParts, split, List.cons_append]
  refine ⟨parts, shape, serves, order, ?_⟩
  rw [← play_updateParts, shape, play_cons, play_append]
  rfl

theorem clock_counts (recorded : AcksRecorded s) (traced : Traced cfg s) (lined : Lined cfg s)
    {c : ClockInput} (done : clock cfg s c = some t) (l b : Nat) :
    entries cfg l b (news s t) ≤ 1 ∧ responses cfg l b (news s t) ≤ 1 := by
  obtain ⟨u, made, rfl⟩ := clock_eq_some.mp done
  obtain ⟨parts, shape, serves, order, updated⟩ := update_shape cfg u
  have calls : Flow cfg l b (l = 0) False s u := makeCalls_flow made
  have steps : Steps cfg Set.univ s u := ops_steps recorded made
  obtain ⟨traced, lined⟩ := steps.lined traced lined
  have stepwise : Stepwise cfg Set.univ u (updateParts cfg u) :=
    updateParts_stepwise (steps.acksRecorded recorded)
  rw [shape] at stepwise
  obtain ⟨reset, stepwise⟩ := stepwise
  obtain ⟨traced, lined⟩ := reset.lined traced lined
  have stepwise := (stepwise_append.mp stepwise).1
  have served : Flow cfg l b (0 < l) True (resetBankConflictRecorder cfg u)
      (play cfg (resetBankConflictRecorder cfg u) parts) := play_flow serves _
  have answered : responses cfg l b (news (resetBankConflictRecorder cfg u)
        (play cfg (resetBankConflictRecorder cfg u) parts)) +
      (((resetBankConflictRecorder cfg u).level l).ackBankConflict b).toNat ≤ 1 :=
    play_responses stepwise traced lined serves (order l b)
  rw [updated]
  generalize play cfg (resetBankConflictRecorder cfg u) parts = w at served answered
  have sent : Flow cfg l b False False (updateReqQueueLatency cfg w true)
      (sendReq2Mem (updateReqQueueLatency cfg w true) c.accept) := (sendReq2Mem_calm _ _).flow
  -- neither the reset of the flags nor the count down of the latencies is an event
  have split : news s (sendReq2Mem (updateReqQueueLatency cfg w true) c.accept) =
      news s u ++ (news (resetBankConflictRecorder cfg u) w ++
        news (updateReqQueueLatency cfg w true)
          (sendReq2Mem (updateReqQueueLatency cfg w true) c.accept)) := by
    have later : u.history <+: (updateReqQueueLatency cfg w true).history := served.grows
    rw [news_trans calls.grows (later.trans sent.grows), news_trans later sent.grows]
    rfl
  rw [split, entries_append, entries_append, responses_append, responses_append,
    sent.closed.resolve_left id, (sent.silent.resolve_left id).1,
    (calls.silent.resolve_left id).1]
  have := calls.entered
  have := served.entered
  have := Bool.toNat_le ((u.level l).reqBankConflict b)
  have := Bool.toNat_le ((w.level l).reqBankConflict b)
  refine ⟨?_, by omega⟩
  obtain first | none := calls.closed
  · have := served.closed.resolve_left (by omega)
    omega
  · omega

theorem Sized.calls {calls : List Call} (h : Sized cfg s)
    (made : makeCalls cfg s calls = some t) : Sized cfg t :=
  h.flow fun _ _ => (makeCalls_flow made).mono id fun _ => trivial

theorem Sized.clock {c : ClockInput} (h : Sized cfg s) (done : clock cfg s c = some t) :
    Sized cfg t := by
  obtain ⟨u, made, rfl⟩ := clock_eq_some.mp done
  obtain ⟨parts, -, serves, -, updated⟩ := update_shape cfg u
  rw [updated]
  have served := ((h.calls made).reset.flow fun _ _ => play_flow serves _).countDown
  exact served.flow (e := fun _ => False) fun _ _ => (sendReq2Mem_calm _ _).flow

/-- The queues keep to their sizes at every point of a clock. -/
theorem Visits.sized {c : ClockInput} (visits : Visits cfg s c u) (h : Sized cfg s) :
    Sized cfg u := by
  cases visits with
  | call some_calls made => exact h.calls made
  | @update parts u made some_parts =>
    have called := h.calls made
    obtain ⟨all, shape, serves, -, updated⟩ := update_shape cfg u
    rw [shape] at some_parts
    obtain rfl | ⟨parts, rfl, later⟩ := List.prefix_cons_iff.mp some_parts
    · exact called
    · obtain rfl | served := List.prefix_concat_iff.mp later
      · rw [play_cons, play_append]
        exact (called.reset.flow fun _ _ => play_flow serves _).countDown
      · exact called.reset.flow fun _ _ => play_flow (fun p mem => serves p (served.subset mem)) _
  | finish done => exact h.clock done

/-! ## Latencies over many clocks -/

theorem Aged.calls {n j : Nat} {calls : List Call} (h : Aged cfg n j s)
    (made : makeCalls cfg s calls = some t) : Aged cfg n j t :=
  h.flow fun _ _ => (makeCalls_flow made).mono id fun _ => trivial

theorem Aged.clock {n j : Nat} {c : ClockInput} (h : Aged cfg n j s)
    (done : clock cfg s c = some t) : Aged cfg n (j + 1) t := by
  obtain ⟨u, made, rfl⟩ := clock_eq_some.mp done
  obtain ⟨parts, -, serves, -, updated⟩ := update_shape cfg u
  rw [updated]
  have served := ((h.calls made).reset.flow fun _ _ => play_flow serves _).countDown
  exact served.flow (e := fun _ => False) fun _ _ => (sendReq2Mem_calm _ _).flow

theorem Aged.clocks {n j : Nat} {cs : List ClockInput} (h : Aged cfg n j s)
    (done : cs.foldlM (Cache.clock cfg) s = some t) : Aged cfg n (j + cs.length) t := by
  induction cs generalizing s j with
  | nil => exact Run.nil_eq_some.mp done ▸ h
  | cons c cs ih =>
    obtain ⟨u, first, rest⟩ := Run.cons_eq_some.mp done
    have := ih (h.clock first) rest
    rwa [List.length_cons, Nat.add_comm cs.length, ← Nat.add_assoc]

/-- A look up comes after the reset of the flags and before the latencies count down. -/
theorem lookup_turn {before after parts : List Part} {b : Nat}
    (turn : .resetBankConflictRecorder :: (parts ++ [.updateReqQueueLatency true]) =
      before ++ .lookup l b :: after) :
    ∃ served, before = .resetBankConflictRecorder :: served ∧ served <+: parts := by
  cases before with
  | nil => simp at turn
  | cons p before =>
    simp only [List.cons_append, List.cons.injEq] at turn
    obtain ⟨rfl, turn⟩ := turn
    refine ⟨before, rfl, ?_⟩
    have some_parts : before ++ [.lookup l b] <+: parts ++ [.updateReqQueueLatency true] :=
      ⟨after, by rw [turn, List.append_assoc, List.singleton_append]⟩
    obtain whole | inner := List.prefix_concat_iff.mp some_parts
    · have last := (List.append_inj' whole rfl).2
      simp at last
    · exact (List.prefix_append before _).trans inner

theorem Aged.looksUp {n j : Nat} {c : ClockInput} {r : CacheReq} {hit : Bool} (h : Aged cfg n j s)
    (looks : LooksUp cfg s c l b r hit) (later : n ≤ r.stamp) :
    (cfg.level l).accessLatency ≤ j := by
  obtain ⟨made, turn, front, -, -⟩ := looks
  obtain ⟨parts, shape, serves, -, -⟩ := update_shape cfg _
  rw [shape] at turn
  obtain ⟨served, rfl, some_parts⟩ := lookup_turn turn
  have aged := (h.calls made).reset.flow
    fun _ _ => play_flow (fun p mem => serves p (some_parts.subset mem)) _
  have := aged l b (r, 0) (front ▸ List.mem_cons_self) later
  omega

/-! ## The law -/

theorem lookup_hit {s : Cache} {r : CacheReq} {rest : List (CacheReq × Nat)}
    (front : (s.level l).reqQueue b = (r, 0) :: rest) (waits : r.ready = false)
    (found : (checkCacheHit cfg s (setBase cfg r.addr l) r.addr l).isSome = true) :
    ∃ others, ((lookup cfg s l b).level l).reqs b = { r with ready := true } :: others := by
  have readied (u : Cache) (same : (u.level l).reqQueue b = (s.level l).reqQueue b) :
      ∃ others, ((countHit (setFrontReady u l b) l).level l).reqs b =
        { r with ready := true } :: others :=
    ⟨rest.map Prod.fst, by simp [countHit, setFrontReady, Level.reqs, same, front]⟩
  obtain ⟨index, resident⟩ := Option.isSome_iff_exists.mp found
  unfold lookup
  rw [front]
  simp only [waits, and_self, ↓reduceIte, resident]
  split_ifs
  · cases (cfg.level l).writeStrategy with
    | WRITE_BACK => exact readied _ (by simp [setDirty])
    | WRITE_THROUGH =>
      have calm : Calm cfg l b s (missToMshr cfg s r l) := missToMshr_calm s r l
      exact readied _ calm.reqQueue
  · exact readied s rfl

/-- What is known after any number of clocks. -/
structure Served (cfg : Config) (s : Cache) : Prop where
  recorded : AcksRecorded s
  traced : Traced cfg s
  lined : Lined cfg s
  stamped : Stamped s.history
  sized : Sized cfg s

theorem init_served : Served cfg (init cfg) :=
  ⟨init_acksRecorded, init_traced, init_lined, by simp [Stamped, init], init_sized⟩

theorem Served.clock {c : ClockInput} (h : Served cfg s) (done : clock cfg s c = some t) :
    Served cfg t := by
  have steps : Steps cfg Set.univ s t := ops_steps h.recorded done
  obtain ⟨traced, lined⟩ := steps.lined h.traced h.lined
  exact ⟨steps.acksRecorded h.recorded, traced, lined, steps.stamped h.stamped, h.sized.clock done⟩

theorem clocks_served {cs : List ClockInput} (done : clocks cfg cs = some s) : Served cfg s :=
  Run.invariant (fun _ _ _ h stepped => h.clock stepped) init_served done

theorem Served.entered_stamp (h : Served cfg t) {r : CacheReq} (mem : .accepted l r ∈ news s t) :
    s.history.length ≤ r.stamp := by
  obtain ⟨i, found⟩ := List.getElem?_of_mem mem
  rw [news, List.getElem?_drop] at found
  rw [h.stamped _ l r found]
  omega

theorem Served.hit_inOrder {c : ClockInput} {r q : CacheReq} {j : Nat} (h : Served cfg s)
    (now : Cache.clock cfg s c = some t) (looks : LooksUp cfg s c l b r true)
    (steps : Steps cfg Set.univ t u) (acked : u.history[j]? = some (.acked l q))
    (home : cfg.getCacheBank q.addr l = b) (later : r.stamp < q.stamp) :
    ∃ i < j, u.history[i]? = some (.acked l { r with ready := true }) := by
  obtain @⟨v, before, after, rest, made, turn, front, waits, found⟩ := looks
  have called : Steps cfg Set.univ s v := ops_steps h.recorded made
  have stepwise : Stepwise cfg Set.univ v (updateParts cfg v) :=
    updateParts_stepwise (called.acksRecorded h.recorded)
  have updated : play cfg v (updateParts cfg v) = cacheUpdate cfg v true := play_updateParts v
  rw [turn] at stepwise updated
  obtain ⟨first, look, last⟩ := stepwise_append.mp stepwise
  -- the look up leaves the request ready at the head of its bank
  obtain ⟨others, ready⟩ := lookup_hit front waits found
  have reached : Steps cfg Set.univ s _ := called.trans (first.steps.trans look)
  obtain ⟨traced, lined⟩ := reached.lined h.traced h.lined
  have finish : Steps cfg Set.univ (cacheUpdate cfg v true) t := by
    obtain ⟨w, made', rfl⟩ := clock_eq_some.mp now
    obtain rfl := Option.some.inj (made.symm.trans made')
    exact sendReq2Mem_steps cfg (Set.mem_univ _) _ _
  rw [play_append, play_cons] at updated
  have onwards : Steps cfg Set.univ _ u := (updated ▸ last.steps).trans (finish.trans steps)
  exact onwards.acks_inOrder traced lined rfl ready acked home later

theorem Served.latency {cs post : List ClockInput} {c d : ClockInput} {pre : List ClockInput}
    {r : CacheReq} {hit : Bool} {v : Cache} (before : clocks cfg cs = some s)
    (looks : LooksUp cfg s c l b r hit) (order : cs ++ [c] = pre ++ d :: post)
    (start : clocks cfg pre = some u) (entered : Cache.clock cfg u d = some v)
    (mem : .accepted l r ∈ news u v) : pre.length + (cfg.level l).accessLatency ≤ cs.length := by
  have served : Served cfg u := clocks_served start
  obtain ⟨mid, rfl⟩ : pre <+: cs := by
    obtain whole | inner := List.prefix_concat_iff.mp (order ▸ List.prefix_append pre (d :: post))
    · simp [whole] at order
    · exact inner
  obtain ⟨u', first, between⟩ := Run.append_eq_some.mp before
  obtain rfl := Option.some.inj (start.symm.trans first)
  have := (served.lined.aged.clocks between).looksUp looks
    ((served.clock entered).entered_stamp mem)
  rw [List.length_append]
  omega

/-- In every run of the cache hierarchy, in each clock: each bank takes one request and gives one
response at most; at no point of the clock is a queue of a bank longer than it was configured;
a request that a bank looks up entered at least the access latency of its level in clocks
before; and where a request is found by its look up, acks of requests that entered the bank
after it come after its own. -/
theorem bank_ports {cs : List ClockInput} {c : ClockInput} (before : clocks cfg cs = some s)
    (now : clock cfg s c = some t) :
    (∀ l b, entries cfg l b (news s t) ≤ 1 ∧ responses cfg l b (news s t) ≤ 1) ∧
    (∀ u, Visits cfg s c u → Sized cfg u) ∧
    (∀ l b r hit, LooksUp cfg s c l b r hit → ∀ pre d post u v, cs ++ [c] = pre ++ d :: post →
      clocks cfg pre = some u → clock cfg u d = some v → .accepted l r ∈ news u v →
        pre.length + (cfg.level l).accessLatency ≤ cs.length) ∧
    ∀ l b r, LooksUp cfg s c l b r true → ∀ (later : List ClockInput) (u : Cache),
      later.foldlM (clock cfg) t = some u → ∀ (i₁ i₂ j : Nat) (q : CacheReq),
        u.history[i₁]? = some (.accepted l r) → u.history[i₂]? = some (.accepted l q) →
        cfg.getCacheBank q.addr l = b → i₁ < i₂ →
        u.history[j]? = some (.acked l { q with ready := true }) →
          ∃ i < j, u.history[i]? = some (.acked l { r with ready := true }) := by
  have served : Served cfg s := clocks_served before
  refine ⟨clock_counts served.recorded served.traced served.lined now,
    fun u visits => visits.sized served.sized,
    fun l b r hit looks pre d post u v order start entered mem =>
      Served.latency before looks order start entered mem,
    fun l b r looks later u run i₁ i₂ j q first second home order acked => ?_⟩
  have steps : Steps cfg Set.univ t u := clocks_steps (served.clock now).recorded run
  have stamped := steps.stamped (served.clock now).stamped
  refine served.hit_inOrder now looks steps acked home ?_
  rw [stamped i₁ l r first]
  exact order.trans_eq (stamped i₂ l q second).symm

/-- The memory completes the default transaction, which brings block 0, and two reads of that
block enter the bank, one in each clock. The first of them is found, and is acknowledged in the
fourth clock. -/
theorem bank_ports_tiny :
    let cs : List ClockInput := [⟨[], [true]⟩,
      ⟨[.complete 0, .callBack 0, .callBack 0, .addTransaction { valid := true, addr := 0 }], []⟩,
      ⟨[.addTransaction { valid := true, addr := 4 }], []⟩]
    ∃ s t, clocks tiny cs = some s ∧ clock tiny s ⟨[], []⟩ = some t ∧
      entries tiny 0 0 (news s t) = 0 ∧ responses tiny 0 0 (news s t) = 1 ∧
      (∀ u, Visits tiny s ⟨[], []⟩ u → Sized tiny u) := by
  intro cs
  have shape : ((clocks tiny cs).bind fun s => (clock tiny s ⟨[], []⟩).map fun t =>
      (entries tiny 0 0 (news s t), responses tiny 0 0 (news s t))) = some (0, 1) := by
    decide +kernel
  simp only [Option.bind_eq_some_iff, Option.map_eq_some_iff, Prod.mk.injEq] at shape
  obtain ⟨s, before, t, now, entered, answered⟩ := shape
  exact ⟨s, t, before, now, entered, answered, (bank_ports before now).2.1⟩

end DataflowSim.Memory.Cache
