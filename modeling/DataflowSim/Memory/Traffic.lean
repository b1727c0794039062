import DataflowSim.Memory.Hierarchy

/-!
# The traffic to the memory

The transactions of a run, those that the memory has got and those that wait for it, are the
default elements that `Cache::init` leaves in the queue and then the fills and write-backs of
the last level, each made once.
-/

namespace DataflowSim.Memory.Cache

variable {cfg : Config} {ports : Set Port} {s t : Cache}

/-- The transactions made so far, in order. -/
def transactions (s : Cache) : List MemReq := sentReqs s.history ++ s.reqQueue2Mem

/-- The transaction is the fill of a miss for which the last level opened an MSHR entry, or the
write-back of a dirty line of the last level. -/
def JustifiedTx (cfg : Config) (s : Cache) (r : MemReq) : Prop :=
  (∃ a q, r.origin = .fill cfg.llc a ∧ .allocated cfg.llc q a ∈ s.history ∧
      cfg.getCacheBlockId r.addr cfg.llc = cfg.getCacheBlockId q.addr cfg.llc) ∨
    ∃ k i line, r.origin = .writeBack cfg.llc k ∧ line.dirty = true ∧
      .evicted cfg.llc i line r.addr ∈ s.history

/-- Every transaction that the memory has got is justified, no allocation and no victim
accounts for two of them, and the counter counts them. -/
def OnlyJustified (cfg : Config) (s : Cache) : Prop :=
  (∀ r ∈ sentReqs s.history, JustifiedTx cfg s r) ∧
    ((sentReqs s.history).map (·.origin)).Nodup ∧
    s.memAccessCnt = (sentReqs s.history).length

theorem JustifiedTx.mono {r : MemReq} (h : JustifiedTx cfg s r) (step : Step cfg ports s t) :
    JustifiedTx cfg t r := by
  obtain ⟨a, q, origin, opened, block⟩ | ⟨k, i, line, origin, dirty, evicted⟩ := h
  · exact .inl ⟨a, q, origin, step.history_grows.subset opened, block⟩
  · exact .inr ⟨k, i, line, origin, dirty, step.history_grows.subset evicted⟩

/-- The accounting invariant: `made` lists the transactions after the default elements. -/
structure Accounted (cfg : Config) (s : Cache) (made : List MemReq) : Prop where
  order : transactions s = List.replicate (cfg.level cfg.llc).bankNum ({} : MemReq) ++ made
  justified : ∀ r ∈ made, JustifiedTx cfg s r
  once : (made.map (·.origin)).Nodup
  fills : ∀ a, .fill cfg.llc a ∈ made.map (·.origin) → a < (s.level cfg.llc).mshr.allocated.length
  pending : ∀ id, ((s.level cfg.llc).mshr.mshrTable id).valid = true →
    ((s.level cfg.llc).mshr.mshrTable id).outstanding = true →
    .fill cfg.llc ((s.level cfg.llc).mshr.mshrTable id).alloc ∉ made.map (·.origin)
  victims : ∀ k, .writeBack cfg.llc k ∈ made.map (·.origin) → k < s.cacheWMemoryCount
  opened : ∀ l a b, (s.level l).mshr.allocated[a]? = some b →
    ∃ q, .allocated l q a ∈ s.history ∧ cfg.getCacheBlockId q.addr l = b
  count : s.memAccessCnt = (sentReqs s.history).length

theorem init_accounted : Accounted cfg (init cfg) [] := by
  constructor <;> simp [init, transactions, sentReqs]

/-- A step that makes no transaction keeps the fills that are still to be issued apart from
the transactions made: an allocation that it opens is a new one. -/
theorem Accounted.pending_step {made : List MemReq} (h : Accounted cfg s made)
    (step : Step cfg ports s t) (id : Nat)
    (valid : ((t.level cfg.llc).mshr.mshrTable id).valid = true)
    (outstanding : ((t.level cfg.llc).mshr.mshrTable id).outstanding = true) :
    .fill cfg.llc ((t.level cfg.llc).mshr.mshrTable id).alloc ∉ made.map (·.origin) := by
  have old := h.pending id
  have change := step.mshr cfg.llc
  generalize (t.level cfg.llc).mshr = m at change valid outstanding ⊢
  cases change with
  | same _ table entryNum allocated =>
    rw [table] at valid outstanding ⊢
    exact old valid outstanding
  | join b i r rest front waits found event =>
    simp only [Mshr.join, Mshr.setEntry_mshrTable, Function.update_apply] at valid outstanding ⊢
    grind
  | allocate b i r rest front waits found event =>
    intro made
    have new := h.fills _ made
    simp only [Mshr.allocate, Mshr.setEntry_mshrTable, Function.update_apply] at *
    grind
  | pop i open_ ready =>
    simp only [Mshr.popEntry_table] at valid outstanding ⊢
    grind
  | setReady addr origin hit answered quiet =>
    simp only [Mshr.setMshrEntryReady] at valid outstanding ⊢
    grind
  | issue i open_ was event =>
    simp only [Mshr.clearOutstandingFlag, List.foldl_cons, List.foldl_nil,
      Mshr.setEntry_mshrTable, Function.update_apply] at valid outstanding ⊢
    grind

theorem Accounted.opened_step {made : List MemReq} (h : Accounted cfg s made)
    (step : Step cfg ports s t) (l a b : Nat) (found : (t.level l).mshr.allocated[a]? = some b) :
    ∃ q, .allocated l q a ∈ t.history ∧ cfg.getCacheBlockId q.addr l = b := by
  have old (found : (s.level l).mshr.allocated[a]? = some b) :
      ∃ q, .allocated l q a ∈ t.history ∧ cfg.getCacheBlockId q.addr l = b := by
    obtain ⟨q, opened, block⟩ := h.opened l a b found
    exact ⟨q, step.history_grows.subset opened, block⟩
  have change := step.mshr l
  generalize (t.level l).mshr = m at change found
  cases change with
  | same _ table entryNum allocated => exact old (allocated ▸ found)
  | join b i r rest front waits found' event => exact old (by simpa [Mshr.join] using found)
  | allocate b' i r rest front waits found' event =>
    simp only [Mshr.allocate, List.getElem?_append, List.getElem?_singleton] at found
    split at found
    · exact old found
    · -- the allocation is the one of this step
      simp only [Option.ite_none_right_eq_some, Option.some.injEq] at found
      obtain rfl : a = (s.level l).mshr.allocated.length := by omega
      exact ⟨r, by simp [event], found.2⟩
  | pop i open_ ready => exact old (by simpa using found)
  | setReady addr origin hit answered quiet => exact old found
  | issue i open_ was event => exact old (by simpa [Mshr.clearOutstandingFlag] using found)

theorem Accounted.fills_step {made : List MemReq} (h : Accounted cfg s made)
    (step : Step cfg ports s t) (a : Nat) (mem : .fill cfg.llc a ∈ made.map (·.origin)) :
    a < (t.level cfg.llc).mshr.allocated.length :=
  (h.fills a mem).trans_le (step.allocated_grows cfg.llc).length_le

theorem Step.accounted (step : Step cfg ports s t) (traced : Traced cfg s) {made : List MemReq}
    (h : Accounted cfg s made) : ∃ made, Accounted cfg t made := by
  have justified : ∀ r ∈ made, JustifiedTx cfg t r := fun r hr => (h.justified r hr).mono step
  have victims := fun k hk => (h.victims k hk).trans_le step.victims
  cases step.toMem with
  | same queue count unsent =>
    refine ⟨made, ?_, justified, h.once, h.fills_step step, h.pending_step step, victims,
      h.opened_step step, ?_⟩
    · rw [transactions, unsent, queue]
      exact h.order
    · rw [count, unsent]
      exact h.count
  | send r queue count event =>
    refine ⟨made, ?_, justified, h.once, h.fills_step step, h.pending_step step, victims,
      h.opened_step step, ?_⟩
    · rw [← h.order, transactions, transactions, queue, event]
      simp [sentReqs]
    · rw [count, event, h.count]
      simp [sentReqs]
  | fill id valid outstanding mshr queue count event =>
    have allocation := (traced.mshr cfg.llc).allocation id valid
    have block := (traced.mshr cfg.llc).block id _ ((traced.mshr cfg.llc).front_mem valid)
    have fresh := h.pending id valid outstanding
    have origin : (transCacheReq2MemReq (fillReq s cfg.llc id)).origin =
      .fill cfg.llc ((s.level cfg.llc).mshr.mshrTable id).alloc := rfl
    have bound : ((s.level cfg.llc).mshr.mshrTable id).alloc <
        (s.level cfg.llc).mshr.allocated.length := (List.getElem?_eq_some_iff.mp allocation).1
    refine ⟨made ++ [transCacheReq2MemReq (fillReq s cfg.llc id)], ?_, ?_, ?_, ?_, ?_, ?_,
      h.opened_step step, ?_⟩
    · rw [transactions, queue, event, ← List.append_assoc, ← List.append_assoc, ← h.order]
      simp [transactions, sentReqs]
    · intro r hr
      obtain hr | rfl := List.mem_append.mp hr |>.imp_right List.mem_singleton.mp
      · exact justified r hr
      · obtain ⟨q, opened, eq⟩ := h.opened _ _ _ allocation
        exact .inl ⟨_, q, origin, step.history_grows.subset opened, block.trans eq.symm⟩
    · rw [List.map_append, List.map_singleton, origin]
      exact h.once.append (List.nodup_singleton _) (by simpa using fresh)
    · intro a ha
      rw [List.map_append, List.mem_append, List.map_singleton, origin, List.mem_singleton] at ha
      obtain ha | ha := ha
      · exact h.fills_step step a ha
      · cases ha
        exact bound.trans_le (step.allocated_grows cfg.llc).length_le
    · intro i open_ out
      have apart := h.pending_step step i open_ out
      rw [List.map_append, List.mem_append, List.map_singleton, origin, List.mem_singleton]
      rintro (old | same)
      · exact apart old
      · -- the flag of the issued entry is clear, and the others have allocations of their own
        rw [mshr] at open_ out same
        by_cases here : i = id
        · subst here
          simp [Mshr.clearOutstandingFlag] at out
        · simp [Mshr.clearOutstandingFlag, here] at open_ same
          exact here ((traced.mshr cfg.llc).distinct i id open_ valid same)
    · intro k hk
      rw [List.map_append, List.mem_append, List.map_singleton, origin, List.mem_singleton] at hk
      obtain hk | hk := hk
      · exact victims k hk
      · cases hk
    · rw [count, event, h.count]
      simp [sentReqs]
  | writeBack index dirty r op origin queue grown count event =>
    have origin : (transCacheReq2MemReq r).origin = .writeBack cfg.llc s.cacheWMemoryCount := origin
    refine ⟨made ++ [transCacheReq2MemReq r], ?_, ?_, ?_, ?_, ?_, ?_, h.opened_step step, ?_⟩
    · rw [transactions, queue, event, ← List.append_assoc, ← List.append_assoc, ← h.order]
      simp [transactions, sentReqs]
    · intro q hq
      obtain hq | rfl := List.mem_append.mp hq |>.imp_right List.mem_singleton.mp
      · exact justified q hq
      · exact .inr ⟨_, index, _, origin, dirty, by simp [event, transCacheReq2MemReq]⟩
    · rw [List.map_append, List.map_singleton, origin]
      refine h.once.append (List.nodup_singleton _) ?_
      simp only [List.disjoint_singleton]
      exact fun old => (h.victims _ old).false
    · intro a ha
      rw [List.map_append, List.mem_append, List.map_singleton, origin, List.mem_singleton] at ha
      obtain ha | ha := ha
      · exact h.fills_step step a ha
      · cases ha
    · intro i open_ out
      rw [List.map_append, List.mem_append, List.map_singleton, origin, List.mem_singleton]
      rintro (old | same)
      · exact h.pending_step step i open_ out old
      · cases same
    · intro k hk
      rw [List.map_append, List.mem_append, List.map_singleton, origin, List.mem_singleton] at hk
      rw [grown]
      obtain hk | hk := hk
      · exact (h.victims k hk).trans_le (Nat.le_succ _)
      · cases hk
        exact Nat.lt_succ_self _
    · rw [count, event, h.count]
      simp [sentReqs]

theorem run_accounted {ops : List Op} (done : run cfg ops = some s) :
    ∃ made, Accounted cfg s made := by
  refine (run_invariant (P := fun s => Traced cfg s ∧ ∃ made, Accounted cfg s made)
    ⟨init_traced, [], init_accounted⟩ ?_ done).1.2
  rintro s t step ⟨traced, made, h⟩
  exact ⟨step.traced traced, step.accounted traced h⟩

/-! ## The default elements go first -/

theorem quiet_ops {ops : List Op} (recorded : AcksRecorded s)
    (refused : ∀ op ∈ ops, op.accepts = false) (done : ops.foldlM (step cfg) s = some t) :
    sentReqs t.history = sentReqs s.history := by
  induction ops generalizing s with
  | nil => rw [Run.nil_eq_some.mp done]
  | cons op ops ih =>
    obtain ⟨u, first, rest⟩ := Run.cons_eq_some.mp done
    have steps : Steps cfg {.memory}ᶜ s u := step_steps recorded first (by
      rintro p port rfl
      have accepts := Op.accepts_of_port port
      simp [refused op List.mem_cons_self] at accepts)
    have quiet : sentReqs u.history = sentReqs s.history :=
      steps.ind (P := fun v => sentReqs v.history = sentReqs s.history)
        (fun _ _ step eq => (step.quiet (by simp)).trans eq) rfl
    rw [← quiet]
    exact ih (steps.acksRecorded recorded)
      (fun op mem => refused op (List.mem_cons_of_mem _ mem)) rest

/-- Once the memory has accepted, it has got something: the queue is not empty before. -/
theorem sent_of_accepts {ops : List Op} (done : run cfg ops = some s) {op : Op} (mem : op ∈ ops)
    (accepts : op.accepts = true) (banks : 0 < (cfg.level cfg.llc).bankNum) :
    sentReqs s.history ≠ [] := by
  obtain ⟨before, after, rfl⟩ := List.append_of_mem mem
  obtain ⟨u, first, rest⟩ := Run.append_eq_some.mp done
  obtain ⟨v, stepped, rest⟩ := Run.cons_eq_some.mp rest
  obtain ⟨made, accounted⟩ := run_accounted first
  have recorded := (run_invariant (P := fun _ => True) trivial (fun _ _ _ _ => trivial) first).2
  have steps : Steps cfg Set.univ u v := step_steps recorded stepped fun _ _ => trivial
  obtain ⟨more, grown⟩ := ops_grow (steps.acksRecorded recorded) rest
  suffices sent : sentReqs v.history ≠ [] by
    rw [← grown, sentReqs_append]
    simp [sent]
  match op, accepts with
  | .sendReq2Mem (true :: accept), _ =>
    obtain rfl := Option.some.inj stepped
    cases queue : u.reqQueue2Mem with
    | nil =>
      have order := accounted.order
      rw [transactions, queue, List.append_nil] at order
      have same : sendReq2Mem u (true :: accept) = u := by simp [sendReq2Mem, queue]
      rw [same, order]
      cases n : (cfg.level cfg.llc).bankNum with
      | zero => omega
      | succ n => simp [List.replicate_succ]
    | cons req rest =>
      obtain ⟨more, eq⟩ := (sendReq2Mem_steps cfg (Set.mem_univ _) accept ({ u with
        reqQueue2Mem := rest, memAccessCnt := u.memAccessCnt + 1 }.record
          (.sent req))).history_grows
      have unfolded : sendReq2Mem u (true :: accept) = sendReq2Mem ({ u with
          reqQueue2Mem := rest, memAccessCnt := u.memAccessCnt + 1 }.record (.sent req)) accept := by
        rw [sendReq2Mem, queue]
      rw [unfolded, ← eq]
      simp [sentReqs]

/-- The memory gets justified transactions only if the last level has no bank, or if it never
accepts: the first transactions of a run are the default elements of the queue, one for each
bank. All later ones are justified, and the counter is right at all times. -/
theorem only_justified_iff {ops : List Op} (done : run cfg ops = some s) :
    (OnlyJustified cfg s ↔
      (cfg.level cfg.llc).bankNum = 0 ∨ ∀ op ∈ ops, op.accepts = false) ∧
    (∀ r ∈ (sentReqs s.history).drop (cfg.level cfg.llc).bankNum, JustifiedTx cfg s r) ∧
    (((sentReqs s.history).drop (cfg.level cfg.llc).bankNum).map (·.origin)).Nodup ∧
    s.memAccessCnt = (sentReqs s.history).length := by
  obtain ⟨made, accounted⟩ := run_accounted done
  obtain ⟨order, justified, once, -, -, -, -, count⟩ := accounted
  -- without the default elements, what was sent is the beginning of what was made
  have tail : (sentReqs s.history).drop (cfg.level cfg.llc).bankNum <+: made := by
    have := congrArg (List.drop (cfg.level cfg.llc).bankNum) order
    rw [List.drop_append_of_le_length (by simp), List.drop_replicate, Nat.sub_self,
      List.replicate_zero, List.nil_append, transactions, List.drop_append] at this
    exact ⟨_, this⟩
  have later : ∀ r ∈ (sentReqs s.history).drop (cfg.level cfg.llc).bankNum, JustifiedTx cfg s r :=
    fun r hr => justified r (tail.subset hr)
  have apart : (((sentReqs s.history).drop (cfg.level cfg.llc).bankNum).map (·.origin)).Nodup :=
    once.sublist (tail.sublist.map _)
  refine ⟨⟨?_, ?_⟩, later, apart, count⟩
  · rintro ⟨all, -, -⟩
    by_contra not
    push Not at not
    obtain ⟨banks, op, mem, accepts⟩ := not
    have sent := sent_of_accepts done mem (by simpa using accepts) (Nat.pos_of_ne_zero banks)
    -- the first transaction is a default element, which nothing justifies
    obtain ⟨r, rest, eq⟩ := List.exists_cons_of_ne_nil sent
    obtain ⟨n, bankNum⟩ := Nat.exists_eq_succ_of_ne_zero banks
    rw [transactions, eq, bankNum, List.replicate_succ, List.cons_append, List.cons_append,
      List.cons.injEq] at order
    have default := all r (eq ▸ List.mem_cons_self)
    rw [order.1] at default
    simp [JustifiedTx] at default
  · rintro (none | refused)
    · rw [none, List.drop_zero] at later apart
      exact ⟨later, apart, count⟩
    · have quiet := quiet_ops init_acksRecorded refused done
      have empty : sentReqs s.history = [] := quiet
      refine ⟨?_, ?_, count⟩ <;> simp [empty]

/-- The fill of a read miss is the second transaction, behind the default one. -/
theorem only_justified_tiny :
    ∃ s, run tiny [.addTransaction { valid := true, addr := 16 }, .cacheUpdate true,
        .cacheUpdate true, .cacheUpdate true, .sendReq2Mem [true, true]] = some s ∧
      (sentReqs s.history).length = 2 ∧ s.memAccessCnt = 2 ∧
      ∀ r ∈ (sentReqs s.history).drop 1, JustifiedTx tiny s r := by
  have shape : ((run tiny [.addTransaction { valid := true, addr := 16 }, .cacheUpdate true,
      .cacheUpdate true, .cacheUpdate true, .sendReq2Mem [true, true]]).map fun s =>
        (sentReqs s.history).length) = some 2 := by decide
  obtain ⟨s, done, length⟩ := Option.map_eq_some_iff.mp shape
  obtain ⟨-, later, -, count⟩ := only_justified_iff done
  exact ⟨s, done, length, count.trans length, later⟩

/-- The memory accepts one transaction right after `init`, which no miss and no victim made. -/
theorem initial_transaction_unjustified :
    ∃ s, run tiny [.sendReq2Mem [true]] = some s ∧ sentReqs s.history = [{}] ∧
      ¬ OnlyJustified tiny s := by
  have shape : ((run tiny [.sendReq2Mem [true]]).map fun s => sentReqs s.history) = some [{}] := by
    decide
  obtain ⟨s, done, sent⟩ := Option.map_eq_some_iff.mp shape
  refine ⟨s, done, sent, ?_⟩
  rintro ⟨all, -, -⟩
  have default := all {} (by simp [sent])
  simp [JustifiedTx] at default

end DataflowSim.Memory.Cache
