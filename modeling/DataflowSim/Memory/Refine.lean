import DataflowSim.Memory.Step

/-!
# Every cache function is a chain of atomic steps

The functions of `Cache.cpp` that answer or send several requests first collect them and
change the MSHR at the end. That order makes no difference: answers and fills leave the
MSHR of their level alone, so each collected change can be moved to its own request.
-/

namespace DataflowSim.Memory.Cache

open Relation (ReflTransGen)

variable {cfg : Config} {ports : Set Port} {s t : Cache}

theorem Steps.ind {P : Cache → Prop} (kept : ∀ s t, Step cfg ports s t → P s → P t)
    (steps : Steps cfg ports s t) (start : P s) : P t := by
  induction steps with
  | refl => exact start
  | tail _ step ih => exact kept _ _ step ih

theorem Steps.history_grows (steps : Steps cfg ports s t) : s.history <+: t.history := by
  induction steps with
  | refl => exact List.prefix_rfl
  | tail _ step ih => exact ih.trans step.history_grows

/-- Every queued ack was recorded, or is one of the default elements of `init`. -/
def AcksRecorded (s : Cache) : Prop :=
  ∀ l b, ∀ r ∈ (s.level l).ackQueue b, .acked l r ∈ s.history ∨ r = {}

theorem Step.acksRecorded (step : Step cfg ports s t) (h : AcksRecorded s) : AcksRecorded t := by
  intro l b r hr
  obtain old | new := step.ackQueue hr
  · obtain mem | default := h l b r old
    · exact .inl (step.history_grows.subset mem)
    · exact .inr default
  · exact .inl new

theorem Steps.acksRecorded (steps : Steps cfg ports s t) (h : AcksRecorded s) : AcksRecorded t :=
  steps.ind (fun _ _ => Step.acksRecorded) h

/-! ## Looking up requests -/

theorem resetBankConflictRecorder_steps : Steps cfg ports s (resetBankConflictRecorder cfg s) := by
  refine .single (.book ?_)
  constructor <;> intros <;> try rfl
  all_goals
    simp only [resetBankConflictRecorder]
    split <;> rfl

theorem updateReqQueueLatency_steps (clkAdd : Bool) :
    Steps cfg ports s (updateReqQueueLatency cfg s clkAdd) := by
  cases clkAdd with
  | false => exact .refl
  | true =>
    refine .single (.book ?_)
    constructor <;> intros <;> try rfl
    all_goals
      simp only [updateReqQueueLatency, ↓reduceIte]
      split
      · first | rfl | (funext b; simp [Level.reqs])
      · rfl

/-- Statistics and pointers of one level do not matter. -/
theorem setLevel_same {level : Nat} {lv : Level} (reqs : lv.reqs = (s.level level).reqs)
    (ackQueue : lv.ackQueue = (s.level level).ackQueue) (line : lv.line = (s.level level).line)
    (mshrTable : lv.mshr.mshrTable = (s.level level).mshr.mshrTable)
    (entryNum : lv.mshr.entryNum = (s.level level).mshr.entryNum)
    (entrySize : lv.mshr.entrySize = (s.level level).mshr.entrySize)
    (allocated : lv.mshr.allocated = (s.level level).mshr.allocated) :
    Same s (s.setLevel level lv) := by
  constructor <;> intros <;> try rfl
  all_goals
    rw [setLevel_level, Function.update_apply]
    split
    · subst_vars; assumption
    · rfl

theorem lookup_steps {level bankId : Nat} (bank : bankId < (cfg.level level).bankNum)
    (free : (s.level level).mshr.seekMshrFreeEntry = true) :
    Steps cfg ports s (lookup cfg s level bankId) := by
  unfold lookup
  cases queue : (s.level level).reqQueue bankId with
  | nil => exact .refl
  | cons head rest =>
    obtain ⟨req, latency⟩ := head
    have front : (s.level level).reqs bankId = req :: rest.map Prod.fst := by
      simp [Level.reqs, queue]
    have counted (u : Cache) : Steps cfg ports u (countHit u level) :=
      .single (.book (setLevel_same rfl rfl rfl rfl rfl rfl rfl))
    dsimp only
    split
    case isFalse => exact .refl
    case isTrue waits =>
      cases found : checkCacheHit cfg s (setBase cfg req.addr level) req.addr level with
      | none =>
        have missed : Step cfg ports s _ := .miss level bankId req _ bank front waits.2 free
        exact .head missed (.single (.book (setLevel_same rfl rfl rfl rfl rfl rfl rfl)))
      | some index =>
        dsimp only
        by_cases writes : req.writes = true
        · have op : req.cacheOp = .WRITE ∨ req.cacheOp = .WRITEBACK_DIRTY_BLOCK := by
            simpa [CacheReq.writes] using writes
          rw [if_pos op]
          cases style : (cfg.level level).writeStrategy with
          | WRITE_BACK =>
            have hit : Step cfg ports s _ := .hit level bankId index req _ bank front waits.2 found
              fun _ => style
            rw [if_pos writes] at hit
            exact .head hit (counted _)
          | WRITE_THROUGH =>
            exact .head (.through level bankId req _ bank front waits.2 free style writes) (counted _)
        · have op : ¬ (req.cacheOp = .WRITE ∨ req.cacheOp = .WRITEBACK_DIRTY_BLOCK) := by
            simpa [CacheReq.writes] using writes
          rw [if_neg op]
          have hit : Step cfg ports s _ := .hit level bankId index req _ bank front waits.2 found
            fun h => absurd h writes
          rw [if_neg writes] at hit
          exact .head hit (counted _)

theorem lookupBanks_steps {level : Nat} (some_bank : 0 < (cfg.level level).bankNum) (ptr : Nat)
    (banks : List Nat) (s : Cache) : Steps cfg ports s (lookupBanks cfg s level ptr banks) := by
  induction banks generalizing s with
  | nil => exact .refl
  | cons i banks ih =>
    rw [lookupBanks]
    split
    case isTrue free => exact (lookup_steps (Nat.mod_lt _ some_bank) free).trans (ih _)
    case isFalse => exact .refl

theorem updateReqQueue_steps : Steps cfg ports s (updateReqQueue cfg s) := by
  refine Run.foldl_chain (P := fun _ => True) (fun _ _ _ _ => trivial) ?_ _ s trivial
  intro s level _
  refine ReflTransGen.tail ?_ (.book (setLevel_same rfl rfl rfl rfl rfl rfl rfl))
  rcases Nat.eq_zero_or_pos (cfg.level level).bankNum with none | some_bank
  · rw [none]
    exact .refl
  · exact lookupBanks_steps some_bank _ _ s

/-! ## Filling blocks -/

theorem selectVictim_level (cfg : Config) (s : Cache) (base level : Nat) :
    (selectVictim cfg s base level).2.level = s.level := by
  unfold selectVictim
  cases (cfg.level level).swapStyle <;> rfl

theorem selectVictim_same (cfg : Config) (s : Cache) (base level : Nat) :
    Same s (selectVictim cfg s base level).2 := by
  unfold selectVictim
  cases (cfg.level level).swapStyle <;> constructor <;> intros <;> rfl

theorem sendBelow_mshr {req : CacheReq} {level : Nat} (send : sendBelow cfg s req level = some t)
    (k : Nat) : (t.level k).mshr = (s.level k).mshr := by
  obtain ⟨-, rfl⟩ | ⟨-, rfl⟩ := sendBelow_cases send <;> simp

theorem sendBelow_line {req : CacheReq} {level : Nat} (send : sendBelow cfg s req level = some t)
    (k : Nat) : (t.level k).line = (s.level k).line := by
  obtain ⟨-, rfl⟩ | ⟨-, rfl⟩ := sendBelow_cases send <;> simp

/-- A released line holds nothing that is to be written back. -/
theorem releaseLine_steps {level index : Nat} {i : Option Nat} (bound : level ≤ cfg.llc)
    (released : releaseLine cfg s index level = (i, t)) :
    Steps cfg ports s t ∧ (∀ k, (t.level k).mshr = (s.level k).mshr) ∧
      ∀ n, i = some n → (cfg.level level).writeStrategy = .WRITE_BACK →
        ((t.level level).line n).dirty = false := by
  cases i with
  | none =>
    obtain rfl := releaseLine_none released
    exact ⟨.refl, fun _ => rfl, by simp⟩
  | some n =>
    obtain ⟨rfl, ⟨clean, rfl⟩ | ⟨style, dirty, u, send, rfl⟩⟩ := releaseLine_some released
    · refine ⟨.refl, fun _ => rfl, ?_⟩
      rintro _ ⟨⟩ style
      simpa [style] using clean
    · refine ⟨.single (.evict level n bound style dirty send), ?_, ?_⟩
      · intro k
        simpa using sendBelow_mshr send k
      · rintro _ ⟨⟩ -
        simp [clean_line]

theorem getCacheFreeLine_steps {level base : Nat} {i : Option Nat} (bound : level ≤ cfg.llc)
    (found : getCacheFreeLine cfg s base level = (i, t)) :
    Steps cfg ports s t ∧ (∀ k, (t.level k).mshr = (s.level k).mshr) ∧
      ∀ n, i = some n → ((t.level level).line n).valid = true →
        (cfg.level level).writeStrategy = .WRITE_BACK →
        ((t.level level).line n).dirty = false := by
  unfold getCacheFreeLine at found
  cases free : (List.range (cfg.level level).mappingWays).find? fun i =>
      !((s.level level).line (base + i)).valid with
  | some way =>
    simp only [free, Prod.mk.injEq] at found
    obtain ⟨rfl, rfl⟩ := found
    refine ⟨.refl, fun _ => rfl, ?_⟩
    rintro _ ⟨⟩ valid
    have invalid := List.find?_some free
    simp [valid] at invalid
  | none =>
    have same := selectVictim_same cfg s base level
    have levels := selectVictim_level cfg s base level
    simp only [free] at found
    cases victim : selectVictim cfg s base level with
    | mk j u =>
      rw [victim] at same levels found
      have picked : Steps cfg ports s u := .single (.book same)
      have mshr (k : Nat) : (u.level k).mshr = (s.level k).mshr :=
        congrArg (fun f => (f k).mshr) levels
      cases j with
      | none =>
        simp only [Prod.mk.injEq] at found
        obtain ⟨rfl, rfl⟩ := found
        exact ⟨picked, mshr, by simp⟩
      | some j =>
        obtain ⟨steps, same', clean⟩ := releaseLine_steps bound found
        exact ⟨picked.trans steps, fun k => (same' k).trans (mshr k), fun n h _ => clean n h⟩

/-- The lines hold the same blocks in both states. -/
def SameBlocks (s t : Cache) : Prop :=
  ∀ l i, ((t.level l).line i).valid = ((s.level l).line i).valid ∧
    ((t.level l).line i).tag = ((s.level l).line i).tag

theorem checkCacheHit_congr (cfg : Config) (same : SameBlocks s t) (base addr level : Nat) :
    checkCacheHit cfg t base addr level = checkCacheHit cfg s base addr level := by
  have valid := fun l i => (same l i).1
  have tag := fun l i => (same l i).2
  simp only [checkCacheHit, valid, tag]

theorem oldestWay_lt {ways j : Nat} {count : Nat → Nat} {eligible : Nat → Bool}
    (oldest : oldestWay ways count eligible = some j) : j < ways := by
  have bounded : ∀ j, ((List.range ways).foldl (fun best j =>
      if count j < best.1 ∧ eligible j = true then (count j, some j) else best)
      (2 ^ 64 - 1, none)).2 = some j → j < ways := by
    refine List.foldlRecOn (motive := fun best : Nat × Option Nat =>
      ∀ j, best.2 = some j → j < ways) _ _ (by simp) ?_
    intro best bounded way mem j picked
    split at picked
    · obtain rfl := Option.some.inj picked
      exact List.mem_range.mp mem
    · exact bounded j picked
  exact bounded j oldest

theorem selectVictim_lt {level base j : Nat} (ways : 0 < (cfg.level level).mappingWays)
    (victim : (selectVictim cfg s base level).1 = some j) : j < (cfg.level level).mappingWays := by
  unfold selectVictim at victim
  dsimp only at victim
  split at victim
  · obtain rfl := Option.some.inj victim
    exact Nat.mod_lt _ ways
  · obtain unlocked | any := Option.or_eq_some_iff.mp victim
    · exact oldestWay_lt unlocked
    · exact oldestWay_lt any.2
  · obtain unlocked | any := Option.or_eq_some_iff.mp victim
    · exact oldestWay_lt unlocked
    · exact oldestWay_lt any.2
  · exact oldestWay_lt victim

theorem SameBlocks.refl (s : Cache) : SameBlocks s s := fun _ _ => ⟨rfl, rfl⟩

theorem clean_blocks (cfg : Config) (s : Cache) (index level : Nat) (victim : CacheLine) :
    SameBlocks s (clean cfg s index level victim) := by
  intro l i
  rw [clean_line]
  split_ifs with here
  · rw [Function.update_apply, here]
    split_ifs with same
    · rw [same]
      exact ⟨rfl, rfl⟩
    · exact ⟨rfl, rfl⟩
  · exact ⟨rfl, rfl⟩

theorem sendBelow_history {req : CacheReq} {level : Nat}
    (send : sendBelow cfg s req level = some t) : s.history <+: t.history := by
  obtain ⟨-, rfl⟩ | ⟨-, rfl⟩ := sendBelow_cases send <;> simp

/-- No block moves while a line is released. -/
theorem releaseLine_blocks {level index : Nat} {i : Option Nat}
    (released : releaseLine cfg s index level = (i, t)) :
    SameBlocks s t ∧ s.history <+: t.history ∧ ∀ n, i = some n → n = index := by
  cases i with
  | none =>
    obtain rfl := releaseLine_none released
    exact ⟨.refl _, List.prefix_rfl, by simp⟩
  | some n =>
    obtain ⟨rfl, ⟨-, rfl⟩ | ⟨-, -, u, send, rfl⟩⟩ := releaseLine_some released
    · exact ⟨.refl _, List.prefix_rfl, by simp⟩
    · refine ⟨fun l i => ?_, ?_, by simp⟩
      · rw [← sendBelow_line send l]
        exact clean_blocks cfg u n level _ l i
      · rw [clean_history]
        exact (sendBelow_history send).trans (List.prefix_append _ _)

/-- A free line is a way of its set, and no block moves while it is searched for. -/
theorem getCacheFreeLine_blocks {level base : Nat} {i : Option Nat}
    (found : getCacheFreeLine cfg s base level = (i, t)) :
    SameBlocks s t ∧ s.history <+: t.history ∧ ∀ n, i = some n → ∃ way, n = base + way ∧
      (0 < (cfg.level level).mappingWays → way < (cfg.level level).mappingWays) := by
  unfold getCacheFreeLine at found
  cases free : (List.range (cfg.level level).mappingWays).find? fun i =>
      !((s.level level).line (base + i)).valid with
  | some way =>
    simp only [free, Prod.mk.injEq] at found
    obtain ⟨rfl, rfl⟩ := found
    refine ⟨.refl _, List.prefix_rfl, ?_⟩
    rintro _ ⟨⟩
    exact ⟨way, rfl, fun _ => List.mem_range.mp (List.mem_of_find?_eq_some free)⟩
  | none =>
    have levels := selectVictim_level cfg s base level
    have events := (selectVictim_same cfg s base level).history
    simp only [free] at found
    cases victim : selectVictim cfg s base level with
    | mk j u =>
      rw [victim] at levels events found
      have blocks : SameBlocks s u := fun l i => by rw [levels]; exact ⟨rfl, rfl⟩
      cases j with
      | none =>
        simp only [Prod.mk.injEq] at found
        obtain ⟨rfl, rfl⟩ := found
        exact ⟨blocks, by rw [events], by simp⟩
      | some j =>
        obtain ⟨same, grown, index⟩ := releaseLine_blocks found
        refine ⟨fun l i => ?_, by rwa [← events], fun n hn => ⟨j, index n hn, fun ways => ?_⟩⟩
        · rw [← levels]
          exact same l i
        · exact selectVictim_lt ways (by rw [victim])

/-- A block that was answered to the level is filled in; the MSHRs stay as they are. -/
theorem fillBlock_steps (ports : Set Port) (addr : Nat) (origin : Origin) {level : Nat}
    (bound : level ≤ cfg.llc)
    (answered : (checkCacheHit cfg s (setBase cfg addr level) addr level).isSome = false →
      ∃ entries, .response level addr origin false entries ∈ s.history) :
    Steps cfg ports s (fillBlock cfg s addr level origin).2 ∧
      ∀ k, ((fillBlock cfg s addr level origin).2.level k).mshr = (s.level k).mshr := by
  unfold fillBlock
  split
  case isTrue => exact ⟨.refl, fun _ => rfl⟩
  case isFalse miss =>
    obtain ⟨entries, answered⟩ := answered (by simpa using miss)
    cases found : getCacheFreeLine cfg s (setBase cfg addr level) level with
    | mk i t =>
      obtain ⟨steps, mshr, clean⟩ := getCacheFreeLine_steps bound found
      cases i with
      | none => exact ⟨steps, mshr⟩
      | some n =>
        refine ⟨steps.tail ?_, ?_⟩
        · obtain ⟨same, -, way⟩ := getCacheFreeLine_blocks found
          refine .install level n addr origin entries (clean n rfl)
            (steps.history_grows.subset answered) ⟨way n rfl, ?_⟩
          rw [checkCacheHit_congr cfg same]
          simpa using miss
        · intro k
          simpa using mshr k

theorem waiting_congr {addr level : Nat} (h : (t.level level).mshr = (s.level level).mshr) :
    waiting cfg t addr level = waiting cfg s addr level := by
  unfold waiting
  rw [h]

/-- The memory answers a transaction that it has got; address and origin are all that counts. -/
theorem memReqComplete_steps {q req : MemReq} (sent : .sent q ∈ s.history)
    (addr : q.addr = req.addr) (origin : q.origin = req.origin)
    (done : memReqComplete cfg s req = some t) : Steps cfg ports s t := by
  unfold memReqComplete at done
  have answer : Answer cfg s cfg.llc req.addr req.origin := .sent q rfl sent addr origin
  have first : Step cfg ports s _ := .response cfg.llc req.addr req.origin answer
  obtain ⟨steps, mshr⟩ := fillBlock_steps ports req.addr req.origin
    (s := recordResponse cfg s req.addr cfg.llc req.origin) (le_refl cfg.llc) (by
      intro miss
      refine ⟨waiting cfg s req.addr cfg.llc, ?_⟩
      have miss' : (checkCacheHit cfg s (setBase cfg req.addr cfg.llc) req.addr cfg.llc).isSome
        = false := miss
      rw [recordResponse_history, miss']
      simp)
  cases filled : fillBlock cfg (recordResponse cfg s req.addr cfg.llc req.origin) req.addr cfg.llc
      req.origin with
  | mk ok u =>
    rw [filled] at done steps mshr
    cases ok with
    | false => simp at done
    | true =>
      obtain rfl := Option.some.inj done
      refine (ReflTransGen.head first steps).tail (.setReady cfg.llc req.addr req.origin
        (checkCacheHit cfg s (setBase cfg req.addr cfg.llc) req.addr cfg.llc).isSome ?_)
      apply steps.history_grows.subset
      rw [recordResponse_history, waiting_congr (mshr cfg.llc)]
      simp [waiting]

theorem Answer.of_ack {level : Nat} {req : CacheReq}
    (acked : .acked (level + 1) req ∈ s.history ∨ req = {}) :
    Answer cfg s level req.addr req.origin := by
  obtain mem | rfl := acked
  · exact .acked req mem rfl rfl
  · exact .initial rfl rfl

theorem answered_ready_step (ports : Set Port) (level addr : Nat) (origin : Origin) :
    Step cfg ports (recordResponse cfg s addr level origin)
      (setMshrEntryReady cfg (recordResponse cfg s addr level origin) addr level) := by
  refine .setReady level addr origin
    (checkCacheHit cfg s (setBase cfg addr level) addr level).isSome ?_
  rw [recordResponse_history]
  exact List.mem_append_right _ (List.mem_singleton.mpr rfl)

theorem answered_fill_steps (ports : Set Port) {level : Nat} (bound : level ≤ cfg.llc) (addr : Nat)
    (origin : Origin) :
    Steps cfg ports (setMshrEntryReady cfg (recordResponse cfg s addr level origin) addr level)
      (fillBlock cfg (setMshrEntryReady cfg (recordResponse cfg s addr level origin) addr level)
        addr level origin).2 := by
  refine (fillBlock_steps ports addr origin bound fun miss => ?_).1
  have miss' : (checkCacheHit cfg s (setBase cfg addr level) addr level).isSome = false := by
    simpa [checkCacheHit] using miss
  refine ⟨waiting cfg s addr level, ?_⟩
  rw [setMshrEntryReady_history, recordResponse_history, miss']
  exact List.mem_append_right _ (List.mem_singleton.mpr rfl)

/-- An ack of the level below reaches the level. -/
theorem fillUpper_steps {level : Nat} {req : CacheReq} (bound : level ≤ cfg.llc)
    (acked : .acked (level + 1) req ∈ s.history ∨ req = {}) :
    Steps cfg ports s (fillUpper cfg level s req) := by
  have first : Step cfg ports s _ := .response level req.addr req.origin (.of_ack acked)
  have second := @answered_ready_step cfg s ports level req.addr req.origin
  unfold fillUpper
  dsimp only
  split
  · exact .head first (.single second)
  · exact .head first (.head second (answered_fill_steps ports bound req.addr req.origin))

/-! ## Acks -/

theorem setLevel_setLevel (s : Cache) (level : Nat) (a b : Level) :
    (s.setLevel level a).setLevel level b = s.setLevel level b := by
  simp [setLevel]

/-- Popping the heads of the first banks one after the other pops them all at once. -/
theorem popAcks (s : Cache) (level n : Nat) :
    (List.range n).foldl (fun s b => popAck s level b) s =
      s.setLevel level { s.level level with
        ackQueue := fun b =>
          if b < n then ((s.level level).ackQueue b).tail else (s.level level).ackQueue b } := by
  induction n with
  | zero => simp [setLevel]
  | succ n ih =>
    rw [List.range_succ, List.foldl_append, ih]
    simp only [List.foldl_cons, List.foldl_nil, popAck, setLevel_level, Function.update_self,
      setLevel_setLevel]
    congr 2
    funext b
    simp only [Function.update_apply]
    grind

theorem popAckQueue_steps {level : Nat} (inner : 0 < level) :
    Steps cfg ports s (popAckQueue cfg s level).2 := by
  have popped : Steps cfg ports s
      ((List.range (cfg.level level).bankNum).foldl (fun s b => popAck s level b) s) :=
    Run.foldl_chain (P := fun _ => True) (fun _ _ _ _ => trivial)
      (fun _ b _ => .single (.popAck level b (by omega))) _ s trivial
  rw [popAcks] at popped
  refine popped.tail (.book ?_)
  simp only [popAckQueue]
  constructor <;> intros <;> try rfl
  all_goals
    simp only [setLevel_level, Function.update_apply]
    split <;> rfl

theorem popAckQueue_mem {level : Nat} {req : CacheReq} (recorded : AcksRecorded s)
    (mem : req ∈ (popAckQueue cfg s level).1) : .acked level req ∈ s.history ∨ req = {} := by
  simp only [popAckQueue, List.mem_filterMap] at mem
  obtain ⟨b, -, head⟩ := mem
  exact recorded level b req (List.mem_of_mem_head? head)

theorem fillUppers_steps {level : Nat} (bound : level ≤ cfg.llc) (reqs : List CacheReq) (s : Cache)
    (acked : ∀ r ∈ reqs, .acked (level + 1) r ∈ s.history ∨ r = {}) :
    Steps cfg ports s (reqs.foldl (fillUpper cfg level) s) := by
  induction reqs generalizing s with
  | nil => exact .refl
  | cons r reqs ih =>
    have first : Steps cfg ports s (fillUpper cfg level s r) :=
      fillUpper_steps bound (acked r List.mem_cons_self)
    refine first.trans (ih _ ?_)
    intro q hq
    exact (acked q (List.mem_cons_of_mem _ hq)).imp_left (first.history_grows.subset ·)

theorem withMshr_self (s : Cache) (level : Nat) : s.withMshr level (s.level level).mshr = s := by
  simp [withMshr, setLevel]

theorem respond_mshr (cfg : Config) (s : Cache) (level : Nat) (req : CacheReq) :
    ((respond cfg s level req).2.level level).mshr = (s.level level).mshr := by
  unfold respond
  dsimp only
  split_ifs <;> simp

/-- An answer neither reads nor changes the MSHR. -/
theorem respond_withMshr (level : Nat) (m : Mshr) (req : CacheReq) :
    respond cfg (s.withMshr level m) level req =
      ((respond cfg s level req).1, (respond cfg s level req).2.withMshr level m) := by
  unfold respond withMshr
  simp only [setLevel_level, Function.update_self]
  split_ifs
  · rfl
  · simp [pushAck, setLevel, record]
  · rfl

theorem respondAll_mshr (cfg : Config) (level : Nat) (reqs : List (Nat × CacheReq)) (s : Cache) :
    ((respondAll cfg s level reqs).2.level level).mshr = (s.level level).mshr := by
  induction reqs generalizing s with
  | nil => rfl
  | cons head rest ih =>
    obtain ⟨id, req⟩ := head
    have one := respond_mshr cfg s level req
    rw [respondAll]
    split <;> rename_i u eq <;> rw [eq] at one <;> rw [← one, ← ih u]

theorem respondAll_withMshr (level : Nat) (m : Mshr) (reqs : List (Nat × CacheReq)) (s : Cache) :
    respondAll cfg (s.withMshr level m) level reqs =
      ((respondAll cfg s level reqs).1, (respondAll cfg s level reqs).2.withMshr level m) := by
  induction reqs generalizing s with
  | nil => rfl
  | cons head rest ih =>
    obtain ⟨id, req⟩ := head
    rw [respondAll, respondAll, respond_withMshr]
    cases answer : respond cfg s level req with
    | mk ok u => cases ok <;> simp [ih]

theorem withMshr_withMshr (s : Cache) (level : Nat) (m n : Mshr) :
    (s.withMshr level m).withMshr level n = s.withMshr level n := by
  simp [withMshr, setLevel]

@[simp] theorem withMshr_mshr (s : Cache) (level : Nat) (m : Mshr) :
    ((s.withMshr level m).level level).mshr = m := by
  simp [withMshr]

/-- Answering the head of a ready entry and popping it is one atomic step. -/
theorem respond_steps (ports : Set Port) {level id : Nat} {req : CacheReq}
    (valid : ((s.level level).mshr.mshrTable id).valid = true)
    (ready : ((s.level level).mshr.mshrTable id).ready = true)
    (front : ((s.level level).mshr.mshrTable id).front = req)
    (answer : respond cfg s level req = (true, t)) :
    Steps cfg ports s (t.withMshr level ((s.level level).mshr.popEntry id)) := by
  subst front
  unfold respond at answer
  dsimp only at answer
  split_ifs at answer with op room
  · obtain rfl := (Prod.mk.inj answer).2
    exact .single (.drop level id valid ready op)
  · obtain rfl := (Prod.mk.inj answer).2
    set u := s.setLevel level { s.level level with
      ackBankConflict := Function.update (s.level level).ackBankConflict
        (cfg.getCacheBank ((s.level level).mshr.mshrTable id).front.addr level) true }
    have mshr : (u.level level).mshr = (s.level level).mshr := by simp [u]
    have flagged : Step cfg ports s u := .book (setLevel_same rfl rfl rfl rfl rfl rfl rfl)
    have popped : Step cfg ports u _ := .respond level id (by rwa [mshr]) (by rwa [mshr])
      (by rwa [mshr])
    rw [popEntry, (pushAck_frame u level _ level _).2.2, mshr] at popped
    exact ReflTransGen.head flagged (.single popped)
  · simp at answer

theorem respond_false {level : Nat} {req : CacheReq}
    (answer : respond cfg s level req = (false, t)) : t = s := by
  unfold respond at answer
  dsimp only at answer
  split_ifs at answer
  · simp at answer
  · simp at answer
  · exact (Prod.mk.inj answer).2.symm

theorem popEntry_of_ne (m : Mshr) {id i : Nat} (ne : i ≠ id) :
    (m.popEntry id).mshrTable i = m.mshrTable i := by
  unfold Mshr.popEntry
  dsimp only
  split <;> simp [ne]

theorem respondAll_steps (cfg : Config) (ports : Set Port) (level : Nat)
    (reqs : List (Nat × CacheReq)) (s : Cache)
    (nodup : (reqs.map Prod.fst).Nodup)
    (heads : ∀ p ∈ reqs, ((s.level level).mshr.mshrTable p.1).valid = true ∧
      ((s.level level).mshr.mshrTable p.1).ready = true ∧
      ((s.level level).mshr.mshrTable p.1).front = p.2) :
    Steps cfg ports s ((respondAll cfg s level reqs).2.withMshr level
      ((s.level level).mshr.clearMshrEntry (respondAll cfg s level reqs).1)) := by
  induction reqs generalizing s with
  | nil =>
    simp only [respondAll, Mshr.clearMshrEntry, List.foldl_nil, withMshr_self]
    exact .refl
  | cons head rest ih =>
    obtain ⟨id, req⟩ := head
    obtain ⟨fresh, nodup⟩ := List.nodup_cons.mp nodup
    obtain ⟨valid, ready, front⟩ := heads (id, req) List.mem_cons_self
    have tail := fun p hp => heads p (List.mem_cons_of_mem _ hp)
    rw [respondAll]
    cases answer : respond cfg s level req with
    | mk ok u =>
      have kept := respond_mshr cfg s level req
      rw [answer] at kept
      cases ok with
      | false =>
        obtain rfl := respond_false answer
        exact ih u nodup tail
      | true =>
        -- pop the answered head at once, then answer the others
        have first := respond_steps ports valid ready front answer
        refine first.trans ?_
        have others := ih (u.withMshr level ((s.level level).mshr.popEntry id)) nodup (by
          intro p hp
          have ne : p.1 ≠ id := fun h => fresh (List.mem_map.mpr ⟨p, hp, h⟩)
          simpa [popEntry_of_ne _ ne] using tail p hp)
        rw [respondAll_withMshr] at others
        simpa [withMshr_withMshr, Mshr.clearMshrEntry] using others

theorem respondMshr_steps (level : Nat) : Steps cfg ports s (respondMshr cfg s level) := by
  have pointer : Step cfg ports s (s.withMshr level (s.level level).mshr.peekMshrReadyEntry.2) :=
    .book (setLevel_same rfl rfl rfl rfl rfl rfl rfl)
  refine ReflTransGen.head pointer ?_
  have steps := respondAll_steps cfg ports level (s.level level).mshr.peekMshrReadyEntry.1
    (s.withMshr level (s.level level).mshr.peekMshrReadyEntry.2) (by
      simpa [Mshr.peekMshrReadyEntry, Function.comp_def] using Mshr.readyIds_nodup _) (by
      intro p hp
      simp only [Mshr.peekMshrReadyEntry, List.mem_map] at hp
      obtain ⟨id, mem, rfl⟩ := hp
      obtain ⟨-, valid, ready⟩ := Mshr.mem_readyIds mem
      simpa [Mshr.peekMshrReadyEntry] using ⟨valid, ready⟩)
  have kept := respondAll_mshr cfg level (s.level level).mshr.peekMshrReadyEntry.1
    (s.withMshr level (s.level level).mshr.peekMshrReadyEntry.2)
  rw [← kept] at steps
  exact steps

theorem sendReady_steps (level bankId : Nat) : Steps cfg ports s (sendReady cfg level s bankId) := by
  unfold sendReady
  dsimp only
  cases queue : (s.level level).reqQueue bankId with
  | nil => exact .refl
  | cons head rest =>
    obtain ⟨req, latency⟩ := head
    dsimp only
    split
    case isTrue go =>
      exact .single (.sendReady level bankId req (rest.map Prod.fst)
        (by simp [Level.reqs, queue]) go.1)
    case isFalse => exact .refl

theorem updateAckQueueLevel_steps {level : Nat} (bound : level ≤ cfg.llc)
    (recorded : AcksRecorded s) : Steps cfg ports s (updateAckQueueLevel cfg s level) := by
  unfold updateAckQueueLevel
  have sends (u : Cache) : Steps cfg ports u
      ((List.range (cfg.level level).bankNum).foldl (sendReady cfg level) u) :=
    Run.foldl_chain (P := fun _ => True) (fun _ _ _ _ => trivial)
      (fun _ b _ => sendReady_steps level b) _ u trivial
  refine ReflTransGen.trans ?_ ((respondMshr_steps level).trans (sends _))
  split
  case isFalse => exact .refl
  case isTrue inner =>
    have popped : Steps cfg ports s (popAckQueue cfg s level).2 := popAckQueue_steps inner
    refine popped.trans (fillUppers_steps (by omega) _ _ ?_)
    intro r hr
    rw [show level - 1 + 1 = level by omega]
    exact (popAckQueue_mem recorded hr).imp_left (popped.history_grows.subset ·)

theorem level_le_llc {level : Nat} (mem : level ∈ List.range cfg.cacheMaxLevel) :
    level ≤ cfg.llc := by
  have := List.mem_range.mp mem
  unfold Config.llc
  omega

theorem updateAckQueue_steps (recorded : AcksRecorded s) :
    Steps cfg ports s (updateAckQueue cfg s) := by
  have levels : ∀ l ∈ (List.range cfg.cacheMaxLevel).reverse, l ≤ cfg.llc :=
    fun _ mem => level_le_llc (List.mem_reverse.mp mem)
  unfold updateAckQueue
  generalize (List.range cfg.cacheMaxLevel).reverse = ls at levels ⊢
  induction ls generalizing s with
  | nil => exact .refl
  | cons l ls ih =>
    have first : Steps cfg ports s (updateAckQueueLevel cfg s l) :=
      updateAckQueueLevel_steps (levels l List.mem_cons_self) recorded
    exact first.trans (ih (first.acksRecorded recorded)
      fun k hk => levels k (List.mem_cons_of_mem _ hk))

/-! ## Fills -/

theorem enqueue_withMshr (level : Nat) (m : Mshr) (req : CacheReq) :
    enqueue cfg (s.withMshr level m) req (level + 1) =
      (enqueue cfg s req (level + 1)).withMshr level m := by
  have ne : level + 1 ≠ level := by omega
  simp only [enqueue, withMshr, setLevel, record, Function.update_of_ne ne,
    Function.update_of_ne ne.symm]
  rw [Function.update_comm ne]

/-- Handing a request below neither reads nor changes the MSHR of the level. -/
theorem sendBelow_withMshr (level : Nat) (m : Mshr) (req : CacheReq) :
    sendBelow cfg (s.withMshr level m) req level =
      (sendBelow cfg s req level).map fun t => t.withMshr level m := by
  have ne : level + 1 ≠ level := by omega
  unfold sendBelow
  split_ifs
  · unfold sendReq2CacheBank
    rw [enqueue_withMshr]
    simp only [withMshr, setLevel_level, Function.update_of_ne ne]
    split_ifs <;> rfl
  · unfold sendReq2reqQueue2Mem
    have queue : (s.withMshr level m).reqQueue2Mem = s.reqQueue2Mem := rfl
    rw [queue]
    by_cases room : s.reqQueue2Mem.length < cfg.reqQueueToMemSize
    · rw [if_pos room, if_pos room]
      rfl
    · rw [if_neg room, if_neg room]
      rfl

theorem sendFills_mshr (level : Nat) (reqs : List (Nat × CacheReq)) (s : Cache) :
    ((sendFills cfg s level reqs).2.level level).mshr = (s.level level).mshr := by
  induction reqs generalizing s with
  | nil => rfl
  | cons head rest ih =>
    obtain ⟨id, req⟩ := head
    rw [sendFills]
    split
    case h_1 t sent => exact (ih _).trans (sendBelow_mshr sent level)
    case h_2 => exact ih s

theorem sendFills_withMshr (level : Nat) (m : Mshr) (reqs : List (Nat × CacheReq)) (s : Cache) :
    sendFills cfg (s.withMshr level m) level reqs =
      ((sendFills cfg s level reqs).1, (sendFills cfg s level reqs).2.withMshr level m) := by
  induction reqs generalizing s with
  | nil => rfl
  | cons head rest ih =>
    obtain ⟨id, req⟩ := head
    rw [sendFills, sendFills, sendBelow_withMshr]
    cases sent : sendBelow cfg s req level with
    | none => simp [ih]
    | some t =>
      have recorded : (t.withMshr level m).record (.issued level req) =
          (t.record (.issued level req)).withMshr level m := rfl
      simp [recorded, ih]

theorem sendFills_steps (ports : Set Port) {level : Nat} (bound : level ≤ cfg.llc)
    (reqs : List (Nat × CacheReq)) (s : Cache) (nodup : (reqs.map Prod.fst).Nodup)
    (fills : ∀ p ∈ reqs, ((s.level level).mshr.mshrTable p.1).valid = true ∧
      ((s.level level).mshr.mshrTable p.1).outstanding = true ∧ fillReq s level p.1 = p.2) :
    Steps cfg ports s ((sendFills cfg s level reqs).2.withMshr level
      ((s.level level).mshr.clearOutstandingFlag (sendFills cfg s level reqs).1)) := by
  induction reqs generalizing s with
  | nil =>
    simp only [sendFills, Mshr.clearOutstandingFlag, List.foldl_nil, withMshr_self]
    exact .refl
  | cons head rest ih =>
    obtain ⟨id, req⟩ := head
    obtain ⟨fresh, distinct⟩ := List.nodup_cons.mp nodup
    obtain ⟨valid, outstanding, eq⟩ := fills (id, req) List.mem_cons_self
    have tail := fun p hp => fills p (List.mem_cons_of_mem _ hp)
    rw [sendFills]
    cases sent : sendBelow cfg s req level with
    | none => exact ih s distinct tail
    | some t =>
      -- clear the flag of the sent fill at once, then send the others
      dsimp only at eq
      subst eq
      have first : Step cfg ports s _ := .issue level id bound valid outstanding sent
      have kept : ((t.record (.issued level (fillReq s level id))).level level).mshr =
          (s.level level).mshr := sendBelow_mshr sent level
      rw [clearOutstanding, kept] at first
      have others := ih (s := (t.record (.issued level (fillReq s level id))).withMshr level
          ((s.level level).mshr.clearOutstandingFlag [id])) distinct (by
        intro p hp
        have ne : p.1 ≠ id := fun h => fresh (List.mem_map.mpr ⟨p, hp, h⟩)
        simpa [Mshr.clearOutstandingFlag, fillReq, ne] using tail p hp)
      rw [sendFills_withMshr] at others
      refine ReflTransGen.head first ?_
      simpa [withMshr_withMshr, Mshr.clearOutstandingFlag] using others

theorem sendMshrOutstandingReqLevel_steps {level : Nat} (bound : level ≤ cfg.llc) :
    Steps cfg ports s (sendMshrOutstandingReqLevel cfg s level) := by
  have steps := sendFills_steps ports bound ((s.level level).mshr.getOutstandingReq level) s (by
    simpa [Mshr.getOutstandingReq, Function.comp_def] using Mshr.outstandingIds_nodup _) (by
    intro p hp
    simp only [Mshr.getOutstandingReq, List.mem_map] at hp
    obtain ⟨id, mem, rfl⟩ := hp
    obtain ⟨-, valid, outstanding⟩ := Mshr.mem_outstandingIds mem
    exact ⟨valid, outstanding, rfl⟩)
  unfold sendMshrOutstandingReqLevel
  generalize (s.level level).mshr.getOutstandingReq level = reqs at steps ⊢
  rw [← sendFills_mshr level reqs s] at steps
  exact steps

theorem sendMshrOutstandingReq_steps : Steps cfg ports s (sendMshrOutstandingReq cfg s) := by
  have levels : ∀ l ∈ List.range cfg.cacheMaxLevel, l ≤ cfg.llc := fun _ => level_le_llc
  unfold sendMshrOutstandingReq
  generalize List.range cfg.cacheMaxLevel = ls at levels
  induction ls generalizing s with
  | nil => exact .refl
  | cons l ls ih =>
    exact (sendMshrOutstandingReqLevel_steps (levels l List.mem_cons_self)).trans
      (ih fun k hk => levels k (List.mem_cons_of_mem _ hk))

/-! ## Whole calls -/

theorem cacheUpdate_steps (recorded : AcksRecorded s) (clkAdd : Bool) :
    Steps cfg ports s (cacheUpdate cfg s clkAdd) := by
  have reset : Steps cfg ports s (resetBankConflictRecorder cfg s) := resetBankConflictRecorder_steps
  have recorded := reset.acksRecorded recorded
  exact reset.trans ((updateAckQueue_steps recorded).trans (sendMshrOutstandingReq_steps.trans
    (updateReqQueue_steps.trans (updateReqQueueLatency_steps clkAdd))))

theorem sendReq2Mem_steps (cfg : Config) (through : .memory ∈ ports) (accept : List Bool)
    (s : Cache) : Steps cfg ports s (sendReq2Mem s accept) := by
  fun_induction sendReq2Mem s accept with
  | case1 => exact .refl
  | case2 s accept req rest queue ih => exact .head (.sendMem through req rest queue) ih
  | case3 => exact .refl

theorem callBack_steps (through : .ack ∈ ports) (ackQueueId : Nat) :
    Steps cfg ports s (callBack s ackQueueId).2 := by
  unfold callBack
  split
  · exact .refl
  · exact .single (.popAck 0 ackQueueId fun _ => through)

theorem addTransaction_steps (through : .core ∈ ports) {req : MemReq}
    (core : req.origin = .core) (waits : req.ready = false)
    (sent : addTransaction cfg s req = some t) : Steps cfg ports s t := by
  obtain ⟨-, -, rfl⟩ := sendReq2CacheBank_eq_some.mp sent
  exact .single (.core through _ core waits)

theorem init_acksRecorded : AcksRecorded (init cfg) := by
  intro l b r hr
  simp only [init] at hr
  split at hr
  · exact .inr (List.eq_of_mem_replicate hr)
  · simp at hr

end DataflowSim.Memory.Cache
