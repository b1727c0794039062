import DataflowSim.Memory.Hierarchy

/-!
# Which way is given up

The least-recently-used policy and the ways that `get_cache_free_line` gives up. A line keeps
in `count` the number of the fill that put its block there, and a request that finds the block
does not renew it. So the way that was filled first is given up, however recently it was used.
-/

namespace DataflowSim.Memory.Cache

variable {cfg : Config} {s t : Cache}

/-- An access to a line: a request has found its block there, or a block was put there. -/
inductive Touch where
  | hit (level index : Nat)
  | fill (level index : Nat)
  deriving DecidableEq, Repr

namespace Touch

def line : Touch → Nat × Nat
  | hit level index => (level, index)
  | fill level index => (level, index)

def filled? : Touch → Option (Nat × Nat)
  | hit .. => none
  | fill level index => some (level, index)

end Touch

/-! A log lists accesses, the latest first. -/

/-- How many accesses there were after the latest one to the line. -/
def age (log : List Touch) (line : Nat × Nat) : Nat := (log.map Touch.line).idxOf line

/-- The lines that were filled. -/
def fills (log : List Touch) : List (Nat × Nat) := log.filterMap Touch.filled?

/-- The number of the fill that put its present block into the line. -/
def fillNumber (log : List Touch) (line : Nat × Nat) : Nat :=
  (fills log).length - 1 - (fills log).idxOf line

/-- The functions that change the state of the cache. Calls on the cache are made of them. -/
inductive Part where
  | lookup (level bankId : Nat)
  /-- `setCacheBlock`, and the same lines of `mem_req_complete`. -/
  | fillBlock (addr level : Nat) (origin : Origin)
  | addTransaction (req : MemReq)
  | callBack (ackQueueId : Nat)
  | sendReq2Mem (accept : List Bool)
  | recordResponse (addr level : Nat) (origin : Origin)
  | setMshrEntryReady (addr level : Nat)
  | resetBankConflictRecorder
  | popAckQueue (level : Nat)
  | respondMshr (level : Nat)
  | sendReady (level bankId : Nat)
  | sendMshrOutstandingReqLevel (level : Nat)
  | nextBank (level : Nat)
  | updateReqQueueLatency (clkAdd : Bool)

variable (cfg) in
def Part.apply (s : Cache) : Part → Cache
  | lookup level bankId => Cache.lookup cfg s level bankId
  | fillBlock addr level origin => (Cache.fillBlock cfg s addr level origin).2
  | addTransaction req => (Cache.addTransaction cfg s req).getD s
  | callBack ackQueueId => (Cache.callBack s ackQueueId).2
  | sendReq2Mem accept => Cache.sendReq2Mem s accept
  | recordResponse addr level origin => Cache.recordResponse cfg s addr level origin
  | setMshrEntryReady addr level => Cache.setMshrEntryReady cfg s addr level
  | resetBankConflictRecorder => Cache.resetBankConflictRecorder cfg s
  | popAckQueue level => (Cache.popAckQueue cfg s level).2
  | respondMshr level => Cache.respondMshr cfg s level
  | sendReady level bankId => Cache.sendReady cfg level s bankId
  | sendMshrOutstandingReqLevel level => Cache.sendMshrOutstandingReqLevel cfg s level
  | nextBank level => s.setLevel level { s.level level with
      reqQueueBankPtr := ((s.level level).reqQueueBankPtr + 1) % (cfg.level level).bankNum }
  | updateReqQueueLatency clkAdd => Cache.updateReqQueueLatency cfg s clkAdd

variable (cfg) in
/-- The access that the function makes: the line that a look up finds, or the line that
`set_cache_line` is called with. -/
def Part.touch (s : Cache) : Part → Option Touch
  | lookup level bankId =>
    match (s.level level).reqQueue bankId with
    | [] => none
    | (req, latency) :: _ =>
      if latency = 0 ∧ req.ready = false then
        (checkCacheHit cfg s (setBase cfg req.addr level) req.addr level).map (.hit level)
      else none
  | fillBlock addr level _ =>
    if (checkCacheHit cfg s (setBase cfg addr level) addr level).isSome then none
    else (getCacheFreeLine cfg s (setBase cfg addr level) level).1.map (.fill level)
  | _ => none

variable (cfg) in
/-- One function more, and the log of the accesses. -/
def advance (now : Cache × List Touch) (part : Part) : Cache × List Touch :=
  (part.apply cfg now.1, (part.touch cfg now.1).toList ++ now.2)

variable (cfg) in
/-- The state and the accesses after a sequence of functions. -/
def played (parts : List Part) : Cache × List Touch := parts.foldl (advance cfg) (init cfg, [])

variable (cfg) in
/-- All ways of the set are valid, so `get_cache_free_line` gives one up. -/
def SetFull (s : Cache) (level base : Nat) : Prop :=
  ∀ k < (cfg.level level).mappingWays, ((s.level level).line (base + k)).valid = true

variable (cfg) in
/-- The way that is given up is the one whose latest access is the oldest. -/
def EvictsLeastRecent (s : Cache) (log : List Touch) (level base : Nat) : Prop :=
  ∃ v, (selectVictim cfg s base level).1 = some v ∧
    (∀ i, (getCacheFreeLine cfg s base level).1 = some i → i = base + v) ∧
    ∀ k < (cfg.level level).mappingWays, k ≠ v →
      age log (level, base + k) < age log (level, base + v)

variable (cfg) in
/-- The way that was filled first, with fills numbered as in 64 bits. -/
structure FilledFirst (log : List Touch) (level base v : Nat) : Prop where
  way : v < (cfg.level level).mappingWays
  small : fillNumber log (level, base + v) % 2 ^ 64 < 2 ^ 64 - 1
  first : ∀ k < (cfg.level level).mappingWays,
    fillNumber log (level, base + v) % 2 ^ 64 < fillNumber log (level, base + k) % 2 ^ 64 ∨
      fillNumber log (level, base + v) % 2 ^ 64 = fillNumber log (level, base + k) % 2 ^ 64 ∧ v ≤ k

variable (cfg) in
/-- Since the latest access to the way that was filled first, each other way was accessed. -/
def FirstNotRenewed (log : List Touch) (level base : Nat) : Prop :=
  ∃ v, FilledFirst cfg log level base v ∧ ∀ k < (cfg.level level).mappingWays, k ≠ v →
    age log (level, base + k) < age log (level, base + v)

variable (cfg) in
/-- Each other way was filled after the way `v`, and was accessed since the latest hit on it. -/
def NoLateHit (log : List Touch) (level base : Nat) : Prop :=
  ∃ v < (cfg.level level).mappingWays, ∀ k < (cfg.level level).mappingWays, k ≠ v →
    (fills log).idxOf (level, base + k) < (fills log).idxOf (level, base + v) ∧
      age log (level, base + k) < log.idxOf (.hit level (base + v))

/-! ## The least count -/

/-- The result of the search: the first of the eligible ways with the least count, if that is
below the number which the search starts from. -/
theorem oldestWay_eq_some {ways : Nat} {count : Nat → Nat} {eligible : Nat → Bool} {v : Nat} :
    oldestWay ways count eligible = some v ↔
      v < ways ∧ eligible v = true ∧ count v < 2 ^ 64 - 1 ∧
        ∀ k < ways, eligible k = true → count v < count k ∨ count v = count k ∧ v ≤ k := by
  let best (n : Nat) := (List.range n).foldl (fun best j =>
    if count j < best.1 ∧ eligible j = true then (count j, some j) else best)
    (2 ^ 64 - 1, none)
  have least (n : Nat) :
      ((best n).2 = none ∧ (best n).1 = 2 ^ 64 - 1 ∧
        ∀ k < n, eligible k = true → 2 ^ 64 - 1 ≤ count k) ∨
      ∃ u, (best n).2 = some u ∧ (best n).1 = count u ∧ u < n ∧ eligible u = true ∧
        count u < 2 ^ 64 - 1 ∧
        ∀ k < n, eligible k = true → count u < count k ∨ count u = count k ∧ u ≤ k := by
    induction n with
    | zero => exact .inl ⟨rfl, rfl, by simp⟩
    | succ n ih =>
      have next : best (n + 1) =
          if count n < (best n).1 ∧ eligible n = true then (count n, some n) else best n := by
        simp only [best, List.range_succ, List.foldl_append, List.foldl_cons, List.foldl_nil]
      by_cases better : count n < (best n).1 ∧ eligible n = true
      · rw [if_pos better] at next
        rw [next]
        refine .inr ⟨n, rfl, rfl, by omega, better.2, ?_, fun k bound elig => ?_⟩
        · obtain ⟨-, start, -⟩ | ⟨u, -, same, -, -, small, -⟩ := ih <;> omega
        · obtain rfl | older : k = n ∨ k < n := by omega
          · exact .inr ⟨rfl, le_rfl⟩
          · left
            obtain ⟨-, start, all⟩ | ⟨u, -, same, -, -, -, all⟩ := ih
            · have := all k older elig
              omega
            · have := all k older elig
              omega
      · rw [if_neg better] at next
        rw [next]
        have last (elig : eligible n = true) : (best n).1 ≤ count n := by
          by_contra less
          exact better ⟨by omega, elig⟩
        obtain ⟨found, start, all⟩ | ⟨u, found, same, bound, elig, small, all⟩ := ih
        · refine .inl ⟨found, start, fun k hk elig => ?_⟩
          obtain rfl | older : k = n ∨ k < n := by omega
          · exact start ▸ last elig
          · exact all k older elig
        · refine .inr ⟨u, found, same, by omega, elig, small, fun k hk elig => ?_⟩
          obtain rfl | older : k = n ∨ k < n := by omega
          · have := last elig
            omega
          · exact all k older elig
  have result : oldestWay ways count eligible = (best ways).2 := rfl
  rw [result]
  obtain ⟨found, start, all⟩ | ⟨u, found, same, bound, elig, small, all⟩ := least ways
  · rw [found]
    refine ⟨by simp, ?_⟩
    rintro ⟨hv, elig, small, -⟩
    have := all v hv elig
    omega
  · rw [found, Option.some.injEq]
    constructor
    · rintro rfl
      exact ⟨bound, elig, small, all⟩
    · rintro ⟨hv, eligV, smallV, allV⟩
      have := all v hv eligV
      have := allV u bound elig
      omega

/-! ## Counts are numbers of fills -/

/-- Nothing that the search for a victim reads is different, dirty flags apart. -/
structure SameStamps (s t : Cache) : Prop where
  count : ∀ l i, ((t.level l).line i).count = ((s.level l).line i).count
  valid : ∀ l i, ((t.level l).line i).valid = ((s.level l).line i).valid
  lock : ∀ l i, ((t.level l).line i).lock = ((s.level l).line i).lock
  tickCount : t.tickCount = s.tickCount

theorem SameStamps.of_line (line : ∀ l, (t.level l).line = (s.level l).line)
    (tick : t.tickCount = s.tickCount) : SameStamps s t :=
  ⟨fun l i => by rw [line], fun l i => by rw [line], fun l i => by rw [line], tick⟩

theorem SameStamps.trans {u : Cache} (h : SameStamps s t) (k : SameStamps t u) :
    SameStamps s u where
  count l i := (k.count l i).trans (h.count l i)
  valid l i := (k.valid l i).trans (h.valid l i)
  lock l i := (k.lock l i).trans (h.lock l i)
  tickCount := k.tickCount.trans h.tickCount

theorem SameStamps.refl (s : Cache) : SameStamps s s := .of_line (fun _ => rfl) rfl

/-- The count of a valid line is the number of its fill, in 64 bits, and no line is locked. -/
structure Dated (s : Cache) (log : List Touch) : Prop where
  tick : s.tickCount = (fills log).length % 2 ^ 64
  filled : ∀ l i, ((s.level l).line i).valid = true → (l, i) ∈ fills log
  count : ∀ l i, ((s.level l).line i).valid = true →
    ((s.level l).line i).count = fillNumber log (l, i) % 2 ^ 64
  unlocked : ∀ l i, ((s.level l).line i).lock = false

theorem init_dated : Dated (init cfg) [] := by
  constructor <;> simp [init, fills]

theorem Dated.congr {log log' : List Touch} (h : Dated s log) (same : SameStamps s t)
    (quiet : fills log' = fills log) : Dated t log' where
  tick := by rw [same.tickCount, quiet, h.tick]
  filled l i valid := quiet ▸ h.filled l i (same.valid l i ▸ valid)
  count l i valid := by
    rw [same.count, h.count l i (same.valid l i ▸ valid), fillNumber, fillNumber, quiet]
  unlocked l i := by rw [same.lock, h.unlocked]

/-- The one place where counts change. -/
theorem Dated.setCacheLine {log : List Touch} (h : Dated s log) (index addr level : Nat) :
    Dated (setCacheLine cfg s index addr level) (.fill level index :: log) := by
  have line (l i : Nat) : ((Cache.setCacheLine cfg s index addr level).level l).line i =
      if l = level ∧ i = index then
        { tag := cfg.getCacheTag addr level, count := s.tickCount, valid := true }
      else (s.level l).line i := by
    rw [setCacheLine_line]
    grind [Function.update_apply]
  have filled : fills (.fill level index :: log) = (level, index) :: fills log := rfl
  constructor
  · change (s.tickCount + 1) % 2 ^ 64 = _
    rw [h.tick, filled, List.length_cons]
    omega
  · intro l i valid
    rw [line] at valid
    rw [filled]
    split_ifs at valid with here
    · obtain ⟨rfl, rfl⟩ := here
      exact List.mem_cons_self
    · exact List.mem_cons_of_mem _ (h.filled l i valid)
  · intro l i valid
    rw [line] at valid ⊢
    rw [fillNumber, filled, List.length_cons]
    split_ifs at valid ⊢ with here
    · obtain ⟨rfl, rfl⟩ := here
      simp [h.tick]
    · have other : (level, index) ≠ (l, i) := fun eq => by
        simp only [Prod.mk.injEq] at eq
        exact here ⟨eq.1.symm, eq.2.symm⟩
      rw [h.count l i valid, fillNumber, List.idxOf_cons_ne _ other]
      congr 1
      omega
  · intro l i
    rw [line]
    split_ifs
    · rfl
    · exact h.unlocked l i

/-! ## The functions -/

theorem SameStamps.setLevel {level : Nat} {lv : Level} (h : SameStamps s t)
    (line : lv.line = (t.level level).line := by rfl) : SameStamps s (t.setLevel level lv) := by
  refine h.trans (.of_line (fun l => ?_) rfl)
  by_cases here : l = level <;> simp [here, line]

theorem SameStamps.record (h : SameStamps s t) (e : Event) : SameStamps s (t.record e) :=
  h.trans (.of_line (fun _ => rfl) rfl)

/-- A line may become dirty or clean. -/
theorem setDirtyFlag_stamps (s : Cache) (index level : Nat) (flag : Bool) :
    SameStamps s (s.setLevel level { s.level level with
      line := Function.update (s.level level).line index
        { (s.level level).line index with dirty := flag } }) := by
  refine ⟨fun l i => ?_, fun l i => ?_, fun l i => ?_, rfl⟩ <;> by_cases here : l = level <;>
    by_cases line : i = index <;> simp [here, line]

theorem missToMshr_stamps (s : Cache) (req : CacheReq) (level : Nat) :
    SameStamps s (missToMshr cfg s req level) := by
  unfold missToMshr
  dsimp only
  split
  · exact .record (.setLevel (.refl s)) _
  · exact .refl s

theorem lookup_stamps (s : Cache) (level bankId : Nat) :
    SameStamps s (lookup cfg s level bankId) := by
  have missed := @missToMshr_stamps cfg s
  unfold lookup
  split
  case h_1 => exact .refl s
  case h_2 req latency rest front =>
    by_cases due : latency = 0 ∧ req.ready = false
    · rw [if_pos due]
      split
      case h_1 index resident =>
        refine .setLevel ?_ rfl
        by_cases writes : req.cacheOp = .WRITE ∨ req.cacheOp = .WRITEBACK_DIRTY_BLOCK
        · rw [if_pos writes]
          cases (cfg.level level).writeStrategy with
          | WRITE_BACK => exact .setLevel (setDirtyFlag_stamps s index level true)
          | WRITE_THROUGH => exact .setLevel (missed req level)
        · rw [if_neg writes]
          exact .setLevel (.refl s)
      case h_2 => exact .setLevel (.setLevel (missed req level))
    · rw [if_neg due]
      exact .refl s

theorem enqueue_stamps (s : Cache) (req : CacheReq) (level : Nat) :
    SameStamps s (enqueue cfg s req level) :=
  .record (.setLevel (.refl s)) _

theorem sendBelow_stamps {req : CacheReq} {level : Nat}
    (sent : sendBelow cfg s req level = some t) : SameStamps s t := by
  obtain ⟨-, rfl⟩ | ⟨-, rfl⟩ := sendBelow_cases sent
  · exact enqueue_stamps s req (level + 1)
  · exact .of_line (fun _ => rfl) rfl

theorem selectVictim_stamps (s : Cache) (base level : Nat) :
    SameStamps s (selectVictim cfg s base level).2 := by
  unfold selectVictim
  cases (cfg.level level).swapStyle <;> exact .of_line (fun _ => rfl) rfl

theorem releaseLine_stamps (s : Cache) (index level : Nat) :
    SameStamps s (releaseLine cfg s index level).2 := by
  cases released : releaseLine cfg s index level with
  | mk i u =>
    cases i with
    | none => exact releaseLine_none released ▸ .refl s
    | some i =>
      obtain ⟨-, ⟨-, rfl⟩ | ⟨-, -, v, sent, rfl⟩⟩ := releaseLine_some released
      · exact .refl u
      · have cleaned := (sendBelow_stamps sent).trans (setDirtyFlag_stamps v index level false)
        exact cleaned.trans (.of_line (fun _ => rfl) rfl)

theorem getCacheFreeLine_stamps (s : Cache) (base level : Nat) :
    SameStamps s (getCacheFreeLine cfg s base level).2 := by
  have chosen := @selectVictim_stamps cfg s base level
  unfold getCacheFreeLine
  split
  · exact .refl s
  · split <;> rename_i u eq <;> rw [eq] at chosen
    · exact chosen.trans (releaseLine_stamps u _ level)
    · exact chosen

theorem respond_stamps (s : Cache) (level : Nat) (req : CacheReq) :
    SameStamps s (respond cfg s level req).2 := by
  unfold respond pushAck
  dsimp only
  split_ifs
  · exact .refl s
  · exact .record (.setLevel (.setLevel (.refl s))) _
  · exact .refl s

theorem respondAll_stamps (level : Nat) (reqs : List (Nat × CacheReq)) (s : Cache) :
    SameStamps s (respondAll cfg s level reqs).2 := by
  induction reqs generalizing s with
  | nil => exact .refl s
  | cons head rest ih =>
    obtain ⟨id, req⟩ := head
    have first := @respond_stamps cfg s level req
    rw [respondAll]
    split <;> rename_i u eq <;> rw [eq] at first <;> exact first.trans (ih u)

theorem sendFills_stamps (level : Nat) (reqs : List (Nat × CacheReq)) (s : Cache) :
    SameStamps s (sendFills cfg s level reqs).2 := by
  induction reqs generalizing s with
  | nil => exact .refl s
  | cons head rest ih =>
    obtain ⟨id, req⟩ := head
    rw [sendFills]
    split
    · rename_i u sent
      exact ((sendBelow_stamps sent).record _).trans (ih _)
    · exact ih s

theorem sendReq2Mem_stamps (accept : List Bool) (s : Cache) :
    SameStamps s (sendReq2Mem s accept) := by
  induction accept generalizing s with
  | nil => exact .refl s
  | cons one accept ih =>
    cases one with
    | false => exact .refl s
    | true =>
      rw [sendReq2Mem]
      split
      · exact .refl s
      · refine .trans ?_ (ih _)
        exact .of_line (fun _ => rfl) rfl

/-- A level keeps its lines in each of the levels' updates that go through all levels. -/
theorem levels_stamps (s : Cache) {f : Nat → Level} (line : ∀ l, (f l).line = (s.level l).line) :
    SameStamps s { s with level := f } := .of_line line rfl

/-- Only fills and look ups touch lines. -/
theorem Part.stamps (s : Cache) {part : Part}
    (other : ∀ addr level origin, part ≠ .fillBlock addr level origin) :
    SameStamps s (part.apply cfg s) := by
  cases part with
  | lookup level bankId => exact lookup_stamps s level bankId
  | fillBlock addr level origin => exact absurd rfl (other addr level origin)
  | addTransaction req =>
    change SameStamps s ((sendReq2CacheBank cfg s (transMemReq2CacheReq req) 0).getD s)
    cases sent : sendReq2CacheBank cfg s (transMemReq2CacheReq req) 0 with
    | none => exact .refl s
    | some u =>
      obtain ⟨-, -, rfl⟩ := sendReq2CacheBank_eq_some.mp sent
      exact enqueue_stamps s _ 0
  | callBack ackQueueId =>
    change SameStamps s (Cache.callBack s ackQueueId).2
    unfold Cache.callBack
    split
    · exact .refl s
    · exact .setLevel (.refl s)
  | sendReq2Mem accept => exact sendReq2Mem_stamps accept s
  | recordResponse addr level origin => exact .record (.refl s) _
  | setMshrEntryReady addr level => exact .setLevel (.refl s)
  | resetBankConflictRecorder =>
    exact levels_stamps s fun l => by split_ifs <;> rfl
  | popAckQueue level => exact .setLevel (.refl s)
  | respondMshr level =>
    refine .setLevel (.trans ?_ (respondAll_stamps level _ _))
    exact .setLevel (.refl s)
  | sendReady level bankId =>
    change SameStamps s (Cache.sendReady cfg level s bankId)
    unfold Cache.sendReady pushAck
    dsimp only
    split
    · exact .refl s
    · split_ifs
      · exact .record (.setLevel (.setLevel (.refl s))) _
      · exact .refl s
  | sendMshrOutstandingReqLevel level =>
    exact .setLevel (sendFills_stamps level _ s)
  | nextBank level => exact .setLevel (.refl s)
  | updateReqQueueLatency clkAdd =>
    change SameStamps s (Cache.updateReqQueueLatency cfg s clkAdd)
    unfold Cache.updateReqQueueLatency
    split_ifs
    · exact levels_stamps s fun l => by split_ifs <;> rfl
    · exact .refl s

theorem Part.dated {log : List Touch} (h : Dated s log) (part : Part) :
    Dated (part.apply cfg s) ((part.touch cfg s).toList ++ log) := by
  have quiet (other : ∀ addr level origin, part ≠ .fillBlock addr level origin)
      (silent : fills ((part.touch cfg s).toList ++ log) = fills log) :
      Dated (part.apply cfg s) ((part.touch cfg s).toList ++ log) :=
    h.congr (part.stamps s other) silent
  cases part with
  | lookup level bankId =>
    refine quiet (by simp) ?_
    rw [touch]
    split
    · rfl
    · split_ifs
      · cases checkCacheHit .. <;> rfl
      · rfl
  | fillBlock addr level origin =>
    rw [apply, touch, Cache.fillBlock]
    split_ifs
    · exact h
    · have searched := @getCacheFreeLine_stamps cfg s (setBase cfg addr level) level
      split <;> rename_i u found <;> rw [found] at searched ⊢
      · exact ((h.congr searched rfl).setCacheLine _ addr level).congr (.record (.refl _) _) rfl
      · exact h.congr searched rfl
  | _ => exact quiet (by simp) rfl

theorem played_dated (parts : List Part) : Dated (played cfg parts).1 (played cfg parts).2 :=
  List.foldlRecOn (motive := fun now => Dated now.1 now.2) parts (advance cfg) init_dated
    fun _ h part _ => part.dated h

/-! ## Calls on the cache

Every state of a run is reached by a sequence of the functions above. -/

/-- The state is reached from the first one by a sequence of functions. -/
def Played (cfg : Config) (s : Cache) : Prop := ∃ parts, (played cfg parts).1 = s

theorem Played.apply (h : Played cfg s) (part : Part) : Played cfg (part.apply cfg s) := by
  obtain ⟨parts, rfl⟩ := h
  exact ⟨parts ++ [part], by simp [played, advance]⟩

theorem Played.fillUpper (h : Played cfg s) (level : Nat) (req : CacheReq) :
    Played cfg (fillUpper cfg level s req) := by
  have ready := (h.apply (.recordResponse req.addr level req.origin)).apply
    (.setMshrEntryReady req.addr level)
  unfold Cache.fillUpper
  dsimp only
  split
  · exact ready
  · exact ready.apply (.fillBlock req.addr level req.origin)

theorem Played.updateAckQueueLevel (h : Played cfg s) (level : Nat) :
    Played cfg (updateAckQueueLevel cfg s level) := by
  have upper : Played cfg (if 0 < level then
      (popAckQueue cfg s level).1.foldl (Cache.fillUpper cfg (level - 1))
        (popAckQueue cfg s level).2
      else s) := by
    split
    · exact List.foldlRecOn _ _ (h.apply (.popAckQueue level)) fun _ here req _ =>
        here.fillUpper _ req
    · exact h
  exact List.foldlRecOn _ _ (upper.apply (.respondMshr level)) fun _ here b _ =>
    here.apply (.sendReady level b)

theorem Played.lookupBanks (level ptr : Nat) (banks : List Nat) (h : Played cfg s) :
    Played cfg (lookupBanks cfg s level ptr banks) := by
  induction banks generalizing s with
  | nil => exact h
  | cons i banks ih =>
    rw [Cache.lookupBanks]
    split
    · exact ih (h.apply (.lookup level _))
    · exact h

theorem Played.cacheUpdate (h : Played cfg s) (clkAdd : Bool) :
    Played cfg (cacheUpdate cfg s clkAdd) := by
  have acks : Played cfg (updateAckQueue cfg (resetBankConflictRecorder cfg s)) :=
    List.foldlRecOn _ _ (h.apply .resetBankConflictRecorder) fun _ here level _ =>
      here.updateAckQueueLevel level
  have fills : Played cfg (sendMshrOutstandingReq cfg
      (updateAckQueue cfg (resetBankConflictRecorder cfg s))) :=
    List.foldlRecOn _ _ acks fun _ here level _ => here.apply (.sendMshrOutstandingReqLevel level)
  have lookups : Played cfg (updateReqQueue cfg (sendMshrOutstandingReq cfg
      (updateAckQueue cfg (resetBankConflictRecorder cfg s)))) :=
    List.foldlRecOn _ _ fills fun _ here level _ =>
      (here.lookupBanks level _ _).apply (.nextBank level)
  exact lookups.apply (.updateReqQueueLatency clkAdd)

theorem Played.memReqComplete {req : MemReq} (h : Played cfg s)
    (done : memReqComplete cfg s req = some t) : Played cfg t := by
  have filled := (h.apply (.recordResponse req.addr cfg.llc req.origin)).apply
    (.fillBlock req.addr cfg.llc req.origin)
  unfold Cache.memReqComplete at done
  split at done
  case h_1 u found =>
    obtain rfl := Option.some.inj done
    simp only [Part.apply, found] at filled
    exact filled.apply (.setMshrEntryReady req.addr cfg.llc)
  case h_2 => simp at done

theorem run_played {ops : List Op} (done : run cfg ops = some s) : Played cfg s := by
  refine Run.invariant (fun s op t h stepped => ?_) ⟨[], rfl⟩ done
  cases op with
  | addTransaction req =>
    obtain rfl := Option.some.inj stepped
    exact h.apply (.addTransaction { req with ready := false, origin := .core })
  | callBack ackQueueId => exact Option.some.inj stepped ▸ h.apply (.callBack ackQueueId)
  | cacheUpdate clkAdd => exact Option.some.inj stepped ▸ h.cacheUpdate clkAdd
  | sendReq2Mem accept => exact Option.some.inj stepped ▸ h.apply (.sendReq2Mem accept)
  | complete i =>
    cases found : (sentReqs s.history)[i]? with
    | none => simp [step, found] at stepped
    | some req =>
      simp only [step, found] at stepped
      exact h.memReqComplete stepped

/-! ## The victim -/

theorem Dated.selectVictim_iff {log : List Touch} {level base v : Nat} (h : Dated s log)
    (style : (cfg.level level).swapStyle = .CACHE_SWAP_LRU) (full : SetFull cfg s level base) :
    (selectVictim cfg s base level).1 = some v ↔ FilledFirst cfg log level base v := by
  have all : (fun j => !((s.level level).line (base + j)).lock) = fun _ => true := by
    funext j
    simp [h.unlocked]
  have victim : (selectVictim cfg s base level).1 =
      oldestWay (cfg.level level).mappingWays (fun j => ((s.level level).line (base + j)).count)
        fun _ => true := by
    simp [selectVictim, style, all]
  have number (k : Nat) (bound : k < (cfg.level level).mappingWays) :
      ((s.level level).line (base + k)).count = fillNumber log (level, base + k) % 2 ^ 64 :=
    h.count level (base + k) (full k bound)
  rw [victim, oldestWay_eq_some]
  constructor
  · rintro ⟨bound, -, small, first⟩
    rw [number v bound] at small first
    exact ⟨bound, small, fun k hk => number k hk ▸ first k hk rfl⟩
  · rintro ⟨bound, small, first⟩
    rw [number v bound]
    exact ⟨bound, rfl, small, fun k hk _ => (number k hk).symm ▸ first k hk⟩

/-- On a full set the line that is returned is the victim. -/
theorem getCacheFreeLine_victim {level base v i : Nat} (full : SetFull cfg s level base)
    (chosen : (selectVictim cfg s base level).1 = some v)
    (found : (getCacheFreeLine cfg s base level).1 = some i) : i = base + v := by
  have taken : (List.range (cfg.level level).mappingWays).find? (fun i =>
      !((s.level level).line (base + i)).valid) = none := by
    simpa [List.find?_eq_none, SetFull] using full
  rw [getCacheFreeLine, taken] at found
  cases victim : selectVictim cfg s base level with
  | mk j u =>
    obtain rfl : j = some v := by rw [← chosen, victim]
    simp only [victim] at found
    cases released : releaseLine cfg u (base + v) level with
    | mk k w =>
      obtain rfl : k = some i := by rw [← found, released]
      exact (releaseLine_some released).1

theorem FilledFirst.unique {log : List Touch} {level base u v : Nat}
    (hu : FilledFirst cfg log level base u) (hv : FilledFirst cfg log level base v) : u = v := by
  have := hu.first v hv.way
  have := hv.first u hu.way
  omega

/-! ## With few fills -/

theorem age_lt_iff {log : List Touch} {l i : Nat} {line : Nat × Nat} :
    age log line < age log (l, i) ↔
      age log line < log.idxOf (.hit l i) ∧ age log line < log.idxOf (.fill l i) := by
  have least : age log (l, i) = min (log.idxOf (.hit l i)) (log.idxOf (.fill l i)) := by
    induction log with
    | nil => rfl
    | cons touch log ih =>
      unfold age at ih ⊢
      rw [List.map_cons, List.idxOf_cons, List.idxOf_cons, List.idxOf_cons, ih]
      cases touch <;> grind [Touch.line]
  rw [least, lt_min_iff]

/-- A line that was filled later was also accessed later. -/
theorem age_lt_of_fills {log : List Touch} {l i : Nat} {line : Nat × Nat}
    (later : (fills log).idxOf line < (fills log).idxOf (l, i)) :
    age log line < log.idxOf (.fill l i) := by
  induction log with
  | nil => simp [fills] at later
  | cons touch log ih =>
    unfold age fills at ih
    unfold age
    unfold fills at later
    cases touch with
    | hit level index =>
      have behind := ih later
      grind [Touch.line]
    | fill level index =>
      simp only [List.filterMap_cons, Touch.filled?, List.idxOf_cons, List.map_cons] at later ⊢
      grind [Touch.line]

theorem Dated.filledFirst_iff {log : List Touch} {level base v : Nat} (h : Dated s log)
    (full : SetFull cfg s level base) (few : (fills log).length < 2 ^ 64) :
    FilledFirst cfg log level base v ↔
      v < (cfg.level level).mappingWays ∧ ∀ k < (cfg.level level).mappingWays, k ≠ v →
        (fills log).idxOf (level, base + k) < (fills log).idxOf (level, base + v) := by
  have place (k : Nat) (bound : k < (cfg.level level).mappingWays) :
      (fills log).idxOf (level, base + k) < (fills log).length :=
    List.idxOf_lt_length_iff.mpr (h.filled _ _ (full k bound))
  have small (k : Nat) : fillNumber log (level, base + k) % 2 ^ 64 =
      (fills log).length - 1 - (fills log).idxOf (level, base + k) :=
    Nat.mod_eq_of_lt (by unfold fillNumber; omega)
  have other (k : Nat) (hv : v < (cfg.level level).mappingWays) (ne : k ≠ v) :
      (fills log).idxOf (level, base + k) ≠ (fills log).idxOf (level, base + v) := by
    intro same
    have mem := h.filled _ _ (full v hv)
    have equal := (List.idxOf_inj mem).mp same.symm
    simp only [Prod.mk.injEq, Nat.add_left_cancel_iff, true_and] at equal
    exact ne equal.symm
  constructor
  · rintro ⟨hv, -, first⟩
    refine ⟨hv, fun k hk ne => ?_⟩
    have least := first k hk
    rw [small, small] at least
    have := place k hk
    have := place v hv
    have := other k hv ne
    omega
  · rintro ⟨hv, later⟩
    have := place v hv
    refine ⟨hv, by rw [small]; omega, fun k hk => ?_⟩
    rw [small, small]
    obtain rfl | ne := eq_or_ne k v
    · exact .inr ⟨rfl, le_rfl⟩
    · have := place k hk
      have := later k hk ne
      omega

/-- In every sequence of look ups, fills and other functions: on a full set the way that is
given up is the least recently accessed one exactly when the way that was filled first has not
been used since every other way was; as long as fills can be numbered in 64 bits, this means
that it was not hit since. -/
theorem evicts_least_recent_iff (cfg : Config) (parts : List Part) (level base : Nat) :
    let s := (played cfg parts).1
    let log := (played cfg parts).2
    (cfg.level level).swapStyle = .CACHE_SWAP_LRU → SetFull cfg s level base →
      (EvictsLeastRecent cfg s log level base ↔ FirstNotRenewed cfg log level base) ∧
      ((fills log).length < 2 ^ 64 →
        (EvictsLeastRecent cfg s log level base ↔ NoLateHit cfg log level base)) := by
  intro s log style full
  have dated : Dated s log := played_dated parts
  have law : EvictsLeastRecent cfg s log level base ↔ FirstNotRenewed cfg log level base := by
    constructor
    · rintro ⟨v, chosen, -, oldest⟩
      exact ⟨v, (dated.selectVictim_iff style full).mp chosen, oldest⟩
    · rintro ⟨v, first, oldest⟩
      have chosen := (dated.selectVictim_iff style full).mpr first
      exact ⟨v, chosen, fun i => getCacheFreeLine_victim full chosen, oldest⟩
  refine ⟨law, fun few => law.trans ?_⟩
  constructor
  · rintro ⟨v, first, oldest⟩
    obtain ⟨hv, later⟩ := (dated.filledFirst_iff full few).mp first
    exact ⟨v, hv, fun k hk ne => ⟨later k hk ne, (age_lt_iff.mp (oldest k hk ne)).1⟩⟩
  · rintro ⟨v, hv, rest⟩
    have first := (dated.filledFirst_iff full few).mpr ⟨hv, fun k hk ne => (rest k hk ne).1⟩
    refine ⟨v, first, fun k hk ne => ?_⟩
    obtain ⟨later, hit⟩ := rest k hk ne
    exact age_lt_iff.mpr ⟨hit, age_lt_of_fills later⟩

/-- Blocks 0 and 2 fill set 0, and nothing is read: the way of block 0 is given up. -/
theorem evicts_least_recent_iff_tiny :
    EvictsLeastRecent tiny (played tiny [.fillBlock 0 0 .initial, .fillBlock 32 0 .initial]).1
      (played tiny [.fillBlock 0 0 .initial, .fillBlock 32 0 .initial]).2 0 0 :=
  ((evicts_least_recent_iff tiny [.fillBlock 0 0 .initial, .fillBlock 32 0 .initial] 0 0 rfl
    (by unfold SetFull; decide)).2 (by decide)).mpr (by unfold NoLateHit; decide)

/-- Blocks 0 and 2 fill set 0, block 0 is read, and block 0 is given up. -/
theorem read_block_evicted :
    let parts : List Part := [.fillBlock 0 0 .initial, .fillBlock 32 0 .initial,
      .addTransaction { addr := 0 }, .updateReqQueueLatency true, .lookup 0 0]
    let s := (played tiny parts).1
    let log := (played tiny parts).2
    (tiny.level 0).swapStyle = .CACHE_SWAP_LRU ∧ SetFull tiny s 0 0 ∧
      log = [.hit 0 0, .fill 0 1, .fill 0 0] ∧ (selectVictim tiny s 0 0).1 = some 0 ∧
      ¬ EvictsLeastRecent tiny s log 0 0 := by
  intro parts s log
  have accesses : log = [.hit 0 0, .fill 0 1, .fill 0 0] := by decide
  have victim : (selectVictim tiny s 0 0).1 = some 0 := by decide
  refine ⟨rfl, by unfold SetFull; decide, accesses, victim, ?_⟩
  rintro ⟨v, chosen, -, oldest⟩
  obtain rfl : v = 0 := by simpa [victim] using chosen.symm
  have other := oldest 1 (by decide) (by decide)
  rw [accesses] at other
  revert other
  decide

end DataflowSim.Memory.Cache
