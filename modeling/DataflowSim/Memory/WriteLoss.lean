import DataflowSim.Memory.Hierarchy

/-!
# Acknowledged writes

A write that misses waits in an MSHR entry, is acknowledged when the entry becomes ready, and
leaves no dirty bit behind: the line is filled clean. So the write is kept only by the request
that the entry sends below, and only if that request is a write. It is not when a read opened
the entry, when the write joined after the entry had sent its fill, or when the entry became
ready before it sent anything. Nor is a dirty line kept by a write-back under another address.
-/

namespace DataflowSim.Memory.Cache

variable {cfg : Config} {ports : Set Port} {s t : Cache}

/-- The event hands a write of the block to the level below. -/
def writesBelow (cfg : Config) (l block : Nat) : Event → Bool
  | .issued k r => k = l && r.writes && cfg.getCacheBlockId r.addr l = block
  | .evicted k _ _ addr => k = l && cfg.getCacheBlockId addr l = block
  | _ => false

/-- A write of the request's block went below after the level had accepted the request. -/
def writtenSince (cfg : Config) (h : List Event) (l : Nat) (r : CacheReq) : Bool :=
  (h.drop r.stamp).any (writesBelow cfg l (cfg.getCacheBlockId r.addr l))

/-- The fill of the entry is still to be sent, and will go as a write. -/
def awaitsWrite (e : MshrEntry) : Bool := e.outstanding && !e.ready && e.front.writes

/-- The event loses no write: a write joins only an entry that will be sent as a write, an
entry that holds a write becomes ready only after it was sent, and a write-back goes to the
block of its victim. In the first two cases it is enough that the block has been written
below since the write was accepted. -/
def safeEvent (cfg : Config) (h : List Event) : Event → Bool
  | .joined l r entry => r.cacheOp ≠ .WRITE || awaitsWrite entry || writtenSince cfg h l r
  | .response l _ _ _ entries => entries.all fun e => !e.outstanding ||
      e.mshrQueue.all fun r => r.cacheOp ≠ .WRITE || writtenSince cfg h l r
  | .evicted l i line addr => cfg.getCacheTag addr l = line.tag &&
      cfg.getCacheSetIndex addr l = i / (cfg.level l).mappingWays
  | _ => true

/-- Every event so far was safe when it happened. -/
def Safe (cfg : Config) (h : List Event) : Prop :=
  ∀ i, (hi : i < h.length) → safeEvent cfg (h.take i) h[i] = true

instance (h : List Event) : Decidable (Safe cfg h) :=
  inferInstanceAs (Decidable (∀ i, (hi : i < h.length) → _))

/-- A valid dirty line of the level holds the block of the address. -/
def HasDirty (cfg : Config) (s : Cache) (l addr : Nat) : Prop :=
  ∃ i < (cfg.level l).mappingWays, ((s.level l).line (setBase cfg addr l + i)).valid = true ∧
    ((s.level l).line (setBase cfg addr l + i)).dirty = true ∧
    ((s.level l).line (setBase cfg addr l + i)).tag = cfg.getCacheTag addr l

/-- The write is in a dirty line of the level, or has gone below since it was accepted. -/
def Kept (cfg : Config) (s : Cache) (l : Nat) (r : CacheReq) : Prop :=
  HasDirty cfg s l r.addr ∨ writtenSince cfg s.history l r = true

instance (s : Cache) (l addr : Nat) : Decidable (HasDirty cfg s l addr) :=
  inferInstanceAs (Decidable (∃ i < _, _))

instance (s : Cache) (l : Nat) (r : CacheReq) : Decidable (Kept cfg s l r) :=
  inferInstanceAs (Decidable (_ ∨ _))

/-- No acknowledged write is lost. -/
def NoLostWrite (cfg : Config) (s : Cache) : Prop :=
  ∀ l r, .acked l r ∈ s.history → r.cacheOp = .WRITE → Kept cfg s l r

/-! ## Safe histories -/

theorem Safe.before {h k : List Event} (safe : Safe cfg k) (pre : h <+: k) : Safe cfg h := by
  obtain ⟨more, rfl⟩ := pre
  intro i hi
  have := safe i (by simp; omega)
  rwa [List.take_append_of_le_length hi.le, List.getElem_append_left hi] at this

/-- An event of a safe history was safe after the events before it. -/
theorem Safe.event {h : List Event} (safe : Safe cfg h) {e : Event} (mem : e ∈ h) :
    ∃ k, k <+: h ∧ safeEvent cfg k e = true := by
  obtain ⟨i, hi, rfl⟩ := List.getElem_of_mem mem
  exact ⟨h.take i, List.take_prefix i h, safe i hi⟩

theorem Safe.last {h : List Event} {e : Event} (safe : Safe cfg (h ++ [e])) :
    safeEvent cfg h e = true := by
  have := safe h.length (by simp)
  simpa using this

theorem writtenSince_mono {h k : List Event} {l : Nat} {r : CacheReq}
    (written : writtenSince cfg h l r = true) (pre : h <+: k) : writtenSince cfg k l r = true := by
  simp only [writtenSince, List.any_eq_true] at written ⊢
  obtain ⟨e, mem, below⟩ := written
  exact ⟨e, (pre.drop r.stamp).subset mem, below⟩

theorem written_of_new {h k : List Event} {l : Nat} {r : CacheReq} (stamp : r.stamp ≤ h.length)
    {e : Event} (new : e ∈ k.drop h.length)
    (below : writesBelow cfg l (cfg.getCacheBlockId r.addr l) e = true) :
    writtenSince cfg k l r = true := by
  simp only [writtenSince, List.any_eq_true]
  exact ⟨e, List.drop_subset_drop_left k stamp new, below⟩

/-! ## Lines stay dirty until they are written back -/

theorem checkCacheHit_some {base addr l index : Nat}
    (found : checkCacheHit cfg s base addr l = some index) :
    ∃ i < (cfg.level l).mappingWays, index = base + i ∧
      ((s.level l).line index).valid = true ∧
      ((s.level l).line index).tag = cfg.getCacheTag addr l := by
  simp only [checkCacheHit, Option.map_eq_some_iff] at found
  obtain ⟨i, found, rfl⟩ := found
  have holds := List.find?_some found
  have bound := List.mem_range.mp (List.mem_of_find?_eq_some found)
  simp only [Bool.and_eq_true, beq_iff_eq] at holds
  exact ⟨i, bound, rfl, holds.1, holds.2⟩

/-- A write that is kept stays kept: its line is cleaned only by a write-back to its block. -/
theorem Kept.step {l : Nat} {r : CacheReq} (kept : Kept cfg s l r) (step : Step cfg ports s t)
    (style : (cfg.level l).writeStrategy = .WRITE_BACK) (stamp : r.stamp ≤ s.history.length)
    (safe : Safe cfg t.history) : Kept cfg t l r := by
  obtain ⟨i, way, valid, dirty, tag⟩ | written := kept
  swap
  · exact .inr (writtenSince_mono written step.history_grows)
  have change := step.line l
  have same (h : (t.level l).line (setBase cfg r.addr l + i) =
      (s.level l).line (setBase cfg r.addr l + i)) : Kept cfg t l r :=
    .inl ⟨i, way, by rw [h]; exact valid, by rw [h]; exact dirty, by rw [h]; exact tag⟩
  generalize lines : (t.level l).line = line at change same
  cases change with
  | same => exact same rfl
  | dirty b index q rest front writes resident =>
    by_cases here : setBase cfg r.addr l + i = index
    · refine .inl ⟨i, way, ?_, ?_, ?_⟩ <;> rw [lines, here, Function.update_self]
      · exact here ▸ valid
      · exact here ▸ tag
    · exact same (Function.update_of_ne here _ _)
  | clean index was event =>
    by_cases here : setBase cfg r.addr l + i = index
    · -- the write-back goes to the block that the line holds
      right
      refine written_of_new stamp event ?_
      obtain ⟨k, -, home⟩ := safe.event (List.mem_of_mem_drop event)
      simp only [safeEvent, Bool.and_eq_true, decide_eq_true_eq] at home
      have set : index / (cfg.level l).mappingWays = cfg.getCacheSetIndex r.addr l := by
        rw [← here, setBase, Nat.mul_comm, Nat.mul_add_div (by omega), Nat.div_eq_of_lt way,
          Nat.add_zero]
      have block := cfg.block_eq_of_tag_set (home.1.trans (here ▸ tag)) (home.2.trans set)
      simp [writesBelow, block]
    · exact same (Function.update_of_ne here _ _)
  | install index addr count origin free place event =>
    by_cases here : setBase cfg r.addr l + i = index
    · have clean := free (here ▸ valid) style
      rw [← here, dirty] at clean
      contradiction
    · exact same (Function.update_of_ne here _ _)

/-! ## The invariant -/

/-- While the history is safe, a write is kept from the moment at which it can be answered:
a request that is ready in a bank, a request of an entry that is not to be sent as a write any
more, and every ack. -/
structure Keeps (cfg : Config) (s : Cache) : Prop where
  stamps : ∀ l r, .accepted l r ∈ s.history → r.stamp ≤ s.history.length
  waits : ∀ l id, ∀ r ∈ ((s.level l).mshr.mshrTable id).mshrQueue, r.ready = false
  reqs : ∀ l b, ∀ r ∈ (s.level l).reqs b, r.cacheOp = .WRITE → r.ready = true → Kept cfg s l r
  queue : ∀ l id, ∀ r ∈ ((s.level l).mshr.mshrTable id).mshrQueue, r.cacheOp = .WRITE →
    Kept cfg s l r ∨ awaitsWrite ((s.level l).mshr.mshrTable id) = true
  acked : NoLostWrite cfg s

theorem Keeps.stamp_le (h : Keeps cfg s) {l : Nat} {r : CacheReq} (entered : Entered s.history l r) :
    r.stamp ≤ s.history.length := by
  obtain ⟨q, mem, rfl | rfl⟩ := entered
  · exact h.stamps l _ mem
  · exact h.stamps l q mem

theorem init_keeps : Keeps cfg (init cfg) := by
  constructor <;> simp [init, Level.reqs, NoLostWrite]

theorem Step.keeps_waits (step : Step cfg ports s t) (h : Keeps cfg s) (l id : Nat) (r : CacheReq)
    (mem : r ∈ ((t.level l).mshr.mshrTable id).mshrQueue) : r.ready = false := by
  have old := h.waits l id r
  have change := step.mshr l
  generalize (t.level l).mshr = m at change mem
  cases change with
  | same _ table entryNum allocated => exact old (table ▸ mem)
  | join b i q rest front waits found event =>
    simp only [Mshr.join, Mshr.setEntry_mshrTable, Function.update_apply] at mem
    grind
  | allocate b i q rest front waits found event =>
    simp only [Mshr.allocate, Mshr.setEntry_mshrTable, Function.update_apply] at mem
    grind
  | pop i open_ ready =>
    simp only [Mshr.popEntry_table] at mem
    grind [List.mem_of_mem_tail]
  | setReady addr origin hit answered quiet =>
    simp only [Mshr.setMshrEntryReady] at mem
    grind
  | issue i open_ outstanding event =>
    simp only [Mshr.clearOutstandingFlag, List.foldl_cons, List.foldl_nil,
      Mshr.setEntry_mshrTable, Function.update_apply] at mem
    grind

theorem Step.keeps_stamps (step : Step cfg ports s t) (h : Keeps cfg s) (l : Nat) (r : CacheReq)
    (accepted : .accepted l r ∈ t.history) : r.stamp ≤ t.history.length := by
  have grown := step.history_grows.length_le
  obtain ⟨es, history, causes⟩ := step.caused
  rw [history] at accepted
  obtain old | new := List.mem_append.mp accepted
  · exact (h.stamps l r old).trans grown
  · exact (causes _ new).1 ▸ grown

/-- A write that becomes ready in a bank has set the dirty bit of its line. -/
theorem Step.keeps_reqs (step : Step cfg ports s t) (h : Keeps cfg s) (traced : Traced cfg s)
    (style : ∀ l, (cfg.level l).writeStrategy = .WRITE_BACK) (safe : Safe cfg t.history)
    (l b : Nat) (r : CacheReq) (mem : r ∈ (t.level l).reqs b) (op : r.cacheOp = .WRITE)
    (ready : r.ready = true) : Kept cfg t l r := by
  obtain old | ⟨q, rest, front, rfl, served⟩ | ⟨new, -⟩ := step.reqs mem
  · exact (h.reqs l b r old op ready).step step (style l) (h.stamp_le (traced.reqs l b r old)) safe
  · obtain ⟨index, found, line⟩ := served (style l) (by
      have op : q.cacheOp = .WRITE := op
      simp [CacheReq.writes, op])
    obtain ⟨i, way, rfl, valid, tag⟩ := checkCacheHit_some found
    exact .inl ⟨i, way, by simpa [line] using valid, by simp [line], by simpa [line] using tag⟩
  · -- nothing enters a bank ready, except a write-back
    exfalso
    obtain ⟨es, history, causes⟩ := step.caused
    rw [history, List.drop_left] at new
    obtain ⟨-, ⟨-, -, waits⟩ | ⟨k, id, -, valid, -, rfl, -⟩ | ⟨k, i, line, -, -, wb, -⟩⟩ :=
      causes _ new
    · simp [waits] at ready
    · have waits := h.waits k id _ ((traced.mshr k).front_mem valid)
      have ready : ((s.level k).mshr.mshrTable id).front.ready = true := ready
      simp [waits] at ready
    · simp [wb] at op

/-- A write in an MSHR entry is kept, or will be sent below before it can be answered. -/
theorem Step.keeps_queue (step : Step cfg ports s t) (h : Keeps cfg s) (traced : Traced cfg s)
    (style : ∀ l, (cfg.level l).writeStrategy = .WRITE_BACK) (safe : Safe cfg t.history)
    (l id : Nat) (r : CacheReq) (mem : r ∈ ((t.level l).mshr.mshrTable id).mshrQueue)
    (op : r.cacheOp = .WRITE) :
    Kept cfg t l r ∨ awaitsWrite ((t.level l).mshr.mshrTable id) = true := by
  have stays (old : r ∈ ((s.level l).mshr.mshrTable id).mshrQueue) :
      Kept cfg t l r ∨ awaitsWrite ((s.level l).mshr.mshrTable id) = true :=
    (h.queue l id r old op).imp_left fun kept =>
      kept.step step (style l) (h.stamp_le (traced.queue l id r old)) safe
  have change := step.mshr l
  generalize (t.level l).mshr = m at change mem ⊢
  cases change with
  | same _ table entryNum allocated =>
    rw [table] at mem ⊢
    exact stays mem
  | join b i q rest front waits found event =>
    by_cases here : id = i
    swap
    · simp only [Mshr.join, Mshr.setEntry_mshrTable, Function.update_of_ne here] at mem ⊢
      exact stays mem
    subst here
    -- the head of the entry stays the same
    obtain ⟨-, valid, -, -⟩ := Mshr.joinId_some found
    have nonempty := (traced.mshr l).opened id valid
    have awaits : awaitsWrite (((s.level l).mshr.join id q).mshrTable id) =
        awaitsWrite ((s.level l).mshr.mshrTable id) := by
      simp only [Mshr.join, Mshr.setEntry_mshrTable, Function.update_self, awaitsWrite,
        MshrEntry.front]
      cases queue : ((s.level l).mshr.mshrTable id).mshrQueue with
      | nil => contradiction
      | cons => rfl
    rw [awaits]
    simp only [Mshr.join, Mshr.setEntry_mshrTable, Function.update_self, List.mem_append,
      List.mem_singleton] at mem
    obtain old | rfl := mem
    · exact stays old
    · have safe' := Safe.last (event ▸ safe)
      simp only [safeEvent, op, ne_eq, not_true_eq_false, decide_false, Bool.false_or,
        Bool.or_eq_true] at safe'
      obtain awaits | written := safe'
      · exact .inr awaits
      · exact .inl (.inr (writtenSince_mono written step.history_grows))
  | allocate b i q rest front waits found event =>
    by_cases here : id = i
    swap
    · simp only [Mshr.allocate, Mshr.setEntry_mshrTable, Function.update_of_ne here] at mem ⊢
      exact stays mem
    subst here
    obtain ⟨empty, idle⟩ := (traced.mshr l).closed id (Mshr.freeId_some found).2
    right
    simp only [Mshr.allocate, Mshr.setEntry_mshrTable, Function.update_self, empty,
      List.nil_append, List.mem_singleton] at mem
    subst mem
    simp [Mshr.allocate, awaitsWrite, idle, empty, MshrEntry.front, CacheReq.writes, op]
  | pop i open_ ready =>
    simp only [Mshr.popEntry_table] at mem ⊢
    by_cases here : id = i
    swap
    · simp only [here, ↓reduceIte] at mem ⊢
      exact stays mem
    subst here
    simp only [↓reduceIte] at mem ⊢
    obtain kept | awaits := stays (List.mem_of_mem_tail mem)
    · exact .inl kept
    · simp [awaitsWrite, ready] at awaits
  | setReady addr origin hit answered quiet =>
    simp only [Mshr.setMshrEntryReady] at mem ⊢
    split at mem
    swap
    · rename_i other
      rw [if_neg other]
      exact stays mem
    rename_i hits
    obtain kept | awaits := stays mem
    · exact .inl kept
    -- the entry was still to be sent, so the write has gone below on its own
    left; right
    simp only [Bool.and_eq_true, beq_iff_eq] at hits
    have waiting : (s.level l).mshr.mshrTable id ∈ waiting cfg s addr l := by
      simpa [waiting, hits.1, hits.2] using ⟨id, (traced.mshr l).bound id hits.1, rfl⟩
    obtain ⟨k, pre, safe'⟩ := safe.event (step.history_grows.subset answered)
    simp only [safeEvent, List.all_eq_true] at safe'
    have entry := safe' _ waiting
    simp only [awaitsWrite, Bool.and_eq_true] at awaits
    simp only [awaits.1.1, Bool.not_true, Bool.false_or, List.all_eq_true] at entry
    have written := entry r mem
    simp only [op, ne_eq, not_true_eq_false, decide_false, Bool.false_or] at written
    exact writtenSince_mono written pre
  | issue i open_ outstanding event =>
    by_cases here : id = i
    swap
    · simp only [Mshr.clearOutstandingFlag, List.foldl_cons, List.foldl_nil,
        Mshr.setEntry_mshrTable, Function.update_of_ne here] at mem ⊢
      exact stays mem
    subst here
    simp only [Mshr.clearOutstandingFlag, List.foldl_cons, List.foldl_nil,
      Mshr.setEntry_mshrTable, Function.update_self] at mem
    obtain kept | awaits := stays mem
    · exact .inl kept
    -- the entry goes below as a write of its block
    left; right
    refine written_of_new (h.stamp_le (traced.queue l id r mem)) event ?_
    have block := (traced.mshr l).block id r mem
    have head := (traced.mshr l).block id _ ((traced.mshr l).front_mem open_)
    simp only [awaitsWrite, Bool.and_eq_true] at awaits
    have writes : (fillReq s l id).writes = true := awaits.2
    have same : cfg.getCacheBlockId (fillReq s l id).addr l = cfg.getCacheBlockId r.addr l :=
      head.trans block.symm
    simp [writesBelow, writes, same]

theorem Step.keeps_acked (step : Step cfg ports s t) (h : Keeps cfg s) (traced : Traced cfg s)
    (style : ∀ l, (cfg.level l).writeStrategy = .WRITE_BACK) (safe : Safe cfg t.history) :
    NoLostWrite cfg t := by
  intro l r mem op
  have keep {r : CacheReq} (kept : Kept cfg s l r) (entered : Entered s.history l r) :
      Kept cfg t l r := kept.step step (style l) (h.stamp_le entered) safe
  obtain ⟨es, history, causes⟩ := step.caused
  rw [history] at mem
  obtain old | new := List.mem_append.mp mem
  · exact keep (h.acked l r old op) (traced.acked l r old)
  obtain ⟨b, rest, front, ready⟩ | ⟨id, valid, ready, rfl⟩ := causes _ new
  · have here : r ∈ (s.level l).reqs b := front ▸ List.mem_cons_self
    exact keep (h.reqs l b r here op ready) (traced.reqs l b r here)
  · have here := (traced.mshr l).front_mem valid
    obtain kept | awaits := h.queue l id _ here op
    · exact keep kept (traced.queue l id _ here).ready
    · simp [awaitsWrite, ready] at awaits

theorem Step.keeps (step : Step cfg ports s t) (h : Keeps cfg s) (traced : Traced cfg s)
    (style : ∀ l, (cfg.level l).writeStrategy = .WRITE_BACK) (safe : Safe cfg t.history) :
    Keeps cfg t :=
  ⟨step.keeps_stamps h, step.keeps_waits h, step.keeps_reqs h traced style safe,
    step.keeps_queue h traced style safe, step.keeps_acked h traced style safe⟩

/-- No lost write: in every write-back run all of whose events were safe, a write that a level
has acknowledged is in a valid dirty line of the level, or a write of its block has gone to
the next level after the write was accepted. -/
theorem no_lost_write (style : ∀ l, (cfg.level l).writeStrategy = .WRITE_BACK) {ops : List Op}
    (done : run cfg ops = some s) (safe : Safe cfg s.history) : NoLostWrite cfg s := by
  have inv := (run_invariant
    (P := fun s => Traced cfg s ∧ (Safe cfg s.history → Keeps cfg s))
    ⟨init_traced, fun _ => init_keeps⟩ (by
      rintro u v step ⟨traced, keeps⟩
      exact ⟨step.traced traced, fun safe =>
        step.keeps (keeps (safe.before step.history_grows)) traced style safe⟩) done).1
  exact (inv.2 safe).acked

/-- A write miss on its own: the entry goes below as a write before the write is answered. -/
def writeMiss : List Op :=
  [.callBack 0, .addTransaction { valid := true, addr := 16, isWrite := true }, .cacheUpdate true,
    .cacheUpdate true, .cacheUpdate true, .sendReq2Mem [true, true], .complete 1,
    .cacheUpdate true]

theorem no_lost_write_tiny :
    ∃ s r, run tiny writeMiss = some s ∧ .acked 0 r ∈ s.history ∧ r.cacheOp = .WRITE ∧
      Kept tiny s 0 r := by
  have shape : ((run tiny writeMiss).map fun s => (decide (Safe tiny s.history),
      s.history.getLast?)) = some (true, some (.acked 0
        { valid := true, addr := 16, ready := true, cacheOp := .WRITE, origin := .core })) := by
    decide
  simp only [Option.map_eq_some_iff, Prod.mk.injEq, decide_eq_true_eq] at shape
  obtain ⟨s, done, safe, last⟩ := shape
  have acked := List.mem_of_getLast? last
  exact ⟨s, _, done, acked, rfl, no_lost_write (fun _ => rfl) done safe 0 _ acked rfl⟩

/-- A read opens the entry and its fill goes below; a write to the same block joins the entry,
and is acknowledged when the fill arrives. -/
def writeJoinsRead : List Op :=
  [.callBack 0, .callBack 0, .addTransaction { valid := true, addr := 16 }, .cacheUpdate true,
    .addTransaction { valid := true, addr := 16, isWrite := true }, .cacheUpdate true,
    .cacheUpdate true, .sendReq2Mem [true, true], .complete 1, .cacheUpdate true,
    .cacheUpdate true]

/-- The write of `writeJoinsRead` when it is acknowledged. -/
def joinedWrite : CacheReq where
  valid := true
  addr := 16
  ready := true
  cacheOp := .WRITE
  origin := .core
  stamp := 1

/-- The write that joined the read is in a clean line only. -/
theorem joined_write_lost :
    ∃ s, run tiny writeJoinsRead = some s ∧ ((s.level 0).line 2).valid = true ∧
      ((s.level 0).line 2).dirty = false ∧ ¬ NoLostWrite tiny s := by
  have shape : ((run tiny writeJoinsRead).map fun s => (((s.level 0).line 2).valid,
      ((s.level 0).line 2).dirty, s.history.getLast?, decide (Kept tiny s 0 joinedWrite))) =
      some (true, false, some (.acked 0 joinedWrite), false) := by
    decide
  simp only [Option.map_eq_some_iff, Prod.mk.injEq, decide_eq_false_iff_not] at shape
  obtain ⟨s, done, valid, clean, last, lost⟩ := shape
  exact ⟨s, done, valid, clean, fun kept => lost (kept 0 _ (List.mem_of_getLast? last) rfl)⟩

end DataflowSim.Memory.Cache
