import DataflowSim.Memory.Hierarchy

/-!
# Fills answer demand misses, or find nothing to do

A level is answered with more than its own fills: `Cache::init` leaves default elements in
the queues, a write-back that reaches the memory is completed like a fill, and one that hits
in the next level is acknowledged. None of these is told apart by `mem_req_complete` or
`updateAckQueue`, so they are harmless only where the block is resident and no entry waits.
-/

namespace DataflowSim.Memory

/-- The request was made for an MSHR entry. -/
def Origin.demand : Origin → Bool
  | .fill _ _ => true
  | _ => false

/-- An answer that is not to a demand fill finds its block resident and all the entries of
the block ready. -/
def Event.harmless : Event → Bool
  | .response _ _ origin hit entries =>
    origin.demand || (hit && entries.all fun e => e.ready)
  | _ => true

namespace Cache

variable {cfg : Config} {ports : Set Port} {s t u v : Cache}

/-- Among the answers that a level gets, those to demand fills are genuine. -/
theorem Traced.demand_genuine (h : Traced cfg s) {l addr : Nat} {origin : Origin} {hit : Bool}
    {entries : List MshrEntry} (answered : .response l addr origin hit entries ∈ s.history)
    (demand : origin.demand = true) : Genuine cfg s l addr origin := by
  obtain rfl | ⟨k, rfl⟩ | genuine := h.response l addr origin hit entries answered
  · simp [Origin.demand] at demand
  · simp [Origin.demand] at demand
  · exact genuine

variable (cfg u) in
/-- The line holds the block that it held in `s`, or one that a genuine answer brought. -/
def LineJustified (s : Cache) (l i : Nat) : Prop :=
  (((s.level l).line i).valid = true ∧ ((s.level l).line i).tag = ((u.level l).line i).tag) ∨
    ∃ addr origin, .installed l addr origin ∈ u.history.drop s.history.length ∧
      ((u.level l).line i).tag = cfg.getCacheTag addr l ∧ Genuine cfg u l addr origin

variable (cfg u) in
/-- The entry was ready in `s`, or a genuine answer for its block found it waiting. -/
def ReadyJustified (s : Cache) (l id : Nat) : Prop :=
  (((s.level l).mshr.mshrTable id).ready = true ∧
      ((s.level l).mshr.mshrTable id).alloc = ((u.level l).mshr.mshrTable id).alloc) ∨
    ∃ addr origin hit entries, .response l addr origin hit entries ∈ u.history ∧
      (∃ e ∈ entries, e.ready = false ∧ e.alloc = ((u.level l).mshr.mshrTable id).alloc) ∧
      ((u.level l).mshr.mshrTable id).blockAddr = cfg.getCacheBlockId addr l ∧
      Genuine cfg u l addr origin

variable (cfg u) in
/-- All that happened to the lines and the ready flags of the level since `s` is justified. -/
def Justified (s : Cache) (l : Nat) : Prop :=
  (∀ i, ((u.level l).line i).valid = true → LineJustified cfg u s l i) ∧
    ∀ id, ((u.level l).mshr.mshrTable id).ready = true → ReadyJustified cfg u s l id

theorem mem_drop_of_le {e : Event} {n : Nat} {h k : List Event} (mem : e ∈ h.drop n)
    (pre : h <+: k) : e ∈ k.drop n := (pre.drop n).subset mem

theorem LineJustified.mono {l i : Nat} (h : LineJustified cfg u s l i) (step : Step cfg ports u v)
    (tag : ((v.level l).line i).tag = ((u.level l).line i).tag) : LineJustified cfg v s l i := by
  obtain ⟨valid, eq⟩ | ⟨addr, origin, mem, eq, genuine⟩ := h
  · exact .inl ⟨valid, eq.trans tag.symm⟩
  · exact .inr ⟨addr, origin, mem_drop_of_le mem step.history_grows, tag.trans eq,
      genuine.mono step⟩

theorem ReadyJustified.mono {l id : Nat} (h : ReadyJustified cfg u s l id)
    (step : Step cfg ports u v)
    (alloc : ((v.level l).mshr.mshrTable id).alloc = ((u.level l).mshr.mshrTable id).alloc)
    (block : ((v.level l).mshr.mshrTable id).blockAddr =
      ((u.level l).mshr.mshrTable id).blockAddr) : ReadyJustified cfg v s l id := by
  obtain ⟨ready, eq⟩ | ⟨addr, origin, hit, entries, mem, ⟨e, waits, unready, eq⟩, home, genuine⟩ := h
  · exact .inl ⟨ready, eq.trans alloc.symm⟩
  · exact .inr ⟨addr, origin, hit, entries, step.history_grows.subset mem,
      ⟨e, waits, unready, eq.trans alloc.symm⟩, block.trans home, genuine.mono step⟩

theorem Step.line_justified (step : Step cfg ports u v) (traced : Traced cfg v) {l : Nat}
    (older : s.history <+: u.history) (harmless : ∀ e ∈ v.history, e.harmless = true)
    (h : ∀ i, ((u.level l).line i).valid = true → LineJustified cfg u s l i) (i : Nat)
    (valid : ((v.level l).line i).valid = true) : LineJustified cfg v s l i := by
  have keep (tag : ((v.level l).line i).tag = ((u.level l).line i).tag)
      (was : ((u.level l).line i).valid = true) : LineJustified cfg v s l i :=
    (h i was).mono step tag
  have change := step.line l
  generalize lines : (v.level l).line = line at change valid keep
  cases change with
  | same => exact keep rfl valid
  | dirty b index r rest front writes resident =>
    by_cases here : i = index
    · subst here; exact keep (by simp) (by simpa using valid)
    · exact keep (by simp [here]) (by simpa [here] using valid)
  | clean index dirty event =>
    by_cases here : i = index
    · subst here; exact keep (by simp) (by simpa using valid)
    · exact keep (by simp [here]) (by simpa [here] using valid)
  | install index addr count origin free place event =>
    by_cases here : i = index
    · -- the answer missed, so it was to a demand fill
      have installed : .installed l addr origin ∈ v.history := by simp [event]
      obtain ⟨entries, answered⟩ := traced.installed l addr origin installed
      have demand : origin.demand = true := by
        simpa [Event.harmless] using harmless _ answered
      refine .inr ⟨addr, origin, ?_, by simp [lines, here],
        traced.demand_genuine answered demand⟩
      rw [event, List.drop_append_of_le_length older.length_le]
      simp
    · exact keep (by simp [here]) (by simpa [here] using valid)

theorem Step.ready_justified (step : Step cfg ports u v) (before : Traced cfg u)
    (traced : Traced cfg v)
    {l : Nat} (harmless : ∀ e ∈ v.history, e.harmless = true)
    (h : ∀ id, ((u.level l).mshr.mshrTable id).ready = true → ReadyJustified cfg u s l id)
    (id : Nat) (ready : ((v.level l).mshr.mshrTable id).ready = true) :
    ReadyJustified cfg v s l id := by
  have keep (alloc : ((v.level l).mshr.mshrTable id).alloc = ((u.level l).mshr.mshrTable id).alloc)
      (block : ((v.level l).mshr.mshrTable id).blockAddr =
        ((u.level l).mshr.mshrTable id).blockAddr)
      (was : ((u.level l).mshr.mshrTable id).ready = true) : ReadyJustified cfg v s l id :=
    (h id was).mono step alloc block
  have change := step.mshr l
  generalize table : (v.level l).mshr = m at change ready keep
  cases change with
  | same _ eq entryNum allocated => rw [eq] at ready keep; exact keep rfl rfl ready
  | join b i r rest front waits found event =>
    by_cases here : id = i
    · subst here
      exact keep (by simp [Mshr.join]) (by simp [Mshr.join]) (by simpa [Mshr.join] using ready)
    · exact keep (by simp [Mshr.join, here]) (by simp [Mshr.join, here])
        (by simpa [Mshr.join, here] using ready)
  | allocate b i r rest front waits found event =>
    by_cases here : id = i
    · -- a free entry is not ready
      subst here
      have idle := ((before.mshr l).closed id (Mshr.freeId_some found).2).2
      simp [Mshr.allocate, idle] at ready
    · exact keep (by simp [Mshr.allocate, here]) (by simp [Mshr.allocate, here])
        (by simpa [Mshr.allocate, here] using ready)
  | pop i valid was =>
    simp only [Mshr.popEntry_table] at ready keep
    by_cases here : id = i
    · subst here
      simp only [↓reduceIte, Bool.and_eq_true] at ready keep
      exact keep trivial trivial ready.1
    · simp only [here, ↓reduceIte] at ready keep
      exact keep trivial trivial ready
  | setReady addr origin hit answered quiet =>
    by_cases was : ((u.level l).mshr.mshrTable id).ready = true
    · refine keep ?_ ?_ was <;> simp only [Mshr.setMshrEntryReady] <;> split <;> rfl
    · simp only [Mshr.setMshrEntryReady] at ready
      split at ready
      case isFalse => exact absurd ready was
      case isTrue hits =>
        -- the answer found this entry waiting, so it was to a demand fill
        simp only [Bool.and_eq_true, beq_iff_eq] at hits
        have mem : (u.level l).mshr.mshrTable id ∈ waiting cfg u addr l := by
          have bound := (before.mshr l).bound id hits.1
          simpa [waiting, hits.1, hits.2] using ⟨id, bound, rfl⟩
        have answered : .response l addr origin hit (waiting cfg u addr l) ∈ v.history :=
          step.history_grows.subset answered
        have demand : origin.demand = true := by
          have := harmless _ answered
          simp only [Event.harmless, Bool.or_eq_true, Bool.and_eq_true, List.all_eq_true] at this
          obtain demand | ⟨-, all⟩ := this
          · exact demand
          · exact absurd (all _ mem) was
        refine .inr ⟨addr, origin, hit, _, answered,
          ⟨_, mem, by simpa using was, ?_⟩, ?_, traced.demand_genuine answered demand⟩
        · simp only [table, Mshr.setMshrEntryReady]
          split <;> rfl
        · simp only [table, Mshr.setMshrEntryReady]
          split <;> exact hits.2
  | issue i valid outstanding event =>
    by_cases here : id = i
    · subst here
      exact keep (by simp [Mshr.clearOutstandingFlag]) (by simp [Mshr.clearOutstandingFlag])
        (by simpa [Mshr.clearOutstandingFlag] using ready)
    · exact keep (by simp [Mshr.clearOutstandingFlag, here])
        (by simp [Mshr.clearOutstandingFlag, here])
        (by simpa [Mshr.clearOutstandingFlag, here] using ready)

theorem steps_justified (steps : Steps cfg ports s t) (traced : Traced cfg s)
    (harmless : ∀ e ∈ t.history, e.harmless = true) (l : Nat) : Justified cfg t s l := by
  have inv : Traced cfg t ∧ s.history <+: t.history ∧
      ((∀ e ∈ t.history, e.harmless = true) → Justified cfg t s l) := by
    refine steps.ind (P := fun u => Traced cfg u ∧ s.history <+: u.history ∧
      ((∀ e ∈ u.history, e.harmless = true) → Justified cfg u s l)) ?_ ?_
    · rintro u v step ⟨before, older, justified⟩
      refine ⟨step.traced before, older.trans step.history_grows, fun harmless => ?_⟩
      obtain ⟨lines, ready⟩ := justified fun e mem => harmless e (step.history_grows.subset mem)
      exact ⟨step.line_justified (step.traced before) older harmless lines,
        step.ready_justified before (step.traced before) harmless ready⟩
    · exact ⟨traced, List.prefix_rfl, fun _ =>
        ⟨fun i valid => .inl ⟨valid, rfl⟩, fun id ready => .inl ⟨ready, rfl⟩⟩⟩
  exact inv.2.2 harmless

/-! ## An answer that finds nothing to do -/

variable (cfg s) in
/-- The event that an answer to the level records. -/
def responseEvent (l addr : Nat) (origin : Origin) : Event :=
  .response l addr origin (checkCacheHit cfg s (setBase cfg addr l) addr l).isSome
    (waiting cfg s addr l)

theorem setMshrEntryReady_idle {l addr : Nat}
    (valid : (s.level l).mshr.Valid fun r => cfg.getCacheBlockId r.addr l)
    (ready : ∀ e ∈ waiting cfg s addr l, e.ready = true) :
    (s.level l).mshr.setMshrEntryReady (cfg.getCacheBlockId addr l) = (s.level l).mshr := by
  unfold Mshr.setMshrEntryReady
  congr 1
  funext i
  split
  case isFalse => rfl
  case isTrue hits =>
    simp only [Bool.and_eq_true, beq_iff_eq] at hits
    have mem : (s.level l).mshr.mshrTable i ∈ waiting cfg s addr l := by
      simpa [waiting, hits.1, hits.2] using ⟨i, valid.bound i hits.1, rfl⟩
    have was := ready _ mem
    generalize (s.level l).mshr.mshrTable i = e at was
    cases e
    cases was
    rfl

/-- The two functions that receive answers leave lines and MSHR alone when the answer is
harmless without being to a demand fill. -/
theorem answer_idle (traced : Traced cfg s) {l addr : Nat} {origin : Origin}
    (spurious : origin.demand = false)
    (harmless : (responseEvent cfg s l addr origin).harmless = true) :
    (∀ req u, l = cfg.llc → req.addr = addr → req.origin = origin →
        memReqComplete cfg s req = some u →
          (u.level l).line = (s.level l).line ∧ (u.level l).mshr = (s.level l).mshr) ∧
      ∀ req, req.addr = addr → req.origin = origin →
        ((fillUpper cfg l s req).level l).line = (s.level l).line ∧
          ((fillUpper cfg l s req).level l).mshr = (s.level l).mshr := by
  simp only [responseEvent, Event.harmless, spurious, Bool.false_or, Bool.and_eq_true,
    List.all_eq_true] at harmless
  obtain ⟨hit, ready⟩ := harmless
  have idle := setMshrEntryReady_idle (traced.mshr l) ready
  constructor
  · rintro req u rfl rfl rfl done
    have filled : fillBlock cfg (recordResponse cfg s req.addr cfg.llc req.origin) req.addr
        cfg.llc req.origin = (true, recordResponse cfg s req.addr cfg.llc req.origin) :=
      if_pos hit
    simp only [memReqComplete, filled, Option.some.injEq] at done
    subst done
    simp [setMshrEntryReady_mshr, idle]
  · rintro req rfl rfl
    have hit' : (checkCacheHit cfg (setMshrEntryReady cfg (recordResponse cfg s req.addr l
        req.origin) req.addr l) (setBase cfg req.addr l) req.addr l).isSome = true := by
      simpa [checkCacheHit] using hit
    unfold fillUpper setCacheBlock fillBlock
    dsimp only
    rw [if_pos hit']
    split <;> simp [setMshrEntryReady_mshr, idle]

/-! ## The main result -/

/-- Fills only answer demand misses: in every run all of whose answers are harmless, a block
enters a line of a level, and an MSHR entry becomes ready, only by an answer to a demand fill
that the level issued for that block; an answer to anything else changes neither the lines
nor the MSHR of the level. -/
theorem fills_answer_demand {ops : List Op} {op : Op} (before : run cfg ops = some s)
    (after : step cfg s op = some t) (harmless : ∀ e ∈ t.history, e.harmless = true) (l : Nat) :
    Justified cfg t s l ∧
      ∀ addr origin, origin.demand = false →
        (responseEvent cfg t l addr origin).harmless = true →
        (∀ req u, l = cfg.llc → req.addr = addr → req.origin = origin →
            memReqComplete cfg t req = some u →
              (u.level l).line = (t.level l).line ∧ (u.level l).mshr = (t.level l).mshr) ∧
          ∀ req, req.addr = addr → req.origin = origin →
            ((fillUpper cfg l t req).level l).line = (t.level l).line ∧
              ((fillUpper cfg l t req).level l).mshr = (t.level l).mshr := by
  obtain ⟨traced, recorded⟩ := run_invariant init_traced (fun _ _ => Step.traced) before
  have steps : Steps cfg Set.univ s t := step_steps recorded after fun _ _ => trivial
  have traced' : Traced cfg t := steps.ind (fun _ _ => Step.traced) traced
  exact ⟨steps_justified steps traced harmless l,
    fun addr origin spurious idle => answer_idle traced' spurious idle⟩

/-- A read misses, its fill goes to the memory behind the default transaction, and the memory
completes the fill only. -/
theorem fills_answer_demand_tiny :
    ∃ s t, run tiny [.addTransaction { valid := true, addr := 16 }, .cacheUpdate true,
        .cacheUpdate true, .cacheUpdate true, .sendReq2Mem [true, true]] = some s ∧
      step tiny s (.complete 1) = some t ∧ ((t.level 0).line 2).valid = true ∧
      Justified tiny t s 0 := by
  have shape : ((run tiny [.addTransaction { valid := true, addr := 16 }, .cacheUpdate true,
      .cacheUpdate true, .cacheUpdate true, .sendReq2Mem [true, true]]).bind fun s =>
        (step tiny s (.complete 1)).map fun t =>
          (((t.level 0).line 2).valid, t.history.all Event.harmless)) = some (true, true) := by
    decide
  simp only [Option.bind_eq_some_iff, Option.map_eq_some_iff, Prod.mk.injEq,
    List.all_eq_true] at shape
  obtain ⟨s, before, t, after, valid, harmless⟩ := shape
  exact ⟨s, t, before, after, valid, (fills_answer_demand before after harmless 0).1⟩

/-- The memory gets the default transaction that `init` queued, completes it, and the block of
address zero is installed although the level has issued no fill. -/
theorem initial_completion_unjustified :
    ∃ s t, run tiny [.sendReq2Mem [true]] = some s ∧ step tiny s (.complete 0) = some t ∧
      ¬ Justified tiny t s 0 := by
  have shape : ((run tiny [.sendReq2Mem [true]]).bind fun s =>
        (step tiny s (.complete 0)).map fun t =>
          (((s.level 0).line 0).valid, ((t.level 0).line 0).valid, t.history)) =
      some (false, true, [.sent {}, .response 0 0 .initial false [], .installed 0 0 .initial]) := by
    decide
  simp only [Option.bind_eq_some_iff, Option.map_eq_some_iff, Prod.mk.injEq] at shape
  obtain ⟨s, before, t, after, empty, valid, history⟩ := shape
  refine ⟨s, t, before, after, ?_⟩
  rintro ⟨lines, -⟩
  obtain ⟨was, -⟩ | ⟨addr, origin, -, -, a, r, -, -, issued, -⟩ := lines 0 valid
  · simp [empty] at was
  · simp [history] at issued

end Cache

end DataflowSim.Memory
