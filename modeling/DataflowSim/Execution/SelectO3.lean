import DataflowSim.Execution.GraphScheduler

/-!
# Selection out of order

`GraphScheduler::selectSubgraphO3` asks the subgraphs after the current one, round robin, whether
they could start. When none of them can, a subgraph that is over hands over to any one that is
not.
-/

namespace DataflowSim.Execution.Scheduler

variable {cfg : SchedulerConfig} {s : Scheduler}

/-- A subgraph that is selected because it could start. A channel without room for any datum
counts as full. -/
structure Startable (cfg : SchedulerConfig) (s : Scheduler) (g : Nat) : Prop where
  producers : ∀ c ∈ cfg.producers g, (s.chans c).getTheLastData 0 = true ∨
    (∀ buffer ∈ buffers cfg s c, buffer ≠ []) ∨ (cfg.chan c).size = 0
  downstreams : ∀ c ∈ cfg.producers g, ∀ d ∈ cfg.downstream c, (s.chans d).enable = true
  consumers : cfg.consumers g = [] ∨ ∃ c ∈ cfg.consumers g, ∃ buffer ∈ buffers cfg s c,
    buffer.length < (cfg.chan c).size

theorem mem_following_lt {n g r : Nat} (mem : r ∈ following cfg n g) (pos : 0 < cfg.num) :
    r < cfg.num := by
  obtain ⟨i, -, rfl⟩ := List.mem_map.mp mem
  exact Nat.mod_lt _ pos

/-- All other subgraphs are asked. -/
theorem mem_following {g r : Nat} (current : g < cfg.num) (below : r < cfg.num) (other : r ≠ g) :
    r ∈ following cfg (cfg.num - 1) g := by
  rcases Nat.lt_or_gt_of_ne other with before | after
  · refine List.mem_map.mpr ⟨r + cfg.num - g - 1, List.mem_range.mpr (by omega), ?_⟩
    have round : g + 1 + (r + cfg.num - g - 1) = r + cfg.num := by omega
    rw [round, Nat.add_mod_right, Nat.mod_eq_of_lt below]
  · refine List.mem_map.mpr ⟨r - g - 1, List.mem_range.mpr (by omega), ?_⟩
    have onward : g + 1 + (r - g - 1) = r := by omega
    rw [onward, Nat.mod_eq_of_lt below]

theorem producers_of_full {chans : List Nat} (full : checkProducerChanIsFull cfg s chans = true)
    {c : Nat} (mem : c ∈ chans) : (s.chans c).getTheLastData 0 = true ∨
      (∀ buffer ∈ buffers cfg s c, buffer ≠ []) ∨ (cfg.chan c).size = 0 := by
  simp only [checkProducerChanIsFull, List.all_eq_true, Bool.or_eq_true, decide_eq_true_eq] at full
  refine (full c mem).imp_right fun filled => ?_
  refine or_iff_not_imp_right.mpr fun room buffer inside empty => room ?_
  have size := filled buffer inside
  rwa [empty, List.length_nil, Nat.le_zero] at size

theorem producers_of_notEmpty {chans : List Nat} (filled : checkProducerChanNotEmpty cfg s chans = true)
    {c : Nat} (mem : c ∈ chans) : ∀ buffer ∈ buffers cfg s c, buffer ≠ [] := by
  simp only [checkProducerChanNotEmpty, List.all_eq_true, Bool.not_eq_true',
    List.isEmpty_eq_false_iff] at filled
  exact filled c mem

/-- What the first scan accepts. -/
def ready (cfg : SchedulerConfig) (s : Scheduler) (g : Nat) : Bool :=
  !s.subgraphIsOver g &&
    (checkProducerChanIsFull cfg s (cfg.producers g) ||
      checkProducerChanNotEmpty cfg s (cfg.producers g)) &&
    checkProducerDownstreamChanAllEnable cfg s (cfg.producers g) &&
    checkConsumerChanNotFull cfg s (cfg.consumers g)

theorem startable_of_ready {g : Nat} (h : ready cfg s g = true) :
    s.subgraphIsOver g = false ∧ Startable cfg s g := by
  simp only [ready, Bool.and_eq_true, Bool.or_eq_true, Bool.not_eq_true'] at h
  obtain ⟨⟨⟨notOver, data⟩, enabled⟩, room⟩ := h
  refine ⟨notOver, fun c mem => ?_, ?_, ?_⟩
  · rcases data with full | filled
    · exact producers_of_full full mem
    · exact .inr (.inl (producers_of_notEmpty filled mem))
  · simpa [checkProducerDownstreamChanAllEnable] using enabled
  · simpa [checkConsumerChanNotFull] using room

/-- The three outcomes of the selection. -/
theorem selectSubgraphO3_cases (cfg : SchedulerConfig) (s : Scheduler) (g : Nat) :
    (selectSubgraphO3 cfg s g ∈ following cfg (cfg.num - 1) g ∧
      ready cfg s (selectSubgraphO3 cfg s g) = true) ∨
    (s.subgraphIsOver g = true ∧ selectSubgraphO3 cfg s g ∈ following cfg (cfg.num - 1) g ∧
      s.subgraphIsOver (selectSubgraphO3 cfg s g) = false) ∨
    (selectSubgraphO3 cfg s g = s.currSubgraphId ∧ (s.subgraphIsOver g = true →
      ∀ r ∈ following cfg (cfg.num - 1) g, s.subgraphIsOver r = true)) := by
  have found {r : Nat} (first : (following cfg (cfg.num - 1) g).find? (ready cfg s) = some r) :
      selectSubgraphO3 cfg s g = r := by
    unfold ready at first
    simp only [selectSubgraphO3, first]
  have fallback (first : (following cfg (cfg.num - 1) g).find? (ready cfg s) = none) :
      selectSubgraphO3 cfg s g = if s.subgraphIsOver g then
        ((following cfg (cfg.num - 1) g).find? fun g => !s.subgraphIsOver g).getD s.currSubgraphId
      else s.currSubgraphId := by
    unfold ready at first
    simp only [selectSubgraphO3, first]
  cases first : (following cfg (cfg.num - 1) g).find? (ready cfg s) with
  | some r =>
    obtain rfl := found first
    exact .inl ⟨List.mem_of_find?_eq_some first, List.find?_some first⟩
  | none =>
    by_cases isOver : s.subgraphIsOver g = true
    · cases second : (following cfg (cfg.num - 1) g).find? fun g => !s.subgraphIsOver g with
      | some r =>
        obtain rfl : selectSubgraphO3 cfg s g = r := by
          rw [fallback first]
          simp [isOver, second]
        have notOver := List.find?_some second
        exact .inr (.inl ⟨isOver, List.mem_of_find?_eq_some second, by simpa using notOver⟩)
      | none =>
        refine .inr (.inr ⟨?_, fun _ => by simpa using List.find?_eq_none.mp second⟩)
        rw [fallback first]
        simp [isOver, second]
    · refine .inr (.inr ⟨?_, fun again => absurd again isOver⟩)
      rw [fallback first]
      simp [isOver]

/-- The selection from an existing subgraph gives an existing one, one that is not over if there
is any, and one that could start if the current one need not be left. -/
theorem selectSubgraphO3_startable (cfg : SchedulerConfig) (s : Scheduler)
    (current : s.currSubgraphId < cfg.num) :
    selectSubgraphO3 cfg s s.currSubgraphId < cfg.num ∧
      ((∃ g < cfg.num, s.subgraphIsOver g = false) →
        s.subgraphIsOver (selectSubgraphO3 cfg s s.currSubgraphId) = false) ∧
      (selectSubgraphO3 cfg s s.currSubgraphId ≠ s.currSubgraphId →
        s.subgraphIsOver s.currSubgraphId = false →
          Startable cfg s (selectSubgraphO3 cfg s s.currSubgraphId)) := by
  have pos : 0 < cfg.num := Nat.zero_lt_of_lt current
  rcases selectSubgraphO3_cases cfg s s.currSubgraphId with
    ⟨mem, accepted⟩ | ⟨isOver, mem, notOver⟩ | ⟨same, others⟩
  · obtain ⟨notOver, startable⟩ := startable_of_ready accepted
    exact ⟨mem_following_lt mem pos, fun _ => notOver, fun _ _ => startable⟩
  · refine ⟨mem_following_lt mem pos, fun _ => notOver, fun _ stays => ?_⟩
    rw [isOver] at stays
    cases stays
  · refine ⟨same.symm ▸ current, ?_, fun other => absurd same other⟩
    rintro ⟨r, below, notOver⟩
    rw [same]
    by_contra isOver
    rw [Bool.not_eq_false] at isOver
    by_cases here : r = s.currSubgraphId
    · rw [here, isOver] at notOver
      cases notOver
    · rw [others isOver r (mem_following current below here)] at notOver
      cases notOver

/-- Channel 0 leads from the first of three subgraphs to the second and channel 1 from there to the
third. -/
def threeInLine : SchedulerConfig where
  num := 3
  producers g := if g = 1 then [0] else if g = 2 then [1] else []
  consumers g := if g = 0 then [0] else if g = 1 then [1] else []
  inputBufferSize := 2
  chan _ := { size := 2, upNum := 1 }
  downstream c := if c = 0 then [2] else if c = 1 then [3] else []

/-- Channel 0 holds data, channel 1 none. -/
def firstFilled : Scheduler :=
  { schedulerInit threeInLine with
    chans := fun c => { (schedulerInit threeInLine).chans c with
      enable := true
      chanBuffer := fun _ => if c = 0 then [{ value := 4 }, { value := 5 }] else [] } }

theorem selectSubgraphO3_startable_firstFilled :
    selectSubgraphO3 threeInLine firstFilled firstFilled.currSubgraphId = 1 ∧
      Startable threeInLine firstFilled
        (selectSubgraphO3 threeInLine firstFilled firstFilled.currSubgraphId) :=
  ⟨by decide, (selectSubgraphO3_startable threeInLine firstFilled (by decide)).2.2 (by decide)
    (by decide)⟩

/-- Two subgraphs without channels between them; the second one has a producer that can hold
nothing. -/
def noRoom : SchedulerConfig where
  num := 2
  producers g := if g = 1 then [0] else []
  consumers _ := []
  inputBufferSize := 0
  chan _ := { size := 0, upNum := 1 }
  downstream _ := []

/-- The second subgraph is selected with an empty producer that has not got its last datum. -/
theorem selectSubgraphO3_noRoom : selectSubgraphO3 noRoom (schedulerInit noRoom) 0 = 1 ∧
    (schedulerInit noRoom).subgraphIsOver 0 = false ∧ 0 ∈ noRoom.producers 1 ∧
    ((schedulerInit noRoom).chans 0).getTheLastData 0 = false ∧
    [] ∈ buffers noRoom (schedulerInit noRoom) 0 := by
  decide

end DataflowSim.Execution.Scheduler
