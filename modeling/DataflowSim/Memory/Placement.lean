import DataflowSim.Memory.Hierarchy

/-!
# Where lines sit

The lines of a level are one array, cut into sets of `mappingWays` lines. Every valid line is
in the set of the address whose block it holds, and no two valid ways of a set hold one tag.
Only `setCacheLine` puts a block into a line, and its callers give it a way of the right set
after they have seen that no way of the set holds the block.
-/

namespace DataflowSim.Memory.Cache

/-- A way of a set of a level. -/
def wayOf (cfg : Config) (s : Cache) (level set way : Nat) : CacheLine :=
  (s.level level).line (set * (cfg.level level).mappingWays + way)

/-- Every valid line holds the block of an address of its set that was filled in, and no other
valid way of the set holds that tag. -/
structure Placed (cfg : Config) (s : Cache) : Prop where
  filled : ∀ level set way, way < (cfg.level level).mappingWays →
    (wayOf cfg s level set way).valid = true →
    ∃ addr origin, .installed level addr origin ∈ s.history ∧
      cfg.getCacheSetIndex addr level = set ∧
      cfg.getCacheTag addr level = (wayOf cfg s level set way).tag
  distinct : ∀ level set i j, i < (cfg.level level).mappingWays →
    j < (cfg.level level).mappingWays → (wayOf cfg s level set i).valid = true →
    (wayOf cfg s level set j).valid = true →
    (wayOf cfg s level set i).tag = (wayOf cfg s level set j).tag → i = j

variable {cfg : Config} {ports : Set Port} {s t : Cache}

theorem init_placed : Placed cfg (init cfg) := by
  constructor <;> simp [wayOf, init]

/-- Events are added and no line changes its block. -/
theorem Placed.congr (h : Placed cfg s) (blocks : SameBlocks s t)
    (grown : s.history ⊆ t.history) : Placed cfg t := by
  have valid := fun l set i => (blocks l (set * (cfg.level l).mappingWays + i)).1
  have tag := fun l set i => (blocks l (set * (cfg.level l).mappingWays + i)).2
  constructor
  · intro level set way bound here
    simp only [wayOf, valid, tag] at here ⊢
    obtain ⟨addr, origin, mem, place⟩ := h.filled level set way bound here
    exact ⟨addr, origin, grown mem, place⟩
  · intro level set i j hi hj vi vj same
    simp only [wayOf, valid, tag] at vi vj same
    exact h.distinct level set i j hi hj vi vj same

theorem checkCacheHit_none {addr level : Nat}
    (absent : checkCacheHit cfg s (setBase cfg addr level) addr level = none) {way : Nat}
    (bound : way < (cfg.level level).mappingWays)
    (valid : (wayOf cfg s level (cfg.getCacheSetIndex addr level) way).valid = true) :
    (wayOf cfg s level (cfg.getCacheSetIndex addr level) way).tag ≠ cfg.getCacheTag addr level := by
  intro same
  rw [checkCacheHit, Option.map_eq_none_iff, List.find?_eq_none] at absent
  apply absent way (List.mem_range.mpr bound)
  rw [Bool.and_eq_true, beq_iff_eq]
  exact ⟨valid, same⟩

/-- Sets do not overlap. -/
theorem way_unique {n a b i j : Nat} (hi : i < n) (hj : j < n) (same : a * n + i = b * n + j) :
    a = b ∧ i = j := by
  have some_way : 0 < n := by omega
  have quot (c k : Nat) (hk : k < n) : (c * n + k) / n = c := by
    rw [Nat.mul_comm, Nat.mul_add_div some_way, Nat.div_eq_of_lt hk, Nat.add_zero]
  have first : a = b := by rw [← quot a i hi, same, quot b j hj]
  subst first
  exact ⟨rfl, by omega⟩

/-- The line at `index` is the chosen way of the set of the address. -/
theorem FillPlace.wayOf_setCacheLine {index addr level : Nat} (origin : Origin)
    (place : FillPlace cfg s level index addr) :
    ∃ k, ∀ l set way, way < (cfg.level l).mappingWays →
      wayOf cfg ((setCacheLine cfg s index addr level).record (.installed level addr origin))
          l set way =
        if l = level ∧ set = cfg.getCacheSetIndex addr level ∧ way = k then
          { tag := cfg.getCacheTag addr level, count := s.tickCount, valid := true }
        else wayOf cfg s l set way := by
  obtain ⟨k, rfl, bound⟩ := place.way
  refine ⟨k, fun l set way hway => ?_⟩
  unfold wayOf
  rw [record_level, setCacheLine_line]
  by_cases here : l = level
  · subst here
    rw [if_pos rfl, Function.update_apply]
    refine if_congr ⟨fun same => ?_, ?_⟩ rfl rfl
    · exact ⟨rfl, way_unique hway (bound (by omega)) same⟩
    · rintro ⟨-, rfl, rfl⟩
      rfl
  · rw [if_neg here, if_neg fun both => here both.1]

/-- The one place where a line gets a block. -/
theorem setCacheLine_placed {index addr level : Nat} (origin : Origin)
    (place : FillPlace cfg s level index addr) (h : Placed cfg s) :
    Placed cfg ((setCacheLine cfg s index addr level).record (.installed level addr origin)) := by
  obtain ⟨k, ways⟩ := place.wayOf_setCacheLine origin
  -- the ways of the set that hold the tag afterwards
  have only (i : Nat) (hi : i < (cfg.level level).mappingWays) (ne : i ≠ k)
      (valid : (wayOf cfg s level (cfg.getCacheSetIndex addr level) i).valid = true) :=
    checkCacheHit_none place.absent hi valid
  constructor
  · intro l set way bound valid
    rw [ways l set way bound] at valid ⊢
    split_ifs at valid ⊢ with here
    · obtain ⟨rfl, rfl, rfl⟩ := here
      exact ⟨addr, origin, by simp, rfl, rfl⟩
    · obtain ⟨addr', origin', mem, rest⟩ := h.filled l set way bound valid
      exact ⟨addr', origin', List.mem_append_left _ mem, rest⟩
  · intro l set i j hi hj vi vj same
    rw [ways l set i hi] at vi same
    rw [ways l set j hj] at vj same
    split_ifs at vi vj same with hereI hereJ hereJ
    · exact hereI.2.2.trans hereJ.2.2.symm
    · obtain ⟨rfl, rfl, rfl⟩ := hereI
      exact absurd same.symm (only j hj (fun eq => hereJ ⟨rfl, rfl, eq⟩) vj)
    · obtain ⟨rfl, rfl, rfl⟩ := hereJ
      exact absurd same (only i hi (fun eq => hereI ⟨rfl, rfl, eq⟩) vi)
    · exact h.distinct l set i j hi hj vi vj same

theorem Step.placed (step : Step cfg ports s t) (h : Placed cfg s) : Placed cfg t := by
  have kept (lines : ∀ l, (t.level l).line = (s.level l).line) : Placed cfg t :=
    h.congr (fun l i => by rw [lines l]; exact ⟨rfl, rfl⟩) step.history_grows.subset
  cases step with
  | book same => exact kept same.line
  | core through req origin waits => exact kept (by simp)
  | hit level bankId index req rest bank front waits resident style =>
    refine h.congr (fun l i => ?_) (by split <;> simp)
    by_cases writes : req.writes = true
    · simp only [writes, ↓reduceIte, setFrontReady_frame, setDirty_line]
      split_ifs with here
      · rw [Function.update_apply]
        split_ifs with line
        · rw [here, line]
          exact ⟨rfl, rfl⟩
        · rw [here]
          exact ⟨rfl, rfl⟩
      · exact ⟨rfl, rfl⟩
    · simp [writes]
  | through level bankId req rest bank front waits free style writes =>
    exact kept fun l => by simp [missToMshr_frame cfg s level l req free]
  | miss level bankId req rest bank front waits free =>
    exact kept fun l => by simp [missToMshr_frame cfg s level l req free]
  | evict level index bound style dirty send =>
    refine h.congr (fun l i => ?_) ?_
    · rw [← sendBelow_line send l]
      exact clean_blocks cfg _ index level _ l i
    · rw [clean_history]
      exact ((sendBelow_history send).trans (List.prefix_append _ _)).subset
  | install level index addr origin entries free answered place =>
    exact setCacheLine_placed origin place h
  | issue level id bound valid outstanding send =>
    refine kept fun l => ?_
    rw [(clearOutstanding_frame ..).2.2, record_level, sendBelow_line send]
  | _ => exact kept (by simp)

/-! ## The functions -/

theorem Placed.steps (h : Placed cfg s) (steps : Steps cfg ports s t) : Placed cfg t :=
  steps.ind (fun _ _ => Step.placed) h

theorem fillBlock_placed (h : Placed cfg s) (addr level : Nat) (origin : Origin) :
    Placed cfg (fillBlock cfg s addr level origin).2 := by
  unfold fillBlock
  split
  case isTrue => exact h
  case isFalse miss =>
    cases found : getCacheFreeLine cfg s (setBase cfg addr level) level with
    | mk i t =>
      obtain ⟨blocks, grown, way⟩ := getCacheFreeLine_blocks found
      have searched : Placed cfg t := h.congr blocks grown.subset
      cases i with
      | none => exact searched
      | some index =>
        refine setCacheLine_placed origin ⟨way index rfl, ?_⟩ searched
        rw [checkCacheHit_congr cfg blocks]
        simpa using miss

theorem recordResponse_placed (h : Placed cfg s) (addr level : Nat) (origin : Origin) :
    Placed cfg (recordResponse cfg s addr level origin) :=
  h.congr (.refl s) (by simp)

theorem setMshrEntryReady_placed (h : Placed cfg s) (addr level : Nat) :
    Placed cfg (setMshrEntryReady cfg s addr level) :=
  h.congr (fun l i => by simp) (by simp)

theorem memReqComplete_placed (h : Placed cfg s) {req : MemReq}
    (done : memReqComplete cfg s req = some t) : Placed cfg t := by
  have filled := fillBlock_placed (recordResponse_placed h req.addr cfg.llc req.origin) req.addr
    cfg.llc req.origin
  unfold memReqComplete at done
  split at done
  case h_1 u found =>
    rw [found] at filled
    obtain rfl := Option.some.inj done
    exact setMshrEntryReady_placed filled _ _
  case h_2 => simp at done

theorem fillUpper_placed (h : Placed cfg s) (level : Nat) (req : CacheReq) :
    Placed cfg (fillUpper cfg level s req) := by
  have ready := setMshrEntryReady_placed (recordResponse_placed h req.addr level req.origin)
    req.addr level
  unfold fillUpper
  dsimp only
  split
  · exact ready
  · exact fillBlock_placed ready _ _ _

theorem updateAckQueueLevel_placed (h : Placed cfg s) (level : Nat) :
    Placed cfg (updateAckQueueLevel cfg s level) := by
  have upper : Placed cfg (if 0 < level then
      (popAckQueue cfg s level).1.foldl (fillUpper cfg (level - 1)) (popAckQueue cfg s level).2
      else s) := by
    split
    case isTrue inner =>
      have acks : Steps cfg ∅ s _ := popAckQueue_steps inner
      exact List.foldlRecOn _ _ (h.steps acks) fun _ placed req _ => fillUpper_placed placed _ req
    case isFalse => exact h
  have lower (u : Cache) (placed : Placed cfg u) :
      Placed cfg ((List.range (cfg.level level).bankNum).foldl (sendReady cfg level)
        (respondMshr cfg u level)) := by
    have answers : Steps cfg ∅ u (respondMshr cfg u level) := respondMshr_steps level
    refine List.foldlRecOn _ _ (placed.steps answers) fun v placed b _ => ?_
    have ready : Steps cfg ∅ v _ := sendReady_steps level b
    exact placed.steps ready
  exact lower _ upper

theorem updateAckQueue_placed (h : Placed cfg s) : Placed cfg (updateAckQueue cfg s) :=
  List.foldlRecOn _ _ h fun _ placed level _ => updateAckQueueLevel_placed placed level

theorem updateReqQueue_placed (h : Placed cfg s) : Placed cfg (updateReqQueue cfg s) := by
  have steps : Steps cfg ∅ s _ := updateReqQueue_steps
  exact h.steps steps

/-- Lines are placed in every state of every run, and each function that looks up, fills or
releases lines keeps them placed, from any state. -/
theorem lines_placed (cfg : Config) :
    (∀ ops s, run cfg ops = some s → Placed cfg s) ∧
    ∀ s, Placed cfg s →
      (∀ addr level origin, Placed cfg (setCacheBlock cfg s addr level origin).2) ∧
      (∀ index addr level origin, FillPlace cfg s level index addr →
        Placed cfg ((setCacheLine cfg s index addr level).record
          (.installed level addr origin))) ∧
      (∀ req t, memReqComplete cfg s req = some t → Placed cfg t) ∧
      Placed cfg (updateReqQueue cfg s) ∧ Placed cfg (updateAckQueue cfg s) := by
  constructor
  · intro ops s done
    exact (run_invariant init_placed (fun _ _ => Step.placed) done).1
  · intro s h
    exact ⟨fillBlock_placed h, fun index addr level origin place =>
        setCacheLine_placed origin place h,
      fun req t => memReqComplete_placed h, updateReqQueue_placed h, updateAckQueue_placed h⟩

/-- The memory completes the first transaction, and the block of address zero is in a line. -/
theorem lines_placed_tiny : ∃ s, run tiny [.sendReq2Mem [true], .complete 0] = some s ∧
    ((s.level 0).line 0).valid = true ∧ Placed tiny s ∧ Placed tiny (updateAckQueue tiny s) := by
  have shape : (run tiny [.sendReq2Mem [true], .complete 0]).map
      (fun s => ((s.level 0).line 0).valid) = some true := by decide
  obtain ⟨s, done, valid⟩ := Option.map_eq_some_iff.mp shape
  have placed : Placed tiny s := (lines_placed tiny).1 _ s done
  exact ⟨s, done, valid, placed, ((lines_placed tiny).2 s placed).2.2.2.2⟩

end DataflowSim.Memory.Cache
