import DataflowSim.Memory.Placement

/-!
# Addresses and blocks

What tag and set say about an address. They determine the block for every geometry, so a look
up finds the block of an address exactly when a line of the level holds it. The address of a
write-back is built from the tag and the place of the line in the whole array, and names the
block of the line only if that place fits.
-/

namespace DataflowSim.Memory

/-- A number put below the bits of another is the number with these low bits and, above them,
the bits of both. -/
theorem shiftLeft_or_eq_iff {tag index block k : Nat} (high : block >>> k = tag) :
    (tag <<< k) ||| index = block ↔
      index % 2 ^ k = block % 2 ^ k ∧ tag ||| (index >>> k) = tag := by
  subst high
  constructor
  · intro eq
    have bits (i : Nat) := congrArg (Nat.testBit · i) eq
    simp only [Nat.testBit_or, Nat.testBit_shiftLeft, Nat.testBit_shiftRight] at bits
    refine ⟨Nat.eq_of_testBit_eq fun i => ?_, Nat.eq_of_testBit_eq fun i => ?_⟩
    · have bit := bits i
      simp only [Nat.testBit_mod_two_pow]
      by_cases low : i < k
      · simpa [low, Nat.not_le.mpr low] using bit
      · simp [low]
    · simpa [Nat.testBit_or, Nat.testBit_shiftRight] using bits (k + i)
  · rintro ⟨low, rest⟩
    refine Nat.eq_of_testBit_eq fun i => ?_
    rw [Nat.testBit_or, Nat.testBit_shiftLeft, Nat.testBit_shiftRight]
    by_cases below : i < k
    · have bit := congrArg (Nat.testBit · i) low
      simp only [Nat.testBit_mod_two_pow, below, decide_true, Bool.true_and] at bit
      simp [Nat.not_le.mpr below, bit]
    · have bit := congrArg (Nat.testBit · (i - k)) rest
      have split : k + (i - k) = i := by omega
      simpa [Nat.testBit_or, Nat.testBit_shiftRight, split, Nat.not_lt.mp below] using bit

namespace Config

variable (cfg : Config)

/-- Two addresses are in one block, which tag, set and block id each see. -/
structure SameBlock (level a b : Nat) : Prop where
  tag : cfg.getCacheTag a level = cfg.getCacheTag b level
  set : cfg.getCacheSetIndex a level = cfg.getCacheSetIndex b level
  block : cfg.getCacheBlockId a level = cfg.getCacheBlockId b level

theorem sameBlock_of_block {level a b : Nat}
    (block : cfg.getCacheBlockId a level = cfg.getCacheBlockId b level) :
    cfg.SameBlock level a b where
  tag := by rw [getCacheTag_eq, getCacheTag_eq, block]
  set := by rw [getCacheSetIndex_eq, getCacheSetIndex_eq, block]
  block := block

/-- Tag and set of two addresses agree exactly when their blocks do. -/
theorem tag_set_iff_block {level a b : Nat} :
    (cfg.getCacheTag a level = cfg.getCacheTag b level ∧
        cfg.getCacheSetIndex a level = cfg.getCacheSetIndex b level) ↔
      cfg.getCacheBlockId a level = cfg.getCacheBlockId b level := by
  constructor
  · rintro ⟨tag, set⟩
    exact cfg.block_eq_of_tag_set tag set
  · intro block
    have same := cfg.sameBlock_of_block block
    exact ⟨same.tag, same.set⟩

end Config

namespace Cache

variable {cfg : Config} {s t : Cache}

/-! ## Look up -/

/-- The line is valid and was filled for this block: one of the addresses that the cache has
installed is in the block, belongs in this set and has the tag of the line. -/
structure FilledFor (cfg : Config) (s : Cache) (level set way block : Nat) : Prop where
  valid : (wayOf cfg s level set way).valid = true
  installed : ∃ addr origin, .installed level addr origin ∈ s.history ∧
    cfg.getCacheSetIndex addr level = set ∧
    cfg.getCacheTag addr level = (wayOf cfg s level set way).tag ∧
    cfg.getCacheBlockId addr level = block

/-- A look up succeeds when a way of the set is valid and has the tag. -/
theorem checkCacheHit_isSome {addr level : Nat} :
    (checkCacheHit cfg s (setBase cfg addr level) addr level).isSome = true ↔
      ∃ way < (cfg.level level).mappingWays,
        (wayOf cfg s level (cfg.getCacheSetIndex addr level) way).valid = true ∧
        (wayOf cfg s level (cfg.getCacheSetIndex addr level) way).tag =
          cfg.getCacheTag addr level := by
  simp only [checkCacheHit, Option.isSome_map, List.find?_isSome, List.mem_range,
    Bool.and_eq_true, beq_iff_eq]
  rfl

/-- In a state whose lines are placed, a look up of an address succeeds exactly when some valid
line of the level was filled for its block. -/
theorem Placed.hit_iff (placed : Placed cfg s) (a level : Nat) :
    (checkCacheHit cfg s (setBase cfg a level) a level).isSome = true ↔
      ∃ set, ∃ way < (cfg.level level).mappingWays,
        FilledFor cfg s level set way (cfg.getCacheBlockId a level) := by
  rw [checkCacheHit_isSome]
  constructor
  · rintro ⟨way, bound, valid, tag⟩
    obtain ⟨addr, origin, mem, set, here⟩ := placed.filled level _ way bound valid
    have block := cfg.block_eq_of_tag_set (here.trans tag) set
    exact ⟨_, way, bound, valid, addr, origin, mem, set, here, block⟩
  · rintro ⟨set, way, bound, valid, addr, origin, -, rfl, tag, block⟩
    have same := cfg.sameBlock_of_block block
    rw [same.set] at valid tag
    exact ⟨way, bound, valid, tag.symm.trans same.tag⟩

/-- Tag and set identify the block for every geometry, and so a look up is correct in every
state whose lines are placed. -/
theorem hit_law (cfg : Config) (level : Nat) :
    (∀ a b, (cfg.getCacheTag a level = cfg.getCacheTag b level ∧
        cfg.getCacheSetIndex a level = cfg.getCacheSetIndex b level) ↔
      cfg.getCacheBlockId a level = cfg.getCacheBlockId b level) ∧
    ∀ s, Placed cfg s → ∀ a,
      (checkCacheHit cfg s (setBase cfg a level) a level).isSome = true ↔
        ∃ set, ∃ way < (cfg.level level).mappingWays,
          FilledFor cfg s level set way (cfg.getCacheBlockId a level) :=
  ⟨fun _ _ => cfg.tag_set_iff_block, fun _ placed a => placed.hit_iff a level⟩

/-- Seven sets, a number that is no power of two: with block 0 in its line, address 5 hits and
address 112, whose block is in the same set, does not. -/
theorem hit_law_seven :
    let cfg : Config := { tiny with level := fun l => { tiny.level l with cacheSize := 224 } }
    ∃ s, Placed cfg s ∧
      (∃ set, ∃ way < (cfg.level 0).mappingWays, FilledFor cfg s 0 set way 0) ∧
      ¬ ∃ set, ∃ way < (cfg.level 0).mappingWays, FilledFor cfg s 0 set way 7 := by
  intro cfg
  have shape : (run cfg [.sendReq2Mem [true], .complete 0]).map (fun s =>
      ((checkCacheHit cfg s (setBase cfg 5 0) 5 0).isSome,
        (checkCacheHit cfg s (setBase cfg 112 0) 112 0).isSome)) = some (true, false) := by decide
  obtain ⟨s, done, looked⟩ := Option.map_eq_some_iff.mp shape
  obtain ⟨hit, miss⟩ := Prod.mk.inj looked
  have placed : Placed cfg s := (run_invariant init_placed (fun _ _ => Step.placed) done).1
  have law := (hit_law cfg 0).2 s placed
  have first : cfg.getCacheBlockId 5 0 = 0 := by decide
  have other : cfg.getCacheBlockId 112 0 = 7 := by decide
  refine ⟨s, placed, first ▸ (law 5).mp hit, fun filled => ?_⟩
  exact Bool.false_ne_true (miss.symm.trans ((law 112).mpr (other ▸ filled)))

/-! ## Write back -/

/-- `getCacheFreeLine` has to give up this way of the set, and the line there is dirty. -/
structure DirtyVictim (cfg : Config) (s : Cache) (level set way : Nat) : Prop where
  full : ∀ i < (cfg.level level).mappingWays, (wayOf cfg s level set i).valid = true
  chosen : (selectVictim cfg s (set * (cfg.level level).mappingWays) level).1 = some way
  style : (cfg.level level).writeStrategy = .WRITE_BACK
  dirty : (wayOf cfg s level set way).dirty = true

/-- The line holds the block of the address. -/
structure Holds (cfg : Config) (s : Cache) (level set way addr : Nat) : Prop where
  index : cfg.getCacheSetIndex addr level = set
  tag : cfg.getCacheTag addr level = (wayOf cfg s level set way).tag

/-- The low bits of the place of a line are those of the block, and the bits above them are
bits of the tag. -/
def IndexFits (cfg : Config) (level index addr : Nat) : Prop :=
  index % 2 ^ (cfg.level level).cacheSetShift =
      cfg.getCacheBlockId addr level % 2 ^ (cfg.level level).cacheSetShift ∧
    cfg.getCacheTag addr level ||| (index >>> (cfg.level level).cacheSetShift) =
      cfg.getCacheTag addr level

theorem DirtyVictim.way_lt {level set way : Nat} (victim : DirtyVictim cfg s level set way)
    (ways : 0 < (cfg.level level).mappingWays) : way < (cfg.level level).mappingWays :=
  selectVictim_lt ways victim.chosen

/-- The search for a free line hands the write-back of the victim below. -/
theorem DirtyVictim.search {level set way : Nat} (victim : DirtyVictim cfg s level set way) :
    let index := set * (cfg.level level).mappingWays + way
    let chosen := (selectVictim cfg s (set * (cfg.level level).mappingWays) level).2
    getCacheFreeLine cfg s (set * (cfg.level level).mappingWays) level =
      match writeBackDirtyCacheline cfg chosen (wayOf cfg s level set way).tag index level with
      | some t => (some index, clean cfg t index level (wayOf cfg s level set way))
      | none => (none, chosen) := by
  intro index chosen
  have none_free : ((List.range (cfg.level level).mappingWays).find? fun i =>
      !((s.level level).line (set * (cfg.level level).mappingWays + i)).valid) = none := by
    rw [List.find?_eq_none]
    intro i mem
    simpa [wayOf] using victim.full i (List.mem_range.mp mem)
  have lines : (chosen.level level).line index = wayOf cfg s level set way := by
    rw [selectVictim_level]
    rfl
  have split : selectVictim cfg s (set * (cfg.level level).mappingWays) level =
      (some way, chosen) := Prod.ext victim.chosen rfl
  rw [getCacheFreeLine, none_free, split]
  simp only [releaseLine]
  rw [lines]
  exact if_pos ⟨victim.style, victim.dirty⟩

/-- A place in the array is an address inside the cache. -/
theorem place_shift_lt {c : LevelConfig} {set way : Nat} (size : c.cacheSize < 2 ^ 64)
    (set_lt : set < c.cacheSetSize) (way_lt : way < c.mappingWays) :
    (set * c.mappingWays + way) <<< c.cacheLineShift < 2 ^ 64 := by
  have line : 0 < c.cacheLineSize := by
    by_contra none
    simp [LevelConfig.cacheSetSize, LevelConfig.cacheLineNum, Nat.eq_zero_of_not_pos none] at set_lt
  have place : set * c.mappingWays + way < c.cacheLineNum :=
    calc set * c.mappingWays + way
      _ < set * c.mappingWays + c.mappingWays := by omega
      _ = (set + 1) * c.mappingWays := by ring
      _ ≤ c.cacheSetSize * c.mappingWays := Nat.mul_le_mul_right _ set_lt
      _ ≤ c.cacheLineNum := Nat.div_mul_le_self ..
  rw [Nat.shiftLeft_eq]
  calc (set * c.mappingWays + way) * 2 ^ c.cacheLineShift
    _ ≤ (set * c.mappingWays + way) * c.cacheLineSize :=
      Nat.mul_le_mul_left _ (Nat.log2_self_le line.ne')
    _ < c.cacheLineNum * c.cacheLineSize := Nat.mul_lt_mul_of_pos_right place line
    _ ≤ c.cacheSize := Nat.div_mul_le_self ..
    _ < 2 ^ 64 := size

/-- The block that a write-back names. -/
theorem writeBackAddr_block {level index a : Nat} (addr : a < 2 ^ 64)
    (place : index <<< (cfg.level level).cacheLineShift < 2 ^ 64) :
    cfg.getCacheBlockId (writeBackAddr cfg (cfg.getCacheTag a level) index level) level =
      (cfg.getCacheTag a level <<< (cfg.level level).cacheSetShift) ||| index := by
  have tag : cfg.getCacheTag a level <<<
      ((cfg.level level).cacheSetShift + (cfg.level level).cacheLineShift) < 2 ^ 64 := by
    rw [Config.getCacheTag, Nat.shiftLeft_eq, Nat.shiftRight_eq_div_pow]
    exact (Nat.div_mul_le_self ..).trans_lt addr
  rw [writeBackAddr, Nat.mod_eq_of_lt (Nat.or_lt_two_pow tag place), Config.getCacheBlockId]
  generalize (cfg.level level).cacheSetShift = k
  generalize (cfg.level level).cacheLineShift = m
  refine Nat.eq_of_testBit_eq fun i => ?_
  simp only [Nat.testBit_shiftRight, Nat.testBit_or, Nat.testBit_shiftLeft]
  have shift : m + i - (k + m) = i - k := by omega
  have high : decide (m + i ≥ k + m) = decide (i ≥ k) := by
    rw [decide_eq_decide]
    omega
  rw [shift, high, Nat.add_sub_cancel_left]
  simp

/-- Every dirty victim is written back below under an address that is in its block exactly when
the place of the line fits the block. -/
theorem write_back_law_iff {level set way a : Nat} (size : (cfg.level level).cacheSize < 2 ^ 64)
    (set_lt : set < (cfg.level level).cacheSetSize)
    (victim : DirtyVictim cfg s level set way) (addr : a < 2 ^ 64)
    (held : Holds cfg s level set way a) :
    let index := set * (cfg.level level).mappingWays + way
    let wb := writeBackAddr cfg (wayOf cfg s level set way).tag index level
    (∀ i t, getCacheFreeLine cfg s (set * (cfg.level level).mappingWays) level = (some i, t) →
      ∃ u v req, i = index ∧ u.level = s.level ∧ sendBelow cfg u req level = some v ∧
        req.cacheOp = .WRITEBACK_DIRTY_BLOCK ∧ req.addr = wb ∧
        t = clean cfg v index level (wayOf cfg s level set way)) ∧
    (cfg.SameBlock level wb a ↔ IndexFits cfg level index a) := by
  intro index wb
  constructor
  · intro i t found
    rw [victim.search] at found
    cases sent : writeBackDirtyCacheline cfg
        (selectVictim cfg s (set * (cfg.level level).mappingWays) level).2
        (wayOf cfg s level set way).tag index level with
    | none => simp [index, sent] at found
    | some v =>
      simp only [index, sent, Prod.mk.injEq, Option.some.injEq] at found
      exact ⟨_, v, _, found.1.symm, selectVictim_level .., sent, rfl, rfl, found.2.symm⟩
  · have ways : 0 < (cfg.level level).mappingWays := by
      by_contra none
      simp [LevelConfig.cacheSetSize, Nat.eq_zero_of_not_pos none] at set_lt
    have place := place_shift_lt size set_lt (victim.way_lt ways)
    have block : cfg.getCacheBlockId wb level =
        (cfg.getCacheTag a level <<< (cfg.level level).cacheSetShift) ||| index := by
      rw [← writeBackAddr_block addr place, held.tag]
    have law := @shiftLeft_or_eq_iff _ index _ _ (cfg.getCacheTag_eq a level).symm
    rw [← block] at law
    exact Iff.trans ⟨fun same => same.block, cfg.sameBlock_of_block⟩ law

/-- Two ways: block 2 in the first line of its set is written back under its own address. -/
theorem write_back_law_iff_tiny :
    let s := setDirty (setCacheLine tiny (setCacheLine tiny (init tiny) 0 32 0) 1 0 0) 0 0
    tiny.SameBlock 0 (writeBackAddr tiny (wayOf tiny s 0 0 0).tag 0 0) 32 := by
  intro s
  exact ((@write_back_law_iff tiny s 0 0 0 32
    (by decide) (by decide) ⟨by decide, by decide, rfl, by decide⟩ (by decide)
    ⟨by decide, by decide⟩).2).mpr ⟨by decide, by decide⟩

/-- The first line of set 1 is line 2 of the array: when block 1 is evicted from it, the
write-back goes to block 2, which is in another set. -/
theorem write_back_to_other_block :
    let s := setDirty (setCacheLine tiny (setCacheLine tiny (init tiny) 2 16 0) 3 48 0) 2 0
    DirtyVictim tiny s 0 1 0 ∧ Holds tiny s 0 1 0 16 ∧
      writeBackAddr tiny (wayOf tiny s 0 1 0).tag 2 0 = 32 ∧
      ¬ tiny.SameBlock 0 (writeBackAddr tiny (wayOf tiny s 0 1 0).tag 2 0) 16 := by
  intro s
  refine ⟨⟨by decide, by decide, rfl, by decide⟩, ⟨by decide, by decide⟩, by decide, ?_⟩
  exact fun same => absurd same.block (by decide)

end Cache

end DataflowSim.Memory
