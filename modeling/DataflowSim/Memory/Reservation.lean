import DataflowSim.Memory.Conservation

/-!
# Reserved space

A coalescer entry is reserved when a request is the first to coalesce with an entry of the
bank recorder, and a place in a request queue when an entry of the bank recorder is opened;
both are used only when the clock advances. Whatever the LSEs expose and the memory does, the
space that was reserved is there when it is used, and a coalesced ack finds its entry.
-/

namespace DataflowSim.Memory.MemSystem

/-- The states of all runs, whatever the LSEs expose. -/
inductive Reaches (cfg : SysConfig) : MemSystem → Prop where
  | init : Reaches cfg (init cfg)
  | update {s t : MemSystem} (reached : Reaches cfg s) (tick : Tick)
      (updated : memSystemUpdate cfg s tick = .ok t) : Reaches cfg t

variable {cfg : SysConfig} {s t : MemSystem}

theorem visitLse_conserved (banked : Banked cfg) (h : Conserved cfg s)
    (offers : Nat → Option MemReq) (lse : Nat) :
    Conserved cfg (visitLse cfg (s, offers) lse).1 := by
  unfold visitLse
  cases peek : peekReqQueue offers lse with
  | none => simpa [peek] using h
  | some req =>
    obtain ⟨offer, -, rfl⟩ := Option.map_eq_some_iff.mp peek
    set req : MemReq := { offer with valid := true, ready := false, lseId := lse, origin := .core }
    have conserved := (tryAdmit_conserved banked h (show Waits req from ⟨rfl, rfl, rfl⟩)).1
    dsimp only
    cases result : tryAdmit cfg s req with
    | mk ok t =>
      rw [result] at conserved
      cases ok <;> exact conserved

theorem getLseReq_conserved (banked : Banked cfg) (h : Conserved cfg s) (tick : Tick) :
    ∃ t, getLseReq cfg s tick = .ok t ∧ Conserved cfg t := by
  have scanned : Conserved cfg ((scan cfg.lseNum cfg.lseNum 0 s.reqQueueWritePtr).foldl
      (visitLse cfg) (s, tick.offers)).1 := by
    refine List.foldlRecOn (motive := fun u : MemSystem × (Nat → Option MemReq) =>
      Conserved cfg u.1) _ _ h ?_
    rintro ⟨u, offers⟩ visited lse -
    exact visitLse_conserved banked visited offers lse
  unfold getLseReq
  generalize (scan cfg.lseNum cfg.lseNum 0 s.reqQueueWritePtr).foldl (visitLse cfg)
    (s, tick.offers) = u at scanned
  have moved : Conserved cfg
      { u.1 with reqQueueWritePtr := (u.1.reqQueueWritePtr + 1) % cfg.lseNum } :=
    { scanned with }
  dsimp only
  split
  · obtain ⟨t, flushed, kept, -⟩ := flush_conserved banked moved
    exact ⟨t, flushed, kept⟩
  · exact ⟨_, rfl, moved⟩

/-- An update goes through, unless no line can be freed for a block. -/
theorem memSystemUpdate_conserved (banked : Banked cfg) (h : Conserved cfg s) (tick : Tick) :
    (∃ t, memSystemUpdate cfg s tick = .ok t ∧ Conserved cfg t) ∨
      memSystemUpdate cfg s tick = .error .noLine := by
  obtain ⟨u, returned, conserved, -⟩ := sendBack2Lse_conserved banked h
  unfold memSystemUpdate
  rw [returned]
  dsimp only
  split
  · cases served : serve cfg u tick with
    | error fault => exact .inr (by rw [serve_error served])
    | ok v => exact .inl (getLseReq_conserved banked (serve_kept banked conserved served).1 tick)
  · exact .inl (getLseReq_conserved banked conserved tick)

theorem reaches_conserved (banked : Banked cfg) (reached : Reaches cfg s) : Conserved cfg s := by
  induction reached with
  | init => exact init_conserved cfg
  | update reached tick updated ih =>
    obtain ⟨t, done, kept⟩ | failed := memSystemUpdate_conserved banked ih tick
    · rw [updated] at done
      exact Except.ok.inj done ▸ kept
    · simp [updated] at failed

/-- For any geometry of the cache, any requests and any memory: an update never finds a request
queue full on a push, the coalescer full, or no entry for a coalesced ack; there are as many
coalesced transactions of a block under way as coalescer entries of it; and the entries in use
fit in the coalescer together with the registered ones. -/
theorem reservation_safe (banked : Banked cfg) (reached : Reaches cfg s) :
    (∀ tick fault, memSystemUpdate cfg s tick = .error fault → fault = .noLine) ∧
    (∀ T, onPath cfg s (Ident.group cfg T) = s.coalescerTable.countP (·.blockAddr == T)) ∧
    s.coalescerTable.length + registered cfg s ≤ cfg.coalescerEntryNum := by
  have conserved := reaches_conserved banked reached
  refine ⟨fun tick fault failed => ?_, conserved.groups, ?_⟩
  · obtain ⟨t, done, -⟩ | no := memSystemUpdate_conserved banked conserved tick
    · simp [failed] at done
    · rw [failed] at no
      exact Except.error.inj no
  · have free := conserved.free
    omega

/-- Two LSEs over the small hierarchy. -/
def tiny : SysConfig where
  cache := Cache.tiny
  lseNum := 2
  bankNum := 1
  reqQueueSizePerBank := 1
  ackQueueSizePerBank := 1
  coalescerEntryNum := 1
  coalescerSizePerEntry := 2
  cacheAllHit := false
  busDelay := 1

theorem tiny_oneLevel : OneLevel tiny := ⟨⟨rfl, rfl, by decide⟩, rfl⟩

/-- The clock advances, and both LSEs read the same block if `reads` holds. -/
def bothRead (reads : Bool) : Tick where
  clkAdd := true
  offers lse := if reads then some { addr := 16 + lse } else none
  completions := []
  accept := []

/-- Two reads of one block are coalesced: one transaction is under way for one entry. -/
theorem reservation_safe_tiny : ∃ s, Reaches tiny s ∧ s.coalescerTable.length = 1 ∧
    onPath tiny s (Ident.group tiny 1) = s.coalescerTable.countP (·.blockAddr == 1) ∧
    s.coalescerTable.length + registered tiny s ≤ 1 := by
  obtain ⟨s, first⟩ : ∃ s, memSystemUpdate tiny (init tiny) (bothRead false) = .ok s := ⟨_, rfl⟩
  obtain ⟨t, second⟩ : ∃ t, memSystemUpdate tiny s (bothRead true) = .ok t := by
    cases first
    exact ⟨_, rfl⟩
  have reached : Reaches tiny t := .update (.update .init _ first) _ second
  obtain ⟨-, groups, room⟩ := reservation_safe tiny_oneLevel.banked reached
  refine ⟨t, reached, ?_, groups 1, room⟩
  cases first
  cases second
  rfl

end DataflowSim.Memory.MemSystem
