import DataflowSim.Execution.LseOrder

/-!
# Issue of requests

A request waits in its slot until `statusUpdate` suspends a copy of it in the position of a
thread, from where the memory system takes it. The slot does not show that a copy is suspended:
when `sendMemPtr` has gone around while a position was starved, it finds the slot as it was.
-/

namespace DataflowSim.Execution.Lse

open Memory (MemReq)

variable {c : ChanConfig} {lc : LseConfig} {x y : Lse}

/-! ## What the issue rests on -/

/-- The flags of a slot, the request it holds and the index that its datum carries. -/
structure SlotView where
  valid : Bool
  inflight : Bool
  ready : Bool
  hasPushChan : Bool
  cnt : Nat
  addr : Nat
  isWrite : Bool
  index : Nat

def issueSlot (slot : MemReq × Data) : SlotView :=
  ⟨slot.1.valid, slot.1.inflight, slot.1.ready, slot.1.hasPushChan, slot.1.cnt, slot.1.addr,
    slot.1.isWrite, slot.2.lseReqQueueIndex⟩

structure IssueView where
  slot : Nat → SlotView
  suspended : Nat → Option MemReq
  channel : List Nat
  orderId : Nat

def issueView (x : Lse) : IssueView :=
  ⟨fun i => issueSlot (x.reqQueue i), x.suspendReqVec, x.channel.map Data.lseReqQueueIndex,
    x.orderId⟩

/-- The slot holds the request. -/
structure Holds (slot : SlotView) (req : MemReq) : Prop where
  valid : slot.valid = true
  cnt : slot.cnt = req.cnt
  addr : slot.addr = req.addr
  isWrite : slot.isWrite = req.isWrite

/-- Different slots hold different requests, and one that was handed over shows it. -/
structure Identified (handed : List MemReq) (v : IssueView) : Prop where
  index : ∀ k, (v.slot k).valid = true → (v.slot k).index = k
  once : (handed.map MemReq.cnt).Nodup
  old : ∀ req ∈ handed, req.cnt < v.orderId
  bound : ∀ k, (v.slot k).valid = true → (v.slot k).cnt < v.orderId
  fresh : ∀ k, (v.slot k).valid = true → ∀ req ∈ handed, req.cnt = (v.slot k).cnt →
    (v.slot k).inflight = true ∨ (v.slot k).ready = true
  distinct : ∀ i k, (v.slot i).valid = true → (v.slot k).valid = true →
    (v.slot i).cnt = (v.slot k).cnt → i = k

/-- Each request is handed over once, from the slot that holds it, and is acknowledged there.
`handed` are the requests that the memory system has taken, `out` those of them that it has not
acknowledged. -/
structure Issued (handed out : List MemReq) (v : IssueView) : Prop extends Identified handed v where
  waits : ∀ i req, v.suspended i = some req → Holds (v.slot req.lseReqQueueIndex) req ∧
    (v.slot req.lseReqQueueIndex).inflight = false ∧ (v.slot req.lseReqQueueIndex).ready = false
  apart : ∀ i j req req', v.suspended i = some req → v.suspended j = some req' →
    req.lseReqQueueIndex = req'.lseReqQueueIndex → i = j
  flies : ∀ req ∈ out, Holds (v.slot req.lseReqQueueIndex) req ∧
    (v.slot req.lseReqQueueIndex).inflight = true ∧ (v.slot req.lseReqQueueIndex).ready = false
  aloft : (out.map MemReq.lseReqQueueIndex).Nodup
  pushed : ∀ k ∈ v.channel, (v.slot k).valid = true ∧ (v.slot k).ready = true ∧
    (v.slot k).hasPushChan = true
  queued : v.channel.Nodup

variable {handed out : List MemReq} {v w : IssueView} {k : Nat}

theorem init_issued : Issued [] [] ({} : Lse).issueView := by
  refine ⟨⟨?_, ?_, ?_, ?_, ?_, ?_⟩, ?_, ?_, ?_, ?_, ?_, ?_⟩ <;> simp [issueView, issueSlot]

/-- One slot changes and holds what it held, or nothing. -/
theorem Identified.edit (h : Identified handed v) (others : ∀ m, m ≠ k → w.slot m = v.slot m)
    (order : w.orderId = v.orderId) (kept : (w.slot k).valid = true → (v.slot k).valid = true ∧
      (w.slot k).index = (v.slot k).index ∧ (w.slot k).cnt = (v.slot k).cnt ∧
      ((v.slot k).inflight = true ∨ (v.slot k).ready = true →
        (w.slot k).inflight = true ∨ (w.slot k).ready = true)) : Identified handed w := by
  have slots (m : Nat) (valid : (w.slot m).valid = true) : (v.slot m).valid = true ∧
      (w.slot m).index = (v.slot m).index ∧ (w.slot m).cnt = (v.slot m).cnt ∧
      ((v.slot m).inflight = true ∨ (v.slot m).ready = true →
        (w.slot m).inflight = true ∨ (w.slot m).ready = true) := by
    by_cases here : m = k
    · exact here ▸ kept (here ▸ valid)
    · rw [others m here] at valid ⊢
      exact ⟨valid, rfl, rfl, id⟩
  refine ⟨fun m valid => ?_, h.once, order ▸ h.old, fun m valid => ?_, fun m valid req mem same => ?_,
    fun i m validI validM same => ?_⟩
  · obtain ⟨before, index, -, -⟩ := slots m valid
    exact index.trans (h.index m before)
  · obtain ⟨before, -, cnt, -⟩ := slots m valid
    rw [cnt, order]
    exact h.bound m before
  · obtain ⟨before, -, cnt, shows⟩ := slots m valid
    exact shows (h.fresh m before req mem (cnt ▸ same))
  · obtain ⟨beforeI, -, cntI, -⟩ := slots i validI
    obtain ⟨beforeM, -, cntM, -⟩ := slots m validM
    exact h.distinct i m beforeI beforeM (cntI ▸ cntM ▸ same)

/-- A new request comes into a slot. -/
theorem Identified.accept (h : Identified handed v) (others : ∀ m, m ≠ k → w.slot m = v.slot m)
    (order : w.orderId = v.orderId + 1) (index : (w.slot k).index = k)
    (cnt : (w.slot k).cnt = v.orderId) : Identified handed w := by
  have before (m : Nat) (ne : m ≠ k) (valid : (w.slot m).valid = true) : (w.slot m).cnt < v.orderId := by
    rw [others m ne] at valid ⊢
    exact h.bound m valid
  refine ⟨fun m valid => ?_, h.once, fun req mem => order ▸ (h.old req mem).trans (Nat.lt_succ_self _),
    fun m valid => ?_, fun m valid req mem same => ?_, fun i m validI validM same => ?_⟩
  · by_cases here : m = k
    · exact here ▸ index
    · rw [others m here] at valid ⊢
      exact h.index m valid
  · by_cases here : m = k
    · rw [here, cnt, order]
      exact Nat.lt_succ_self _
    · exact order ▸ (before m here valid).trans (Nat.lt_succ_self _)
  · by_cases here : m = k
    · rw [here, cnt] at same
      exact absurd (h.old req mem) (by omega)
    · rw [others m here] at valid same ⊢
      exact h.fresh m valid req mem same
  · by_cases hereI : i = k <;> by_cases hereM : m = k
    · exact hereI.trans hereM.symm
    · have less := before m hereM validM
      rw [hereI, cnt] at same
      omega
    · have less := before i hereI validI
      rw [hereM, cnt] at same
      omega
    · rw [others i hereI, others m hereM] at same
      rw [others i hereI] at validI
      rw [others m hereM] at validM
      exact h.distinct i m validI validM same

/-- The memory system takes the request of a slot. -/
theorem Identified.take (h : Identified handed v) {req : MemReq} (holds : Holds (v.slot k) req)
    (grounded : (v.slot k).inflight = false) (unready : (v.slot k).ready = false)
    (others : ∀ m, m ≠ k → w.slot m = v.slot m) (order : w.orderId = v.orderId)
    (slot : (w.slot k).index = (v.slot k).index ∧ (w.slot k).cnt = (v.slot k).cnt)
    (inflight : (w.slot k).inflight = true) : Identified (handed ++ [req]) w := by
  have new : ∀ r ∈ handed, r.cnt ≠ req.cnt := fun r mem same => by
    have shows := h.fresh k holds.valid r mem (same.trans holds.cnt.symm)
    simp [grounded, unready] at shows
  have same : Identified handed w := h.edit others order fun _ =>
    ⟨holds.valid, slot.1, slot.2, fun _ => .inl inflight⟩
  have before : req.cnt < w.orderId := by
    rw [order, ← holds.cnt]
    exact h.bound k holds.valid
  refine ⟨same.index, ?_, ?_, same.bound, fun m valid r mem cnt => ?_, same.distinct⟩
  · rw [List.map_append, List.nodup_append]
    refine ⟨same.once, by simp, fun a old b last => ?_⟩
    obtain ⟨r, mem, rfl⟩ := List.mem_map.mp old
    obtain rfl : b = req.cnt := by simpa using last
    exact new r mem
  · exact List.forall_mem_append.mpr ⟨same.old, by simpa using before⟩
  · rcases List.mem_append.mp mem with old | last
    · exact same.fresh m valid r old cnt
    · obtain rfl := List.mem_singleton.mp last
      by_cases here : m = k
      · exact .inl (here ▸ inflight)
      · rw [others m here] at valid cnt
        exact absurd (h.distinct m k valid holds.valid (cnt ▸ holds.cnt.symm)) here

/-! ## One operation -/

/-- The response at the front leaves and frees its slot. -/
theorem Issued.release {rest : List Nat} (h : Issued handed out v) (front : v.channel = k :: rest)
    (others : ∀ m, m ≠ k → w.slot m = v.slot m) (invalid : (w.slot k).valid = false)
    (order : w.orderId = v.orderId) (suspended : w.suspended = v.suspended)
    (channel : w.channel = rest) : Issued handed out w := by
  have pushed := h.pushed
  have queued := h.queued
  rw [front] at pushed queued
  obtain ⟨⟨-, ready, -⟩, later⟩ := List.forall_mem_cons.mp pushed
  obtain ⟨apart, queued⟩ := List.nodup_cons.mp queued
  have unlike {m : Nat} (unready : (v.slot m).ready = false) : m ≠ k := by
    rintro rfl
    simp [ready] at unready
  refine ⟨h.toIdentified.edit others order fun valid => ?_, fun i req here => ?_, suspended ▸ h.apart,
    fun req mem => ?_, h.aloft, fun m mem => ?_, channel ▸ queued⟩
  · simp [invalid] at valid
  · have before := h.waits i req (suspended ▸ here)
    rwa [others _ (unlike before.2.2)]
  · have before := h.flies req mem
    rwa [others _ (unlike before.2.2)]
  · rw [channel] at mem
    rw [others m (ne_of_mem_of_not_mem mem apart)]
    exact later m mem

/-- A free slot gets a request. -/
theorem Issued.accept (h : Issued handed out v) (free : (v.slot k).valid = false)
    (others : ∀ m, m ≠ k → w.slot m = v.slot m) (order : w.orderId = v.orderId + 1)
    (index : (w.slot k).index = k) (cnt : (w.slot k).cnt = v.orderId)
    (suspended : w.suspended = v.suspended) (channel : w.channel = v.channel) : Issued handed out w := by
  have unlike {m : Nat} (valid : (v.slot m).valid = true) : m ≠ k := by
    rintro rfl
    simp [free] at valid
  refine ⟨h.toIdentified.accept others order index cnt, fun i req here => ?_, suspended ▸ h.apart,
    fun req mem => ?_, h.aloft, fun m mem => ?_, channel ▸ h.queued⟩
  · have before := h.waits i req (suspended ▸ here)
    rwa [others _ (unlike before.1.valid)]
  · have before := h.flies req mem
    rwa [others _ (unlike before.1.valid)]
  · have before := h.pushed m (channel ▸ mem)
    rwa [others m (unlike before.1)]

/-- The response of a slot whose request is not out enters the output channel. -/
theorem Issued.enter (h : Issued handed out v) (valid : (v.slot k).valid = true)
    (ready : (v.slot k).ready = true) (unpushed : (v.slot k).hasPushChan = false)
    (others : ∀ m, m ≠ k → w.slot m = v.slot m) (slot : w.slot k = { v.slot k with hasPushChan := true })
    (order : w.orderId = v.orderId) (suspended : w.suspended = v.suspended)
    (channel : w.channel = v.channel ++ [k]) : Issued handed out w := by
  have unlike {m : Nat} (unready : (v.slot m).ready = false) : m ≠ k := by
    rintro rfl
    simp [ready] at unready
  have waiting : k ∉ v.channel := fun mem => by
    have already := (h.pushed k mem).2.2
    simp [unpushed] at already
  refine ⟨h.toIdentified.edit others order fun _ => ?_, fun i req here => ?_, suspended ▸ h.apart,
    fun req mem => ?_, h.aloft, fun m mem => ?_, ?_⟩
  · rw [slot]
    exact ⟨valid, rfl, rfl, id⟩
  · have before := h.waits i req (suspended ▸ here)
    rwa [others _ (unlike before.2.2)]
  · have before := h.flies req mem
    rwa [others _ (unlike before.2.2)]
  · rw [channel, List.mem_append, List.mem_singleton] at mem
    rcases mem with old | rfl
    · rw [others m (ne_of_mem_of_not_mem old waiting)]
      exact h.pushed m old
    · rw [slot]
      exact ⟨valid, ready, rfl⟩
  · rw [channel]
    exact h.queued.append (List.nodup_singleton k) (by simpa using waiting)

/-- A copy of the request of a slot is suspended, when no other copy is. -/
theorem Issued.suspend {i : Nat} {req : MemReq} (h : Issued handed out v)
    (holds : Holds (v.slot k) req) (here : req.lseReqQueueIndex = k)
    (grounded : (v.slot k).inflight = false) (unready : (v.slot k).ready = false)
    (alone : ∀ j r, v.suspended j = some r → r.lseReqQueueIndex ≠ k)
    (slot : w.slot = v.slot) (order : w.orderId = v.orderId)
    (suspended : w.suspended = Function.update v.suspended i (some req))
    (channel : w.channel = v.channel) : Issued handed out w := by
  have cases {j : Nat} {r : MemReq} (there : w.suspended j = some r) :
      j = i ∧ r = req ∨ j ≠ i ∧ v.suspended j = some r := by
    rw [suspended] at there
    by_cases same : j = i
    · rw [same, Function.update_self] at there
      exact .inl ⟨same, (Option.some.inj there).symm⟩
    · rw [Function.update_of_ne same] at there
      exact .inr ⟨same, there⟩
  refine ⟨h.toIdentified.edit (k := k) (fun _ _ => by rw [slot]) order fun valid => ?_,
    fun j r there => ?_, fun j l r r' hj hl same => ?_, ?_, h.aloft, ?_, channel ▸ h.queued⟩
  · rw [slot] at valid ⊢
    exact ⟨valid, rfl, rfl, id⟩
  · rw [slot]
    rcases cases there with ⟨-, rfl⟩ | ⟨-, old⟩
    · rw [here]
      exact ⟨holds, grounded, unready⟩
    · exact h.waits j r old
  · rcases cases hj with ⟨rfl, rfl⟩ | ⟨-, oldJ⟩ <;> rcases cases hl with ⟨rfl, rfl⟩ | ⟨-, oldL⟩
    · rfl
    · exact absurd (same.symm.trans here) (alone l r' oldL)
    · exact absurd (same.trans here) (alone j r oldJ)
    · exact h.apart j l r r' oldJ oldL same
  · rw [slot]
    exact h.flies
  · rw [slot, channel]
    exact h.pushed

/-- A request is answered that no one has a copy of. -/
theorem Issued.answer (h : Issued handed out v) (grounded : (v.slot k).inflight = false)
    (unready : (v.slot k).ready = false)
    (alone : ∀ j r, v.suspended j = some r → r.lseReqQueueIndex ≠ k)
    (others : ∀ m, m ≠ k → w.slot m = v.slot m)
    (slot : w.slot k = { v.slot k with ready := true, inflight := false })
    (order : w.orderId = v.orderId) (suspended : w.suspended = v.suspended)
    (channel : w.channel = v.channel) : Issued handed out w := by
  refine ⟨h.toIdentified.edit others order fun valid => ?_, fun i req here => ?_, suspended ▸ h.apart,
    fun req mem => ?_, h.aloft, fun m mem => ?_, channel ▸ h.queued⟩
  · rw [slot] at valid ⊢
    exact ⟨valid, rfl, rfl, fun _ => .inr rfl⟩
  · rw [suspended] at here
    rw [others _ (alone i req here)]
    exact h.waits i req here
  · have before := h.flies req mem
    have ne : req.lseReqQueueIndex ≠ k := by
      intro same
      simp [same, grounded] at before
    rwa [others _ ne]
  · have before := h.pushed m (channel ▸ mem)
    have ne : m ≠ k := by
      rintro rfl
      simp [unready] at before
    rwa [others m ne]

/-- The memory system takes a suspended request. -/
theorem Issued.take {i : Nat} {req taken : MemReq} (h : Issued handed out v)
    (here : v.suspended i = some req) (same : taken.lseReqQueueIndex = req.lseReqQueueIndex ∧
      taken.cnt = req.cnt ∧ taken.addr = req.addr ∧ taken.isWrite = req.isWrite)
    (others : ∀ m, m ≠ req.lseReqQueueIndex → w.slot m = v.slot m)
    (slot : w.slot req.lseReqQueueIndex = { v.slot req.lseReqQueueIndex with inflight := true })
    (order : w.orderId = v.orderId) (suspended : w.suspended = Function.update v.suspended i none)
    (channel : w.channel = v.channel) :
    Issued (handed ++ [taken]) (out ++ [taken]) w := by
  obtain ⟨waits, grounded, unready⟩ := h.waits i req here
  have holds : Holds (v.slot req.lseReqQueueIndex) taken := ⟨waits.valid, waits.cnt.trans same.2.1.symm,
    waits.addr.trans same.2.2.1.symm, waits.isWrite.trans same.2.2.2.symm⟩
  have left {j : Nat} {r : MemReq} (there : w.suspended j = some r) :
      v.suspended j = some r ∧ r.lseReqQueueIndex ≠ req.lseReqQueueIndex := by
    rw [suspended] at there
    have ne : j ≠ i := by
      rintro rfl
      simp at there
    rw [Function.update_of_ne ne] at there
    exact ⟨there, fun index => ne (h.apart j i r req there here index)⟩
  have flying {r : MemReq} (mem : r ∈ out) : r.lseReqQueueIndex ≠ req.lseReqQueueIndex := by
    intro index
    have before := (h.flies r mem).2.1
    simp [index, grounded] at before
  refine ⟨h.toIdentified.take holds grounded unready others order (by simp [slot]) (by simp [slot]),
    fun j r there => ?_, fun j l r r' hj hl => ?_, ?_, ?_, fun m mem => ?_, channel ▸ h.queued⟩
  · obtain ⟨old, ne⟩ := left there
    rw [others _ ne]
    exact h.waits j r old
  · exact h.apart j l r r' (left hj).1 (left hl).1
  · refine List.forall_mem_append.mpr ⟨fun r mem => ?_, ?_⟩
    · rw [others _ (flying mem)]
      exact h.flies r mem
    · rw [List.forall_mem_singleton, same.1, slot]
      exact ⟨⟨holds.valid, holds.cnt, holds.addr, holds.isWrite⟩, rfl, unready⟩
  · rw [List.map_append, List.nodup_append]
    refine ⟨h.aloft, by simp, fun a old b last => ?_⟩
    obtain ⟨r, mem, rfl⟩ := List.mem_map.mp old
    obtain rfl : b = taken.lseReqQueueIndex := by simpa using last
    rw [same.1]
    exact flying mem
  · have before := h.pushed m (channel ▸ mem)
    have ne : m ≠ req.lseReqQueueIndex := by
      rintro rfl
      simp [unready] at before
    rwa [others m ne]

/-- A request that is out is acknowledged. -/
theorem Issued.ack {n : Nat} {req : MemReq} (h : Issued handed out v) (there : out[n]? = some req)
    (others : ∀ m, m ≠ req.lseReqQueueIndex → w.slot m = v.slot m)
    (slot : w.slot req.lseReqQueueIndex =
      { v.slot req.lseReqQueueIndex with ready := true, inflight := false })
    (order : w.orderId = v.orderId) (suspended : w.suspended = v.suspended)
    (channel : w.channel = v.channel) :
    Issued handed (out.eraseIdx n) w := by
  obtain ⟨holds, inflight, unready⟩ := h.flies req (List.mem_of_getElem? there)
  refine ⟨h.toIdentified.edit others order fun valid => ?_, fun i r here => ?_, suspended ▸ h.apart,
    fun r mem => ?_, ?_, fun m mem => ?_, channel ▸ h.queued⟩
  · rw [slot] at valid ⊢
    exact ⟨valid, rfl, rfl, fun _ => .inr rfl⟩
  · have before := h.waits i r (suspended ▸ here)
    have ne : r.lseReqQueueIndex ≠ req.lseReqQueueIndex := by
      intro same
      simp [same, inflight] at before
    rwa [others _ ne]
  · have ne : r.lseReqQueueIndex ≠ req.lseReqQueueIndex := by
      obtain ⟨m, apart, at_m⟩ := List.mem_eraseIdx_iff_getElem?.mp mem
      intro same
      have index (j : Nat) (q : MemReq) (found : out[j]? = some q) :
          (out.map MemReq.lseReqQueueIndex)[j]? = some q.lseReqQueueIndex := by simp [found]
      have bound : m < (out.map MemReq.lseReqQueueIndex).length :=
        (List.getElem?_eq_some_iff.mp (index m r at_m)).1
      exact apart ((List.getElem?_inj bound h.aloft).mp
        ((index m r at_m).trans (same ▸ (index n req there).symm)))
    rw [others _ ne]
    exact h.flies r (List.mem_of_mem_eraseIdx mem)
  · rw [← List.eraseIdx_map]
    exact h.aloft.sublist (List.eraseIdx_sublist _ _)
  · have before := h.pushed m (channel ▸ mem)
    have ne : m ≠ req.lseReqQueueIndex := by
      rintro rfl
      simp [unready] at before
    rwa [others m ne]

/-! ## The code -/

theorem setSlot_issueSlot (x : Lse) (i : Nat) (slot : MemReq × Data) :
    (x.setSlot i slot).issueView.slot i = issueSlot slot := by
  simp [issueView, setSlot]

theorem setSlot_issueSlot_of_ne (x : Lse) {i m : Nat} (slot : MemReq × Data) (ne : m ≠ i) :
    (x.setSlot i slot).issueView.slot m = x.issueView.slot m := by
  simp [issueView, setSlot, ne]

theorem issueView_toChan (x : Lse) {chan : Chan} (same : chan.channel = x.channel) :
    ({ x with toChan := chan } : Lse).issueView = x.issueView := by
  simp [issueView, same]

theorem Issued.pop (h : Issued handed out x.issueView) (some : x.valid = true → x.channel ≠ []) :
    Issued handed out (Lse.pop lc x).issueView := by
  cases valid : x.valid with
  | false => simpa [Lse.pop, valid] using h
  | true =>
    obtain ⟨front, rest, here⟩ := List.exists_cons_of_ne_nil (some valid)
    simp only [Lse.pop, valid, if_true, here, List.headD_cons, List.tail_cons]
    exact h.release (k := front.lseReqQueueIndex) (by simp [issueView, here])
      (fun m ne => setSlot_issueSlot_of_ne x _ ne)
      (congrArg SlotView.valid (setSlot_issueSlot x _ _)) rfl rfl rfl

theorem Issued.pushReqQ (h : Issued handed out x.issueView) (e : Clock) :
    Issued handed out (Lse.pushReqQ c lc e x).1.issueView := by
  cases free : (x.reqQueue x.pushQueuePtr).1.valid with
  | true => simpa [Lse.pushReqQ, free] using h
  | false =>
    unfold Lse.pushReqQ
    simp only [free, Bool.false_eq_true, if_false]
    exact h.accept (k := x.pushQueuePtr) free (fun m ne => setSlot_issueSlot_of_ne x _ ne) rfl
      (congrArg SlotView.index (setSlot_issueSlot x _ _))
      (congrArg SlotView.cnt (setSlot_issueSlot x _ _)) rfl rfl

theorem Issued.pushChannel (h : Issued handed out x.issueView) (e : Clock) :
    Issued handed out (Lse.pushChannel c lc e x).issueView := by
  have pushes : (decide (x.channel.length < c.size) && (!lc.lseO3 || decide (0 < lc.reqQueueSize)) &&
      sendable { x with pushChannelSuccess := false }) = enters c lc x := rfl
  unfold Lse.pushChannel
  dsimp only
  rw [pushes]
  cases ready : enters c lc x with
  | false => exact h
  | true =>
    simp only [enters, sendable, Bool.and_eq_true, Bool.not_eq_true'] at ready
    obtain ⟨-, ⟨valid, ready⟩, unpushed⟩ := ready
    have index : (x.reqQueue x.sendChanPtr).2.lseReqQueueIndex = x.sendChanPtr :=
      h.index x.sendChanPtr valid
    let y : Lse := { x with pushChannelSuccess := false }
    exact h.enter (k := x.sendChanPtr) valid ready unpushed
      (fun m ne => setSlot_issueSlot_of_ne y _ ne) (setSlot_issueSlot y _ _) rfl rfl
      (by simp [issueView, setSlot, index])

/-- Whether `statusUpdate` selects the slot of `sendMemPtr`. -/
def selects (e : Clock) (x : Lse) : Prop :=
  x.suspendReqVec (x.currId - 1) = none ∧ (x.reqQueue x.sendMemPtr).1.valid = true ∧
    (x.reqQueue x.sendMemPtr).1.inflight = false ∧ (x.reqQueue x.sendMemPtr).1.ready = false ∧
    (x.reqQueue x.sendMemPtr).2.cycle ≤ e.clk

theorem Issued.select (h : Issued handed out x.issueView) (e : Clock)
    (alone : selects e x → ∀ j r, x.suspendReqVec j = some r → r.lseReqQueueIndex ≠ x.sendMemPtr) :
    Issued handed out (Lse.select c lc e x).issueView := by
  let slot := x.reqQueue x.sendMemPtr
  let req : MemReq := { slot.1 with lseReqQueueIndex := x.sendMemPtr }
  let y := x.access.setSlot x.sendMemPtr (req, slot.2)
  have chosen : y.issueView.slot = x.issueView.slot := by
    funext m
    by_cases here : m = x.sendMemPtr
    · exact here ▸ setSlot_issueSlot x.access _ _
    · exact setSlot_issueSlot_of_ne x.access _ here
  unfold Lse.select
  dsimp only
  split_ifs with selected answered
  all_goals try exact h
  all_goals
    simp only [Bool.and_eq_true, Option.isNone_iff_eq_none, Bool.not_eq_true', decide_eq_true_eq]
      at selected
    obtain ⟨⟨⟨⟨position, valid⟩, grounded⟩, unready⟩, clock⟩ := selected
    have alone := alone ⟨position, valid, grounded, unready, clock⟩
  · let z := y.setSlot x.sendMemPtr ({ req with inflight := true }, slot.2)
    exact h.answer (k := x.sendMemPtr) grounded unready alone
      (fun m ne => (setSlot_issueSlot_of_ne z _ ne).trans ((setSlot_issueSlot_of_ne y _ ne).trans
        (congrFun chosen m))) ((setSlot_issueSlot z _ _).trans (by simp [setSlot]; rfl)) rfl rfl rfl
  · have holds : Holds (x.issueView.slot x.sendMemPtr) req := ⟨valid, rfl, rfl, rfl⟩
    exact h.suspend holds rfl grounded unready alone chosen rfl rfl rfl

theorem setInflight_issued {req : MemReq} (h : Issued handed out x.issueView)
    (here : x.peekReqQueue = some req) (coalesced : Bool) :
    Issued (handed ++ [{ req with coalesced := coalesced }]) (out ++ [{ req with coalesced := coalesced }])
      (visit x (some { req with coalesced := coalesced })).issueView := by
  have position : x.suspendReqVec (x.currId - 1) = some req := here
  let y := x.access.access
  have taken : visit x (some { req with coalesced := coalesced }) =
      { y.setSlot req.lseReqQueueIndex ({ (x.reqQueue req.lseReqQueueIndex).1 with
          inflight := true, coalesced := coalesced }, (x.reqQueue req.lseReqQueueIndex).2) with
        suspendReqVec := Function.update x.suspendReqVec (x.currId - 1) none } := by
    simp only [visit, here, setInflight]
    exact if_neg (by simp [access, position])
  rw [taken]
  exact h.take position ⟨rfl, rfl, rfl, rfl⟩ (fun m ne => setSlot_issueSlot_of_ne y _ ne)
    (setSlot_issueSlot y _ _) rfl rfl rfl

theorem ackCallback_issued {n : Nat} {req : MemReq} (h : Issued handed out x.issueView)
    (there : out[n]? = some req) :
    Issued handed (out.eraseIdx n) (ackCallback x req).issueView :=
  h.ack there (fun _ ne => setSlot_issueSlot_of_ne x _ ne) (setSlot_issueSlot x _ _) rfl rfl rfl

/-! ## One call -/

/-- Whether `get` selects a slot of which another position holds a copy. -/
def reselects (c : ChanConfig) (e : Clock) (x : Lse) : Prop :=
  let id := (Chan.parallelize c e x.toChan).currId
  (id ≤ c.speedup ∨ e.clkAdd = true) ∧ x.suspendReqVec (id - 1) = none ∧
    (x.reqQueue x.sendMemPtr).2.cycle ≤ e.clk ∧
    ∃ j req, x.suspendReqVec j = some req ∧ req.lseReqQueueIndex = x.sendMemPtr

/-- What `pop` and the pushes leave as it is. -/
theorem pop_kept (x : Lse) : (Lse.pop lc x).currId = x.currId ∧
    (Lse.pop lc x).suspendReqVec = x.suspendReqVec ∧ (Lse.pop lc x).sendMemPtr = x.sendMemPtr := by
  unfold Lse.pop
  dsimp only
  split_ifs <;> exact ⟨rfl, rfl, rfl⟩

theorem pushReqQ_kept (e : Clock) (x : Lse) : (Lse.pushReqQ c lc e x).1.currId = x.currId ∧
    (Lse.pushReqQ c lc e x).1.suspendReqVec = x.suspendReqVec ∧
    (Lse.pushReqQ c lc e x).1.sendMemPtr = x.sendMemPtr := by
  unfold Lse.pushReqQ
  dsimp only
  split_ifs <;> exact ⟨rfl, rfl, rfl⟩

/-- `pop` frees no slot that waits for the memory. -/
theorem Issued.pop_reqQueue (h : Issued handed out x.issueView) (some : x.valid = true → x.channel ≠ [])
    (unready : (x.reqQueue k).1.ready = false) : (Lse.pop lc x).reqQueue k = x.reqQueue k := by
  cases valid : x.valid with
  | false => simp [Lse.pop, valid]
  | true =>
    obtain ⟨front, rest, here⟩ := List.exists_cons_of_ne_nil (some valid)
    have ready : (x.reqQueue front.lseReqQueueIndex).1.ready = true :=
      (h.pushed front.lseReqQueueIndex (by simp [issueView, here])).2.1
    have ne : k ≠ front.lseReqQueueIndex := by
      rintro rfl
      simp [unready] at ready
    simp only [Lse.pop, valid, if_true, here, List.headD_cons, setSlot]
    exact Function.update_of_ne ne _ _

theorem pushReqQ_reqQueue (e : Clock) (valid : (x.reqQueue k).1.valid = true) :
    (Lse.pushReqQ c lc e x).1.reqQueue k = x.reqQueue k := by
  cases free : (x.reqQueue x.pushQueuePtr).1.valid with
  | true => simp [Lse.pushReqQ, free]
  | false =>
    have ne : k ≠ x.pushQueuePtr := by
      rintro rfl
      simp [valid] at free
    simp only [Lse.pushReqQ, free, Bool.false_eq_true, if_false, setSlot]
    exact Function.update_of_ne ne _ _

theorem arrived_kept (e : Clock) (up : Nat → Upstream) (x : Lse) :
    (Lse.arrived c lc e up x).currId = (Chan.parallelize c e x.toChan).currId ∧
      (Lse.arrived c lc e up x).suspendReqVec = x.suspendReqVec ∧
      (Lse.arrived c lc e up x).sendMemPtr = x.sendMemPtr := by
  have popped := @pop_kept lc { x with toChan := Chan.parallelize c e x.toChan }
  exact ⟨(Chan.pushAll_filled c e up _ _).currId.trans popped.1, popped.2⟩

theorem Issued.arrived (h : Issued handed out x.issueView) (some : x.valid = true → x.channel ≠ [])
    (e : Clock) (up : Nat → Upstream) : Issued handed out (Lse.arrived c lc e up x).issueView ∧
      ∀ k, (x.reqQueue k).1.ready = false → (Lse.arrived c lc e up x).reqQueue k = x.reqQueue k := by
  have parallel := @parallelize_kept c e x.toChan
  let z : Lse := { x with toChan := Chan.parallelize c e x.toChan }
  have started : Issued handed out z.issueView := (issueView_toChan x parallel.1).symm ▸ h
  have some : z.valid = true → z.channel ≠ [] := by simpa only [z, parallel] using some
  refine ⟨?_, fun k => started.pop_reqQueue some⟩
  have popped := @Issued.pop lc z handed out started some
  exact (issueView_toChan (Lse.pop lc z) (Chan.pushAll_filled c e up _ _).channel).symm ▸ popped

/-- The LSE when `statusUpdate` selects. -/
def matched (c : ChanConfig) (lc : LseConfig) (e : Clock) (y : Lse) : Lse :=
  if Chan.checkDataMatch c e y.toChan then (Lse.pushReqQ c lc e y).1 else y

theorem Issued.matched (h : Issued handed out y.issueView) (e : Clock) :
    Issued handed out (Lse.matched c lc e y).issueView := by
  unfold Lse.matched
  split_ifs
  · exact h.pushReqQ e
  · exact h

theorem matched_kept (e : Clock) (y : Lse) : (Lse.matched c lc e y).currId = y.currId ∧
    (Lse.matched c lc e y).suspendReqVec = y.suspendReqVec ∧
    (Lse.matched c lc e y).sendMemPtr = y.sendMemPtr ∧
    ∀ k, (y.reqQueue k).1.valid = true → (Lse.matched c lc e y).reqQueue k = y.reqQueue k := by
  unfold Lse.matched
  split_ifs
  · obtain ⟨currId, suspended, ptr⟩ := @pushReqQ_kept c lc e y
    exact ⟨currId, suspended, ptr, fun k => pushReqQ_reqQueue e⟩
  · exact ⟨rfl, rfl, rfl, fun _ _ => rfl⟩

/-- What `statusUpdate` selects is selected by no other thread, when it is not so before the call. -/
theorem Issued.alone {e : Clock} {up : Nat → Upstream} (h : Issued handed out x.issueView)
    (some : x.valid = true → x.channel ≠ []) (first : ¬ reselects c e x)
    (updates : (Lse.arrived c lc e up x).currId ≤ c.speedup ∨ e.clkAdd = true)
    (selected : selects e (Lse.matched c lc e (Lse.arrived c lc e up x))) (j : Nat) (r : MemReq)
    (there : (Lse.matched c lc e (Lse.arrived c lc e up x)).suspendReqVec j = Option.some r) :
    r.lseReqQueueIndex ≠ (Lse.matched c lc e (Lse.arrived c lc e up x)).sendMemPtr := by
  obtain ⟨currId, suspended, ptr⟩ := @arrived_kept c lc e up x
  obtain ⟨currId', suspended', ptr', slots⟩ := @matched_kept c lc e (Lse.arrived c lc e up x)
  obtain ⟨position, -, -, -, clock⟩ := selected
  rw [suspended', suspended] at there position
  rw [currId', currId] at position
  rw [ptr', ptr] at clock ⊢
  intro same
  obtain ⟨holds, -, unready⟩ := h.waits j r there
  rw [same] at holds unready
  -- the slot was there before the call
  have before : (Lse.arrived c lc e up x).reqQueue x.sendMemPtr = x.reqQueue x.sendMemPtr :=
    (h.arrived some e up).2 x.sendMemPtr unready
  rw [slots x.sendMemPtr (by rw [before]; exact holds.valid), before] at clock
  exact first ⟨currId ▸ updates, position, clock, j, r, there, same⟩

theorem Issued.get {e : Clock} (h : Issued handed out x.issueView)
    (some : x.valid = true → x.channel ≠ []) (first : ¬ reselects c e x) (up : Nat → Upstream)
    (sendable : Bool) : Issued handed out (Lse.get c lc e up sendable x).1.issueView ∧
      ((Lse.get c lc e up sendable x).1.valid = true → (Lse.get c lc e up sendable x).1.channel ≠ []) := by
  have arrived : Issued handed out (Lse.arrived c lc e up x).issueView := (h.arrived some e up).1
  rw [get_fst]
  dsimp only
  split_ifs with updates
  · have matched : Issued handed out (Lse.matched c lc e (Lse.arrived c lc e up x)).issueView :=
      arrived.matched e
    have selected : Issued handed out
        (Lse.select c lc e (Lse.matched c lc e (Lse.arrived c lc e up x))).issueView :=
      matched.select e (h.alone some first updates)
    have pushed : Issued handed out (Lse.pushChannel c lc e
        (Lse.select c lc e (Lse.matched c lc e (Lse.arrived c lc e up x)))).issueView :=
      selected.pushChannel e
    rw [statusUpdate_fst]
    refine ⟨pushed, fun valid => ?_⟩
    simp only [Chan.bpUpdate, Bool.and_eq_true, Bool.not_eq_true', List.isEmpty_eq_false_iff] at valid
    exact valid.1
  · exact ⟨arrived, fun valid => absurd valid Bool.false_ne_true⟩

/-! ## Runs -/

inductive IssueEvent where
  | get (e : Clock) (up : Nat → Upstream) (sendable : Bool)
  /-- The memory system looks at the request of the current thread; it may take it, alone or with
  others. -/
  | visit (taken : Option Bool)
  /-- It acknowledges one of the requests that it has taken. -/
  | ack (n : Nat)
  | edit (change : Edit)

structure Issues where
  lse : Lse := {}
  /-- The requests that the memory system has taken. -/
  handed : List MemReq := []
  /-- Those of them that it has not acknowledged. -/
  out : List MemReq := []

def issueStep (c : ChanConfig) (lc : LseConfig) (s : Issues) : IssueEvent → Issues
  | .get e up sendable => { s with lse := (Lse.get c lc e up sendable s.lse).1 }
  | .visit taken =>
    match s.lse.peekReqQueue, taken with
    | some req, some coalesced =>
      let req := { req with coalesced := coalesced }
      ⟨s.lse.visit (some req), s.handed ++ [req], s.out ++ [req]⟩
    | _, _ => { s with lse := s.lse.visit none }
  | .ack n =>
    match s.out[n]? with
    | some req => { s with lse := s.lse.ackCallback req, out := s.out.eraseIdx n }
    | none => s
  | .edit change => { s with lse := { s.lse with toChan := change.apply s.lse.toChan } }

def issueRun (c : ChanConfig) (lc : LseConfig) (events : List IssueEvent) : Issues :=
  events.foldl (issueStep c lc) {}

/-- Whether a call of `get` selects a slot of which another position holds a copy. -/
def IssueEvent.Reselects (c : ChanConfig) (x : Lse) : IssueEvent → Prop
  | .get e _ _ => reselects c e x
  | _ => False

structure Issues.Exact (s : Issues) : Prop where
  issued : Issued s.handed s.out s.lse.issueView
  sent : s.lse.valid = true → s.lse.channel ≠ []

theorem visit_none (x : Lse) : visit x none = x.access := by
  cases here : x.peekReqQueue <;> simp [visit, here]

theorem visit_sent (sent : x.valid = true → x.channel ≠ []) (taken : Option MemReq) :
    (visit x taken).valid = true → (visit x taken).channel ≠ [] := by
  have channel : (visit x taken).channel = x.channel :=
    congrArg OrderView.channel (visit_orderView x taken)
  rwa [visit_valid, channel]

theorem edit_kept (change : Edit) (x : Chan) : (change.apply x).channel = x.channel ∧
    ((change.apply x).valid = true → x.valid = true) := by
  cases change with
  | invalidate => exact ⟨rfl, fun now => absurd now Bool.false_ne_true⟩
  | lastTag | enable | pushBufferEnable | value => exact ⟨rfl, id⟩

theorem Issues.Exact.step {s : Issues} (h : s.Exact) {event : IssueEvent}
    (first : ¬ event.Reselects c s.lse) : (issueStep c lc s event).Exact := by
  cases event with
  | get e up sendable =>
    exact ⟨(h.issued.get h.sent first up sendable).1, (h.issued.get h.sent first up sendable).2⟩
  | visit taken =>
    unfold issueStep
    dsimp only
    split
    · rename_i req coalesced here
      exact ⟨setInflight_issued h.issued here coalesced, visit_sent h.sent _⟩
    · refine ⟨?_, visit_sent h.sent none⟩
      rw [visit_none]
      exact h.issued
  | ack n =>
    unfold issueStep
    dsimp only
    split
    · rename_i req there
      exact ⟨ackCallback_issued h.issued there, h.sent⟩
    · exact h
  | edit change =>
    obtain ⟨channel, valid⟩ := edit_kept change s.lse.toChan
    refine ⟨(issueView_toChan s.lse channel).symm ▸ h.issued, fun now => ?_⟩
    exact channel.symm ▸ h.sent (valid now)

theorem issueRun_exact {events : List IssueEvent} (first : ∀ done event, done ++ [event] <+: events →
    ¬ event.Reselects c (issueRun c lc done).lse) : (issueRun c lc events).Exact := by
  induction events using List.reverseRecOn with
  | nil => exact ⟨init_issued, fun valid => absurd valid Bool.false_ne_true⟩
  | append_singleton done event ih =>
    have before := ih fun done' event' prior => first done' event' (prior.trans (List.prefix_append _ _))
    have after : (issueStep c lc (issueRun c lc done) event).Exact :=
      before.step (first done event (List.prefix_refl _))
    simpa only [issueRun, List.foldl_append, List.foldl_cons, List.foldl_nil] using after

/-- While no call of `get` selects a slot that another position has a copy of, each request is handed
to the memory system at most once. Until it is acknowledged its slot holds it and is in flight, and
no other request in flight is of that slot. -/
theorem issueRun_once (c : ChanConfig) (lc : LseConfig) (events : List IssueEvent)
    (first : ∀ done event, done ++ [event] <+: events →
      ¬ event.Reselects c (issueRun c lc done).lse) :
    let s := issueRun c lc events
    (s.handed.map MemReq.cnt).Nodup ∧ (∀ req ∈ s.handed, req.cnt < s.lse.orderId) ∧
      (s.out.map MemReq.lseReqQueueIndex).Nodup ∧
      ∀ req ∈ s.out, let slot := (s.lse.reqQueue req.lseReqQueueIndex).1
        slot.valid = true ∧ slot.inflight = true ∧ slot.ready = false ∧
          slot.cnt = req.cnt ∧ slot.addr = req.addr ∧ slot.isWrite = req.isWrite := by
  obtain ⟨issued, -⟩ := issueRun_exact first
  refine ⟨issued.once, issued.old, issued.aloft, fun req mem => ?_⟩
  obtain ⟨holds, inflight, unready⟩ := issued.flies req mem
  exact ⟨holds.valid, inflight, unready, holds.cnt, holds.addr, holds.isWrite⟩

/-- A load with two slots. -/
def issuer (speedup : Nat) : ChanConfig := { size := 2, upNum := 1, speedup := speedup }

def issuerSlots : LseConfig := { reqQueueSize := 2 }

def offer : Nat → Upstream := fun _ => { valid := true }

/-- The memory takes the request when it is visited again. -/
def servedLate : List IssueEvent :=
  [.get { clk := 0 } offer true, .visit none, .get { clk := 1 } offer true, .visit (some false), .ack 0]

theorem issueRun_once_servedLate : let s := issueRun (issuer 1) issuerSlots servedLate
    (s.handed.map MemReq.cnt).Nodup ∧ (∀ req ∈ s.handed, req.cnt < s.lse.orderId) ∧
      (s.out.map MemReq.lseReqQueueIndex).Nodup ∧
      ∀ req ∈ s.out, let slot := (s.lse.reqQueue req.lseReqQueueIndex).1
        slot.valid = true ∧ slot.inflight = true ∧ slot.ready = false ∧
          slot.cnt = req.cnt ∧ slot.addr = req.addr ∧ slot.isWrite = req.isWrite := by
  refine issueRun_once (issuer 1) issuerSlots servedLate fun done event prior => ?_
  match done with
  | [] =>
    obtain rfl : event = .get { clk := 0 } offer true := by simpa [servedLate] using prior
    rintro ⟨-, -, -, j, req, there, -⟩
    cases there
  | [_] =>
    obtain ⟨rfl, rfl⟩ : _ ∧ event = .visit none := by simpa [servedLate] using prior
    exact id
  | [_, _] =>
    obtain ⟨rfl, rfl, rfl⟩ : _ ∧ _ ∧ event = .get { clk := 1 } offer true := by
      simpa [servedLate] using prior
    rintro ⟨-, position, -⟩
    revert position
    decide +kernel
  | [_, _, _] =>
    obtain ⟨rfl, rfl, rfl, rfl⟩ : _ ∧ _ ∧ _ ∧ event = .visit (some false) := by
      simpa [servedLate] using prior
    exact id
  | [_, _, _, _] =>
    obtain ⟨rfl, rfl, rfl, rfl, rfl⟩ : _ ∧ _ ∧ _ ∧ _ ∧ event = .ack 0 := by
      simpa [servedLate] using prior
    exact id
  | _ :: _ :: _ :: _ :: _ :: more => simp [servedLate] at prior

/-- The bank of the first thread is busy for a clock, in which `sendMemPtr` goes around. -/
def starved : List IssueEvent :=
  let call (clk : Nat) (clkAdd : Bool) : IssueEvent := .get { clk := clk, clkAdd := clkAdd } offer true
  [call 1 true, .visit none, call 1 false, .visit (some false), call 2 true, .visit none,
    call 2 false, .visit (some false), call 3 true, .visit (some false), .ack 1]

/-- The first request is handed over twice, and once it is acknowledged another acknowledgement
comes for its slot. -/
theorem issueRun_starved : let s := issueRun (issuer 2) issuerSlots starved
    ¬ (s.handed.map MemReq.cnt).Nodup ∧ ∃ req ∈ s.out,
      (s.lse.reqQueue req.lseReqQueueIndex).1.inflight = false := by
  decide +kernel

end DataflowSim.Execution.Lse
