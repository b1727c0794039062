import DataflowSim.Execution.KeepMode

/-!
# Last tags

The datum of a channel in keep mode leaves when every downstream has sent a last tag, so each
downstream has to send one for each instance of the inner loop. Channels and loop variables do.
An LSE sends one when a last token comes from the stream, as every channel does, and another one
whenever `statusUpdate` finds the token at the heads of its buffers. And a tag is sent when the
last token is stored, so the datum can leave while the tokens of its instance wait.
-/

namespace DataflowSim.Execution

namespace Chan

/-- What a channel has popped from one of its buffers. -/
def popped (x : Chan) (i : Nat) : List Data := x.consumed.map fun operands => operands.getD i {}

/-- What a channel has received from an upstream was popped or waits in the buffer. -/
def Through (x : Chan) (i : Nat) : Prop := x.received i = popped x i ++ x.chanBuffer i

/-- What was popped are the first data of the stream. -/
theorem Tracked.popped_eq {c : ChanConfig} {x : Chan} (tracked : Tracked c x) {i : Nat}
    (lt : i < c.arity) : popped x i = (x.received i).take x.consumed.length := by
  refine List.ext_getElem? fun k => ?_
  rw [popped, List.getElem?_map]
  cases at_k : x.consumed[k]? with
  | none =>
    have ge := List.getElem?_eq_none_iff.mp at_k
    rw [List.getElem?_eq_none (by simp only [List.length_take]; omega)]
    rfl
  | some operands =>
    rw [List.getElem?_take_of_lt (List.getElem?_eq_some_iff.mp at_k).1,
      tracked.received_joined lt at_k]
    rfl

theorem Tracked.through {c : ChanConfig} {x : Chan} (tracked : Tracked c x) {i : Nat}
    (lt : i < c.arity) : Through x i := by
  rw [Through, tracked.popped_eq lt, tracked.buffer i lt, List.take_append_drop]

theorem Through.congr {x y : Chan} {i : Nat} (h : Through x i) (buffer : y.chanBuffer = x.chanBuffer)
    (received : y.received = x.received) (consumed : y.consumed = x.consumed) : Through y i := by
  rw [Through, popped, buffer, received, consumed]
  exact h

theorem Through.filled {x y : Chan} {i : Nat} (h : Through x i) (filled : Filled x y) :
    Through y i := by
  obtain ⟨ds, buffer, received⟩ := filled.grown i
  rw [Through, popped, filled.consumed, received, buffer, h, List.append_assoc]
  rfl

theorem get_consumed {c : ChanConfig} (e : Clock) (up : Nat → Upstream) (downstream : List Nat)
    (sendable : Bool) (data : List Int) (x : Chan) :
    x.consumed <+: (get c e up downstream sendable data x).1.consumed := by
  rw [(get_popped e up downstream sendable data x).1]
  obtain ⟨-, popped, -⟩ | ⟨-, n, same⟩ := pop_cases (c := c) e downstream x
  · rw [popped]
    exact List.prefix_append _ _
  · rw [same]

theorem initial_eq (c : ChanConfig) :
    ∃ b b', initial c = { enable := b, pushBufferEnable := b' } := by
  unfold initial
  split <;> exact ⟨_, _, rfl⟩

theorem initial_tracked (c : ChanConfig) : Tracked c (initial c) := by
  obtain ⟨b, b', eq⟩ := initial_eq c
  rw [eq]
  exact ⟨fun _ _ => rfl, by simp, by simp, by simp, by simp⟩

end Chan

namespace Lse

variable {c : ChanConfig} {lc : LseConfig} {x : Lse} {i : Nat}

/-- `statusUpdate` pops the heads of all buffers, or nothing. -/
theorem statusUpdate_cases (e : Clock) (sendable : Bool) (x : Lse) :
    let y := (statusUpdate c lc e sendable x).1
    y.chanBuffer = x.chanBuffer ∧ y.consumed = x.consumed ∨
      Chan.checkDataMatch c e x.toChan = true ∧
        y.chanBuffer = (fun i => if i < c.arity then (x.chanBuffer i).tail else x.chanBuffer i) ∧
        y.consumed = x.consumed ++ [Chan.fronts c x.toChan] := by
  have selected (z : Lse) : (select c lc e z).chanBuffer = z.chanBuffer ∧
      (select c lc e z).consumed = z.consumed := by
    unfold select
    dsimp only
    split_ifs <;> exact ⟨rfl, rfl⟩
  have entered (z : Lse) : (pushChannel c lc e z).chanBuffer = z.chanBuffer ∧
      (pushChannel c lc e z).consumed = z.consumed := by
    unfold pushChannel
    dsimp only
    split_ifs <;> exact ⟨rfl, rfl⟩
  have pushed : (pushReqQ c lc e x).1.chanBuffer = x.chanBuffer ∧
        (pushReqQ c lc e x).1.consumed = x.consumed ∨
      (pushReqQ c lc e x).1.chanBuffer =
          (fun i => if i < c.arity then (x.chanBuffer i).tail else x.chanBuffer i) ∧
        (pushReqQ c lc e x).1.consumed = x.consumed ++ [Chan.fronts c x.toChan] := by
    unfold pushReqQ
    dsimp only
    split_ifs <;> first | exact .inl ⟨rfl, rfl⟩ | exact .inr ⟨rfl, rfl⟩
  unfold statusUpdate
  cases matched : Chan.checkDataMatch c e x.toChan
  · simp [entered, selected]
  · simpa [entered, selected] using pushed

theorem get_cases (e : Clock) (up : Nat → Upstream) (sendable : Bool) (x : Lse) :
    let y := (get c lc e up sendable x).1
    let z := arrived c lc e up x
    y.received = z.received ∧ (y.chanBuffer = z.chanBuffer ∧ y.consumed = z.consumed ∨
      Chan.checkDataMatch c e z.toChan = true ∧
        y.chanBuffer = (fun i => if i < c.arity then (z.chanBuffer i).tail else z.chanBuffer i) ∧
        y.consumed = z.consumed ++ [Chan.fronts c z.toChan]) := by
  intro y z
  have eq : y = _ := get_fst c lc e up sendable x
  rw [eq]
  dsimp only
  split_ifs
  · exact ⟨(statusUpdate_received e sendable z).1, statusUpdate_cases e sendable z⟩
  · exact ⟨rfl, .inl ⟨rfl, rfl⟩⟩

/-- Before the status is updated a call of `get` only fills the buffers. -/
theorem arrived_filled (e : Clock) (up : Nat → Upstream) (x : Lse) :
    ∃ y : Chan, Filled y (arrived c lc e up x).toChan ∧ y.chanBuffer = x.chanBuffer ∧
      y.received = x.received ∧ y.consumed = x.consumed := by
  obtain ⟨n, same⟩ := Chan.parallelize_eq (c := c) e x.toChan
  refine ⟨_, Chan.pushAll_filled c e up _ _, ?_⟩
  simp only [same, pop]
  split_ifs <;> exact ⟨rfl, rfl, rfl⟩

theorem get_through (e : Clock) (up : Nat → Upstream) (sendable : Bool) (lt : i < c.arity)
    (h : Chan.Through x.toChan i) : Chan.Through (get c lc e up sendable x).1.toChan i := by
  obtain ⟨y, filled, buffer, received, consumed⟩ := @arrived_filled c lc e up x
  have arrived := (h.congr buffer received consumed).filled filled
  obtain ⟨received, ⟨buffer, consumed⟩ | ⟨matched, buffer, consumed⟩⟩ := @get_cases c lc e up sendable x
  · exact arrived.congr buffer received consumed
  · obtain ⟨d, l, head⟩ := List.exists_cons_of_ne_nil (Chan.checkDataMatch_held e matched lt)
    rw [Chan.Through, Chan.popped] at arrived ⊢
    rw [received, arrived, buffer, consumed]
    simp [Chan.fronts, lt, head]

theorem get_consumed (e : Clock) (up : Nat → Upstream) (sendable : Bool) (x : Lse) :
    x.consumed <+: (get c lc e up sendable x).1.consumed := by
  obtain ⟨y, filled, -, -, same⟩ := @arrived_filled c lc e up x
  rw [← same, ← filled.consumed]
  obtain ⟨-, ⟨-, consumed⟩ | ⟨-, -, consumed⟩⟩ := @get_cases c lc e up sendable x
  · rw [consumed]
  · rw [consumed]
    exact List.prefix_append _ _

end Lse

namespace KeepGroup

variable {V W U : Type*} [DecidableEq V] [DecidableEq W] [DecidableEq U] (g : KeepGroup V W U)

/-- The instances that have ended in the stream of a downstream. -/
def ended (s : KeepState V W U) : Reader V W U → Nat
  | .chan v => lasts ((s.chan v).received (other (g.keepAt (.chan v))))
  | .lse w => lasts ((s.lse w).received (other (g.keepAt (.lse w))))
  | .loopVar u => lasts (s.sent u)

/-- The instances that a downstream has finished: their last tokens were popped, or were sent by
the loop variable. -/
def finished (s : KeepState V W U) : Reader V W U → Nat
  | .chan v => lasts (Chan.popped (s.chan v) (other (g.keepAt (.chan v))))
  | .lse w => lasts (Chan.popped (s.lse w).toChan (other (g.keepAt (.lse w))))
  | .loopVar u => lasts (s.sent u)

/-- The instances whose last tokens wait in the buffer of a downstream. -/
def waiting (s : KeepState V W U) : Reader V W U → Nat
  | .chan v => lasts ((s.chan v).chanBuffer (other (g.keepAt (.chan v))))
  | .lse w => lasts ((s.lse w).chanBuffer (other (g.keepAt (.lse w))))
  | .loopVar _ => 0

/-- Each downstream sends one tag for each instance, and the channel pops one datum for each. -/
structure TagLaw (s : KeepState V W U) : Prop where
  /-- There is one tag for an instance that is finished or of which the last token waits. -/
  once : ∀ r, s.tags r = g.finished s r + g.waiting s r
  queue : ∀ r, s.keep.lastTagQueue (g.moduleId r) + s.keep.consumed.length = s.tags r
  /-- No datum has left before all downstreams have finished its instance. -/
  stays : ∀ r, s.keep.consumed.length ≤ g.finished s r
  /-- When they have, it leaves in the next call. -/
  leaves : ∀ i, s.keep.valid = true → (∀ r, s.keep.consumed.length < g.finished s r) →
    (g.getKeep i s).keep.consumed.length = s.keep.consumed.length + 1

/-- If the next call pops the datum, each downstream has a tag that is not of a token that still
waits. -/
def Timely (s : KeepState V W U) : Prop :=
  s.keep.valid = true → Chan.popLastCheck g.keep (g.downstream.map g.moduleId) s.keep = true →
    ∀ r ∈ g.downstream, g.waiting s r < s.keep.lastTagQueue (g.moduleId r)

instance (s : KeepState V W U) : Decidable (g.Timely s) :=
  inferInstanceAs (Decidable (_ → _ → _))

/-- The calls after which the law holds: the datum is only popped in time, and no LSE comes to
`pushReqQ` with a last token. -/
def timely : Allowed V W U where
  keep _ := g.Timely
  lse w i s := g.repeats w i s = false

/-- The tags that a downstream sends besides those of its instances. -/
def extra (s : KeepState V W U) : Reader V W U → Nat
  | .lse w => s.repeated w
  | _ => 0

structure Counted (s : KeepState V W U) : Prop where
  sent : ∀ r, s.tags r = g.ended s r + extra s r
  queue : ∀ r, s.keep.lastTagQueue (g.moduleId r) + s.keep.consumed.length = s.tags r

variable {g} {s t : KeepState V W U}

omit [DecidableEq V] [DecidableEq W] [DecidableEq U] in
/-- A step that has nothing to do with tokens and tags. -/
theorem Counted.congr (h : Counted g s) (queue : t.keep.lastTagQueue = s.keep.lastTagQueue)
    (consumed : t.keep.consumed = s.keep.consumed) (tags : t.tags = s.tags)
    (same : ∀ r, g.ended t r + extra t r = g.ended s r + extra s r) : Counted g t where
  sent r := by rw [tags, same, h.sent]
  queue r := by rw [queue, consumed, tags, h.queue]

/-- A downstream sends the tags for what it has received or sent. -/
theorem Counted.sendLastTag (h : Counted g s) (r : Reader V W U) (n : Nat)
    (keep : t.keep = s.keep) (tags : t.tags = s.tags)
    (here : g.ended t r + extra t r = g.ended s r + extra s r + n)
    (others : ∀ r' ≠ r, g.ended t r' + extra t r' = g.ended s r' + extra s r') :
    Counted g (g.sendLastTag r n t) where
  sent r' := by
    show Function.update t.tags r (t.tags r + n) r' = g.ended t r' + extra t r'
    by_cases eq : r' = r
    · rw [eq, Function.update_self, tags, h.sent, here]
    · rw [Function.update_of_ne eq, tags, h.sent, others r' eq]
  queue r' := by
    show Function.update t.keep.lastTagQueue _ _ _ + t.keep.consumed.length =
      Function.update t.tags r (t.tags r + n) r'
    have queue := h.queue r'
    by_cases eq : r' = r
    · rw [eq] at queue ⊢
      rw [Function.update_self, Function.update_self, keep, tags]
      omega
    · rw [Function.update_of_ne eq, Function.update_of_ne (g.moduleId_injective.ne eq), keep, tags,
        queue]

omit [DecidableEq V] [DecidableEq W] [DecidableEq U] in
/-- What a downstream sees of the channel in keep mode. -/
theorem upstreams_keep (s : KeepState V W U) (r : Reader V W U) (others : Nat → Upstream) :
    g.upstreams s r others (g.keepAt r) = g.shown s := if_pos rfl

omit [DecidableEq V] [DecidableEq W] [DecidableEq U] in
/-- Of the two upstreams of a downstream that is no loop variable one is in keep mode. -/
theorem upstreams_keepMode (s : KeepState V W U) (r : Reader V W U) {others : Nat → Upstream}
    (plain : ∀ j, (others j).keepMode = false) (lt : g.keepAt r < 2) :
    (g.upstreams s r others (g.keepAt r)).keepMode = true ∧
      (g.upstreams s r others (other (g.keepAt r))).keepMode = false := by
  rw [upstreams_keep, upstreams, if_neg (other_ne _ lt)]
  exact ⟨rfl, plain _⟩

omit [DecidableEq V] [DecidableEq W] [DecidableEq U] in
theorem chan_joins (s : KeepState V W U) (v : V) (i : Around)
    (plain : ∀ j, (i.up j).keepMode = false) :
    let c := g.chan v
    let up := g.upstreams s (.chan v) i.up
    let r := Chan.get c i.e up i.downstream i.sendable [] (s.chan v)
    Chan.Joins c i.e up (g.keepAt (.chan v))
      (Chan.pop c i.downstream (Chan.parallelize c i.e (s.chan v))) r.1 r.2 := by
  have joining := g.chan_joining v
  obtain ⟨keeps, plain⟩ := upstreams_keepMode s (.chan v) plain joining.lt
  exact Chan.get_joins i.e keeps plain joining i.downstream i.sendable [] (s.chan v)

theorem Counted.getChan (h : Counted g s) (v : V) (i : Around)
    (plain : ∀ j, (i.up j).keepMode = false) : Counted g (g.getChan v i s) := by
  have joins := chan_joins (g := g) s v i plain
  refine h.sendLastTag _ _ rfl rfl ?_ fun r ne => ?_
  · have received := joins.received_other
    rw [Chan.pop_received] at received
    simp only [ended, extra, Function.update_self, received, lasts_append, joins.tags]
    omega
  · cases r with
    | chan v' =>
      have ne : v' ≠ v := fun eq => ne (eq ▸ rfl)
      simp [ended, extra, ne]
    | lse | loopVar => rfl

theorem Counted.getLse (h : Counted g s) (w : W) (i : Around)
    (plain : ∀ j, (i.up j).keepMode = false) : Counted g (g.getLse w i s) := by
  have joining := g.lse_joining w
  obtain ⟨keeps, plain⟩ := upstreams_keepMode s (.lse w) plain joining.lt
  obtain ⟨tokens, received, tags⟩ :=
    @Lse.get_joins _ (g.lseConfig w) i.e _ _ keeps plain joining i.sendable (s.lse w)
  have tags : _ = lasts tokens + if g.repeats w i s then 1 else 0 := tags
  refine h.sendLastTag _ _ rfl rfl ?_ fun r ne => ?_
  · simp only [tags, ended, extra, Function.update_self, received, lasts_append]
    omega
  · cases r with
    | lse w' =>
      have ne : w' ≠ w := fun eq => ne (eq ▸ rfl)
      simp [ended, extra, ne]
    | chan | loopVar => rfl

theorem Counted.getLoopVar (h : Counted g s) (u : U) (i : Around) :
    Counted g (g.getLoopVar u i s) := by
  refine h.sendLastTag _ _ rfl rfl ?_ fun r _ => ?_
  · rw [Chan.get_loopVar i.e (g.isLoopVar u)]
    rfl
  · cases r <;> rfl

omit [DecidableEq V] [DecidableEq W] [DecidableEq U] in
/-- The loop variable calls `sendLastTag` when it offers a last datum. -/
theorem lcUpdate_lastTags (u : U) (i : AroundLc) (lc : Lc) :
    let lc' := Lc.lcUpdate (g.lc u) i.e i.newSel i.ends i.endSendable lc
    lc'.lastTags = lc.lastTags +
      lasts (if lc'.loopVar.valid then [lc'.loopVar.channel.headD {}] else []) := by
  intro lc'
  let sel := Lc.selUpdate i.newSel lc
  have looped := Lc.lcUpdate_looped (g.lc u) i.e i.newSel i.ends i.endSendable lc
  have tags : lc'.lastTags = (Lc.loopUpdate (g.lc u) sel).lastTags := by
    simp only [lc', Lc.lcUpdate]
    rw [Lc.sendEndUpdate_eq]
    rfl
  have kept : (Lc.countLoop sel).lastTags = lc.lastTags ∧ (Lc.countLoop sel).loopVar = sel.loopVar ∧
      (Lc.countLoop sel).sel = sel.sel := by
    simp only [sel, Lc.selUpdate_eq, Lc.countLoop]
    split_ifs <;> exact ⟨rfl, rfl, rfl⟩
  have valid : lc'.loopVar.valid = sel.loopVar.valid := (congrArg Chan.valid looped.loopVar :)
  have channel : lc'.loopVar.channel = if sel.sel then sel.loopVar.channel
      else Lc.markLast (g.lc u).isOuterMostLoop sel.loopVar.channel :=
    (congrArg Chan.channel looped.loopVar :)
  rw [tags, valid, channel]
  simp only [Lc.loopUpdate, kept]
  generalize (if sel.sel then sel.loopVar.channel
    else Lc.markLast (g.lc u).isOuterMostLoop sel.loopVar.channel) = l
  cases sel.loopVar.valid <;> cases last : (l.headD {}).last <;> simp only [lasts] <;> grind

theorem Counted.lcUpdate (h : Counted g s) (u : U) (i : AroundLc) :
    Counted g (g.lcUpdate u i s) := by
  refine h.sendLastTag _ _ rfl rfl ?_ fun r ne => ?_
  · rw [lcUpdate_lastTags]
    simp only [ended, extra, Function.update_self, lasts_append]
    omega
  · cases r with
    | loopVar u' =>
      have ne : u' ≠ u := fun eq => ne (eq ▸ rfl)
      simp [ended, extra, ne]
    | chan | lse => rfl

omit [DecidableEq V] [DecidableEq W] [DecidableEq U] in
theorem Counted.initial : Counted g g.initial := by
  have nothing (c : ChanConfig) : (Chan.initial c).received = (fun _ => []) ∧
      (Chan.initial c).consumed = [] ∧ (Chan.initial c).lastTagQueue = fun _ => 0 := by
    obtain ⟨b, b', eq⟩ := Chan.initial_eq c
    rw [eq]
    exact ⟨rfl, rfl, rfl⟩
  refine ⟨fun r => ?_, fun r => ?_⟩
  · cases r <;> simp [KeepGroup.initial, ended, extra, nothing]
  · simp [KeepGroup.initial, nothing]

omit [DecidableEq V] [DecidableEq W] [DecidableEq U] in
/-- What `popLastCheck` finds in the queues. -/
theorem Counted.popLastCheck_iff (h : Counted g s) :
    Chan.popLastCheck g.keep (g.downstream.map g.moduleId) s.keep = true ↔
      ∀ r, s.keep.consumed.length < s.tags r := by
  have has (r : Reader V W U) : s.keep.consumed.length < s.tags r ↔
      0 < s.keep.lastTagQueue (g.moduleId r) := by
    have := h.queue r
    omega
  simp only [has, Chan.popLastCheck, g.noDownstream, g.keepMode, Bool.not_true, Bool.false_or,
    List.all_eq_true, List.mem_map, decide_eq_true_eq, forall_exists_index, and_imp,
    forall_apply_eq_imp_iff₂]
  exact ⟨fun all r => all r (g.mem_downstream r), fun all r _ => all r⟩

omit [DecidableEq V] [DecidableEq W] [DecidableEq U] in
/-- The channel pops its datum, and with it a tag of every downstream, when it has one of each. -/
theorem Counted.popped (h : Counted g s) (i : Around) :
    let t := g.getKeep i s
    (s.keep.valid = true ∧ ∀ r, s.keep.consumed.length < s.tags r) ∧
        t.keep.consumed = s.keep.consumed ++ [Chan.fronts g.keep s.keep] ∧
        (∀ r, t.keep.lastTagQueue (g.moduleId r) + 1 = s.keep.lastTagQueue (g.moduleId r)) ∨
      ¬ (s.keep.valid = true ∧ ∀ r, s.keep.consumed.length < s.tags r) ∧
        t.keep.consumed = s.keep.consumed ∧ t.keep.lastTagQueue = s.keep.lastTagQueue := by
  intro t
  have due := h.popLastCheck_iff
  obtain ⟨consumed, queue⟩ := Chan.get_popped (c := g.keep) i.e i.up
    (g.downstream.map g.moduleId) i.sendable i.data s.keep
  have consumed : t.keep.consumed = _ := consumed
  have queue : t.keep.lastTagQueue = _ := queue
  rw [consumed, queue, ← due]
  obtain ⟨ready, consumed, -, queue⟩ | ⟨ready, n, same⟩ :=
    Chan.pop_cases (c := g.keep) i.e (g.downstream.map g.moduleId) s.keep
  · simp only [g.keepMode, Bool.not_true, Bool.false_or, Bool.and_eq_true] at ready
    refine .inl ⟨ready, consumed, fun r => ?_⟩
    have some := due.mp ready.2 r
    have before := h.queue r
    rw [queue, if_pos g.keepMode]
    omega
  · refine .inr ⟨?_, by rw [same], by rw [same]⟩
    simpa [g.keepMode] using ready

omit [DecidableEq V] [DecidableEq W] [DecidableEq U] in
theorem Counted.getKeep (h : Counted g s) (i : Around) : Counted g (g.getKeep i s) := by
  have same (r : Reader V W U) : g.ended (g.getKeep i s) r + extra (g.getKeep i s) r =
      g.ended s r + extra s r := by cases r <;> rfl
  refine ⟨fun r => (h.sent r).trans (same r).symm, fun r => ?_⟩
  have queue := h.queue r
  show _ = s.tags r
  obtain ⟨-, consumed, popped⟩ | ⟨-, consumed, kept⟩ := h.popped i
  · have popped := popped r
    rw [consumed, List.length_append, List.length_singleton]
    omega
  · rw [consumed, kept, queue]

omit [DecidableEq V] [DecidableEq W] [DecidableEq U] in
theorem Counted.configure (h : Counted g s) (push pop : Bool) :
    Counted g (configure push pop s) :=
  h.congr rfl rfl rfl fun r => by cases r <;> rfl

omit [DecidableEq W] [DecidableEq U] in
theorem Counted.edit (h : Counted g s) (v : V) (change : Edit) :
    Counted g { s with chan := Function.update s.chan v (change.apply (s.chan v)) } := by
  have same : (change.apply (s.chan v)).received = (s.chan v).received := by cases change <;> rfl
  refine h.congr rfl rfl rfl fun r => ?_
  cases r with
  | chan v' =>
    by_cases eq : v' = v
    · subst eq
      simp [ended, extra, same]
    · simp [ended, extra, eq]
  | lse | loopVar => rfl

omit [DecidableEq V] [DecidableEq U] in
theorem Counted.editLse (h : Counted g s) (w : W) (f : Lse → Lse)
    (same : (f (s.lse w)).received = (s.lse w).received) : Counted g (editLse w f s) := by
  refine h.congr rfl rfl rfl fun r => ?_
  cases r with
  | lse w' =>
    by_cases eq : w' = w
    · subst eq
      simp [ended, extra, KeepGroup.editLse, same]
    · simp [ended, extra, KeepGroup.editLse, eq]
  | chan | loopVar => rfl

theorem visit_same (x : Lse) (taken : Option Memory.MemReq) :
    (x.visit taken).received = x.received ∧ (x.visit taken).chanBuffer = x.chanBuffer ∧
      (x.visit taken).consumed = x.consumed := by
  unfold Lse.visit Lse.setInflight
  split
  · dsimp only
    split_ifs <;> exact ⟨rfl, rfl, rfl⟩
  · exact ⟨rfl, rfl, rfl⟩

/-- Whatever happens, the tags are those of the instances and of the repeated calls. -/
theorem Reachable.counted {P : Allowed V W U} (reachable : Reachable g P s) : Counted g s := by
  induction reachable with
  | init => exact .initial
  | keep i _ _ h => exact h.getKeep i
  | chan v i plain _ _ h => exact h.getChan v i plain
  | lse w i plain _ _ h => exact h.getLse w i plain
  | loopVar u i _ _ h => exact h.getLoopVar u i
  | lcUpdate u i _ _ h => exact h.lcUpdate u i
  | configure push pop _ h => exact h.configure push pop
  | edit v change _ h => exact h.edit v change
  | visit w taken _ h => exact h.editLse w _ (visit_same _ taken).1
  | ackCallback w req _ h => exact h.editLse w _ rfl
  | editLse w change _ h => exact h.editLse w _ (by cases change <;> rfl)

/-! ## What the downstreams have popped -/

/-- What holds of the downstreams between two calls. -/
structure Streams (g : KeepGroup V W U) (s : KeepState V W U) : Prop where
  tracked : ∀ v, Chan.Tracked (g.chan v) (s.chan v)
  sent : ∀ v, (s.chan v).valid = true → (s.chan v).channel ≠ []
  through : ∀ w, Chan.Through (s.lse w).toChan (other (g.keepAt (.lse w)))

omit [DecidableEq V] [DecidableEq W] [DecidableEq U] in
theorem Streams.same (h : Streams g s) (chan : t.chan = s.chan) (lse : t.lse = s.lse) :
    Streams g t :=
  ⟨chan ▸ h.tracked, chan ▸ h.sent, lse ▸ h.through⟩

omit [DecidableEq W] [DecidableEq U] in
theorem Streams.setChan (h : Streams g s) {v : V} {x : Chan}
    (chan : t.chan = Function.update s.chan v x) (lse : t.lse = s.lse)
    (tracked : Chan.Tracked (g.chan v) x) (sent : x.valid = true → x.channel ≠ []) :
    Streams g t := by
  refine ⟨fun v' => ?_, fun v' => ?_, lse ▸ h.through⟩ <;> rw [chan] <;> by_cases eq : v' = v
  · rw [eq, Function.update_self]
    exact tracked
  · rw [Function.update_of_ne eq]
    exact h.tracked v'
  · rw [eq, Function.update_self]
    exact sent
  · rw [Function.update_of_ne eq]
    exact h.sent v'

omit [DecidableEq V] [DecidableEq U] in
theorem Streams.setLse (h : Streams g s) {w : W} {x : Lse} (chan : t.chan = s.chan)
    (lse : t.lse = Function.update s.lse w x)
    (through : Chan.Through x.toChan (other (g.keepAt (.lse w)))) : Streams g t := by
  refine ⟨chan ▸ h.tracked, chan ▸ h.sent, fun w' => ?_⟩
  rw [lse]
  by_cases eq : w' = w
  · rw [eq, Function.update_self]
    exact through
  · rw [Function.update_of_ne eq]
    exact h.through w'

omit [DecidableEq V] [DecidableEq W] [DecidableEq U] in
theorem Streams.initial : Streams g g.initial := by
  refine ⟨fun v => Chan.initial_tracked (g.chan v), fun v => ?_, fun w => rfl⟩
  obtain ⟨b, b', eq⟩ := Chan.initial_eq (g.chan v)
  simp [KeepGroup.initial, eq]

theorem Edit.apply_tracked {c : ChanConfig} {x : Chan} (change : Edit) (h : Chan.Tracked c x) :
    Chan.Tracked c (change.apply x) := by
  cases change <;> exact h.congr rfl rfl rfl rfl

theorem Edit.apply_sent {x : Chan} (change : Edit) (h : x.valid = true → x.channel ≠ []) :
    (change.apply x).valid = true → (change.apply x).channel ≠ [] := by
  cases change <;> simp_all [Edit.apply]

/-- What a downstream has received it has popped, or it waits in its buffers. -/
theorem Reachable.streams {P : Allowed V W U} (reachable : Reachable g P s) : Streams g s := by
  induction reachable with
  | init => exact .initial
  | keep i _ _ h => exact h.same rfl rfl
  | @chan s v i _ _ _ h =>
    obtain ⟨tracked, sent⟩ := (h.tracked v).get i.e (g.upstreams s (.chan v) i.up) (h.sent v)
      i.downstream i.sendable []
    exact h.setChan rfl rfl tracked sent
  | lse w i _ _ _ h =>
    have lt := (g.lse_joining w).arity ▸ other_lt (g.keepAt (.lse w))
    exact h.setLse rfl rfl (Lse.get_through i.e _ i.sendable lt (h.through w))
  | loopVar u i _ _ h => exact h.same rfl rfl
  | lcUpdate u i _ _ h => exact h.same rfl rfl
  | configure push pop _ h => exact h.same rfl rfl
  | edit v change _ h =>
    exact h.setChan rfl rfl (Edit.apply_tracked change (h.tracked v))
      (Edit.apply_sent change (h.sent v))
  | visit w taken _ h =>
    obtain ⟨received, buffer, consumed⟩ := visit_same _ taken
    exact h.setLse rfl rfl ((h.through w).congr buffer received consumed)
  | ackCallback w req _ h => exact h.setLse rfl rfl ((h.through w).congr rfl rfl rfl)
  | editLse w change _ h =>
    exact h.setLse rfl rfl ((h.through w).congr (by cases change <;> rfl)
      (by cases change <;> rfl) (by cases change <;> rfl))

omit [DecidableEq V] [DecidableEq W] [DecidableEq U] in
theorem finished_le (chan : ∀ v, (s.chan v).consumed <+: (t.chan v).consumed)
    (lse : ∀ w, (s.lse w).consumed <+: (t.lse w).consumed) (sent : ∀ u, s.sent u <+: t.sent u)
    (r : Reader V W U) : g.finished s r ≤ g.finished t r := by
  cases r with
  | chan v => exact ((chan v).map _).sublist.countP_le
  | lse w => exact ((lse w).map _).sublist.countP_le
  | loopVar u => exact (sent u).sublist.countP_le

theorem prefix_update {ι α β : Type*} [DecidableEq ι] {f : ι → α} {i : ι} {a : α} (l : α → List β)
    (grows : l (f i) <+: l a) (j : ι) : l (f j) <+: l (Function.update f i a j) := by
  by_cases eq : j = i
  · rw [eq, Function.update_self]
    exact grows
  · rw [Function.update_of_ne eq]

omit [DecidableEq V] [DecidableEq W] [DecidableEq U] in
theorem Streams.ended_eq (h : Streams g s) (r : Reader V W U) :
    g.ended s r = g.finished s r + g.waiting s r := by
  cases r with
  | chan v =>
    have lt := (g.chan_joining v).arity ▸ other_lt (g.keepAt (.chan v))
    rw [ended, (h.tracked v).through lt, lasts_append]
    rfl
  | lse w =>
    rw [ended, h.through w, lasts_append]
    rfl
  | loopVar => rfl

/-! ## The law -/

omit [DecidableEq V] [DecidableEq W] [DecidableEq U] in
/-- Apart from the calls of the LSEs, the law is that no datum leaves early. -/
theorem tagLaw_iff (counted : Counted g s) (streams : Streams g s) : TagLaw g s ↔
    (∀ r, extra s r = 0) ∧ ∀ r, s.keep.consumed.length ≤ g.finished s r := by
  have sent (r : Reader V W U) : s.tags r = g.finished s r + g.waiting s r + extra s r := by
    rw [← streams.ended_eq]
    exact counted.sent r
  constructor
  · intro law
    refine ⟨fun r => ?_, law.stays⟩
    have once := law.once r
    have sent := sent r
    omega
  · rintro ⟨none, stays⟩
    refine ⟨fun r => by rw [sent, none, Nat.add_zero], counted.queue, stays, fun i valid all => ?_⟩
    obtain ⟨-, consumed, -⟩ | ⟨not, -⟩ := counted.popped i
    · rw [consumed, List.length_append, List.length_singleton]
    · refine absurd ⟨valid, fun r => ?_⟩ not
      have all := all r
      have sent := sent r
      omega

omit [DecidableEq V] [DecidableEq W] [DecidableEq U] in
/-- A call of the channel in keep mode keeps the law if and only if it is timely. -/
theorem tagLaw_getKeep_iff (counted : Counted g s) (streams : Streams g s) (law : TagLaw g s)
    (i : Around) : TagLaw g (g.getKeep i s) ↔ g.Timely s := by
  obtain ⟨none, stays⟩ := (tagLaw_iff counted streams).mp law
  have finished (r : Reader V W U) : g.finished (g.getKeep i s) r = g.finished s r := by
    cases r <;> rfl
  have repeated (r : Reader V W U) : extra (g.getKeep i s) r = extra s r := by cases r <;> rfl
  have due : s.keep.valid = true ∧ (∀ r, s.keep.consumed.length < s.tags r) ↔ s.keep.valid = true ∧
      Chan.popLastCheck g.keep (g.downstream.map g.moduleId) s.keep = true := by
    rw [counted.popLastCheck_iff]
  have counts (r : Reader V W U) := (counted.queue r).trans (law.once r)
  rw [tagLaw_iff (counted.getKeep i) (streams.same rfl rfl)]
  simp only [finished, repeated, none, implies_true, true_and]
  obtain ⟨ready, consumed, -⟩ | ⟨not, consumed, -⟩ := counted.popped i
  · obtain ⟨valid, last⟩ := due.mp ready
    rw [consumed, List.length_append, List.length_singleton]
    constructor
    · intro popped _ _ r _
      have popped := popped r
      have counts := counts r
      omega
    · intro timely r
      have waits := timely valid last r (g.mem_downstream r)
      have counts := counts r
      omega
  · rw [consumed]
    exact ⟨fun _ valid last => absurd (due.mpr ⟨valid, last⟩) not, fun _ => stays⟩

/-- A call that finds a last token at the heads of an LSE breaks the law, and no other one does. -/
theorem tagLaw_getLse_iff (counted : Counted g s) (streams : Streams g s) (law : TagLaw g s)
    (w : W) (i : Around) (plain : ∀ j, (i.up j).keepMode = false) :
    TagLaw g (g.getLse w i s) ↔ g.repeats w i s = false := by
  obtain ⟨none, stays⟩ := (tagLaw_iff counted streams).mp law
  have next := counted.getLse w i plain
  have lt := (g.lse_joining w).arity ▸ other_lt (g.keepAt (.lse w))
  have streams : Streams g (g.getLse w i s) :=
    streams.setLse rfl rfl (Lse.get_through i.e _ i.sendable lt (streams.through w))
  have finished (r : Reader V W U) : g.finished s r ≤ g.finished (g.getLse w i s) r :=
    finished_le (s := s) (t := g.getLse w i s) (fun _ => List.prefix_rfl)
      (prefix_update (fun x : Lse => x.consumed) (Lse.get_consumed i.e _ i.sendable (s.lse w)))
      (fun _ => List.prefix_rfl) r
  have repeated (r : Reader V W U) : extra (g.getLse w i s) r =
      extra s r + if r = .lse w ∧ g.repeats w i s = true then 1 else 0 := by
    cases r with
    | lse w' =>
      by_cases eq : w' = w
      · subst eq
        simp [extra, KeepGroup.getLse, sendLastTag]
      · simp [extra, KeepGroup.getLse, sendLastTag, eq]
    | chan | loopVar => simp [extra]
  have kept : (g.getLse w i s).keep.consumed = s.keep.consumed := rfl
  rw [tagLaw_iff next streams, kept]
  simp only [repeated, none, Nat.zero_add]
  constructor
  · intro ⟨unrepeated, _⟩
    simpa using unrepeated (.lse w)
  · intro unrepeated
    exact ⟨fun r => by simp [unrepeated], fun r => (stays r).trans (finished r)⟩

/-- A step in which the channel in keep mode pops nothing, and no LSE comes to `pushReqQ`. -/
theorem TagLaw.congr (law : TagLaw g s) {P Q : Allowed V W U} (before : Reachable g P s)
    (after : Reachable g Q t) (consumed : t.keep.consumed = s.keep.consumed)
    (repeated : t.repeated = s.repeated) (chan : ∀ v, (s.chan v).consumed <+: (t.chan v).consumed)
    (lse : ∀ w, (s.lse w).consumed <+: (t.lse w).consumed) (sent : ∀ u, s.sent u <+: t.sent u) :
    TagLaw g t := by
  obtain ⟨none, stays⟩ := (tagLaw_iff before.counted before.streams).mp law
  refine (tagLaw_iff after.counted after.streams).mpr ⟨fun r => ?_, fun r => ?_⟩
  · rw [← none r]
    cases r <;> simp only [extra, repeated]
  · rw [consumed]
    exact (stays r).trans (finished_le chan lse sent r)

/-- The law holds in every run of timely calls, and no call that is not timely keeps it. -/
theorem tagLaw (reachable : Reachable g g.timely s) : TagLaw g s ∧
    (∀ i, TagLaw g (g.getKeep i s) ↔ g.Timely s) ∧
    ∀ w i, (∀ j, (i.up j).keepMode = false) →
      (TagLaw g (g.getLse w i s) ↔ g.repeats w i s = false) := by
  suffices law : TagLaw g s from
    ⟨law, tagLaw_getKeep_iff reachable.counted reachable.streams law,
      tagLaw_getLse_iff reachable.counted reachable.streams law⟩
  induction reachable with
  | init =>
    obtain ⟨b, b', nothing⟩ := Chan.initial_eq g.keep
    exact (tagLaw_iff .initial .initial).mpr
      ⟨fun r => by cases r <;> rfl, fun r => by simp [KeepGroup.initial, nothing]⟩
  | keep i timely before law =>
    exact (tagLaw_getKeep_iff before.counted before.streams law i).mpr timely
  | @chan s v i plain allowed before law =>
    exact law.congr before (.chan v i plain allowed before) rfl rfl
      (prefix_update Chan.consumed (Chan.get_consumed i.e _ i.downstream i.sendable [] (s.chan v)))
      (fun _ => List.prefix_rfl) (fun _ => List.prefix_rfl)
  | lse w i plain single before law =>
    exact (tagLaw_getLse_iff before.counted before.streams law w i plain).mpr single
  | loopVar u i done before law =>
    exact law.congr before (.loopVar u i done before) rfl rfl (fun _ => List.prefix_rfl)
      (fun _ => List.prefix_rfl) (fun _ => List.prefix_rfl)
  | lcUpdate u i due before law =>
    exact law.congr before (.lcUpdate u i due before) rfl rfl (fun _ => List.prefix_rfl)
      (fun _ => List.prefix_rfl) (prefix_update id (List.prefix_append _ _))
  | configure push pop before law =>
    exact law.congr before (.configure push pop before) rfl rfl (fun _ => List.prefix_rfl)
      (fun _ => List.prefix_rfl) (fun _ => List.prefix_rfl)
  | edit v change before law =>
    exact law.congr before (.edit v change before) rfl rfl
      (prefix_update Chan.consumed (by cases change <;> exact List.prefix_rfl))
      (fun _ => List.prefix_rfl) (fun _ => List.prefix_rfl)
  | visit w taken before law =>
    exact law.congr before (.visit w taken before) rfl rfl (fun _ => List.prefix_rfl)
      (prefix_update (fun x : Lse => x.consumed) ((visit_same _ taken).2.2 ▸ List.prefix_rfl))
      (fun _ => List.prefix_rfl)
  | ackCallback w req before law =>
    exact law.congr before (.ackCallback w req before) rfl rfl (fun _ => List.prefix_rfl)
      (prefix_update (fun x : Lse => x.consumed) List.prefix_rfl) (fun _ => List.prefix_rfl)
  | editLse w change before law =>
    exact law.congr before (.editLse w change before) rfl rfl (fun _ => List.prefix_rfl)
      (prefix_update (fun x : Lse => x.consumed) (by cases change <;> exact List.prefix_rfl))
      (fun _ => List.prefix_rfl)

/-- A channel in keep mode that feeds a channel and an LSE. -/
def tagPair : KeepGroup Unit Unit Empty where
  keep := { size := 2, keepMode := true, upNum := 0, noUpstream := true }
  op := List.sum
  chan _ := { size := 2, upNum := 2, noDownstream := true }
  lse _ := { size := 2, upNum := 2, noDownstream := true, chanType := .Chan_Lse }
  lseConfig _ := { reqQueueSize := 2 }
  lc := Empty.elim
  keepAt _ := 0
  downstream := [.chan (), .lse ()]
  moduleId r := match r with
    | .chan _ => 0
    | .lse _ => 1
  keepMode := rfl
  noDownstream := rfl
  mem_downstream r := by rcases r with _ | _ | ⟨⟨⟩⟩ <;> simp
  moduleId_injective r r' same := by
    rcases r with _ | _ | ⟨⟨⟩⟩ <;> rcases r' with _ | _ | ⟨⟨⟩⟩ <;> first | rfl | cases same
  chan_joining _ := ⟨rfl, rfl, rfl, by decide⟩
  lse_joining _ := ⟨rfl, rfl, rfl, by decide⟩
  isLoopVar u := u.elim

/-- A channel in keep mode that feeds one channel. -/
def single : KeepGroup Unit Empty Empty where
  keep := { size := 2, keepMode := true, upNum := 0, noUpstream := true }
  op := List.sum
  chan _ := { size := 2, upNum := 2, noDownstream := true }
  lse := Empty.elim
  lseConfig := Empty.elim
  lc := Empty.elim
  keepAt _ := 0
  downstream := [.chan ()]
  moduleId _ := 0
  keepMode := tagPair.keepMode
  noDownstream := tagPair.noDownstream
  mem_downstream r := by rcases r with _ | ⟨⟨⟩⟩ | ⟨⟨⟩⟩; simp
  moduleId_injective r r' _ := by
    rcases r with _ | ⟨⟨⟩⟩ | ⟨⟨⟩⟩; rcases r' with _ | ⟨⟨⟩⟩ | ⟨⟨⟩⟩; rfl
  chan_joining := tagPair.chan_joining
  lse_joining := Empty.rec
  isLoopVar := tagPair.isLoopVar

/-- The stream of the inner loop offers the only token of an instance. -/
def lastToken (clk : Nat) : Around where
  e := { clk := clk }
  up _ := { valid := true, value := 3, front := { valid := true, last := true } }

/-- An instance in which the channel takes the token, and pops it with the datum. -/
def instance_ (clk : Nat) (datum : Int) (s : KeepState Unit Empty Empty) :
    KeepState Unit Empty Empty :=
  let s := single.getKeep { e := { clk := clk }, data := [datum] } s
  single.getChan () { e := { clk := clk + 1 } } (single.getChan () (lastToken clk) s)

/-- Two instances, after which the channel in keep mode pops the second datum. -/
def instances : KeepState Unit Empty Empty :=
  single.getKeep { e := { clk := 4 } } (instance_ 2 8 (instance_ 0 7 single.initial))

theorem instances_reachable : Reachable single single.timely instances := by
  have next {clk : Nat} {datum : Int} {s : KeepState Unit Empty Empty} (timely : single.Timely s)
      (before : Reachable single single.timely s) :
      Reachable single single.timely (instance_ clk datum s) :=
    .chan () _ (fun _ => rfl) trivial (.chan () _ (fun _ => rfl) trivial (.keep _ timely before))
  have second : single.Timely (instance_ 2 8 (instance_ 0 7 single.initial)) := by decide +kernel
  exact .keep _ second (next (by decide +kernel) (next (by decide +kernel) .init))

theorem tagLaw_instances : instances.keep.consumed.length = 2 ∧ TagLaw single instances :=
  ⟨by decide +kernel, (tagLaw instances_reachable).1⟩

/-- The channel and the LSE take the token of the first instance. -/
def firstInstance : KeepState Unit Unit Empty :=
  tagPair.getChan () (lastToken 0) (tagPair.getKeep { e := { clk := 0 }, data := [7] } tagPair.initial)

/-- The LSE has sent two tags for the first instance, so the second datum leaves before the LSE
has seen its token. -/
theorem datum_leaves_early : ∃ s, Reachable tagPair {} s ∧ ¬ TagLaw tagPair s := by
  let served := tagPair.getLse () (lastToken 0) firstInstance
  let second := tagPair.getKeep { e := { clk := 1 }, data := [8] } served
  let left := tagPair.getKeep { e := { clk := 2 } } (tagPair.getChan () (lastToken 1) second)
  refine ⟨left, ?_, fun law => ?_⟩
  · exact .keep _ trivial (.chan () _ (fun _ => rfl) trivial (.keep _ trivial
      (.lse () _ (fun _ => rfl) trivial (.chan () _ (fun _ => rfl) trivial
        (.keep _ trivial .init)))))
  · have popped : left.keep.consumed.length = 2 := by decide +kernel
    have finished : tagPair.finished left (.lse ()) ≤ 1 := by decide +kernel
    have stays := law.stays (.lse ())
    omega

end KeepGroup

end DataflowSim.Execution
