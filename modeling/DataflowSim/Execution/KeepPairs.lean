import DataflowSim.Execution.LastTag

/-!
# Copies and tokens

A channel beside a channel in keep mode pairs the tokens of the inner loop with copies of the
datum. Nothing in `pushBuffer` compares the copies with the tokens of the instance: a copy comes
with every token that is offered, or to an empty buffer, and the datum leaves when the last token
has come. The pairs are right as long as a copy is only taken for a token that waits for one and
belongs to the datum.
-/

namespace DataflowSim.Execution.KeepGroup

variable {V W U : Type*} [DecidableEq V] [DecidableEq W] [DecidableEq U] (g : KeepGroup V W U)

/-- The operands of the data of the channel in keep mode: those that were popped, and the one that
it holds. -/
def data (s : KeepState V W U) : List (List Data) :=
  s.keep.consumed ++ if s.keep.channel.isEmpty then [] else [Chan.fronts g.keep s.keep]

/-- The value of the datum for an instance. -/
def kept (s : KeepState V W U) (instance_ : Nat) : Option Int :=
  (g.data s)[instance_]?.map fun operands => g.op (operands.map (·.value))

/-- The tokens that a channel has popped. -/
def popped (s : KeepState V W U) (v : V) : List Data :=
  (s.chan v).consumed.map fun operands => operands.getD (other (g.keepAt (.chan v))) {}

/-- The copies and tokens of a channel. -/
structure Paired (s : KeepState V W U) (v : V) : Prop where
  /-- A token is popped with the datum of its own instance. -/
  pairs : ∀ (k : Nat) (operands : List Data), (s.chan v).consumed[k]? = some operands →
    g.kept s (lasts ((g.popped s v).take k)) =
      some (operands.getD (g.keepAt (.chan v)) {}).value
  /-- When the last token of an instance was popped, no copy of its datum is in the buffer. -/
  left : ∀ j ∈ (s.copied v).drop (s.chan v).consumed.length, lasts (g.popped s v) ≤ j

/-- The channel when a call comes to its pushes. -/
def arriving (v : V) (i : Around) (s : KeepState V W U) : Chan :=
  Chan.pop (g.chan v) i.downstream (Chan.parallelize (g.chan v) i.e (s.chan v))

/-- What the channel takes in a call fits: a copy is taken when the last tags of this channel that
the channel in keep mode holds are those of tokens that wait for a copy, and with a last token
there are not more copies than tokens. -/
def Fits (v : V) (i : Around) (s : KeepState V W U) : Prop :=
  let keepAt := g.keepAt (.chan v)
  let up := g.upstreams s (.chan v) i.up
  let x := g.arriving v i s
  let copies := Chan.copies (g.chan v) i.e up x keepAt
  let tokens := Chan.tokens (g.chan v) i.e up x keepAt
  let waiting := (x.chanBuffer (other keepAt) ++ tokens).drop (x.chanBuffer keepAt).length
  (copies ≠ [] → s.keep.lastTagQueue (g.moduleId (.chan v)) + lasts tokens = lasts waiting) ∧
    (0 < lasts tokens → (x.chanBuffer keepAt).length + copies.length ≤
      (x.chanBuffer (other keepAt)).length + 1)

instance (v : V) (i : Around) (s : KeepState V W U) : Decidable (g.Fits v i s) :=
  inferInstanceAs (Decidable (_ ∧ _))

/-! ## The channel in keep mode -/

/-- What holds of the channel in keep mode between two calls. -/
structure Holding (x : Chan) : Prop where
  tracked : Chan.Tracked g.keep x
  sent : x.valid = true → x.channel ≠ []
  value : x.valid = true → x.value = g.op ((Chan.fronts g.keep x).map (·.value))

variable {g} {s t : KeepState V W U}

omit [DecidableEq V] [DecidableEq W] [DecidableEq U] in
/-- Tags and enables do not matter for it. -/
theorem Holding.congr {x y : Chan} (h : Holding g x)
    (eq : y = { x with
      lastTagQueue := y.lastTagQueue, enable := y.enable, pushBufferEnable := y.pushBufferEnable }) :
    Holding g y := by
  rw [eq]
  exact ⟨h.tracked.congr rfl rfl rfl rfl, h.sent, h.value⟩

omit [DecidableEq V] [DecidableEq W] [DecidableEq U] in
theorem Holding.getKeep (h : Holding g s.keep) (i : Around) : Holding g (g.getKeep i s).keep := by
  obtain ⟨tracked, sent⟩ := h.tracked.get i.e i.up h.sent (g.downstream.map g.moduleId) i.sendable
    i.data
  refine ⟨tracked.congr rfl rfl rfl rfl, sent, fun valid => congrArg g.op ?_⟩
  have held := tracked.held (sent valid)
  rw [operands, Chan.fronts, List.map_map]
  refine List.map_congr_left fun j mem => ?_
  obtain ⟨d, l, eq⟩ := List.exists_cons_of_ne_nil (held j (List.mem_range.mp mem))
  simp [KeepGroup.getKeep, Chan.assign, eq]

omit [DecidableEq V] [DecidableEq W] [DecidableEq U] in
/-- The data keep their positions. -/
theorem Holding.data_prefix (h : Holding g s.keep) (i : Around) :
    g.data s <+: g.data (g.getKeep i s) := by
  have consumed : (g.getKeep i s).keep.consumed = _ := (Chan.get_popped (c := g.keep) i.e i.up
    (g.downstream.map g.moduleId) i.sendable i.data s.keep).1
  obtain ⟨ready, popped, -⟩ | ⟨-, n, stays⟩ :=
    Chan.pop_cases (c := g.keep) i.e (g.downstream.map g.moduleId) s.keep
  · have some := h.sent (Bool.and_eq_true_iff.mp ready).1
    have eq : g.data s = (g.getKeep i s).keep.consumed := by
      rw [consumed, popped]
      simp [data, some]
    rw [eq]
    exact List.prefix_append _ _
  · have kept : (g.getKeep i s).keep.consumed = s.keep.consumed := by rw [consumed, stays]
    by_cases none : s.keep.channel = []
    · have eq : g.data s = (g.getKeep i s).keep.consumed := by simp [data, none, kept]
      rw [eq]
      exact List.prefix_append _ _
    · obtain ⟨channel, fronts⟩ := Chan.get_holds h.tracked none i.e i.up (g.downstream.map g.moduleId)
        i.sendable i.data stays
      have channel : (g.getKeep i s).keep.channel ≠ [] := channel
      have fronts : Chan.fronts g.keep (g.getKeep i s).keep = Chan.fronts g.keep s.keep := fronts
      simp [data, none, channel, fronts, kept]

omit [DecidableEq V] [DecidableEq W] [DecidableEq U] in
theorem kept_of_prefix (le : g.data s <+: g.data t) {j : Nat} {value : Int}
    (before : g.kept s j = some value) : g.kept t j = some value := by
  obtain ⟨operands, at_j, eq⟩ := Option.map_eq_some_iff.mp before
  obtain ⟨l, grown⟩ := le
  rw [kept, ← grown, List.getElem?_append_left (List.getElem?_eq_some_iff.mp at_j).1, at_j]
  simpa using eq

/-! ## The channels -/

/-- What holds of a channel between two calls. -/
structure Pairing (g : KeepGroup V W U) (s : KeepState V W U) (v : V) : Prop where
  length : (s.copied v).length = ((s.chan v).received (g.keepAt (.chan v))).length
  /-- A copy is of the datum of the instance that its place in the stream belongs to. -/
  position : ∀ (m j : Nat), (s.copied v)[m]? = some j →
    j = lasts (((s.chan v).received (other (g.keepAt (.chan v)))).take m)
  value : ∀ (m j : Nat) (d : Data), (s.copied v)[m]? = some j →
    ((s.chan v).received (g.keepAt (.chan v)))[m]? = some d → g.kept s j = some d.value

omit [DecidableEq V] [DecidableEq W] [DecidableEq U] in
theorem Pairing.paired {v : V} (h : Pairing g s v) (streams : Streams g s) : Paired g s v := by
  have tracked := streams.tracked v
  have popped_eq : g.popped s v =
      ((s.chan v).received (other (g.keepAt (.chan v)))).take (s.chan v).consumed.length :=
    tracked.popped_eq ((g.chan_joining v).arity ▸ other_lt _)
  refine ⟨fun k operands at_k => ?_, fun j mem => ?_⟩
  · have lt := (g.chan_joining v).arity ▸ (g.chan_joining v).lt
    have copy := tracked.received_joined lt at_k
    obtain ⟨j, at_j⟩ : ∃ j, (s.copied v)[k]? = some j :=
      ⟨_, List.getElem?_eq_getElem (h.length ▸ (List.getElem?_eq_some_iff.mp copy).1)⟩
    have within := (List.getElem?_eq_some_iff.mp at_k).1
    rw [popped_eq, List.take_take, Nat.min_eq_left within.le, ← h.position k j at_j]
    exact h.value k j _ at_j copy
  · obtain ⟨m, lt, at_m⟩ := List.mem_iff_getElem.mp mem
    rw [List.getElem_drop] at at_m
    rw [popped_eq, h.position _ j (List.getElem?_eq_some_iff.mpr ⟨_, at_m⟩)]
    exact lasts_take_le (Nat.le_add_right _ _) _

omit [DecidableEq V] [DecidableEq W] [DecidableEq U] in
/-- Nothing is pushed into the channel, and the data keep their positions. -/
theorem Pairing.congr {v : V} (h : Pairing g s v)
    (received : (t.chan v).received = (s.chan v).received) (copied : t.copied v = s.copied v)
    (le : g.data s <+: g.data t) : Pairing g t v where
  length := by rw [copied, received, h.length]
  position m j at_m := by
    rw [received]
    exact h.position m j (copied ▸ at_m)
  value m j d at_m at_d :=
    kept_of_prefix le (h.value m j d (copied ▸ at_m) (received ▸ at_d))

/-- The tokens behind a position of the stream are those that wait for the copies behind it. -/
theorem waiting_eq {c : ChanConfig} {x : Chan} (tracked : Chan.Tracked c x) {i j : Nat}
    (lt : i < c.arity) (lt' : j < c.arity) (tokens : List Data) :
    (x.chanBuffer j ++ tokens).drop (x.chanBuffer i).length =
      (x.received j ++ tokens).drop (x.received i).length := by
  have bound := tracked.bound i lt
  rw [tracked.buffer i lt, tracked.buffer j lt', ← List.drop_append_of_le_length (tracked.bound j lt'),
    List.drop_drop, List.length_drop]
  congr 1
  omega

/-- What a call of the channel adds to its streams and to the positions of its copies. -/
structure Grown (g : KeepGroup V W U) (v : V) (i : Around) (s t : KeepState V W U)
    (copies tokens : List Data) : Prop where
  received : (t.chan v).received (g.keepAt (.chan v)) =
    (s.chan v).received (g.keepAt (.chan v)) ++ copies
  received_other : (t.chan v).received (other (g.keepAt (.chan v))) =
    (s.chan v).received (other (g.keepAt (.chan v))) ++ tokens
  copied : t.copied v = s.copied v ++ List.replicate copies.length s.keep.consumed.length
  copy : copies = [] ∨ ∃ d, copies = [d] ∧ d.value = s.keep.value ∧ s.keep.valid = true
  fits : g.Fits v i s → (copies ≠ [] → s.keep.lastTagQueue (g.moduleId (.chan v)) + lasts tokens =
      lasts (((t.chan v).received (other (g.keepAt (.chan v)))).drop
        ((s.chan v).received (g.keepAt (.chan v))).length)) ∧
    (0 < lasts tokens → ((s.chan v).received (g.keepAt (.chan v))).length + copies.length ≤
      ((s.chan v).received (other (g.keepAt (.chan v)))).length + 1)

theorem Streams.grown (h : Streams g s) (v : V) (i : Around)
    (plain : ∀ j, (i.up j).keepMode = false) :
    ∃ copies tokens, Grown g v i s (g.getChan v i s) copies tokens := by
  have joining := g.chan_joining v
  have joins := chan_joins (g := g) s v i plain
  have chan : (g.getChan v i s).chan v = _ := Function.update_self ..
  have received := joins.received
  have received_other := joins.received_other
  rw [Chan.pop_received, ← chan] at received received_other
  refine ⟨_, _, received, received_other, ?_, ?_, fun fits => ?_⟩
  · show Function.update s.copied v (s.copied v ++ _) v = _
    rw [Function.update_self, ← chan, received, List.length_append, Nat.add_sub_cancel_left]
  · unfold Chan.copies
    split_ifs with taken
    · have sees := upstreams_keep (g := g) s (.chan v) i.up
      have offers : (g.upstreams s (.chan v) i.up (g.keepAt (.chan v))).valid = true := by
        have accepts := (Bool.and_eq_true_iff.mp taken.1).1
        simp only [Chan.checkUpstream, joining.noUpstream] at accepts
        grind
      exact .inr ⟨_, rfl, by rw [sees]; rfl, by rw [sees] at offers; exact offers⟩
    · exact .inl rfl
  · have tracked := (h.tracked v).pop i.e (h.sent v) i.downstream
    have lt := joining.arity ▸ joining.lt
    have lt' := joining.arity ▸ other_lt (g.keepAt (.chan v))
    obtain ⟨waits, room⟩ := fits
    have waiting := waiting_eq tracked lt lt'
    have at_keep := congrArg List.length (tracked.buffer _ lt)
    have at_other := congrArg List.length (tracked.buffer _ lt')
    have bound := tracked.bound _ lt
    have bound' := tracked.bound _ lt'
    rw [Chan.pop_received, List.length_drop] at at_keep at_other
    rw [Chan.pop_received] at bound bound'
    refine ⟨fun some => ?_, fun some => ?_⟩
    · have waits := waits some
      simp only [arriving, waiting, Chan.pop_received] at waits
      rw [received_other]
      exact waits
    · have room := room some
      simp only [arriving, at_keep, at_other] at room
      omega

/-- A call of the channel. -/
theorem Pairing.getChan {v : V} (h : Pairing g s v) (counted : Counted g s)
    (streams : Streams g s) (holding : Holding g s.keep) (i : Around) (plain : ∀ j, (i.up j).keepMode = false)
    (fits : g.Fits v i s) : Pairing g (g.getChan v i s) v := by
  obtain ⟨copies, tokens, grown⟩ := streams.grown v i plain
  obtain ⟨waits, room⟩ := grown.fits fits
  have data : g.data (g.getChan v i s) = g.data s := rfl
  -- a position is an old one, or the one of the copy that was taken
  have places (m j : Nat) (at_m : ((g.getChan v i s).copied v)[m]? = some j) :
      (s.copied v)[m]? = some j ∨ m = (s.copied v).length ∧ j = s.keep.consumed.length ∧
        ∃ d, copies = [d] ∧ d.value = s.keep.value ∧ s.keep.valid = true := by
    rw [grown.copied] at at_m
    obtain lt | ge := Nat.lt_or_ge m (s.copied v).length
    · exact .inl (by rwa [List.getElem?_append_left lt] at at_m)
    · rw [List.getElem?_append_right ge] at at_m
      obtain none | ⟨d, one, value⟩ := grown.copy
      · simp [none] at at_m
      · rw [one, List.length_singleton, List.replicate_one, List.getElem?_singleton] at at_m
        split_ifs at at_m with zero
        exact .inr ⟨by omega, by simpa using at_m.symm, d, one, value⟩
  refine ⟨?_, fun m j at_m => ?_, fun m j d at_m at_d => ?_⟩
  · simp [grown.copied, grown.received, h.length]
  · rw [grown.received_other]
    obtain old | ⟨rfl, rfl, d, one, -⟩ := places m j at_m
    · rw [h.position m j old]
      have lt := (List.getElem?_eq_some_iff.mp old).1
      rw [h.length] at lt
      obtain gt | le := Nat.lt_or_ge ((s.chan v).received (other (g.keepAt (.chan v)))).length m
      · -- no last token comes between the stream and this copy
        have none : lasts tokens = 0 := by
          by_contra some
          have := room (by omega)
          omega
        have few := lasts_take_le (Nat.le_max_left
          (m - ((s.chan v).received (other (g.keepAt (.chan v)))).length) tokens.length) tokens
        rw [List.take_of_length_le (Nat.le_max_right ..), none] at few
        rw [List.take_append, lasts_append]
        omega
      · rw [List.take_append_of_le_length le]
    · have waits := waits (by simp [one])
      have queue := counted.queue (.chan v)
      have sent := counted.sent (.chan v)
      simp only [ended, extra, Nat.add_zero] at sent
      have all := lasts_append
        ((((s.chan v).received (other (g.keepAt (.chan v)))) ++ tokens).take (s.copied v).length)
        ((((s.chan v).received (other (g.keepAt (.chan v)))) ++ tokens).drop (s.copied v).length)
      rw [List.take_append_drop, lasts_append] at all
      rw [grown.received_other, ← h.length] at waits
      omega
  · rw [kept, data, ← kept]
    rw [grown.received] at at_d
    obtain old | ⟨rfl, rfl, d', one, value, valid⟩ := places m j at_m
    · have lt := (List.getElem?_eq_some_iff.mp old).1
      rw [List.getElem?_append_left (h.length ▸ lt)] at at_d
      exact h.value m j d old at_d
    · rw [List.getElem?_append_right h.length.ge, h.length, Nat.sub_self, one] at at_d
      obtain rfl : d' = d := by simpa using at_d
      have some := holding.sent valid
      simp [kept, KeepGroup.data, some, value, holding.value valid]

structure Inv (g : KeepGroup V W U) (s : KeepState V W U) : Prop where
  holding : Holding g s.keep
  pairing : ∀ v, Pairing g s v

omit [DecidableEq V] [DecidableEq W] [DecidableEq U] in
/-- A step that pushes nothing into the channels, and changes only the tags and the enables of the
channel in keep mode. -/
theorem Inv.same (inv : Inv g s) (received : ∀ v, (t.chan v).received = (s.chan v).received)
    (copied : t.copied = s.copied) (keep : t.keep = { s.keep with
      lastTagQueue := t.keep.lastTagQueue, enable := t.keep.enable,
      pushBufferEnable := t.keep.pushBufferEnable }) : Inv g t := by
  refine ⟨inv.holding.congr keep, fun v => ?_⟩
  have data : g.data t = g.data s := by
    simp only [data]
    rw [keep]
    rfl
  exact (inv.pairing v).congr (received v) (by rw [copied]) (data ▸ List.prefix_rfl)

omit [DecidableEq V] [DecidableEq W] [DecidableEq U] in
theorem Inv.initial : Inv g g.initial := by
  obtain ⟨b, b', keep⟩ := Chan.initial_eq g.keep
  refine ⟨⟨Chan.initial_tracked _, ?_, ?_⟩, fun v => ?_⟩
  · simp [KeepGroup.initial, keep]
  · simp [KeepGroup.initial, keep]
  · obtain ⟨b, b', chan⟩ := Chan.initial_eq (g.chan v)
    constructor <;> simp [KeepGroup.initial, chan]

/-- In every run in which the copies and tokens that a channel takes fit, they are paired. -/
theorem tokens_paired (reachable : Reachable g { chan := g.Fits } s) (v : V) : Paired g s v := by
  suffices inv : Inv g s from (inv.pairing v).paired reachable.streams
  induction reachable with
  | init => exact .initial
  | keep i _ before inv =>
    exact ⟨inv.holding.getKeep i,
      fun v => (inv.pairing v).congr rfl rfl (inv.holding.data_prefix i)⟩
  | @chan s u i plain fits before inv =>
    refine ⟨inv.holding.congr rfl, fun v => ?_⟩
    by_cases eq : v = u
    · exact eq ▸ (inv.pairing u).getChan before.counted before.streams inv.holding i plain fits
    · have chan : (g.getChan u i s).chan v = s.chan v := Function.update_of_ne eq ..
      have copied : (g.getChan u i s).copied v = s.copied v := Function.update_of_ne eq ..
      exact (inv.pairing v).congr (by rw [chan]) copied List.prefix_rfl
  | lse | loopVar | lcUpdate | configure | visit | ackCallback | editLse =>
    rename_i inv
    exact inv.same (fun _ => rfl) rfl rfl
  | @edit s u change before inv =>
    refine inv.same (fun v => ?_) rfl rfl
    by_cases eq : v = u
    · subst eq
      cases change <;> simp [Edit.apply]
    · simp [eq]

/-- An iteration of the channel in keep mode and of the channel it feeds. -/
def iterate (clk : Nat) (data : List Int) (i : Around) (s : KeepState Unit Empty Empty) :
    KeepState Unit Empty Empty :=
  single.getChan () { i with e := { clk := clk } } (single.getKeep { e := { clk := clk }, data := data } s)

/-- In each of two instances the datum and the only token come together. -/
def together : KeepState Unit Empty Empty :=
  let s := iterate 0 [7] (lastToken 0) single.initial
  let s := iterate 1 [] { e := { clk := 1 } } s
  let s := iterate 2 [8] (lastToken 2) s
  iterate 3 [] { e := { clk := 3 } } s

theorem together_reachable : Reachable single { chan := single.Fits } together := by
  have next {clk : Nat} {data : List Int} {i : Around} {s : KeepState Unit Empty Empty}
      (plain : ∀ j, (i.up j).keepMode = false)
      (fits : single.Fits () { i with e := { clk := clk } }
        (single.getKeep { e := { clk := clk }, data := data } s))
      (before : Reachable single { chan := single.Fits } s) :
      Reachable single { chan := single.Fits } (iterate clk data i s) :=
    .chan () _ plain fits (.keep _ trivial before)
  exact next (fun _ => rfl) (by decide +kernel) (next (fun _ => rfl) (by decide +kernel)
    (next (fun _ => rfl) (by decide +kernel) (next (fun _ => rfl) (by decide +kernel) .init)))

theorem tokens_paired_together : ((together.chan ()).consumed.map fun operands =>
    operands.map (·.value)) = [[7, 3], [8, 3]] ∧ Paired single together () :=
  ⟨by decide +kernel, tokens_paired together_reachable ()⟩

/-- The datum of the first of two instances comes before the token, and is copied twice; the token
of the second instance is popped with the second copy. -/
def ahead : KeepState Unit Empty Empty :=
  let s := iterate 0 [7] { e := { clk := 0 } } single.initial
  let s := iterate 1 [] (lastToken 1) s
  let s := iterate 2 [8] (lastToken 2) s
  iterate 3 [] { e := { clk := 3 } } s

theorem mispaired : ∃ s, Reachable single {} s ∧ ¬ Paired single s () := by
  refine ⟨ahead, ?_, fun paired => ?_⟩
  · have next {clk : Nat} {data : List Int} {i : Around} {s : KeepState Unit Empty Empty}
        (plain : ∀ j, (i.up j).keepMode = false) (before : Reachable single {} s) :
        Reachable single {} (iterate clk data i s) :=
      .chan () _ plain trivial (.keep _ trivial before)
    exact next (fun _ => rfl) (next (fun _ => rfl) (next (fun _ => rfl)
      (next (fun _ => rfl) .init)))
  · have second : (ahead.chan ()).consumed[1]?.map (fun operands => operands.map (·.value)) =
        some [7, 3] := by decide +kernel
    have datum : single.kept ahead (lasts ((single.popped ahead ()).take 1)) = some 8 := by
      decide +kernel
    obtain ⟨operands, at_one, values⟩ := Option.map_eq_some_iff.mp second
    have own := paired.pairs 1 operands at_one
    rw [datum] at own
    cases operands with
    | nil => simp at values
    | cons copy rest =>
      simp only [List.map_cons, List.cons.injEq] at values
      simp [single, values.1] at own

end DataflowSim.Execution.KeepGroup
