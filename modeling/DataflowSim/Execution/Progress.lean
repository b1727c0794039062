import DataflowSim.Execution.Lockstep
import DataflowSim.Library.Dataflow

/-!
# Progress

A network whose enables are on never gets stuck: if the clock goes on and every channel is awake
again and again, all the data that the sources are fed with pass through all channels, however
small the buffers, whatever the delays and the order of the calls. What a channel consumes is what
a graph of operators says, in which there are neither clocks nor buffers.
-/

namespace DataflowSim.Execution

open Filter

/-- A counter that is never set back. -/
theorem eventually_of_reached {f : Nat → Nat} (mono : Monotone f) {k n : Nat} (reached : k ≤ f n) :
    ∀ᶠ m in atTop, k ≤ f m :=
  (eventually_ge_atTop n).mono fun _ later => reached.trans (mono later)

namespace Chan

variable {c : ChanConfig} {e : Clock} {up : Nat → Upstream} {sendable : Bool} {data : Option Int}
  {x y : Chan}

/-- What is due at a position stays there. -/
theorem Advance.due_or_more (a : Advance c e up sendable data x y)
    (sent : x.valid = true → x.channel ≠ []) (awake : Awake c e y.currId) (enable : x.enable = true)
    (send : (c.noDownstream || sendable) = true) (ready : Ready c e y) :
    x.consumed.length + x.valid.toNat + 1 ≤ y.consumed.length + y.valid.toNat := by
  have consumed := a.consumed
  have held : x.valid.toNat ≤ x.channel.length := by
    cases valid : x.valid with
    | false => exact Nat.zero_le _
    | true => exact List.length_pos_iff.mpr (sent valid)
  have some : y.channel ≠ [] := by
    refine List.length_pos_iff.mp ?_
    by_cases left : x.channel.length = x.valid.toNat
    · have := a.forms ⟨awake, ready, left⟩
      omega
    · have := a.waits fun all => left all.2.2
      omega
  rw [a.valid.mpr ⟨awake, some, enable, send⟩, consumed, Bool.toNat_true]

end Chan

namespace CalmNet

variable {V : Type*} [DecidableEq V] (net : CalmNet V)

/-- The state after some calls. -/
def after (e : Nat → Clock) (feed : Nat → Bool) (s : NetState V) : Nat → NetState V
  | 0 => s
  | n + 1 => net.call (e n) (feed n) (after e feed s n)

/-- Which channel is called in the n-th call. -/
def turnOf (n : Nat) : Option V := net.order[n % net.order.length]?

/-- The clock goes on, and again and again a channel is called when it is awake, and a source when
it is fed. -/
structure Schedule (e : Nat → Clock) (feed : Nat → Bool) : Prop where
  clk : Tendsto (fun n => (e n).clk) atTop atTop
  awake : ∀ v, ∃ᶠ n in atTop, net.turnOf n = some v ∧ (e n).clkAdd = true
  fed : ∀ v, net.upstream v = [] → ∃ᶠ n in atTop, net.turnOf n = some v ∧ feed n = true

/-- What holds in a run with all enables on. -/
structure Live (s : NetState V) : Prop where
  flow : Flow net s
  fair : s.rounds.Fair net.order
  on : AlwaysOn net s
  thread : ∀ v, (net.cfg v).speedup ≤ 1 → (s.chan v).currId = 1
  /-- A flag is set for want of room only. -/
  room : ∀ w, ∀ i < (net.cfg w).arity,
    ((s.chan w).received i).length < (s.chan w).consumed.length + (net.cfg w).size →
      (s.chan w).bp i = false

variable {net} {e : Nat → Clock} {feed : Nat → Bool} {s : NetState V} {v u w : V} {i k : Nat}

theorem Live.call (live : Live net s) (e : Clock) (feed : Bool) : Live net (net.call e feed s) := by
  have fair : (net.call e feed s).rounds.Fair net.order := live.fair.next net.nodup
  refine ⟨live.flow.call live.fair live.on.safe e feed, fair, live.on.call live.flow e feed, ?_, ?_⟩
  · cases todo : s.rounds.todo with
    | nil =>
      have same : (net.call e feed s).chan = s.chan := Net.call_idle e feed todo
      rw [same]
      exact live.thread
    | cons v rest =>
      intro w slow
      by_cases here : w = v
      · subst here
        obtain ⟨advance, -⟩ := live.flow.advance live.on.safe todo e feed
        rw [call_here net todo, advance.currId, Chan.nextId, if_neg (by omega)]
        exact live.thread w slow
      · rw [call_other net todo e feed here]
        exact live.thread w slow
  · cases todo : s.rounds.todo with
    | nil =>
      have same : (net.call e feed s).chan = s.chan := Net.call_idle e feed todo
      rw [same]
      exact live.room
    | cons v rest =>
      intro w i lt
      by_cases here : w = v
      · subst here
        obtain ⟨advance, -⟩ := live.flow.advance live.on.safe todo e feed
        rw [call_here net todo]
        refine fun free => (advance.bp i lt).mpr ⟨fun off => ?_, free⟩
        simp [live.on.push w off.1] at off
      · rw [call_other net todo e feed here]
        exact live.room w i lt

/-- All enables are on, and nothing was called. -/
structure Started (net : CalmNet V) (s : NetState V) : Prop where
  rounds : s.rounds = { todo := net.order }
  empty : ∀ v, s.chan v = { enable := true, pushBufferEnable := (s.chan v).pushBufferEnable }
  push : ∀ v, (net.cfg v).chanType = .Chan_DGSF → (s.chan v).pushBufferEnable = true

omit [DecidableEq V] in
theorem Started.live (started : Started net s) : Live net s where
  flow := .start started.empty
  fair := started.rounds ▸ .start _
  on := ⟨fun v => by rw [started.empty], started.push⟩
  thread v _ := by rw [started.empty]
  room v i _ _ := by rw [started.empty]

variable (e feed) in
theorem Live.run (live : Live net s) (n : Nat) : Live net (net.after e feed s n) := by
  induction n with
  | zero => exact live
  | succ n ih => exact ih.call (e n) (feed n)

/-- The second state has at least what the first one has. -/
structure Grown (net : CalmNet V) (s t : NetState V) : Prop where
  consumed : ∀ w, (s.chan w).consumed.length ≤ (t.chan w).consumed.length
  offered : ∀ w, (s.chan w).consumed.length + (s.chan w).valid.toNat ≤
    (t.chan w).consumed.length + (t.chan w).valid.toNat
  received : ∀ w, ∀ i < (net.cfg w).arity, (s.chan w).received i <+: (t.chan w).received i

omit [DecidableEq V] in
theorem Grown.refl (s : NetState V) : Grown net s s :=
  ⟨fun _ => le_rfl, fun _ => le_rfl, fun _ _ _ => List.prefix_rfl⟩

omit [DecidableEq V] in
theorem Grown.trans {t r : NetState V} (h : Grown net s t) (h' : Grown net t r) : Grown net s r :=
  ⟨fun w => (h.consumed w).trans (h'.consumed w), fun w => (h.offered w).trans (h'.offered w),
    fun w i lt => (h.received w i lt).trans (h'.received w i lt)⟩

theorem Live.grown_call (live : Live net s) (e : Clock) (feed : Bool) :
    Grown net s (net.call e feed s) := by
  cases todo : s.rounds.todo with
  | nil =>
    have same : (net.call e feed s).chan = s.chan := Net.call_idle e feed todo
    refine ⟨?_, ?_, ?_⟩ <;> rw [same]
    · exact fun _ => le_rfl
    · exact fun _ => le_rfl
    · exact fun _ _ _ => List.prefix_rfl
  | cons v rest =>
    obtain ⟨advance, -⟩ := live.flow.advance live.on.safe todo e feed
    have here := call_here net todo e feed
    have consumed := advance.consumed
    refine ⟨fun w => ?_, fun w => ?_, fun w i lt => ?_⟩ <;> by_cases eq : w = v
    · subst eq
      rw [here]
      omega
    · rw [call_other net todo e feed eq]
    · subst eq
      rw [here]
      omega
    · rw [call_other net todo e feed eq]
    · subst eq
      obtain ⟨l, grown, -⟩ := advance.stamped (upstreams_keepMode s w) lt
      rw [here, grown]
      exact List.prefix_append ..
    · rw [call_other net todo e feed eq]

variable (e feed) in
theorem Live.grown (live : Live net s) {m n : Nat} (le : m ≤ n) :
    Grown net (net.after e feed s m) (net.after e feed s n) := by
  induction le with
  | refl => exact .refl _
  | step _ ih => exact ih.trans ((live.run e feed _).grown_call ..)

/-! ## One channel -/

variable (net e feed) in
theorem rounds_after (s : NetState V) (n : Nat) :
    (net.after e feed s n).rounds = (Rounds.next net.order)^[n] s.rounds := by
  induction n with
  | zero => rfl
  | succ n ih =>
    rw [Function.iterate_succ_apply', ← ih]
    rfl

variable (e feed) in
theorem todo_after (rounds : s.rounds = { todo := net.order }) {n : Nat}
    (turn : net.turnOf n = some v) :
    (net.after e feed s n).rounds.todo = v :: net.order.drop (n % net.order.length + 1) := by
  obtain ⟨lt, eq⟩ := List.getElem?_eq_some_iff.mp turn
  have some : net.order ≠ [] := List.ne_nil_of_length_pos (by omega)
  rw [rounds_after, rounds, Rounds.todo_iterate some, List.drop_eq_getElem_cons lt, eq]

/-- A channel whose downstreams have consumed what they have got may send. -/
theorem Live.sendable (live : Live net s) (stores : ∀ w, (net.cfg w).drainMode = false)
    (le : ∀ w, (s.chan v).consumed.length + (s.chan v).valid.toNat ≤ (s.chan w).consumed.length) :
    net.sendable s v = true := by
  simp only [Net.sendable, List.all_eq_true, Bool.not_eq_true']
  intro w mem
  have reads : v ∈ net.upstream w := by simpa using (List.mem_filter.mp mem).2
  have at_i := List.getElem?_idxOf reads
  have lt := (List.getElem?_eq_some_iff.mp at_i).1
  have count := live.flow.count w _ v at_i
  have offered : ((s.chan v).valid && !s.rounds.turn v w).toNat ≤ (s.chan v).valid.toNat := by
    cases (s.chan v).valid <;> simp [Bool.toNat_le]
  have size := net.size_pos w
  have behind := le w
  rw [stores, if_neg Bool.false_ne_true] at count
  exact live.room w _ (Net.arity_eq (List.ne_nil_of_mem reads) ▸ lt) (by omega)

/-- A source that has consumed all before it takes the next datum. -/
theorem Live.fed_source (live : Live net s) (rounds : s.rounds = { todo := net.order })
    (schedule : Schedule net e feed) (source : net.upstream v = [])
    (input : (net.input v k).isSome) (behind : ∀ᶠ n in atTop,
      k ≤ ((net.after e feed s n).chan v).consumed.length) :
    ∀ᶠ n in atTop, k < (((net.after e feed s n).chan v).received 0).length := by
  have none := (net.noUpstream v).mpr source
  have one : 0 < (net.cfg v).arity := by simp [ChanConfig.arity, none]
  have mono : Monotone fun n => (((net.after e feed s n).chan v).received 0).length :=
    fun m n le => ((live.grown e feed le).received v 0 one).length_le
  obtain ⟨n, ⟨turn, feeds⟩, consumed⟩ := ((schedule.fed v source).and_eventually behind).exists
  have now := live.run e feed n
  have todo := todo_after e feed rounds turn
  obtain ⟨advance, -⟩ := now.flow.advance now.on.safe todo (e n) (feed n)
  have reached : k + 1 ≤ (((net.after e feed s (n + 1)).chan v).received 0).length := by
    rw [after, call_here net todo, advance.fed none, List.length_append]
    by_cases old : k < (((net.after e feed s n).chan v).received 0).length
    · omega
    · have bound := (now.flow.sound v).tracked.bound 0 one
      have counted := advance.consumed
      have size := net.size_pos v
      have position : (((net.after e feed s n).chan v).received 0).length = k := by omega
      obtain ⟨value, input⟩ := Option.isSome_iff_exists.mp input
      rw [if_pos (by omega)]
      simp [offer, feeds, position, input]
  exact eventually_of_reached mono reached

/-- With the clock a channel wakes up. -/
theorem Live.awake (live : Live net s) {rest : List V} (todo : s.rounds.todo = v :: rest)
    (speedup : 1 ≤ (net.cfg v).speedup) {e : Clock} (adds : e.clkAdd = true) (feed : Bool) :
    Chan.Awake (net.cfg v) e (net.get e feed s v).1.currId := by
  obtain ⟨advance, -⟩ := live.flow.advance live.on.safe todo e feed
  refine .inl ?_
  simp only [advance.currId, Chan.nextId, adds, if_true]
  split_ifs with fast
  · exact speedup
  · exact (live.thread v (by omega)).trans_le speedup

section Step

variable (live : Live net s) (rounds : s.rounds = { todo := net.order })
  (schedule : Schedule net e feed) (stores : ∀ w, (net.cfg w).drainMode = false)
  (speedup : ∀ w, 1 ≤ (net.cfg w).speedup) (behind : ∀ᶠ n in atTop, ∀ w,
    k ≤ ((net.after e feed s n).chan w).consumed.length)
  (operands : ∀ᶠ n in atTop, ∀ i < (net.cfg v).arity,
    k < (((net.after e feed s n).chan v).received i).length)

include live rounds schedule stores speedup behind operands

/-- A channel that has its operands, and whose neighbours are not behind, offers one more. -/
theorem Live.offers_more : ∀ᶠ n in atTop, k + 1 ≤
    ((net.after e feed s n).chan v).consumed.length +
      ((net.after e feed s n).chan v).valid.toNat := by
  have mono : Monotone fun n => ((net.after e feed s n).chan v).consumed.length +
      ((net.after e feed s n).chan v).valid.toNat :=
    fun m n le => (live.grown e feed le).offered v
  obtain ⟨N, from_N⟩ := eventually_atTop.mp (behind.and operands)
  have there (i : Nat) (lt : i < (net.cfg v).arity) :=
    List.getElem?_eq_getElem ((from_N N le_rfl).2 i lt)
  have due : ∀ᶠ n in atTop, ∀ i ∈ Finset.range (net.cfg v).arity,
      ((((net.after e feed s N).chan v).received i)[k]?.getD {}).cycle ≤ (e n).clk :=
    (Finset.eventually_all _).mpr fun i _ => schedule.clk.eventually_ge_atTop _
  obtain ⟨n, ⟨turn, adds⟩, due, late⟩ :=
    ((schedule.awake v).and_eventually (due.and (eventually_ge_atTop N))).exists
  have now := live.run e feed n
  have consumed := (from_N n late).1
  by_cases already : k + 1 ≤ ((net.after e feed s n).chan v).consumed.length +
      ((net.after e feed s n).chan v).valid.toNat
  · exact eventually_of_reached mono already
  have todo := todo_after e feed rounds turn
  have same := call_here net todo (e n) (feed n)
  obtain ⟨advance, -⟩ := now.flow.advance now.on.safe todo (e n) (feed n)
  have position : (net.get (e n) (feed n) (net.after e feed s n) v).1.consumed.length = k := by
    have counted := advance.consumed
    have here := consumed v
    omega
  have ready : Chan.Ready (net.cfg v) (e n) (net.get (e n) (feed n) (net.after e feed s n) v).1 := by
    intro i lt
    obtain ⟨l, grown⟩ := (live.grown e feed (show N ≤ n + 1 by omega)).received v i lt
    rw [after, same] at grown
    refine ⟨_, ?_, (there i lt ▸ due i (Finset.mem_range.mpr lt) :)⟩
    rw [← grown, position, List.getElem?_append_left ((from_N N le_rfl).2 i lt), there i lt]
    rfl
  have send := now.sendable (v := v) stores fun w => by
    have := consumed w
    omega
  have more := advance.due_or_more (now.flow.sent v) (now.awake todo (speedup v) adds (feed n))
    (now.on.enable v) (by simp [send]) ready
  have reached : k + 1 ≤ ((net.after e feed s (n + 1)).chan v).consumed.length +
      ((net.after e feed s (n + 1)).chan v).valid.toNat := by
    have counted := advance.consumed
    rw [after, same]
    omega
  exact eventually_of_reached mono reached

/-- What is offered is consumed in the next call. -/
theorem Live.one_more :
    ∀ᶠ n in atTop, k + 1 ≤ ((net.after e feed s n).chan v).consumed.length := by
  have mono : Monotone fun n => ((net.after e feed s n).chan v).consumed.length :=
    fun m n le => (live.grown e feed le).consumed v
  have offered := live.offers_more rounds schedule stores speedup behind operands
  obtain ⟨n, ⟨turn, -⟩, offered⟩ := ((schedule.awake v).and_eventually offered).exists
  have now := live.run e feed n
  have todo := todo_after e feed rounds turn
  obtain ⟨advance, -⟩ := now.flow.advance now.on.safe todo (e n) (feed n)
  have reached : k + 1 ≤ ((net.after e feed s (n + 1)).chan v).consumed.length := by
    rw [after, call_here net todo, advance.consumed]
    exact offered
  exact eventually_of_reached mono reached

end Step

/-! ## The network -/

/-- By induction on the position, and for each position on the rank of the channel. -/
theorem Started.progress (started : Started net s)
    (schedule : Schedule net e feed) (stores : ∀ w, (net.cfg w).drainMode = false)
    (speedup : ∀ w, 1 ≤ (net.cfg w).speedup) {K : Nat}
    (fed : ∀ v, net.upstream v = [] → ∀ k < K, (net.input v k).isSome) :
    ∀ᶠ n in atTop, ∀ v, K ≤ ((net.after e feed s n).chan v).consumed.length := by
  have live := started.live
  have rounds := started.rounds
  have := Fintype.ofList net.order net.mem_order
  induction K with
  | zero => exact .of_forall fun _ _ => Nat.zero_le _
  | succ k ih =>
    have behind := ih fun v source j lt => fed v source j (by omega)
    refine eventually_all.mpr fun v => ?_
    induction rank : net.rank v using Nat.strong_induction_on generalizing v with
    | _ r above =>
      refine live.one_more rounds schedule stores speedup behind ?_
      by_cases source : net.upstream v = []
      · have here := live.fed_source rounds schedule source (fed v source k (by omega))
          (behind.mono fun n all => all v)
        refine here.mono fun n reached i lt => ?_
        obtain rfl : i = 0 := by
          simpa [ChanConfig.arity, (net.noUpstream v).mpr source] using lt
        exact reached
      · have upstream : ∀ᶠ n in atTop, ∀ u ∈ (net.upstream v).toFinset,
            k + 1 ≤ ((net.after e feed s n).chan u).consumed.length :=
          (Finset.eventually_all _).mpr fun u mem =>
            above _ (rank ▸ net.acyclic v u (List.mem_toFinset.mp mem)) u rfl
        refine upstream.mono fun n all i lt => ?_
        rw [Net.arity_eq source] at lt
        have at_i := List.getElem?_eq_getElem lt
        have count := (live.run e feed n).flow.count v i _ at_i
        have consumed := all _ (List.mem_toFinset.mpr (List.mem_of_getElem? at_i))
        rw [stores, if_neg Bool.false_ne_true] at count
        omega

/-! ## The meaning of a network -/

variable (net) in
/-- What a channel stores of the elements that its upstreams emit. -/
def stored (v : V) (l : List (Int × Bool)) : List (Int × Bool) :=
  if (net.upstream v).isEmpty then l
  else (net.upstream v).zipWith (fun u a => (a.1, net.admitted u v a)) l

variable (net) in
/-- What a channel emits for one datum of each buffer. -/
def emit (v : V) (l : List (Int × Bool)) : Int × Bool :=
  (net.op v (l.map Prod.fst), (l[net.condBuffer v]?.getD (0, true)).2)

variable (net) in
/-- What the network computes; types, sizes, delays, speedups and the order of the calls are no part
of it. -/
def graph : Dataflow V (Int × Bool) where
  upstream := net.upstream
  op v l := net.emit v (net.stored v l)
  input v k := (net.input v k).map (·, true)
  rank := net.rank
  acyclic := net.acyclic

variable (net) in
/-- The data at one position of the buffers, as the graph sees them. -/
def row (s : NetState V) (v : V) (k : Nat) : List (Int × Bool) :=
  (List.range (net.cfg v).arity).map fun i => ((column s v k i).value, (column s v k i).cond)

omit [DecidableEq V] in
theorem emit_row (v : V) (k : Nat) : net.emit v (net.row s v k) = net.element v (column s v k) := by
  have lt : net.condBuffer v < (net.cfg v).arity := condBuffer_lt v
  simp only [emit, element, row, List.map_map, Function.comp_def, List.getElem?_map,
    List.getElem?_range lt, Option.map_some, Option.getD_some]

omit [DecidableEq V] in
/-- By induction on the rank of a channel: what it has at one position is what it stores of the
elements that its upstreams emit at that position. -/
theorem Flow.stored_row (flow : Flow net s)
    (there : ∀ i < (net.cfg v).arity, k < ((s.chan v).received i).length) :
    (net.graph.operands v k).map (net.stored v) = some (net.row s v k) := by
  induction rank : net.rank v using Nat.strong_induction_on generalizing v with
  | _ r ih =>
    by_cases source : net.upstream v = []
    · have none := (net.noUpstream v).mpr source
      have one : (net.cfg v).arity = 1 := by simp [ChanConfig.arity, none]
      have at_k := List.getElem?_eq_getElem (there 0 (by omega))
      have value := flow.fed v source k _ at_k
      have cond := (flow.sound v).source none _ (List.mem_of_getElem? at_k)
      rw [Dataflow.operands_source source]
      simp [graph, value, stored, source, row, one, column, at_k, cond]
    · have emitted (i : Nat) (lt : i < (net.upstream v).length) :
          net.graph.stream (net.upstream v)[i] k =
            some (net.element (net.upstream v)[i] (column s (net.upstream v)[i] k)) := by
        have at_i := List.getElem?_eq_getElem lt
        have less := net.acyclic v _ (List.mem_of_getElem? at_i)
        have known := ih _ (rank ▸ less) (fun j => flow.known at_i (there i (Net.arity_eq source ▸ lt)))
          rfl
        rw [Dataflow.stream, ← emit_row, ← Option.map_some, ← known, Option.map_map]
        rfl
      have joined : net.graph.operands v k =
          some ((net.upstream v).map fun u => net.element u (column s u k)) := by
        rw [Dataflow.operands_join source, Dataflow.mapM_eq_some, List.map_map]
        refine List.map_congr_left fun u mem => ?_
        obtain ⟨i, lt, rfl⟩ := List.getElem_of_mem mem
        exact emitted i lt
      rw [joined, Option.map_some, row, Net.arity_eq source]
      refine congrArg some (List.ext_getElem ?_ fun i lt lt' => ?_)
      · simp [stored, source]
      · have at_i : i < (net.upstream v).length := by simpa using lt'
        have there := there i (Net.arity_eq source ▸ at_i)
        have known := flow.delivered v i _ (List.getElem?_eq_getElem at_i) k _
          (List.getElem?_eq_getElem there)
        simp [stored, source, column, List.getElem?_eq_getElem there, known]

omit [DecidableEq V] in
/-- What a channel has consumed together is what the graph says. -/
theorem Flow.consumed_row (flow : Flow net s) {operands : List Data}
    (there : (s.chan v).consumed[k]? = some operands) :
    (net.graph.operands v k).map (net.stored v) =
      some (operands.map fun d => (d.value, d.cond)) := by
  have tracked := (flow.sound v).tracked
  have lt := (List.getElem?_eq_some_iff.mp there).1
  rw [flow.stored_row fun i arity => lt.trans_le (tracked.bound i arity), tracked.joined k _ there,
    List.map_map]
  rfl

/-- What the sources are fed with, each channel will have joined as the graph says. -/
theorem joined_eventually (started : Started net s) (schedule : Schedule net e feed)
    (stores : ∀ w, (net.cfg w).drainMode = false) (speedup : ∀ w, 1 ≤ (net.cfg w).speedup) {K : Nat}
    (fed : ∀ v, net.upstream v = [] → ∀ k < K, (net.input v k).isSome) :
    ∀ᶠ n in atTop, ∀ v, ∀ k < K, ∃ operands,
      ((net.after e feed s n).chan v).consumed[k]? = some operands ∧
        (net.graph.operands v k).map (net.stored v) =
          some (operands.map fun d => (d.value, d.cond)) := by
  refine (started.progress schedule stores speedup fed).mono fun n all v k lt => ?_
  have there := List.getElem?_eq_getElem (lt.trans_le (all v))
  exact ⟨_, there, (started.live.run e feed n).flow.consumed_row there⟩

/-- The runs in which no channel is called that may not store what it is offered. The enables may
change between any two calls. -/
inductive SafeRun (net : CalmNet V) : NetState V → Prop
  | start {t : NetState V} (rounds : t.rounds = { todo := net.order }) (empty : ∀ v, t.chan v =
      { enable := (t.chan v).enable, pushBufferEnable := (t.chan v).pushBufferEnable }) :
      SafeRun net t
  | call {t : NetState V} (e : Clock) (feed : Bool) (safe : Safe net t) :
      SafeRun net t → SafeRun net (net.call e feed t)
  | reconfigured {t : NetState V} (enable push : V → Bool) (count : V → Nat) :
      SafeRun net t → SafeRun net { t with chan := fun v => { t.chan v with
        enable := enable v, pushBufferEnable := push v, chanDataCnt := count v } }

theorem SafeRun.flow (run : SafeRun net s) : Flow net s ∧ s.rounds.Fair net.order := by
  induction run with
  | start rounds empty => exact ⟨.start empty, rounds ▸ .start _⟩
  | call e feed safe _ ih => exact ⟨ih.1.call ih.2 safe e feed, ih.2.next net.nodup⟩
  | reconfigured enable push count _ ih => exact ⟨ih.1.reconfigured enable push count, ih.2⟩

/-- One iteration for each clock. -/
theorem steady (some : net.order ≠ []) :
    Schedule net (fun n => { clk := n / net.order.length }) fun _ => true := by
  have pos := List.length_pos_iff.mpr some
  have turns (v : V) : ∃ᶠ n in atTop, net.turnOf n = v := by
    refine frequently_atTop.mpr fun a => ⟨net.order.length * a + net.order.idxOf v, ?_, ?_⟩
    · have := Nat.le_mul_of_pos_left a pos
      omega
    · have mem := net.mem_order v
      rw [turnOf, Nat.mul_add_mod, Nat.mod_eq_of_lt (List.idxOf_lt_length_of_mem mem),
        List.getElem?_idxOf mem]
  refine ⟨Nat.tendsto_div_const_atTop pos.ne', fun v => ?_, fun v _ => ?_⟩
  · exact (turns v).mono fun n turn => ⟨turn, rfl⟩
  · exact (turns v).mono fun n turn => ⟨turn, rfl⟩

theorem branched_upstream_nodup (v : Fin 3) :
    (if v = 2 then [1, 0] else if v = 1 then [0] else [] : List (Fin 3)).Nodup := by
  revert v
  decide

local instance branched_neZero : NeZero (2 + 1) := ⟨by decide⟩

theorem branched_nodup : ([2, 0, 1] : List (Fin 3)).Nodup := by decide

theorem branched_mem_order (v : Fin 3) : v ∈ ([2, 0, 1] : List (Fin 3)) := by
  revert v
  decide

/-- A source, a condition that is made of it, and a branch that is taken when it is met. -/
def branched : CalmNet (Fin 3) where
  order := [2, 0, 1]
  cfg v := if v = 2 then
      { size := 1, cycle := 3, chanType := .Chan_DGSF, upNum := 2, branchMode := true, noDownstream := true }
    else if v = 1 then { size := 1, upNum := 1, isCond := true }
    else { size := 1, upNum := 0, noUpstream := true }
  upstream v := if v = 2 then [1, 0] else if v = 1 then [0] else []
  op v operands := if v = 1 then (if operands.sum < 2 then 1 else 0) else operands.sum
  input _ k := some k
  nodup := branched_nodup
  mem_order := branched_mem_order
  upstream_nodup := branched_upstream_nodup
  upNum := by decide
  noUpstream := by decide
  noDownstream := by decide
  size_pos := by decide
  rank := Fin.val
  acyclic := by decide
  calm v := by
    split_ifs with branch
    · exact ⟨rfl, .inr ⟨rfl, rfl⟩⟩
    · exact ⟨rfl, .inl rfl⟩
    · exact ⟨rfl, .inl rfl⟩

/-- All enables are on. -/
def begun : NetState (Fin 3) where
  chan _ := { pushBufferEnable := true }
  rounds := { todo := branched.order }

theorem begun_started : Started branched begun := ⟨rfl, fun _ => rfl, fun _ _ => rfl⟩

theorem branched_plain (v : Fin 3) :
    (branched.cfg v).drainMode = false ∧ 1 ≤ (branched.cfg v).speedup := by
  revert v
  decide

theorem joined_eventually_branched : ∀ᶠ n in atTop, ∀ v, ∀ k < 5, ∃ operands,
    ((branched.after (fun n => { clk := n / 3 }) (fun _ => true) begun n).chan v).consumed[k]? =
        some operands ∧
      (branched.graph.operands v k).map (branched.stored v) =
        some (operands.map fun d => (d.value, d.cond)) :=
  joined_eventually begun_started (steady (List.cons_ne_nil _ _)) (fun w => (branched_plain w).1)
    (fun w => (branched_plain w).2) fun _ _ _ _ => rfl

example : (branched.graph.operands 2 1).map (branched.stored 2) = some [(1, true), (1, true)] ∧
    (branched.graph.operands 2 2).map (branched.stored 2) = some [(0, false), (2, true)] := by
  decide +kernel

end CalmNet

end DataflowSim.Execution
