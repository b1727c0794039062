import DataflowSim.Execution.Flow

/-!
# Two runs of one network

The same network runs twice, with the same calls at the same clocks. In the second run all enables
are on. Then the second run is never behind: it has consumed, offered, formed and received at
least as much as the first one, and its data are not later.
-/

namespace DataflowSim.Execution

/-! ## One channel -/

namespace Chan

variable {c : ChanConfig} {e : Clock} {up up' : Nat → Upstream} {sendable sendable' : Bool}
  {data data' : Option Int} {x x' y y' : Chan} {clk : Nat}

/-- How long after its push a datum may be used. -/
def delay (c : ChanConfig) (d : Data) : Nat := if c.branchMode && !d.cond then 0 else c.cycle

/-- The second channel is not behind the first one. -/
structure Behind (c : ChanConfig) (clk : Nat) (x x' : Chan) : Prop where
  currId : x.currId = x'.currId
  consumed : x.consumed.length ≤ x'.consumed.length
  offered : x.consumed.length + x.valid.toNat ≤ x'.consumed.length + x'.valid.toNat
  formed : x.consumed.length + x.channel.length ≤ x'.consumed.length + x'.channel.length
  received : ∀ i < c.arity, (x.received i).length ≤ (x'.received i).length
  stamps : ∀ i < c.arity, ∀ (k : Nat) (d d' : Data), (x.received i)[k]? = some d →
    (x'.received i)[k]? = some d' → d'.cycle ≤ d.cycle
  /-- What the first channel receives from now on is not earlier. -/
  recent : ∀ i < c.arity, ∀ d ∈ x'.received i, d.cycle ≤ clk + delay c d
  bp : ∀ i < c.arity, (x.received i).length = (x'.received i).length →
    x.bp i = false → x'.bp i = false

theorem pushData_cycle (keep : ∀ i, (up i).keepMode = false) (value : Int) (i : Nat) :
    (pushData c e up value i).cycle = e.clk + delay c (pushData c e up value i) := by
  simp only [pushData, keep, delay]
  split_ifs <;> simp_all

/-- A call puts at most one datum into a buffer, with the time of the call. -/
theorem Advance.stamped (a : Advance c e up sendable data x y)
    (keep : ∀ i, (up i).keepMode = false) {i : Nat} (lt : i < c.arity) :
    ∃ l, y.received i = x.received i ++ l ∧ l.length ≤ 1 ∧
      ∀ d ∈ l, d.cycle = e.clk + delay c d := by
  cases none : c.noUpstream with
  | true =>
    obtain rfl : i = 0 := by simpa [ChanConfig.arity, none] using lt
    refine ⟨_, a.fed none, ?_, ?_⟩ <;> split_ifs <;> cases data <;> simp [delay]
  | false =>
    refine ⟨_, a.received none i (by simpa [ChanConfig.arity, none] using lt), ?_, ?_⟩ <;>
      split_ifs <;> simp [pushData_cycle keep]

theorem Ready.earlier (h : Ready c e x)
    (consumed : x.consumed.length = x'.consumed.length)
    (received : ∀ i < c.arity, (x.received i).length ≤ (x'.received i).length)
    (stamps : ∀ i < c.arity, ∀ (k : Nat) (d d' : Data), (x.received i)[k]? = some d →
      (x'.received i)[k]? = some d' → d'.cycle ≤ d.cycle) : Ready c e x' := by
  intro i lt
  obtain ⟨d, at_k, due⟩ := h i lt
  have bound := (List.getElem?_eq_some_iff.mp at_k).1.trans_le (received i lt)
  rw [consumed] at bound at_k
  have at_k' := List.getElem?_eq_getElem bound
  exact ⟨_, at_k', (stamps i lt _ _ _ at_k at_k').trans due⟩

/-- A call of both channels at the same time keeps their order. -/
theorem Behind.advance (h : Behind c clk x x') (le : clk ≤ e.clk)
    (a : Advance c e up sendable data x y) (a' : Advance c e up' sendable' data' x' y')
    (keep : ∀ i, (up i).keepMode = false) (keep' : ∀ i, (up' i).keepMode = false)
    (sent : x'.valid = true → x'.channel ≠ []) (enable : x'.enable = true) (push : c.chanType = .Chan_DGSF → x'.pushBufferEnable = true)
    (send : x.consumed.length + x.valid.toNat = x'.consumed.length + x'.valid.toNat →
      sendable = true → sendable' = true)
    (received : ∀ i < c.arity, (y.received i).length ≤ (y'.received i).length)
    (agree : ∀ i < c.arity, ∀ (k : Nat) (d d' : Data), (y.received i)[k]? = some d →
      (y'.received i)[k]? = some d' → d.cond = d'.cond) : Behind c e.clk y y' := by
  have currId : y.currId = y'.currId := by rw [a.currId, a'.currId, h.currId]
  have consumed : y.consumed.length ≤ y'.consumed.length := by
    rw [a.consumed, a'.consumed]
    exact h.offered
  have recent (i : Nat) (lt : i < c.arity) (d : Data) (mem : d ∈ y'.received i) :
      d.cycle ≤ e.clk + delay c d := by
    obtain ⟨l, eq, -, stamped⟩ := a'.stamped keep' lt
    rw [eq] at mem
    obtain old | new := List.mem_append.mp mem
    · have := h.recent i lt d old
      omega
    · exact (stamped d new).le
  have stamps (i : Nat) (lt : i < c.arity) (k : Nat) (d d' : Data)
      (at_k : (y.received i)[k]? = some d) (at_k' : (y'.received i)[k]? = some d') :
      d'.cycle ≤ d.cycle := by
    obtain ⟨l, eq, -, stamped⟩ := a.stamped keep lt
    by_cases old : k < (x.received i).length
    · obtain ⟨l', eq', -⟩ := a'.stamped keep' lt
      rw [eq, List.getElem?_append_left old] at at_k
      rw [eq', List.getElem?_append_left (old.trans_le (h.received i lt))] at at_k'
      exact h.stamps i lt k d d' at_k at_k'
    · have late := recent i lt d' (List.mem_of_getElem? at_k')
      have cond := agree i lt k d d' at_k at_k'
      rw [eq, List.getElem?_append_right (by omega)] at at_k
      rw [stamped d (List.mem_of_getElem? at_k), delay, cond]
      exact late
  have counted := a.consumed
  have counted' := a'.consumed
  have formed : y.consumed.length + y.channel.length ≤ y'.consumed.length + y'.channel.length := by
    have before := h.formed
    by_cases forms : Awake c e y.currId ∧ Ready c e y ∧ x.channel.length = x.valid.toNat
    · have new := a.forms forms
      obtain ⟨awake, ready, left⟩ := forms
      obtain more | same := consumed.lt_or_eq
      · omega
      · -- the second channel has the operands too, so it forms its element or holds it already
        by_cases left' : x'.channel.length = x'.valid.toNat
        · have new' := a'.forms ⟨currId ▸ awake, ready.earlier same received stamps, left'⟩
          omega
        · have held : x'.valid.toNat ≤ x'.channel.length := by
            cases valid : x'.valid with
            | false => exact Nat.zero_le _
            | true => exact List.length_pos_iff.mpr (sent valid)
          have kept := a'.waits fun forms' => left' forms'.2.2
          omega
    · have kept := a.waits forms
      by_cases forms' : Awake c e y'.currId ∧ Ready c e y' ∧ x'.channel.length = x'.valid.toNat
      · have new' := a'.forms forms'
        omega
      · have kept' := a'.waits forms'
        omega
  refine ⟨currId, consumed, ?_, formed, received, stamps, recent, fun i lt same free => ?_⟩
  · cases valid : y.valid with
    | false => exact (Nat.add_zero _).trans_le (consumed.trans (Nat.le_add_right ..))
    | true =>
      obtain more | same := consumed.lt_or_eq
      · rw [Bool.toNat_true]
        omega
      · obtain ⟨awake, some, -, sends⟩ := a.valid.mp valid
        have some' : y'.channel ≠ [] := by
          have := List.length_pos_iff.mpr some
          exact List.length_pos_iff.mp (by omega)
        have sends' : (c.noDownstream || sendable') = true := by
          rw [Bool.or_eq_true] at sends ⊢
          exact sends.imp_right (send (by omega))
        rw [a'.valid.mpr ⟨currId ▸ awake, some', enable, sends'⟩, same]
  · have room := (a.bp i lt).mp free
    refine (a'.bp i lt).mpr ⟨fun off => ?_, by omega⟩
    simp [push off.1] at off

theorem Behind.later (h : Behind c clk x x') {clk' : Nat} (le : clk ≤ clk') :
    Behind c clk' x x' where
  currId := h.currId
  consumed := h.consumed
  offered := h.offered
  formed := h.formed
  received := h.received
  stamps := h.stamps
  recent i lt d mem := (h.recent i lt d mem).trans (Nat.add_le_add_right le _)
  bp := h.bp

end Chan

/-! ## The network -/

namespace CalmNet

variable {V : Type*} [DecidableEq V] {net : CalmNet V} {s t : NetState V} {v u w : V} {i k : Nat}

omit [DecidableEq V] in
/-- Without their time stamps the data of two runs without loss are the same. -/
theorem Flow.agree (flow : Flow net s) (flow' : Flow net t) (lt : i < (net.cfg v).arity)
    {d d' : Data} (at_k : ((s.chan v).received i)[k]? = some d)
    (at_k' : ((t.chan v).received i)[k]? = some d') : d.value = d'.value ∧ d.cond = d'.cond := by
  induction rank : net.rank v using Nat.strong_induction_on generalizing v i d d' with
  | _ n ih =>
    by_cases source : net.upstream v = []
    · have none := (net.noUpstream v).mpr source
      obtain rfl : i = 0 := by simpa [ChanConfig.arity, none] using lt
      have input := flow.fed v source k d at_k
      rw [flow'.fed v source k d' at_k'] at input
      refine ⟨(Option.some.inj input).symm, ?_⟩
      rw [(flow.sound v).source none d (List.mem_of_getElem? at_k),
        (flow'.sound v).source none d' (List.mem_of_getElem? at_k')]
    · rw [Net.arity_eq source] at lt
      obtain ⟨u, at_i⟩ : ∃ u, (net.upstream v)[i]? = some u := ⟨_, List.getElem?_eq_getElem lt⟩
      have less := net.acyclic v u (List.mem_of_getElem? at_i)
      have same (j : Nat) (j_lt : j < (net.cfg u).arity) :
          (column s u k j).value = (column t u k j).value ∧
            (column s u k j).cond = (column t u k j).cond := by
        have there := flow.known at_i (List.getElem?_eq_some_iff.mp at_k).1 j_lt
        have there' := flow'.known at_i (List.getElem?_eq_some_iff.mp at_k').1 j_lt
        rw [column, column, List.getElem?_eq_getElem there, List.getElem?_eq_getElem there']
        exact ih _ (rank ▸ less) j_lt (List.getElem?_eq_getElem there)
          (List.getElem?_eq_getElem there') rfl
      have made : net.element u (column s u k) = net.element u (column t u k) :=
        element_congr (fun j lt => (same j lt).1) fun j lt => (same j lt).2
      obtain ⟨value, cond⟩ := flow.delivered v i u at_i k d at_k
      obtain ⟨value', cond'⟩ := flow'.delivered v i u at_i k d' at_k'
      rw [value, cond, value', cond', made]
      exact ⟨rfl, rfl⟩

/-- All enables are on. -/
structure AlwaysOn (net : CalmNet V) (t : NetState V) : Prop where
  enable : ∀ v, (t.chan v).enable = true
  push : ∀ v, (net.cfg v).chanType = .Chan_DGSF → (t.chan v).pushBufferEnable = true

omit [DecidableEq V] in
theorem AlwaysOn.safe (on : AlwaysOn net t) : Safe net t :=
  fun v _ dgsf off => by simp [on.push v dgsf] at off

theorem AlwaysOn.call (on : AlwaysOn net t) (flow : Flow net t) (e : Clock) (feed : Bool) :
    AlwaysOn net (net.call e feed t) := by
  cases todo : t.rounds.todo with
  | nil =>
    have same : (net.call e feed t).chan = t.chan := Net.call_idle e feed todo
    exact ⟨by rw [same]; exact on.enable, by rw [same]; exact on.push⟩
  | cons v rest =>
    obtain ⟨advance, -⟩ := flow.advance on.safe todo e feed
    refine ⟨fun w => ?_, fun w dgsf => ?_⟩ <;> by_cases eq : w = v
    · subst eq
      rw [call_here net todo, advance.enable, on.enable]
    · rw [call_other net todo e feed eq, on.enable]
    · subst eq
      rw [call_here net todo, advance.pushBufferEnable, on.push w dgsf]
    · rw [call_other net todo e feed eq, on.push w dgsf]

/-- The second run is not behind the first one. -/
structure Lead (net : CalmNet V) (clk : Nat) (s t : NetState V) : Prop where
  rounds : s.rounds = t.rounds
  behind : ∀ v, Chan.Behind (net.cfg v) clk (s.chan v) (t.chan v)

/-- Where both runs have offered as much, the downstreams have got as much. -/
theorem Lead.sendable {clk : Nat} (lead : Lead net clk s t) (flow : Flow net s) (flow' : Flow net t)
    (fair : s.rounds.Fair net.order) {rest : List V} (todo : s.rounds.todo = v :: rest)
    (same : (s.chan v).consumed.length + (s.chan v).valid.toNat =
      (t.chan v).consumed.length + (t.chan v).valid.toNat)
    (send : net.sendable s v = true) : net.sendable t v = true := by
  simp only [Net.sendable, List.all_eq_true, Bool.not_eq_true'] at send ⊢
  intro w mem
  have reads : v ∈ net.upstream w := by simpa using (List.mem_filter.mp mem).2
  have at_i := List.getElem?_idxOf reads
  have lt := (List.getElem?_eq_some_iff.mp at_i).1
  have last := (fair.ahead todo (net.mem_order w) (ne_of_upstream at_i).symm).2
  have count := flow.count w _ v at_i
  have count' := flow'.count w _ v at_i
  rw [last, Bool.not_false, Bool.and_true] at count
  rw [← lead.rounds, last, Bool.not_false, Bool.and_true, ← same] at count'
  refine (lead.behind w).bp _ ?_ (count.trans count'.symm) (send w mem)
  rwa [Net.arity_eq (List.ne_nil_of_mem reads)]

/-- A call never receives more in the first run. -/
theorem Lead.received {clk : Nat} (lead : Lead net clk s t) (flow : Flow net s) (flow' : Flow net t)
    (fair : s.rounds.Fair net.order) (safe : Safe net s) (safe' : Safe net t) {rest : List V}
    (todo : s.rounds.todo = v :: rest) (e : Clock) (feed : Bool) (lt : i < (net.cfg v).arity) :
    ((net.get e feed s v).1.received i).length ≤ ((net.get e feed t v).1.received i).length := by
  have todo' : t.rounds.todo = v :: rest := lead.rounds ▸ todo
  have fair' : t.rounds.Fair net.order := lead.rounds ▸ fair
  have behind := lead.behind v
  obtain ⟨a, -⟩ := flow.advance safe todo e feed
  obtain ⟨a', -⟩ := flow'.advance safe' todo' e feed
  by_cases source : net.upstream v = []
  · have none := (net.noUpstream v).mpr source
    obtain rfl : i = 0 := by simpa [ChanConfig.arity, none] using lt
    have bounded := flow.bounded v source
    have counted := a.consumed
    have consumed := behind.offered
    have counted' := a'.consumed
    obtain more | same := (behind.received 0 lt).lt_or_eq
    · obtain ⟨l, eq, one, -⟩ := a.stamped (upstreams_keepMode s v) lt
      obtain ⟨l', eq', -⟩ := a'.stamped (upstreams_keepMode t v) lt
      rw [eq, eq', List.length_append, List.length_append]
      omega
    · have offer : offer net s feed v = offer net t feed v := by
        simp only [CalmNet.offer, same]
      rw [a.fed none, a'.fed none, offer, List.length_append, List.length_append, same]
      refine Nat.add_le_add_left ?_ _
      split_ifs
      · exact le_rfl
      · omega
      · exact Nat.zero_le _
      · exact le_rfl
  · obtain ⟨u, at_i⟩ : ∃ u, (net.upstream v)[i]? = some u :=
      ⟨_, List.getElem?_eq_getElem (Net.arity_eq source ▸ lt)⟩
    rw [flow.count_here safe todo e feed fair at_i, flow'.count_here safe' todo' e feed fair' at_i]
    split_ifs
    · exact le_rfl
    · exact (lead.behind u).offered

theorem Lead.call {clk : Nat} (lead : Lead net clk s t) (flow : Flow net s) (flow' : Flow net t)
    (fair : s.rounds.Fair net.order) (safe : Safe net s) (on : AlwaysOn net t) {e : Clock}
    (le : clk ≤ e.clk) (feed : Bool) :
    Lead net e.clk (net.call e feed s) (net.call e feed t) := by
  have fair' : t.rounds.Fair net.order := lead.rounds ▸ fair
  refine ⟨congrArg (Rounds.next net.order) lead.rounds, fun w => ?_⟩
  cases todo : s.rounds.todo with
  | nil =>
    have todo' : t.rounds.todo = [] := lead.rounds ▸ todo
    rw [Net.call_idle e feed todo, Net.call_idle e feed todo']
    exact (lead.behind w).later le
  | cons v rest =>
    have todo' : t.rounds.todo = v :: rest := lead.rounds ▸ todo
    by_cases eq : w = v
    · subst eq
      have here := call_here net todo e feed
      have here' := call_here net todo' e feed
      have after := flow.call fair safe e feed
      have after' := flow'.call fair' on.safe e feed
      have received (i : Nat) (lt : i < (net.cfg w).arity) :=
        lead.received flow flow' fair safe on.safe todo e feed lt
      have agree (i : Nat) (lt : i < (net.cfg w).arity) (k : Nat) (d d' : Data)
          (at_k : (((net.call e feed s).chan w).received i)[k]? = some d)
          (at_k' : (((net.call e feed t).chan w).received i)[k]? = some d') : d.cond = d'.cond :=
        (after.agree after' lt at_k at_k').2
      rw [here, here'] at agree ⊢
      exact (lead.behind w).advance le (flow.advance safe todo e feed).1
        (flow'.advance on.safe todo' e feed).1 (upstreams_keepMode s w) (upstreams_keepMode t w)
        (flow'.sent w) (on.enable w) (on.push w) (lead.sendable flow flow' fair todo) received agree
    · rw [call_other net todo e feed eq, call_other net todo' e feed eq]
      exact (lead.behind w).later le

omit [DecidableEq V] in
/-- Whatever the enables of the first run are, it is not ahead. -/
theorem Lead.reconfigured {clk : Nat} (lead : Lead net clk s t) (enable push : V → Bool)
    (count : V → Nat) : Lead net clk { s with chan := fun v => { s.chan v with
      enable := enable v, pushBufferEnable := push v, chanDataCnt := count v } } t where
  rounds := lead.rounds
  behind v :=
    have h := lead.behind v
    ⟨h.currId, h.consumed, h.offered, h.formed, h.received, h.stamps, h.recent, h.bp⟩

omit [DecidableEq V] in
theorem Lead.start {clk : Nat} (rounds : s.rounds = t.rounds) {enable enable' push push' : V → Bool}
    (empty : ∀ v, s.chan v = { enable := enable v, pushBufferEnable := push v })
    (empty' : ∀ v, t.chan v = { enable := enable' v, pushBufferEnable := push' v }) :
    Lead net clk s t := by
  refine ⟨rounds, fun v => ?_⟩
  rw [empty, empty']
  exact ⟨rfl, le_rfl, le_rfl, le_rfl, fun _ _ => le_rfl, by simp, by simp, fun _ _ _ _ => rfl⟩

omit [DecidableEq V] in
/-- What the first run has consumed the second one has consumed, in the same order. -/
theorem Lead.consumed {clk : Nat} (lead : Lead net clk s t) (flow : Flow net s)
    (flow' : Flow net t) (v : V) : (s.chan v).consumed.map (·.map Data.untimed) <+:
      (t.chan v).consumed.map (·.map Data.untimed) := by
  rw [List.prefix_iff_getElem?]
  intro k lt
  rw [List.length_map] at lt
  have sound := flow.sound v
  have sound' := flow'.sound v
  have lt' := lt.trans_le (lead.behind v).consumed
  rw [List.getElem?_map, List.getElem_map, List.getElem?_eq_getElem lt', Option.map_some,
    sound.tracked.joined k _ (List.getElem?_eq_getElem lt),
    sound'.tracked.joined k _ (List.getElem?_eq_getElem lt'), List.map_map, List.map_map]
  refine congrArg some (List.map_congr_left fun i mem => ?_)
  have arity := List.mem_range.mp mem
  have at_k := List.getElem?_eq_getElem (lt.trans_le (sound.tracked.bound i arity))
  have at_k' := List.getElem?_eq_getElem (lt'.trans_le (sound'.tracked.bound i arity))
  obtain ⟨value, cond⟩ := flow.agree flow' arity at_k at_k'
  simp only [Function.comp_apply, at_k, at_k', Option.getD_some]
  exact ((sound.bare i _ (List.mem_of_getElem? at_k)).ext
    (sound'.bare i _ (List.mem_of_getElem? at_k')) value cond).symm

end CalmNet

end DataflowSim.Execution
