import DataflowSim.Execution.Network

/-!
# The capacity of channels

The back-pressure flag of a buffer keeps plain upstreams from sending to it when it is full. A
channel in keep mode does not look at the flag, so its copies are not bounded by it.
-/

namespace DataflowSim.Execution

/-! ## One push -/

namespace Chan

variable {c : ChanConfig} (up : Nat → Upstream)

/-- Why a datum is stored in a buffer. -/
structure Stores (c : ChanConfig) (x : Chan) (i : Nat) : Prop where
  accepted : checkUpstream c up x i = true
  source : c.noUpstream = true → (x.chanBuffer i).length ≠ c.size
  keep : c.noUpstream = false → i < c.upNum → (up i).keepMode = true →
    (x.chanBuffer i).length = 0 ∨ c.isLoopVar = false ∧ c.upNum = 2 ∧
      ((x.chanBuffer i).length < (x.chanBuffer ((i + 1) % 2)).length ∨
        (up ((i + 1) % 2)).valid = true)

theorem pushBuffer_cases (e : Clock) (x : Chan) (data : Int) (i : Nat)
    (accepted : checkUpstream c up x i = true) :
    (pushBuffer c e up x data i).1 = x ∨
      Stores up c x i ∧ ∃ d, (pushBuffer c e up x data i).1 = x.store i d := by
  unfold pushBuffer
  split_ifs with none keeps loop empty two plain
  · refine .inr ⟨⟨accepted, fun _ => ?_, by simp [none]⟩, _, rfl⟩
    simpa [checkUpstream, none] using accepted
  · refine .inr ⟨⟨accepted, by simp [none], fun _ lt keep => ?_⟩, _, rfl⟩
    simp only [hasUpstreamInKeepMode, Bool.not_eq_true', List.any_eq_false, List.mem_range] at keeps
    exact absurd keep (by simpa using keeps i lt)
  · refine .inr ⟨⟨accepted, by simp [none], fun _ _ _ => .inl ?_⟩, _, rfl⟩
    simpa using empty
  · exact .inl rfl
  · exact .inl rfl
  · refine .inr ⟨⟨accepted, by simp [none], fun _ _ keep => ?_⟩, _, rfl⟩
    simp [keep] at plain
  · have loop : c.isLoopVar = false := by simpa using loop
    have two : c.upNum = 2 := by simpa using two
    dsimp only
    split_ifs with room
    · refine .inr ⟨⟨accepted, by simp [none], fun _ _ _ => ?_⟩, _, rfl⟩
      obtain shorter | valid | empty := room
      · exact .inr ⟨loop, two, .inl shorter⟩
      · exact .inr ⟨loop, two, .inr valid⟩
      · exact .inl (by omega)
    · exact .inl rfl

/-- A push puts at most one datum into its buffer, and nothing into the others. -/
theorem push_cases (e : Clock) (x : Chan) (data : Int) (i : Nat) :
    (push c e up x data i).1.chanBuffer = x.chanBuffer ∨
      Stores up c x i ∧ ∃ d, (push c e up x data i).1.chanBuffer =
        Function.update x.chanBuffer i (x.chanBuffer i ++ [d]) := by
  have stored (accepted : checkUpstream c up x i = true) :
      (pushBuffer c e up x data i).1.chanBuffer = x.chanBuffer ∨
        Stores up c x i ∧ ∃ d, (pushBuffer c e up x data i).1.chanBuffer =
          Function.update x.chanBuffer i (x.chanBuffer i ++ [d]) := by
    obtain same | ⟨stores, d, eq⟩ := pushBuffer_cases up e x data i accepted
    · exact .inl (by rw [same])
    · exact .inr ⟨stores, d, by rw [eq]; rfl⟩
  unfold push
  split <;> split_ifs with ready
  · exact stored (by simp_all)
  · exact .inl rfl
  · exact stored ready
  · exact .inl rfl

/-- If every buffer that may get a datum has room for it, all of them keep to the size. -/
theorem pushAll_bounded (e : Clock) {x : Chan} {is : List Nat} (nodup : is.Nodup)
    (lt : ∀ i ∈ is, i < c.upNum) (has : c.noUpstream = false)
    (bounded : ∀ i < c.upNum, (x.chanBuffer i).length ≤ c.size) (pos : 1 ≤ c.size)
    (room : ∀ i ∈ is, checkUpstream c up x i = true →
      ((up i).keepMode = true → (up ((i + 1) % 2)).valid = true → c.upNum = 2 →
        c.isLoopVar = false → (x.chanBuffer i).length < c.size) ∧
      ((up i).keepMode = false → (x.chanBuffer i).length < c.size)) :
    ∀ i < c.upNum, ((pushAll c e up x (is.map fun i => ((up i).value, i))).1.chanBuffer i).length ≤
      c.size := by
  rw [pushAll_fst]
  induction is generalizing x with
  | nil => exact bounded
  | cons i is ih =>
    obtain ⟨fresh, nodup⟩ := List.nodup_cons.mp nodup
    rw [List.map_cons, List.foldl_cons]
    have i_lt := lt i (.head _)
    have other {j : Nat} (ne : j ≠ i) :
        (push c e up x (up i).value i).1.chanBuffer j = x.chanBuffer j := by
      obtain same | ⟨-, d, eq⟩ := push_cases up e x (up i).value i
      · rw [same]
      · rw [eq, Function.update_of_ne ne]
    refine ih nodup (fun j mem => lt j (.tail _ mem)) (fun j j_lt => ?_) fun j mem accepted => ?_
    · obtain same | ⟨stores, d, eq⟩ := push_cases up e x (up i).value i
      · rw [same]
        exact bounded j j_lt
      · by_cases here : j = i
        · subst here
          rw [eq, Function.update_self, List.length_append, List.length_singleton]
          obtain ⟨keep, plain⟩ := room j (.head _) stores.accepted
          cases mode : (up j).keepMode with
          | false => exact plain mode
          | true =>
            obtain none | ⟨loop, two, shorter | valid⟩ := stores.keep has i_lt mode
            · omega
            · have := bounded ((j + 1) % 2) (by rw [two]; exact Nat.mod_lt _ (by decide))
              omega
            · exact keep mode valid two loop
        · rw [other here]
          exact bounded j j_lt
    · have ne : j ≠ i := fun eq => fresh (eq ▸ mem)
      rw [other ne]
      exact room j (.tail _ mem) (by simpa [checkUpstream, has] using accepted)

/-- Nothing comes to a buffer whose upstream offers nothing. -/
theorem pushAll_skips (e : Clock) (x : Chan) (l : List (Int × Nat)) {i : Nat}
    (has : c.noUpstream = false) (quiet : checkUpstream c up x i = false) :
    (pushAll c e up x l).1.chanBuffer i = x.chanBuffer i := by
  rw [pushAll_fst]
  refine List.foldlRecOn (motive := fun (y : Chan) => y.chanBuffer i = x.chanBuffer i) _ _ rfl
    fun y same input _ => ?_
  obtain kept | ⟨stores, d, eq⟩ := push_cases up e y input.1 input.2
  · rw [kept, same]
  · have ne : i ≠ input.2 := by
      rintro rfl
      have accepted : checkUpstream c up x input.2 = true := by
        simpa [checkUpstream, has] using stores.accepted
      simp [accepted] at quiet
    rw [eq, Function.update_of_ne ne, same]

/-- A channel without upstreams looks at its buffer before it takes a datum. -/
theorem pushAll_source (e : Clock) {x : Chan} (none : c.noUpstream = true) (data : Option Int)
    (bounded : (x.chanBuffer 0).length ≤ c.size) :
    ((pushAll c e up x (inputs c up data.toList)).1.chanBuffer 0).length ≤ c.size := by
  rw [pushAll_fst]
  cases data with
  | none => simpa [inputs, none] using bounded
  | some value =>
    simp only [inputs, none, if_true, Option.toList_some, List.zipIdx_singleton, List.foldl_cons,
      List.foldl_nil]
    obtain same | ⟨stores, d, eq⟩ := push_cases up e x value 0
    · rwa [same]
    · have room := stores.source none
      rw [eq, Function.update_self, List.length_append, List.length_singleton]
      omega

theorem pop_length (e : Clock) (downstream : List Nat) (x : Chan) (i : Nat) :
    let p := pop c downstream (parallelize c e x)
    (p.chanBuffer i).length ≤ (x.chanBuffer i).length ∧
      ((x.valid && (!c.keepMode || popLastCheck c downstream x)) = true → i < c.arity →
        (p.chanBuffer i).length = (x.chanBuffer i).length - 1) := by
  obtain ⟨n, same⟩ := parallelize_eq (c := c) e x
  rw [same]
  by_cases ready : (x.valid && (!c.keepMode || popLastCheck c downstream x)) = true
  · have popped (j : Nat) : (pop c downstream { x with currId := n }).chanBuffer j =
        if j < c.arity then (x.chanBuffer j).tail else x.chanBuffer j :=
      congrFun (congrArg Chan.chanBuffer (if_pos ready)) j
    dsimp only
    rw [popped]
    split_ifs with lt <;> simp [lt]
  · have kept : pop c downstream { x with currId := n } = { x with currId := n } := if_neg ready
    simp [kept, ready]

/-- A channel offers its element when its downstreams can take it. -/
theorem get_sendable (e : Clock) (downstream : List Nat) (sendable : Bool) (data : List Int)
    (x : Chan) (valid : (get c e up downstream sendable data x).1.valid = true) :
    (c.noDownstream || c.keepMode || sendable) = true := by
  obtain ⟨u, updated, eq⟩ | ⟨success, eq⟩ := get_after e up downstream sendable data x
  · rw [eq] at valid
    have offered : u.valid = true := valid
    rw [updated.valid] at offered
    exact (Bool.and_eq_true_iff.mp offered).2
  · rw [eq] at valid
    cases valid

end Chan

/-! ## The network -/

namespace Net

section

variable {V : Type*} [DecidableEq V] (net : Net V)

/-- An element of the channel is popped in the next call of `get`. -/
def pops (s : NetState V) (v : V) : Bool :=
  (s.chan v).valid && (!(net.cfg v).keepMode ||
    Chan.popLastCheck (net.cfg v) ((net.downstream v).map net.moduleId) (s.chan v))

/-- When a copy of the datum of a channel in keep mode comes because the other upstream is valid,
its buffer has room for it. -/
def Room (s : NetState V) : Prop :=
  ∀ v ∈ s.rounds.todo.head?, (net.cfg v).upNum = 2 → (net.cfg v).isLoopVar = false → ∀ i < 2,
    (net.upstreams s v i).keepMode = true →
    Chan.checkUpstream (net.cfg v) (net.upstreams s v) (s.chan v) i = true →
    (net.upstreams s v ((i + 1) % 2)).valid = true →
    ((s.chan v).chanBuffer i).length < (net.cfg v).size ∨ net.pops s v = true

instance (s : NetState V) : Decidable (net.Room s) :=
  inferInstanceAs (Decidable (∀ v ∈ s.rounds.todo.head?, _))

/-- No buffer holds more than its size, and an element has its operands. -/
structure Within (s : NetState V) : Prop where
  bounded : ∀ v, ∀ i < (net.cfg v).arity, ((s.chan v).chanBuffer i).length ≤ (net.cfg v).size
  single : ∀ v, (s.chan v).channel.length ≤ 1
  held : ∀ v, (s.chan v).channel ≠ [] → ∀ i < (net.cfg v).arity, (s.chan v).chanBuffer i ≠ []

/-- What holds between two calls. -/
structure Inv (s : NetState V) : Prop where
  tracked : ∀ v, Chan.Tracked (net.cfg v) (s.chan v)
  sent : ∀ v, (s.chan v).valid = true → (s.chan v).channel ≠ []
  idle : ∀ v, s.rounds.called v = false → (s.chan v).valid = false
  bounded : ∀ v, ∀ i < (net.cfg v).arity, ((s.chan v).chanBuffer i).length ≤ (net.cfg v).size
  bp : ∀ v, ∀ i < (net.cfg v).arity, (s.chan v).bp i = false →
    ((s.chan v).chanBuffer i).length < (net.cfg v).size
  /-- A channel that is its own upstream never gets any data from itself. -/
  self : ∀ v i, (net.upstream v)[i]? = some v → (s.chan v).chanBuffer i = []
  /-- What a plain upstream offers was called for. -/
  due : ∀ v i u, (net.upstream v)[i]? = some u → (net.cfg u).keepMode = false →
    (s.chan u).valid = true → s.rounds.turn u v = true →
    ((s.chan v).chanBuffer i).length < (net.cfg v).size

variable {net} {s : NetState V}

/-- What a call makes of the called channel. -/
structure Called (net : Net V) (s : NetState V) (v : V) (y : Chan) : Prop where
  tracked : Chan.Tracked (net.cfg v) y
  sent : y.valid = true → y.channel ≠ []
  bounded : ∀ i < (net.cfg v).arity, (y.chanBuffer i).length ≤ (net.cfg v).size
  bp : ∀ i < (net.cfg v).arity, y.bp i = false → (y.chanBuffer i).length < (net.cfg v).size
  self : ∀ i, (net.upstream v)[i]? = some v → y.chanBuffer i = []
  sendable : y.valid = true → (net.cfg v).keepMode = false → (net.cfg v).noDownstream = false →
    net.sendable s v = true

theorem Inv.called (inv : Inv net s) (fair : s.rounds.Fair net.order) {v : V} {rest : List V}
    (todo : s.rounds.todo = v :: rest) (room : Room net s) (e : Clock) (feed : Bool) :
    Called net s v (net.get e feed s v).1 := by
  obtain ⟨tracked, sent⟩ := (inv.tracked v).get e (net.upstreams s v) (inv.sent v)
    ((net.downstream v).map net.moduleId) (net.sendable s v) (net.fed s feed v)
  obtain ⟨buffer, -, -, bp⟩ := Chan.get_buffers (c := net.cfg v) e (net.upstreams s v)
    ((net.downstream v).map net.moduleId) (net.sendable s v) (net.fed s feed v) (s.chan v)
  have popped := Chan.pop_length (c := net.cfg v) e ((net.downstream v).map net.moduleId)
    (s.chan v)
  have smaller (i : Nat) (lt : i < (net.cfg v).arity) :=
    ((popped i).1.trans (inv.bounded v i lt))
  -- the channel itself is none of the upstreams that offer something
  have quiet {i : Nat} (at_i : (net.upstream v)[i]? = some v) : (s.chan v).valid = false := by
    have lt := (List.getElem?_eq_some_iff.mp at_i).1
    by_contra valid
    have held := (inv.tracked v).held (inv.sent v (by simpa using valid)) i
      (by rwa [Net.arity_eq (List.ne_nil_of_length_pos (by omega))])
    exact held (inv.self v i at_i)
  refine ⟨tracked.congr rfl rfl rfl rfl, sent, fun i lt => ?_, bp, fun i at_i => ?_,
    fun valid keep down => ?_⟩
  · show (((Chan.get _ _ _ _ _ _ _).1).chanBuffer i).length ≤ _
    rw [buffer]
    by_cases source : net.upstream v = []
    · have none := (net.noUpstream v).mpr source
      have zero : i = 0 := by simpa [ChanConfig.arity, none] using lt
      have data : net.fed s feed v =
          (if feed then net.input v ((s.chan v).received 0).length else Option.none).toList := by
        simp only [Net.fed]
        split_ifs <;> rfl
      rw [zero, data]
      exact Chan.pushAll_source _ e none _ (zero ▸ smaller i lt)
    · have has : (net.cfg v).noUpstream = false := by
        simpa using (net.noUpstream v).not.mpr source
      have arity : (net.cfg v).arity = (net.cfg v).upNum := by simp [ChanConfig.arity, has]
      rw [arity] at smaller lt popped
      simp only [Chan.inputs, has, Bool.false_eq_true, if_false]
      refine Chan.pushAll_bounded _ e List.nodup_range (fun i mem => List.mem_range.mp mem) has
        smaller (net.size_pos v) (fun i mem accepted => ?_) i lt
      have lt := List.mem_range.mp mem
      obtain ⟨u, at_i⟩ : ∃ u, (net.upstream v)[i]? = some u :=
        ⟨_, List.getElem?_eq_getElem (net.upNum v ▸ lt)⟩
      have accepted : Chan.checkUpstream (net.cfg v) (net.upstreams s v) (s.chan v) i = true := by
        simpa [Chan.checkUpstream, has] using accepted
      refine ⟨fun keep valid two loop => ?_, fun plain => (popped i).1.trans_lt ?_⟩
      · obtain room | pops := room v (by simp [todo]) two loop i (two ▸ lt) keep accepted valid
        · exact (popped i).1.trans_lt room
        · rw [(popped i).2 pops lt]
          have bounded := inv.bounded v i (arity ▸ lt)
          have pos := net.size_pos v
          omega
      · have valid : (s.chan u).valid = true := by
          simp only [Chan.checkUpstream, has, Net.upstreams_some at_i, Bool.false_eq_true, if_false,
            Bool.and_eq_true] at accepted
          exact accepted.1
        have ne : u ≠ v := by
          rintro rfl
          simp [quiet at_i] at valid
        have turned := (fair.ahead todo (net.mem_order u) ne).1.resolve_right fun idle => by
          simp [inv.idle u idle] at valid
        rw [Net.upstreams_some at_i] at plain
        exact inv.due v i u at_i plain valid turned
  · show ((Chan.get _ _ _ _ _ _ _).1).chanBuffer i = _
    have lt := (List.getElem?_eq_some_iff.mp at_i).1
    have has : (net.cfg v).noUpstream = false := by
      simpa using (net.noUpstream v).not.mpr (List.ne_nil_of_length_pos (by omega))
    have refused : Chan.checkUpstream (net.cfg v) (net.upstreams s v)
        (Chan.pop (net.cfg v) ((net.downstream v).map net.moduleId)
          (Chan.parallelize (net.cfg v) e (s.chan v))) i = false := by
      rw [Chan.checkUpstream, has, Net.upstreams_some at_i]
      simp [Net.shown, quiet at_i]
    rw [buffer, Chan.pushAll_skips _ _ _ _ has refused]
    have none := (popped i).1
    rw [inv.self v i at_i] at none
    exact List.eq_nil_of_length_eq_zero (Nat.le_zero.mp none)
  · have sendable := Chan.get_sendable (net.upstreams s v) e _ _ _ _ valid
    simpa [keep, down] using sendable

theorem Outside.tagged (v : V) (tags : Nat) (u : V) (x : Chan) :
    Outside x (net.tagged v tags u x) := by
  unfold Net.tagged
  split_ifs <;> exact ⟨rfl, rfl, rfl, rfl, rfl, rfl⟩

omit [DecidableEq V] in
theorem Inv.initial : Inv net net.initial := by
  have start (v : V) : (net.initial.chan v).chanBuffer = (fun _ => []) ∧
      (net.initial.chan v).channel = [] ∧ (net.initial.chan v).consumed = [] ∧
      (net.initial.chan v).received = (fun _ => []) ∧ (net.initial.chan v).valid = false := by
    simp only [Net.initial, Chan.initial]
    split <;> exact ⟨rfl, rfl, rfl, rfl, rfl⟩
  refine ⟨fun v => ?_, fun v valid => ?_, fun v _ => (start v).2.2.2.2, fun v i _ => ?_,
    fun v i _ _ => ?_, fun v i _ => by rw [(start v).1], fun v i u _ _ valid => ?_⟩
  · obtain ⟨buffer, channel, consumed, received, -⟩ := start v
    exact ⟨by simp [buffer, received], by simp [consumed], by simp [channel], by simp [channel],
      by simp [consumed]⟩
  · simp [(start v).2.2.2.2] at valid
  · simp [(start v).1]
  · simpa [(start v).1] using Nat.lt_of_succ_le (net.size_pos v)
  · simp [(start u).2.2.2.2] at valid

omit [DecidableEq V] in
/-- What other parts of the program change is not in the invariant. -/
theorem Inv.same (inv : Inv net s) {s' : NetState V} (chan : ∀ v, Outside (s.chan v) (s'.chan v))
    (turn : s'.rounds.turn = s.rounds.turn) (called : s'.rounds.called = s.rounds.called) :
    Inv net s' where
  tracked v := (inv.tracked v).congr (chan v).chanBuffer (chan v).received (chan v).consumed
    (chan v).channel
  sent v valid none := by
    have length := (chan v).channel
    rw [none, List.length_nil, eq_comm, List.length_eq_zero_iff] at length
    exact inv.sent v ((chan v).valid ▸ valid) length
  idle v idle := (chan v).valid ▸ inv.idle v (called ▸ idle)
  bounded v i lt := (chan v).chanBuffer ▸ inv.bounded v i lt
  bp v i lt free := (chan v).chanBuffer ▸ inv.bp v i lt ((chan v).bp ▸ free)
  self v i at_i := (chan v).chanBuffer ▸ inv.self v i at_i
  due v i u at_i plain valid turned :=
    (chan v).chanBuffer ▸ inv.due v i u at_i plain ((chan u).valid ▸ valid) (turn ▸ turned)

/-- A channel that offers an element to a plain downstream found room in its buffer. -/
theorem Inv.offered (inv : Inv net s) {w v : V} {i : Nat} (at_i : (net.upstream w)[i]? = some v)
    (sendable : net.sendable s v = true) :
    ((s.chan w).chanBuffer i).length < (net.cfg w).size := by
  have lt := (List.getElem?_eq_some_iff.mp at_i).1
  refine inv.bp w i ?_ (bp_of_sendable sendable at_i)
  rwa [Net.arity_eq (List.ne_nil_of_mem (List.mem_of_getElem? at_i))]

theorem Inv.call (inv : Inv net s) (fair : s.rounds.Fair net.order) (room : Room net s)
    (e : Clock) (feed : Bool) : Inv net (net.call e feed s) := by
  cases todo : s.rounds.todo with
  | nil =>
    obtain ⟨turn, called⟩ := Rounds.next_idle net.order todo
    exact inv.same (fun v => by rw [Net.call_idle e feed todo]; exact ⟨rfl, rfl, rfl, rfl, rfl, rfl⟩)
      turn called
  | cons v rest =>
    have got := inv.called fair todo room e feed
    have here : (net.call e feed s).chan v = (net.get e feed s v).1 := by
      rw [Net.call_chan todo, if_pos rfl]
    have other {u : V} (ne : u ≠ v) : Outside (s.chan u) ((net.call e feed s).chan u) := by
      rw [Net.call_chan todo, if_neg ne]
      exact .tagged ..
    have turn (a b : V) : (net.call e feed s).rounds.turn a b =
        if b = v then false else if a = v then true else s.rounds.turn a b :=
      Rounds.next_turn todo a b
    have called (a : V) : (net.call e feed s).rounds.called a =
        if a = v then true else s.rounds.called a := Rounds.next_called todo a
    -- all channels but `v` are as they were
    have rest : Inv net { (net.call e feed s) with
        chan := fun u => if u = v then s.chan v else (net.call e feed s).chan u
        rounds := s.rounds } := by
      refine inv.same (fun u => ?_) rfl rfl
      dsimp only
      split_ifs with eq
      · exact eq ▸ ⟨rfl, rfl, rfl, rfl, rfl, rfl⟩
      · exact other eq
    refine ⟨fun w => ?_, fun w => ?_, fun w idle => ?_, fun w => ?_, fun w => ?_, fun w => ?_,
      fun w i u at_i plain valid turned => ?_⟩
    · by_cases eq : w = v
      · exact eq ▸ here ▸ got.tracked
      · simpa only [if_neg eq] using rest.tracked w
    · by_cases eq : w = v
      · exact eq ▸ here ▸ got.sent
      · simpa only [if_neg eq] using rest.sent w
    · rw [called] at idle
      split_ifs at idle with eq
      rw [(other eq).valid]
      exact inv.idle w idle
    · by_cases eq : w = v
      · exact eq ▸ here ▸ got.bounded
      · simpa only [if_neg eq] using rest.bounded w
    · by_cases eq : w = v
      · exact eq ▸ here ▸ got.bp
      · simpa only [if_neg eq] using rest.bp w
    · by_cases eq : w = v
      · exact eq ▸ here ▸ got.self
      · simpa only [if_neg eq] using rest.self w
    · rw [turn] at turned
      split_ifs at turned with ne eq
      · rw [(other ne).chanBuffer]
        subst eq
        rw [here] at valid
        have down : (net.cfg u).noDownstream = false := by
          by_contra none
          exact net.noDownstream u (by simpa using none) w (List.mem_of_getElem? at_i)
        exact inv.offered at_i (got.sendable valid plain down)
      · rw [(other ne).chanBuffer]
        rw [(other eq).valid] at valid
        exact inv.due w i u at_i plain valid turned

/-- As long as no copy of the datum of a channel in keep mode comes to a full buffer, no buffer
is filled above its size. -/
theorem capacity_law {closed : Bool} (reachable : Reachable net closed (Room net) s) :
    Within net s := by
  suffices inv : Inv net s from
    ⟨inv.bounded, fun v => (inv.tracked v).single, fun v => (inv.tracked v).held⟩
  induction reachable with
  | init => exact .initial
  | call e feed room before inv => exact inv.call before.fair room e feed
  | outside v y _ change _ inv =>
    refine inv.same (fun u => ?_) rfl rfl
    by_cases eq : u = v
    · subst eq
      simpa using change
    · simp only [Function.update_of_ne eq]
      exact ⟨rfl, rfl, rfl, rfl, rfl, rfl⟩

end

/-- A plain source and a source in keep mode, and a channel with buffers for `spare + 1` data
that joins them. -/
def join (spare : Nat) : Net (Fin 3) where
  order := [0, 1, 2]
  cfg v := if v = 2 then { size := spare + 1, upNum := 2, noDownstream := true }
    else { size := 2, keepMode := v = 1, upNum := 0, noUpstream := true }
  upstream v := if v = 2 then [0, 1] else []
  op _ operands := operands.sum
  input v k := if k < 3 then some (k + 10 * v) else none
  nodup := by decide
  mem_order := by decide
  upstream_nodup := by decide
  upNum v := by fin_cases v <;> rfl
  noUpstream v := by fin_cases v <;> simp
  noDownstream v none := by fin_cases v <;> simp_all
  size_pos v := by fin_cases v <;> simp

/-- One iteration for each clock. -/
def joined (spare : Nat) : Nat → NetState (Fin 3)
  | 0 => (join spare).initial
  | k + 1 => (join spare).call { clk := k / 3 } true (joined spare k)

theorem joined_reachable (spare n : Nat) {P : NetState (Fin 3) → Prop}
    (allowed : ∀ k < n, P (joined spare k)) :
    Reachable (join spare) true P (joined spare n) := by
  induction n with
  | zero => exact .init
  | succ n ih => exact (ih fun k lt => allowed k (by omega)).call _ _ (allowed n (by omega))

theorem capacity_law_join : Reachable (join 1) true (Room (join 1)) (joined 1 12) ∧
    Within (join 1) (joined 1 12) := by
  have reachable := joined_reachable 1 12 (P := Room (join 1))
    (by decide +kernel)
  exact ⟨reachable, capacity_law reachable⟩

/-- When the plain upstream waits for room, the datum in keep mode is copied without it, and once
more when the plain datum comes. -/
theorem over_capacity : ∃ s, Reachable (join 0) true (fun _ => True) s ∧ ¬ Within (join 0) s := by
  refine ⟨joined 0 9, joined_reachable 0 9 fun _ _ => trivial, fun within => ?_⟩
  exact absurd (within.bounded 2 1 (by decide)) (by decide +kernel)

end Net

end DataflowSim.Execution
