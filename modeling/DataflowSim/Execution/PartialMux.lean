import DataflowSim.Execution.Buffers

/-!
# Partial muxes

`ChanPartialMux` of `Channel.cpp`: a `ChanBase` that only looks at the buffers of the path
which the condition in buffer 0 selects. It overrides `checkDataMatch`, `popChannel` and
`updateDataStatus`; what calls them is as in `ChanBase`.
-/

namespace DataflowSim.Execution

/-- What the mux reads of an upstream besides its data. -/
structure Path where
  branchMode : Bool := false
  channelCond : Bool := true

structure MuxConfig extends ChanConfig where
  path : Nat → Path
  upNum_pos : 0 < upNum
  hasUpstream : noUpstream = false

/-- What an output took: its condition, and of every buffer the token that was popped with
its position in the stream of that buffer. -/
structure Output where
  cond : Bool
  lost : Nat → Option (Nat × Data)

/-- `popped` and `outputs` record what was popped; no function reads them. -/
structure ChanPartialMux extends Chan where
  popped : Nat → Nat := fun _ => 0
  outputs : List Output := []

namespace ChanPartialMux

variable (c : MuxConfig) (e : Clock) (up : Nat → Upstream)

/-- The upstream is on no path, or on the one with this condition. -/
def selected (cond : Bool) (bufferId : Nat) : Bool :=
  ((c.path bufferId).branchMode && (c.path bufferId).channelCond == cond) ||
    !(c.path bufferId).branchMode

def checkDataMatch (x : Chan) : Bool :=
  match x.chanBuffer 0 with
  | [] => false
  | front :: _ =>
    (List.range c.upNum).all fun bufferId =>
      !selected c front.cond bufferId ||
        match x.chanBuffer bufferId with
        | [] => false
        | d :: _ => d.cycle ≤ e.clk

def popChannel (x : ChanPartialMux) (popReady popLastReady : Bool) : ChanPartialMux :=
  if popReady && (!c.keepMode || popLastReady) then
    let cond := (x.channel.headD {}).cond
    let pops bufferId := bufferId < c.upNum ∧ selected c cond bufferId = true
    { x with
      channel := x.channel.tail
      lastPopVal := fun i =>
        if pops i then ((x.chanBuffer i).headD {}).value else x.lastPopVal i
      chanBuffer := fun i => if pops i then (x.chanBuffer i).tail else x.chanBuffer i
      lastTagQueue := if c.keepMode then fun d => x.lastTagQueue d - 1 else x.lastTagQueue
      popped := fun i => if pops i then x.popped i + 1 else x.popped i
      outputs := x.outputs ++ [{
        cond
        lost := fun i =>
          if pops i then (x.chanBuffer i).head?.map fun d => (x.popped i, d) else none }] }
  else x

def pop (downstream : List Nat) (x : ChanPartialMux) : ChanPartialMux :=
  popChannel c x x.valid (Chan.popLastCheck c.toChanConfig downstream x.toChan)

def updateDataStatus (x : Chan) (data : Data) : Data :=
  let cond := ((x.chanBuffer 0).headD {}).cond
  (List.range c.upNum).foldl (fun data i =>
    let front := (x.chanBuffer i).headD {}
    if selected c cond i then
      if !(up i).keepMode && !c.drainMode then
        { data with last := data.last || front.last, lastOuter := data.lastOuter || front.lastOuter }
      else if front.last && front.lastOuter && c.isLoopVar then { data with lastOuter := true }
      else data
    else data) data

/-- `ChanBase::pushChannel`. -/
def pushChannel (x : Chan) : Chan :=
  let data := updateDataStatus c up x { valid := true, tag := ((x.chanBuffer 0).headD {}).tag }
  { x with
    channel := x.channel ++ [{ data with cond := Chan.channelCondOf c.toChanConfig up x }] }

/-- `ChanBase::statusUpdate`. -/
def statusUpdate (sendable : Bool) (x : Chan) : Chan :=
  let success := checkDataMatch c e x && x.channel.isEmpty
  let x := if success then pushChannel c up x else x
  let valid := !x.channel.isEmpty && x.enable && (c.noDownstream || c.keepMode || sendable)
  { x with
    pushChannelSuccess := success
    valid := valid
    channel :=
      if valid then
        match x.channel with
        | [] => []
        | d :: rest => { d with cycle := e.clk } :: rest
      else x.channel
    chanDataCnt := if valid then x.chanDataCnt + 1 else x.chanDataCnt
    statusUpdates := x.statusUpdates + 1 }

/-- `Channel::get()`. -/
def get (downstream : List Nat) (sendable : Bool) (x : ChanPartialMux) : ChanPartialMux × Nat :=
  let x := pop c downstream { x with toChan := Chan.parallelize c.toChanConfig e x.toChan }
  let inputs := (List.range c.upNum).map fun i => ((up i).value, i)
  let (y, tags) := Chan.pushAll c.toChanConfig e up x.toChan inputs
  let y :=
    if y.currId ≤ c.speedup ∨ e.clkAdd = true then statusUpdate c e up sendable y
    else { y with valid := false, pushChannelSuccess := false }
  ({ x with toChan := Chan.bpUpdate c.toChanConfig y }, tags)

/-- Any arrival of data, back-pressure and clock; between two calls the downstreams may send
last tags and the scheduler may set `enable`. -/
inductive Reachable : ChanPartialMux → Prop
  | init : Reachable {}
  | get {s} (e : Clock) (up : Nat → Upstream) (downstream : List Nat) (sendable : Bool)
      (isCond : (up 0).isCond = true) :
      Reachable s → Reachable (get c e up downstream sendable s).1
  | tag {s} (lastTagQueue : Nat → Nat) :
      Reachable s → Reachable { s with lastTagQueue := lastTagQueue }
  | activate {s} (enable : Bool) : Reachable s → Reachable { s with enable := enable }

/-! ## What an output takes -/

/-- How many of these outputs took a token of this buffer. -/
def taken (outputs : List Output) (bufferId : Nat) : Nat :=
  outputs.countP fun out => selected c out.cond bufferId

/-- An output with these outputs before it has the condition that stood at the head of buffer
0, and took of each selected buffer the next token, and nothing of the others. -/
structure Traced (received : Nat → List Data) (before : List Output) (out : Output) : Prop where
  cond : ∃ d, (received 0)[taken c before 0]? = some d ∧ d.cond = out.cond
  taken : ∀ i < c.upNum, selected c out.cond i = true →
    ∃ d, (received i)[taken c before i]? = some d ∧ out.lost i = some (taken c before i, d)
  left : ∀ i < c.upNum, selected c out.cond i = false → out.lost i = none

/-- What holds between any two functions of the mux. -/
structure Tracked (s : ChanPartialMux) : Prop where
  buffer : ∀ i, s.chanBuffer i = (s.received i).drop (s.popped i)
  bound : ∀ i, s.popped i ≤ (s.received i).length
  popped : ∀ i < c.upNum, s.popped i = taken c s.outputs i
  single : s.channel.length ≤ 1
  matched : ∀ d ∈ s.channel, (∃ front l, s.chanBuffer 0 = front :: l ∧ front.cond = d.cond) ∧
    ∀ i < c.upNum, selected c d.cond i = true → s.chanBuffer i ≠ []
  traced : ∀ k out, s.outputs[k]? = some out → Traced c s.received (s.outputs.take k) out

variable {c} {s : ChanPartialMux}

theorem taken_concat (outputs : List Output) (out : Output) (i : Nat) :
    taken c (outputs ++ [out]) i =
      taken c outputs i + if selected c out.cond i = true then 1 else 0 := by
  simp [taken, List.countP_append, List.countP_cons]

/-- The head of a buffer is the token at the position that counts its pops. -/
theorem Tracked.head (h : Tracked c s) {i : Nat} {d : Data} {l : List Data}
    (front : s.chanBuffer i = d :: l) : (s.received i)[s.popped i]? = some d := by
  have dropped := congrArg List.head? ((h.buffer i).symm.trans front)
  simpa [List.head?_drop] using dropped

theorem Tracked.filled (h : Tracked c s) {y : Chan} (filled : Filled s.toChan y) :
    Tracked c { s with toChan := y } where
  buffer i := by
    obtain ⟨ds, buffer, received⟩ := filled.grown i
    show y.chanBuffer i = (y.received i).drop (s.popped i)
    rw [buffer, received, List.drop_append_of_le_length (h.bound i), h.buffer i]
  bound i := by
    obtain ⟨ds, -, received⟩ := filled.grown i
    have bound := h.bound i
    show s.popped i ≤ (y.received i).length
    simp only [received, List.length_append]
    omega
  popped := h.popped
  single := by simpa [filled.channel] using h.single
  matched d mem := by
    obtain ⟨⟨front, l, head, cond⟩, held⟩ := h.matched d (filled.channel ▸ mem)
    obtain ⟨l', head'⟩ := filled.front head
    refine ⟨⟨front, l', head', cond⟩, fun i lt takes => ?_⟩
    obtain ⟨d', t, eq⟩ := List.exists_cons_of_ne_nil (held i lt takes)
    obtain ⟨t', eq'⟩ := filled.front eq
    exact List.ne_nil_of_length_pos (by simp [eq'])
  traced k out at_k := by
    obtain ⟨⟨d, there, cond⟩, taken, left⟩ := h.traced k out at_k
    refine ⟨⟨d, filled.received_getElem? there, cond⟩, fun i lt takes => ?_, left⟩
    obtain ⟨d, there, lost⟩ := taken i lt takes
    exact ⟨d, filled.received_getElem? there, lost⟩

theorem Tracked.popChannel (h : Tracked c s) {ready lastReady : Bool}
    (sent : ready = true → s.channel ≠ []) :
    Tracked c (popChannel c s ready lastReady) := by
  by_cases pops : (ready && (!c.keepMode || lastReady)) = true
  swap
  · simpa only [ChanPartialMux.popChannel, if_neg pops] using h
  simp only [ChanPartialMux.popChannel, if_pos pops]
  obtain ⟨d, l, channel⟩ := List.exists_cons_of_ne_nil
    (sent (by simpa using (Bool.and_eq_true_iff.mp pops).1))
  obtain rfl : l = [] := by have := h.single; simpa [channel] using this
  obtain ⟨⟨front, rest, head, cond⟩, held⟩ := h.matched d (by simp [channel])
  -- the token that a selected buffer loses
  have lost {i : Nat} (lt : i < c.upNum) (takes : selected c d.cond i = true) :
      ∃ token t, s.chanBuffer i = token :: t ∧ (s.received i)[s.popped i]? = some token := by
    obtain ⟨token, t, eq⟩ := List.exists_cons_of_ne_nil (held i lt takes)
    exact ⟨token, t, eq, h.head eq⟩
  simp only [channel, List.headD_cons, List.tail_cons]
  refine ⟨fun i => ?_, fun i => ?_, fun i lt => ?_, by simp, by simp, fun k out at_k => ?_⟩
  · by_cases takes : i < c.upNum ∧ selected c d.cond i = true
    · simp [takes, h.buffer i, List.tail_drop]
    · simp [takes, h.buffer i]
  · by_cases takes : i < c.upNum ∧ selected c d.cond i = true
    · obtain ⟨token, t, -, there⟩ := lost takes.1 takes.2
      have := (List.getElem?_eq_some_iff.mp there).1
      simp only [takes, and_self, if_true]
      omega
    · simpa [takes] using h.bound i
  · simp only [lt, true_and, taken_concat, h.popped i lt]
    split_ifs <;> rfl
  · rcases Nat.lt_or_ge k s.outputs.length with lt | ge
    · have same : s.outputs[k]? = some out := by simpa [List.getElem?_append_left lt] using at_k
      simpa [List.take_append_of_le_length lt.le] using h.traced k out same
    · obtain ⟨rfl, rfl⟩ : k = s.outputs.length ∧ _ = out := by
        rw [List.getElem?_append_right ge] at at_k
        have bound := (List.getElem?_eq_some_iff.mp at_k).1
        simp only [List.length_singleton] at bound
        obtain rfl : k = s.outputs.length := by omega
        exact ⟨rfl, by simpa using at_k⟩
      simp only [List.take_left']
      refine ⟨⟨front, ?_, cond⟩, fun i lt takes => ?_, fun i lt takes => by simp_all⟩
      · rw [← h.popped 0 c.upNum_pos, h.head head]
      · obtain ⟨token, t, eq, there⟩ := lost lt takes
        refine ⟨token, by rw [← h.popped i lt, there], ?_⟩
        simp only [lt, true_and] at takes ⊢
        simp [takes, eq, h.popped i lt]

/-- A match finds a token in each buffer that the condition at the head of buffer 0 selects. -/
theorem checkDataMatch_held {e : Clock} {x : Chan} (matched : checkDataMatch c e x = true) :
    ∃ front l, x.chanBuffer 0 = front :: l ∧
      ∀ i < c.upNum, selected c front.cond i = true → x.chanBuffer i ≠ [] := by
  cases head : x.chanBuffer 0 with
  | nil => simp [checkDataMatch, head] at matched
  | cons front l =>
    refine ⟨front, l, rfl, fun i lt takes empty => ?_⟩
    simp only [checkDataMatch, head, List.all_eq_true, List.mem_range] at matched
    simpa [takes, empty] using matched i lt

theorem channelCondOf_front {up : Nat → Upstream} (isCond : (up 0).isCond = true) (x : Chan) :
    Chan.channelCondOf c.toChanConfig up x = ((x.chanBuffer 0).headD {}).cond := by
  obtain ⟨n, eq⟩ := Nat.exists_eq_add_one.mpr c.upNum_pos
  unfold Chan.channelCondOf
  split_ifs
  · simp [eq, List.range_succ_eq_map, isCond]
  · rfl

theorem Tracked.pushChannel (h : Tracked c s) {e : Clock} {up : Nat → Upstream}
    (isCond : (up 0).isCond = true) (matched : checkDataMatch c e s.toChan = true)
    (empty : s.channel = []) :
    Tracked c { s with toChan := pushChannel c up s.toChan } := by
  obtain ⟨front, l, head, held⟩ := checkDataMatch_held matched
  refine ⟨h.buffer, h.bound, h.popped, by simp [ChanPartialMux.pushChannel, empty],
    fun d mem => ?_, h.traced⟩
  obtain rfl : _ = d := by simpa [ChanPartialMux.pushChannel, empty, eq_comm] using mem
  simp only [channelCondOf_front isCond, head, List.headD_cons]
  exact ⟨⟨front, l, head, rfl⟩, held⟩

/-- Only the conditions of the output channel matter. -/
theorem Tracked.congr (h : Tracked c s) {y : Chan} (buffer : y.chanBuffer = s.chanBuffer)
    (received : y.received = s.received)
    (conds : y.channel.map Data.cond = s.channel.map Data.cond) :
    Tracked c { s with toChan := y } where
  buffer i := by simpa only [buffer, received] using h.buffer i
  bound i := by simpa only [received] using h.bound i
  popped := h.popped
  single := by
    have length := congrArg List.length conds
    simp only [List.length_map] at length
    exact length.trans_le h.single
  matched d mem := by
    obtain ⟨d', mem', cond⟩ := List.mem_map.mp (conds ▸ List.mem_map_of_mem mem)
    simpa only [buffer, cond] using h.matched d' mem'
  traced := by simpa only [received] using h.traced

theorem Tracked.statusUpdate (h : Tracked c s) (e : Clock) {up : Nat → Upstream}
    (isCond : (up 0).isCond = true) (sendable : Bool) :
    Tracked c { s with toChan := statusUpdate c e up sendable s.toChan } := by
  have pushed : Tracked c { s with toChan :=
      if (checkDataMatch c e s.toChan && s.channel.isEmpty) = true
      then ChanPartialMux.pushChannel c up s.toChan else s.toChan } := by
    split_ifs with success
    · obtain ⟨matched, empty⟩ := Bool.and_eq_true_iff.mp success
      exact h.pushChannel isCond matched (List.isEmpty_iff.mp empty)
    · exact h
  refine pushed.congr rfl rfl ?_
  simp only [ChanPartialMux.statusUpdate]
  generalize (if (checkDataMatch c e s.toChan && s.channel.isEmpty) = true
    then ChanPartialMux.pushChannel c up s.toChan else s.toChan) = x
  split_ifs
  · cases x.channel <;> rfl
  · rfl

theorem statusUpdate_sent (e : Clock) (up : Nat → Upstream) (sendable : Bool) (x : Chan)
    (valid : (statusUpdate c e up sendable x).valid = true) :
    (statusUpdate c e up sendable x).channel ≠ [] := by
  simp only [statusUpdate] at valid ⊢
  rw [if_pos valid]
  generalize (if (checkDataMatch c e x && x.channel.isEmpty) = true
    then pushChannel c up x else x) = y at valid
  cases channel : y.channel with
  | nil => simp [channel] at valid
  | cons => simp

theorem Tracked.get (h : Tracked c s) (sent : s.valid = true → s.channel ≠ []) (e : Clock)
    {up : Nat → Upstream} (downstream : List Nat) (sendable : Bool)
    (isCond : (up 0).isCond = true) :
    let t := (get c e up downstream sendable s).1
    Tracked c t ∧ (t.valid = true → t.channel ≠ []) := by
  have same : (Chan.parallelize c.toChanConfig e s.toChan) =
      { s.toChan with currId := (Chan.parallelize c.toChanConfig e s.toChan).currId } := by
    unfold Chan.parallelize
    split_ifs <;> rfl
  have started : Tracked c { s with toChan := Chan.parallelize c.toChanConfig e s.toChan } := by
    rw [same]
    exact h.congr rfl rfl rfl
  have popped : Tracked c
      (pop c downstream { s with toChan := Chan.parallelize c.toChanConfig e s.toChan }) := by
    refine started.popChannel ?_
    rw [same]
    exact sent
  have pushed := popped.filled (Chan.pushAll_filled c.toChanConfig e up
    ((List.range c.upNum).map fun i => ((up i).value, i)) _)
  intro t
  simp only [t, ChanPartialMux.get]
  split_ifs
  · exact ⟨(pushed.statusUpdate e isCond sendable).congr rfl rfl rfl,
      fun valid => statusUpdate_sent e up sendable _ valid⟩
  · exact ⟨pushed.congr rfl rfl rfl, by simp [Chan.bpUpdate]⟩

theorem Reachable.tracked (reached : Reachable c s) :
    Tracked c s ∧ (s.valid = true → s.channel ≠ []) := by
  induction reached with
  | init => exact ⟨⟨fun _ => rfl, fun _ => le_rfl, fun _ _ => rfl, Nat.zero_le 1,
      fun _ mem => absurd mem List.not_mem_nil, fun _ _ at_k => by simp at at_k⟩, by simp⟩
  | get e up downstream sendable isCond _ ih => exact ih.1.get ih.2 e downstream sendable isCond
  | tag _ _ ih => exact ⟨ih.1.congr rfl rfl rfl, ih.2⟩
  | activate _ _ ih => exact ⟨ih.1.congr rfl rfl rfl, ih.2⟩

/-! ## Alignment -/

/-- Each output took the token of its own position from every buffer. -/
def Aligned (c : MuxConfig) (s : ChanPartialMux) : Prop :=
  ∀ (k : Nat) (out : Output), s.outputs[k]? = some out → ∀ i < c.upNum,
    ∃ d, (s.received i)[k]? = some d ∧ out.lost i = some (k, d)

/-- Every condition that led to an output selects every buffer. -/
def SelectsAll (c : MuxConfig) (s : ChanPartialMux) : Prop :=
  ∀ k < s.outputs.length, ∀ d ∈ (s.received 0)[k]?, ∀ i < c.upNum, selected c d.cond i = true

instance : Decidable (SelectsAll c s) :=
  inferInstanceAs (Decidable (∀ k < s.outputs.length, ∀ d ∈ (s.received 0)[k]?, _))

theorem Tracked.aligned (h : Tracked c s) (all : SelectsAll c s) {k : Nat}
    (le : k ≤ s.outputs.length) : ∀ i < c.upNum, taken c (s.outputs.take k) i = k := by
  induction k with
  | zero => simp [taken]
  | succ k ih =>
    intro i lt
    have at_k : s.outputs[k]? = some s.outputs[k] := List.getElem?_eq_getElem (by omega)
    obtain ⟨d, there, cond⟩ := (h.traced k _ at_k).cond
    rw [ih (by omega) 0 c.upNum_pos] at there
    have takes := all k (by omega) d there i lt
    rw [cond] at takes
    rw [List.take_add_one, at_k, Option.toList_some, taken_concat, ih (by omega) i lt, if_pos takes]

/-- The outputs are aligned as long as every condition selects every buffer: the token of a
path that is not selected stays in its buffer. -/
theorem aligned_iff (reached : Reachable c s) : Aligned c s ↔ SelectsAll c s := by
  have tracked := reached.tracked.1
  constructor
  · intro aligned k lt d there i lt_i
    have at_k : s.outputs[k]? = some s.outputs[k] := List.getElem?_eq_getElem lt
    have traced := tracked.traced k _ at_k
    have took {j : Nat} (bound : j < c.upNum) : selected c s.outputs[k].cond j = true := by
      by_contra left
      obtain ⟨_, -, lost⟩ := aligned k _ at_k j bound
      simp [traced.left j bound (by simpa using left)] at lost
    -- buffer 0 was selected, so the condition of the output is that of position `k`
    obtain ⟨d₀, there₀, lost₀⟩ := traced.taken 0 c.upNum_pos (took c.upNum_pos)
    obtain ⟨_, -, lost⟩ := aligned k _ at_k 0 c.upNum_pos
    obtain ⟨position, -⟩ : taken c (s.outputs.take k) 0 = k ∧ _ := by
      simpa using lost₀.symm.trans lost
    obtain ⟨d', there', cond⟩ := traced.cond
    rw [position, there] at there'
    obtain rfl : d = d' := by simpa using there'
    rw [cond]
    exact took lt_i
  · intro all k out at_k i lt
    have bound := (List.getElem?_eq_some_iff.mp at_k).1
    have positions := tracked.aligned all bound.le
    obtain ⟨d, there, cond⟩ := (tracked.traced k out at_k).cond
    rw [positions 0 c.upNum_pos] at there
    have takes := all k bound d there i lt
    rw [cond] at takes
    obtain ⟨token, found, lost⟩ := (tracked.traced k out at_k).taken i lt takes
    rw [positions i lt] at found lost
    exact ⟨token, found, lost⟩

/-- A mux with a condition and its true path, and the false path when there are three
upstreams. -/
def merge (upNum : Nat) (pos : 0 < upNum) : MuxConfig where
  size := 2
  upNum := upNum
  noDownstream := true
  path i := { branchMode := decide (0 < i), channelCond := decide (i = 1) }
  upNum_pos := pos
  hasUpstream := rfl

/-- One position of the streams: the condition, and on each path a token whose `cond` tells
whether the path was taken. -/
def position (k : Int) (cond : Bool) (i : Nat) : Upstream :=
  let taken := i = 0 ∨ (i = 1 ↔ cond = true)
  { valid := true
    value := 10 * i + k
    front := { valid := true, cond := if i = 0 then cond else decide taken }
    isCond := decide (i = 0) }

/-- The mux gets these positions one after the other, and then pops once more. -/
def feed (c : MuxConfig) (conds : List Bool) : ChanPartialMux :=
  let s := (conds.zipIdx).foldl
    (fun s (cond, k) => (get c ⟨k, true⟩ (position k cond) [] true s).1) {}
  (get c ⟨conds.length, true⟩ (fun _ => { isCond := true }) [] true s).1

theorem feed_reachable (c : MuxConfig) (conds : List Bool) : Reachable c (feed c conds) := by
  refine .get _ _ _ _ rfl ?_
  refine List.foldlRecOn (motive := Reachable c) _ _ .init fun s reached input _ => ?_
  exact .get _ _ _ _ (by simp [position]) reached

/-- Without a second path the outputs are aligned. -/
theorem aligned_merge : Aligned (merge 2 (by omega)) (feed (merge 2 (by omega)) [true, true]) :=
  (aligned_iff (feed_reachable ..)).mpr (by decide)

/-- Both paths get a token for each condition, and the second output takes the token that the
false path got for the first one. -/
theorem aligned_mixed : ∃ s, Reachable (merge 3 (by omega)) s ∧
    (List.range 3).map (fun i => (s.received i).map Data.cond) =
      [[true, false], [true, false], [false, true]] ∧
    ¬ Aligned (merge 3 (by omega)) s := by
  refine ⟨feed (merge 3 (by omega)) [true, false], feed_reachable .., by decide, fun aligned => ?_⟩
  have two : 1 < (feed (merge 3 (by omega)) [true, false]).outputs.length := by decide
  have second := List.getElem?_eq_getElem two
  obtain ⟨d, -, lost⟩ := aligned 1 _ second 2 (by decide)
  have position : ((feed (merge 3 (by omega)) [true, false]).outputs[1]?.bind
      fun out => (out.lost 2).map Prod.fst) = some 1 := by simp [second, lost]
  exact absurd position (by decide)

end ChanPartialMux

end DataflowSim.Execution
