import DataflowSim.Execution.Lc
import DataflowSim.Execution.LseRun

/-!
# Channels in keep mode

A channel in keep mode holds one datum for a whole instance of the inner loop. Its downstreams
are channels, LSEs and loop variables of the inner loop. They copy the datum beside the tokens
of the loop, and each of them sends a last tag for each instance. The channel pops its datum
when it has a tag of every downstream.

The surroundings are an input of each call, and nothing is assumed about them. `tags` records
the calls of `sendLastTag`, `repeated` those calls of an LSE that found a last token at the heads
of its buffers, `sent` what a loop variable has offered, and `copied` the positions of the data
that were copied. No function reads them.
-/

namespace DataflowSim.Execution

/-- A downstream of a channel in keep mode. -/
inductive Reader (V W U : Type*) where
  | chan (v : V)
  | lse (w : W)
  | loopVar (u : U)
  deriving DecidableEq

/-- The other one of two upstreams. -/
def other (i : Nat) : Nat := (i + 1) % 2

theorem other_lt (i : Nat) : other i < 2 := Nat.mod_lt _ (by decide)

theorem other_ne (i : Nat) (lt : i < 2) : other i ≠ i := by
  interval_cases i <;> decide

/-- What `pushBuffer` requires of a downstream that is no loop variable: its second upstream is a
stream of the inner loop. -/
structure Joining (c : ChanConfig) (keepAt : Nat) : Prop where
  upNum : c.upNum = 2
  noUpstream : c.noUpstream = false
  isLoopVar : c.isLoopVar = false
  lt : keepAt < 2

theorem Joining.arity {c : ChanConfig} {keepAt : Nat} (joining : Joining c keepAt) : c.arity = 2 := by
  simp [ChanConfig.arity, joining.noUpstream, joining.upNum]

/-- A channel in keep mode with its downstreams. -/
structure KeepGroup (V W U : Type*) where
  keep : ChanConfig
  /-- How a program computes the value of the channel. -/
  op : List Int → Int
  chan : V → ChanConfig
  lse : W → ChanConfig
  lseConfig : W → LseConfig
  lc : U → LcConfig
  /-- The position of the channel among the upstreams. -/
  keepAt : Reader V W U → Nat
  downstream : List (Reader V W U)
  moduleId : Reader V W U → Nat
  keepMode : keep.keepMode = true
  noDownstream : keep.noDownstream = false
  mem_downstream : ∀ r, r ∈ downstream
  moduleId_injective : moduleId.Injective
  chan_joining : ∀ v, Joining (chan v) (keepAt (.chan v))
  lse_joining : ∀ w, Joining (lse w) (keepAt (.lse w))
  isLoopVar : ∀ u, (lc u).loopVar.isLoopVar = true

structure KeepState (V W U : Type*) where
  keep : Chan
  chan : V → Chan
  lse : W → Lse := fun _ => {}
  lc : U → Lc := fun _ => {}
  /-- `lcUpdate` is called once after each `get` of the loop variable. -/
  pending : U → Bool := fun _ => false
  tags : Reader V W U → Nat := fun _ => 0
  repeated : W → Nat := fun _ => 0
  sent : U → List Data := fun _ => []
  copied : V → List Nat := fun _ => []

/-- The clock and the surroundings in a call of `get`: the other upstreams, the downstreams of the
called channel, whether all of these can take an element, and the data of a channel without
upstreams. -/
structure Around where
  e : Clock
  up : Nat → Upstream := fun _ => {}
  downstream : List Nat := []
  sendable : Bool := true
  data : List Int := []

/-- The calls of `get` that are allowed in a state: of the channel in keep mode, and of the channels
and LSEs among its downstreams. -/
structure Allowed (V W U : Type*) where
  keep : Around → KeepState V W U → Prop := fun _ _ => True
  chan : V → Around → KeepState V W U → Prop := fun _ _ _ => True
  lse : W → Around → KeepState V W U → Prop := fun _ _ _ => True

/-- The clock and the surroundings in a call of `lcUpdate`. -/
structure AroundLc where
  e : Clock
  newSel : Bool
  mux : Mux
  ends : Nat → Upstream := fun _ => {}
  endSendable : Bool := true

namespace KeepGroup

variable {V W U : Type*} [DecidableEq V] [DecidableEq W] [DecidableEq U] (g : KeepGroup V W U)

def initial : KeepState V W U where
  keep := Chan.initial g.keep
  chan v := Chan.initial (g.chan v)

/-- What the downstreams see of the channel. -/
def shown (s : KeepState V W U) : Upstream where
  valid := s.keep.valid
  value := s.keep.value
  front := s.keep.channel.headD {}
  keepMode := true
  isCond := g.keep.isCond

def upstreams (s : KeepState V W U) (r : Reader V W U) (others : Nat → Upstream) (i : Nat) :
    Upstream :=
  if i = g.keepAt r then g.shown s else others i

/-- `Channel::sendLastTag`, called a number of times by a downstream. -/
def sendLastTag (r : Reader V W U) (n : Nat) (s : KeepState V W U) : KeepState V W U :=
  { s with
    keep := { s.keep with
      lastTagQueue := Function.update s.keep.lastTagQueue (g.moduleId r)
        (s.keep.lastTagQueue (g.moduleId r) + n) }
    tags := Function.update s.tags r (s.tags r + n) }

/-- `Channel::assign(bufferId)` for all buffers. -/
def operands (x : Chan) : List Int := (List.range g.keep.arity).map x.assign

/-- A call of `get` of the channel, after which its value is computed. -/
def getKeep (i : Around) (s : KeepState V W U) : KeepState V W U :=
  let x := (Chan.get g.keep i.e i.up (g.downstream.map g.moduleId) i.sendable i.data s.keep).1
  { s with keep := { x with value := g.op (g.operands x) } }

def getChan (v : V) (i : Around) (s : KeepState V W U) : KeepState V W U :=
  let keepAt := g.keepAt (.chan v)
  let got := Chan.get (g.chan v) i.e (g.upstreams s (.chan v) i.up) i.downstream i.sendable []
    (s.chan v)
  let copies := (got.1.received keepAt).length - ((s.chan v).received keepAt).length
  g.sendLastTag (.chan v) got.2 { s with
    chan := Function.update s.chan v got.1
    copied := Function.update s.copied v
      (s.copied v ++ List.replicate copies s.keep.consumed.length) }

/-- In this call `statusUpdate` of an LSE comes to `pushReqQ` with a last token. -/
def repeats (w : W) (i : Around) (s : KeepState V W U) : Bool :=
  let y := Lse.arrived (g.lse w) (g.lseConfig w) i.e (g.upstreams s (.lse w) i.up) (s.lse w)
  decide (y.currId ≤ (g.lse w).speedup ∨ i.e.clkAdd = true) &&
    Chan.checkDataMatch (g.lse w) i.e y.toChan && (Lse.reqData (g.lse w) i.e y).last

def getLse (w : W) (i : Around) (s : KeepState V W U) : KeepState V W U :=
  let got := Lse.get (g.lse w) (g.lseConfig w) i.e (g.upstreams s (.lse w) i.up) i.sendable
    (s.lse w)
  g.sendLastTag (.lse w) got.2 { s with
    lse := Function.update s.lse w got.1
    repeated := Function.update s.repeated w
      (s.repeated w + if g.repeats w i s then 1 else 0) }

/-- A call of `get` of a loop variable. -/
def getLoopVar (u : U) (i : Around) (s : KeepState V W U) : KeepState V W U :=
  let got := Chan.get (g.lc u).loopVar i.e (g.upstreams s (.loopVar u) i.up) i.downstream
    i.sendable [] (s.lc u).loopVar
  g.sendLastTag (.loopVar u) got.2 { s with
    lc := Function.update s.lc u { s.lc u with loopVar := got.1 }
    pending := Function.update s.pending u true }

def lcUpdate (u : U) (i : AroundLc) (s : KeepState V W U) : KeepState V W U :=
  let lc := Lc.lcUpdate (g.lc u) i.e i.newSel i.ends i.endSendable { s.lc u with mux := i.mux }
  g.sendLastTag (.loopVar u) (lc.lastTags - (s.lc u).lastTags) { s with
    lc := Function.update s.lc u lc
    pending := Function.update s.pending u false
    sent := Function.update s.sent u
      (s.sent u ++ if lc.loopVar.valid then [lc.loopVar.channel.headD {}] else []) }

/-- The enables of the channel are set. -/
def configure (pushBufferEnable popChannelEnable : Bool) (s : KeepState V W U) : KeepState V W U :=
  { s with keep := { s.keep with
      pushBufferEnable := pushBufferEnable
      enable := popChannelEnable } }

/-- What happens to an LSE between two calls of `get`. -/
def editLse (w : W) (f : Lse → Lse) (s : KeepState V W U) : KeepState V W U :=
  { s with lse := Function.update s.lse w (f (s.lse w)) }

/-- The runs whose calls of `get` are all allowed. The calls come in any order; the streams of the
inner loop are not in keep mode. -/
inductive Reachable (P : Allowed V W U) : KeepState V W U → Prop
  | init : Reachable P g.initial
  | keep {s} (i : Around) (allowed : P.keep i s) : Reachable P s → Reachable P (g.getKeep i s)
  | chan {s} (v : V) (i : Around) (plain : ∀ j, (i.up j).keepMode = false)
      (allowed : P.chan v i s) : Reachable P s → Reachable P (g.getChan v i s)
  | lse {s} (w : W) (i : Around) (plain : ∀ j, (i.up j).keepMode = false)
      (allowed : P.lse w i s) : Reachable P s → Reachable P (g.getLse w i s)
  | loopVar {s} (u : U) (i : Around) (done : s.pending u = false) :
      Reachable P s → Reachable P (g.getLoopVar u i s)
  | lcUpdate {s} (u : U) (i : AroundLc) (due : s.pending u = true) :
      Reachable P s → Reachable P (g.lcUpdate u i s)
  | configure {s} (pushBufferEnable popChannelEnable : Bool) :
      Reachable P s → Reachable P (configure pushBufferEnable popChannelEnable s)
  | edit {s} (v : V) (change : Edit) :
      Reachable P s →
      Reachable P { s with chan := Function.update s.chan v (change.apply (s.chan v)) }
  | visit {s} (w : W) (taken : Option Memory.MemReq) :
      Reachable P s → Reachable P (editLse w (·.visit taken) s)
  | ackCallback {s} (w : W) (req : Memory.MemReq) :
      Reachable P s → Reachable P (editLse w (·.ackCallback req) s)
  | editLse {s} (w : W) (change : Edit) :
      Reachable P s →
      Reachable P (editLse w (fun x => { x with toChan := change.apply x.toChan }) s)

end KeepGroup

/-! ## A downstream takes a copy and a token -/

/-- How many last tokens there are. -/
def lasts (l : List Data) : Nat := l.countP (·.last)

@[simp] theorem lasts_nil : lasts [] = 0 := rfl

@[simp] theorem lasts_append (l l' : List Data) : lasts (l ++ l') = lasts l + lasts l' :=
  List.countP_append

theorem lasts_take_le {m n : Nat} (le : m ≤ n) (l : List Data) :
    lasts (l.take m) ≤ lasts (l.take n) :=
  List.Sublist.countP_le (List.take_sublist_take_left le)

namespace Chan

section

variable (c : ChanConfig) (e : Clock) (up : Nat → Upstream)

/-- `push` comes to `pushBuffer`. -/
def pushes (x : Chan) (i : Nat) : Bool :=
  checkUpstream c up x i &&
    (c.chanType != .Chan_DGSF || (x.pushBufferEnable && !x.getTheLastData i))

/-- The token that a downstream takes from the stream in a call. -/
def tokens (x : Chan) (keepAt : Nat) : List Data :=
  if pushes c up x (other keepAt) then
    [pushData c e up (up (other keepAt)).value (other keepAt)] else []

/-- The copy that it takes of the datum in keep mode. -/
def copies (x : Chan) (keepAt : Nat) : List Data :=
  if pushes c up x keepAt ∧
      ((x.chanBuffer keepAt).length < (x.chanBuffer (other keepAt)).length ∨
        (up (other keepAt)).valid = true ∨ (x.chanBuffer keepAt).length < 1) then
    [pushData c e up (up keepAt).value keepAt] else []

end

variable {c : ChanConfig} {keepAt : Nat} (e : Clock) {up : Nat → Upstream}

theorem push_eq (x : Chan) (data : Int) (i : Nat) : push c e up x data i =
    if pushes c up x i then
      ((pushBuffer c e up x data i).1.updateGetTheLastData i, (pushBuffer c e up x data i).2)
    else (x, 0) := by
  cases type : c.chanType <;> cases ready : checkUpstream c up x i <;>
    simp [push, pushes, type, ready]

/-- The second channel is the first one with more data in one of its buffers. -/
structure Took (x y : Chan) (i : Nat) (ds : List Data) : Prop where
  chanBuffer : y.chanBuffer = Function.update x.chanBuffer i (x.chanBuffer i ++ ds)
  received : y.received = Function.update x.received i (x.received i ++ ds)
  pushBufferEnable : y.pushBufferEnable = x.pushBufferEnable
  getTheLastData : ∀ j ≠ i, y.getTheLastData j = x.getTheLastData j

theorem Took.pushes {x y : Chan} {i j : Nat} {ds : List Data} (took : Took x y i ds) (ne : j ≠ i)
    (noUpstream : c.noUpstream = false) : pushes c up y j = pushes c up x j := by
  simp [Chan.pushes, checkUpstream, noUpstream, took.pushBufferEnable, took.getTheLastData j ne]

theorem took_none (x : Chan) (i : Nat) : Took x x i [] :=
  ⟨by simp, by simp, rfl, fun _ _ => rfl⟩

theorem took_store (x : Chan) (i : Nat) (d : Data) :
    Took x ((x.store i d).updateGetTheLastData i) i [d] :=
  ⟨rfl, rfl, rfl, fun _ ne => by simp [updateGetTheLastData, store, setBuffer, ne]⟩

variable (keeps : (up keepAt).keepMode = true) (plain : (up (other keepAt)).keepMode = false)

include keeps in
theorem hasUpstreamInKeepMode_of (joining : Joining c keepAt) :
    hasUpstreamInKeepMode c up = true := by
  simp only [hasUpstreamInKeepMode, joining.upNum, List.any_eq_true, List.mem_range]
  exact ⟨keepAt, joining.lt, keeps⟩

include keeps in
theorem pushBuffer_joining (joining : Joining c keepAt) (x : Chan) (data : Int) (i : Nat) :
    pushBuffer c e up x data i =
      let d := pushData c e up data i
      if (up i).keepMode = false then (x.store i d, if d.last then 1 else 0)
      else if (x.chanBuffer i).length < (x.chanBuffer (other i)).length ∨
          (up (other i)).valid = true ∨ (x.chanBuffer i).length < 1 then (x.store i d, 0)
      else (x, 0) := by
  rw [pushBuffer, if_neg (by simp [joining.noUpstream])]
  simp only [hasUpstreamInKeepMode_of keeps joining, joining.isLoopVar, joining.upNum, other]
  simp

include keeps plain in
/-- A token is stored with a tag if it is the last one of its instance. -/
theorem push_token (joining : Joining c keepAt) (x : Chan) :
    let p := push c e up x (up (other keepAt)).value (other keepAt)
    Took x p.1 (other keepAt) (tokens c e up x keepAt) ∧ p.2 = lasts (tokens c e up x keepAt) := by
  intro p
  have eq : p = _ := push_eq e x _ _
  cases ready : pushes c up x (other keepAt) with
  | false =>
    simp only [eq, tokens, ready]
    exact ⟨took_none x _, rfl⟩
  | true =>
    simp only [eq, tokens, ready, pushBuffer_joining e keeps joining, plain, if_true]
    exact ⟨took_store .., by simp [lasts, List.countP_cons]⟩

include keeps in
/-- A copy is stored without a tag. -/
theorem push_copy (joining : Joining c keepAt) (x : Chan) :
    let p := push c e up x (up keepAt).value keepAt
    Took x p.1 keepAt (copies c e up x keepAt) ∧ p.2 = 0 := by
  intro p
  have eq : p = _ := push_eq e x _ _
  cases ready : pushes c up x keepAt with
  | false =>
    simp only [eq, copies, ready]
    exact ⟨took_none x _, rfl⟩
  | true =>
    simp only [eq, copies, ready, pushBuffer_joining e keeps joining, keeps, true_and, if_true,
      Bool.true_eq_false, if_false]
    split_ifs
    · exact ⟨took_store .., rfl⟩
    · exact ⟨⟨by simp [updateGetTheLastData], by simp [updateGetTheLastData], rfl,
        fun _ ne => by simp [updateGetTheLastData, ne]⟩, rfl⟩

/-- What a downstream takes in one call, and the tags it sends. -/
structure Joins (c : ChanConfig) (e : Clock) (up : Nat → Upstream) (keepAt : Nat) (x y : Chan)
    (n : Nat) : Prop where
  buffer : y.chanBuffer keepAt = x.chanBuffer keepAt ++ copies c e up x keepAt
  buffer_other : y.chanBuffer (other keepAt) =
    x.chanBuffer (other keepAt) ++ tokens c e up x keepAt
  received : y.received keepAt = x.received keepAt ++ copies c e up x keepAt
  received_other : y.received (other keepAt) =
    x.received (other keepAt) ++ tokens c e up x keepAt
  tags : n = lasts (tokens c e up x keepAt)

include keeps plain in
theorem pushAll_joins (joining : Joining c keepAt) (x : Chan) :
    let p := pushAll c e up x ((List.range c.upNum).map fun i => ((up i).value, i))
    Joins c e up keepAt x p.1 p.2 := by
  have ne := other_ne _ joining.lt
  have both (i j : Nat) : pushAll c e up x [((up i).value, i), ((up j).value, j)] =
      ((push c e up (push c e up x (up i).value i).1 (up j).value j).1,
        (push c e up x (up i).value i).2 +
          (push c e up (push c e up x (up i).value i).1 (up j).value j).2) := by
    simp [pushAll]
  rw [joining.upNum, show List.range 2 = [0, 1] from rfl]
  have cases : keepAt = 0 ∧ other keepAt = 1 ∨ keepAt = 1 ∧ other keepAt = 0 := by
    have lt := joining.lt
    unfold other
    omega
  obtain ⟨at_keep, at_other⟩ | ⟨at_keep, at_other⟩ := cases
  · obtain ⟨copied, none⟩ := push_copy e keeps joining x
    obtain ⟨took, tags⟩ := push_token e keeps plain joining (push c e up x (up keepAt).value keepAt).1
    have same : tokens c e up (push c e up x (up keepAt).value keepAt).1 keepAt =
        tokens c e up x keepAt := by simp only [tokens, copied.pushes ne joining.noUpstream]
    rw [same] at took tags
    rw [List.map_cons, List.map_singleton, ← at_other, ← at_keep, both, none, tags, Nat.zero_add]
    refine ⟨?_, ?_, ?_, ?_, rfl⟩ <;>
      simp [took.chanBuffer, took.received, copied.chanBuffer, copied.received, ne, ne.symm]
  · obtain ⟨took, tags⟩ := push_token e keeps plain joining x
    obtain ⟨copied, none⟩ := push_copy e keeps joining
      (push c e up x (up (other keepAt)).value (other keepAt)).1
    -- when the token has come first, the copy is taken because the stream offers it
    have same : copies c e up (push c e up x (up (other keepAt)).value (other keepAt)).1 keepAt =
        copies c e up x keepAt := by
      have valid : pushes c up x (other keepAt) = true → (up (other keepAt)).valid = true := by
        simp only [pushes, checkUpstream, joining.noUpstream]
        grind
      simp only [copies, took.pushes ne.symm joining.noUpstream, took.chanBuffer,
        Function.update_self, Function.update_of_ne ne.symm, tokens]
      grind
    rw [same] at copied
    rw [List.map_cons, List.map_singleton, ← at_other, ← at_keep, both, none, tags, Nat.add_zero]
    refine ⟨?_, ?_, ?_, ?_, rfl⟩ <;>
      simp [took.chanBuffer, took.received, copied.chanBuffer, copied.received, ne, ne.symm]

/-- A call of `get` pops the heads of all buffers, and a tag of each downstream, or nothing. -/
theorem pop_cases (e : Clock) (downstream : List Nat) (x : Chan) :
    let p := pop c downstream (parallelize c e x)
    let ready := x.valid && (!c.keepMode || popLastCheck c downstream x)
    ready = true ∧ p.consumed = x.consumed ++ [fronts c x] ∧
        p.chanBuffer = (fun i => if i < c.arity then (x.chanBuffer i).tail else x.chanBuffer i) ∧
        p.lastTagQueue = (if c.keepMode then fun d => x.lastTagQueue d - 1 else x.lastTagQueue) ∨
      ready = false ∧ ∃ n, p = { x with currId := n } := by
  intro p ready
  obtain ⟨n, same⟩ := parallelize_eq (c := c) e x
  have eq : p = if ready then _ else { x with currId := n } := congrArg (pop c downstream) same
  cases is : ready with
  | true =>
    rw [is, if_pos rfl] at eq
    rw [eq]
    exact .inl ⟨rfl, rfl, rfl, rfl⟩
  | false =>
    exact .inr ⟨rfl, n, by rw [eq, is, if_neg Bool.false_ne_true]⟩

/-- After the pop a call of `get` pops nothing. -/
theorem get_popped (up : Nat → Upstream) (downstream : List Nat) (sendable : Bool)
    (data : List Int) (x : Chan) :
    (get c e up downstream sendable data x).1.consumed =
        (pop c downstream (parallelize c e x)).consumed ∧
      (get c e up downstream sendable data x).1.lastTagQueue =
        (pop c downstream (parallelize c e x)).lastTagQueue := by
  obtain ⟨z, filled, ⟨u, updated, eq⟩ | ⟨success, eq⟩⟩ :=
    get_cases (c := c) e up downstream sendable data x
  · have consumed : u.consumed = z.consumed := (congrArg Chan.consumed updated.rest :)
    have queue : u.lastTagQueue = z.lastTagQueue := (congrArg Chan.lastTagQueue updated.rest :)
    rw [eq]
    exact ⟨consumed.trans filled.consumed, queue.trans (congrArg Chan.lastTagQueue filled.rest :)⟩
  · rw [eq]
    exact ⟨filled.consumed, (congrArg Chan.lastTagQueue filled.rest :)⟩

theorem pop_received (e : Clock) (downstream : List Nat) (x : Chan) :
    (pop c downstream (parallelize c e x)).received = x.received := by
  obtain ⟨n, same⟩ := parallelize_eq (c := c) e x
  rw [same, pop, popChannel]
  split_ifs <;> rfl

include keeps plain in
theorem get_joins (joining : Joining c keepAt) (downstream : List Nat) (sendable : Bool)
    (data : List Int) (x : Chan) :
    let r := get c e up downstream sendable data x
    Joins c e up keepAt (pop c downstream (parallelize c e x)) r.1 r.2 := by
  obtain ⟨buffer, received, -⟩ := get_buffers (c := c) e up downstream sendable data x
  have eq : inputs c up data = (List.range c.upNum).map fun i => ((up i).value, i) :=
    if_neg (by simp [joining.noUpstream])
  rw [eq] at buffer received
  have joins := pushAll_joins e keeps plain joining (pop c downstream (parallelize c e x))
  have tags : (get c e up downstream sendable data x).2 =
      (pushAll c e up (pop c downstream (parallelize c e x)) (inputs c up data)).2 := rfl
  rw [eq] at tags
  obtain ⟨at_keep, at_other, kept, others, sent⟩ := joins
  exact ⟨by rw [buffer, at_keep], by rw [buffer, at_other], by rw [received, kept],
    by rw [received, others], tags.trans sent⟩

/-- An element that is not popped stays with its operands. -/
theorem get_holds {x : Chan} (tracked : Tracked c x) (some : x.channel ≠ [])
    (e : Clock) (up : Nat → Upstream) (downstream : List Nat) (sendable : Bool) (data : List Int)
    {n : Nat} (stays : pop c downstream (parallelize c e x) = { x with currId := n }) :
    let y := (get c e up downstream sendable data x).1
    y.channel ≠ [] ∧ fronts c y = fronts c x := by
  have same {z : Chan} (filled : Filled { x with currId := n } z) :
      fronts c z = fronts c x := by
    refine List.map_congr_left fun i mem => ?_
    obtain ⟨d, l, eq⟩ := List.exists_cons_of_ne_nil (tracked.held some i (List.mem_range.mp mem))
    obtain ⟨l', eq'⟩ := filled.front (show ({ x with currId := n } : Chan).chanBuffer i = d :: l from eq)
    simp [eq, eq']
  obtain ⟨z, filled, ⟨u, updated, eq⟩ | ⟨success, eq⟩⟩ :=
    get_cases (c := c) e up downstream sendable data x
  · have buffer : u.chanBuffer = z.chanBuffer := (congrArg Chan.chanBuffer updated.rest :)
    have length := updated.length
    rw [filled.channel, stays] at length
    rw [stays] at filled
    rw [eq]
    refine ⟨?_, ?_⟩
    · show u.channel ≠ []
      have := List.length_pos_iff.mpr some
      apply List.ne_nil_of_length_pos
      dsimp only at length
      omega
    · rw [← same filled]
      simp only [fronts, bpUpdate, buffer]
  · rw [stays] at filled
    rw [eq]
    exact ⟨by simpa [bpUpdate, filled.channel] using some, (same filled : fronts c z = fronts c x)⟩

/-- What was popped together was received at the same position. -/
theorem Tracked.received_joined {x : Chan} (tracked : Tracked c x) {i k : Nat}
    (lt : i < c.arity) {operands : List Data} (at_k : x.consumed[k]? = some operands) :
    (x.received i)[k]? = some (operands.getD i {}) := by
  have bound : k < (x.received i).length :=
    (List.getElem?_eq_some_iff.mp at_k).1.trans_le (tracked.bound i lt)
  rw [tracked.joined k operands at_k, List.getElem?_eq_getElem bound]
  simp [List.getD_eq_getElem?_getD, lt, List.getElem?_eq_getElem bound]

/-- A channel whose upstreams are in keep mode, and that is a loop variable, sends no tags when it
is called. -/
theorem get_loopVar (isLoopVar : c.isLoopVar = true) (downstream : List Nat) (sendable : Bool)
    (data : List Int) (x : Chan) : (get c e up downstream sendable data x).2 = 0 := by
  have none (x : Chan) (data : Int) (i : Nat) : (push c e up x data i).2 = 0 := by
    rw [push_eq, pushBuffer]
    split_ifs <;> simp_all
  show (pushAll c e up _ _).2 = 0
  refine List.foldlRecOn (motive := fun p : Chan × Nat => p.2 = 0) _ _ rfl fun p zero input _ => ?_
  simp only [zero, none]

end Chan

namespace Lse

variable {c : ChanConfig} {lc : LseConfig} (e : Clock) {up : Nat → Upstream}

theorem statusUpdate_received (sendable : Bool) (y : Lse) :
    (statusUpdate c lc e sendable y).1.received = y.received ∧
      (statusUpdate c lc e sendable y).2 =
        if Chan.checkDataMatch c e y.toChan && (reqData c e y).last then 1 else 0 := by
  have pushed : (pushReqQ c lc e y).1.received = y.received ∧
      (pushReqQ c lc e y).2 = if (reqData c e y).last then 1 else 0 := by
    unfold pushReqQ
    dsimp only
    split_ifs <;> exact ⟨rfl, rfl⟩
  have selected (z : Lse) : (select c lc e z).received = z.received := by
    unfold select
    dsimp only
    split_ifs <;> rfl
  have entered (z : Lse) : (pushChannel c lc e z).received = z.received := by
    unfold pushChannel
    dsimp only
    split_ifs <;> rfl
  unfold statusUpdate
  cases matched : Chan.checkDataMatch c e y.toChan
  · simp [entered, selected]
  · simp [entered, selected, pushed]

theorem get_snd (sendable : Bool) (x : Lse) : (get c lc e up sendable x).2 =
    (Chan.pushAll c e up (pop lc { x with toChan := Chan.parallelize c e x.toChan }).toChan
      ((List.range c.upNum).map fun i => ((up i).value, i))).2 +
    let y := arrived c lc e up x
    if y.currId ≤ c.speedup ∨ e.clkAdd = true then (statusUpdate c lc e sendable y).2 else 0 := by
  unfold get arrived
  dsimp only
  split_ifs <;> rfl

theorem get_joins {keepAt : Nat} (keeps : (up keepAt).keepMode = true)
    (plain : (up (other keepAt)).keepMode = false) (joining : Joining c keepAt) (sendable : Bool)
    (x : Lse) :
    let y := arrived c lc e up x
    let r := get c lc e up sendable x
    ∃ tokens, r.1.received (other keepAt) = x.received (other keepAt) ++ tokens ∧
      r.2 = lasts tokens + if (decide (y.currId ≤ c.speedup ∨ e.clkAdd = true) &&
        Chan.checkDataMatch c e y.toChan && (reqData c e y).last) = true then 1 else 0 := by
  intro y r
  let p := pop lc { x with toChan := Chan.parallelize c e x.toChan }
  have popped : p.received = x.received := by
    obtain ⟨n, same⟩ := Chan.parallelize_eq (c := c) e x.toChan
    simp only [p, pop, same]
    split_ifs <;> rfl
  have joins := Chan.pushAll_joins e keeps plain joining p.toChan
  let tokens := Chan.tokens c e up p.toChan keepAt
  have other : y.received (other keepAt) = x.received (other keepAt) ++ tokens :=
    joins.received_other.trans (by rw [popped])
  refine ⟨tokens, ?_, ?_⟩
  · rw [← other]
    show (get c lc e up sendable x).1.received _ = _
    rw [get_fst]
    dsimp only
    split_ifs
    · exact congrFun (statusUpdate_received e sendable y).1 _
    · rfl
  · refine (get_snd e sendable x).trans (congrArg₂ (· + ·) joins.tags ?_)
    dsimp only
    rw [(statusUpdate_received e sendable _).2]
    by_cases awake : (arrived c lc e up x).currId ≤ c.speedup ∨ e.clkAdd = true <;> simp [y, awake]

end Lse

end DataflowSim.Execution
