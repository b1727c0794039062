import DataflowSim.Execution.Channel
import DataflowSim.Library.Pipeline

/-!
# Tagged channels

`ChanSGMF` of `Channel.cpp`. Each buffer has `size` slots, `tagSize` for each round; a datum
enters the slot of its tag in the first round and moves up to the last one, where it is
matched with the data of the same tag in the other buffers. The buffer of an upstream in keep
mode only uses its first slot.
-/

namespace DataflowSim.Execution

/-- A slot of a buffer. `source` is the datum that `ChanBase` would have stored; no function
reads it. -/
structure Slot extends Data where
  source : Data := {}

structure SGMFConfig extends ChanConfig where
  tagSize : Nat
  tagUpdateMode : Bool := false
  /-- Whether an upstream is in keep mode, and whether it is a condition. -/
  upKeep : Nat → Bool := fun _ => false
  upCond : Nat → Bool := fun _ => false
  tagSize_pos : 0 < tagSize
  tagSize_le : tagSize ≤ size
  upNum_pos : noUpstream = false → 0 < upNum

namespace SGMFConfig

variable (c : SGMFConfig)

def round : Nat := c.size / c.tagSize

/-- The buffer belongs to an upstream in keep mode. -/
def keeps (bufferId : Nat) : Bool := !c.noUpstream && c.upKeep bufferId

/-- The slot in which the data of a buffer are matched. -/
def addr (tag bufferId : Nat) : Nat :=
  if c.keeps bufferId then 0 else (c.round - 1) * c.tagSize + tag

/-- The data of an upstream in keep mode have no tags. -/
def tagOf (tag bufferId : Nat) : Nat := if c.keeps bufferId then 0 else tag

end SGMFConfig

/-- What an upstream shows. -/
structure Offer where
  valid : Bool := false
  value : Int := 0
  front : Data := {}

/-- An element of the output channel with the data it was formed of. -/
structure Element where
  data : Data
  operands : Nat → Data

/-- `accepted` and `consumed` record what was stored and what was popped for each buffer and
tag, `elements` what was put into the output channel, and `lastTags` the calls of
`sendLastTag`; no function reads them. -/
structure ChanSGMF where
  chanBuffer : Nat → Nat → Slot := fun _ _ => {}
  channel : List Data := []
  matchQueue : List Data := []
  bp : Nat → Bool := fun _ => false
  valid : Bool := false
  lastTagQueue : Nat → Nat := fun _ => 0
  lastPopVal : Nat → Int := fun _ => 0
  chanDataCnt : Nat := 0
  accepted : Nat → Nat → List Data := fun _ _ => []
  consumed : Nat → Nat → List Data := fun _ _ => []
  elements : List Element := []
  lastTags : Nat := 0

namespace ChanSGMF

variable (c : SGMFConfig) (e : Clock) (offers : Nat → Offer)

/-- An upstream as a `ChanBase` sees it. -/
def upstream (bufferId : Nat) : Upstream where
  valid := (offers bufferId).valid
  value := (offers bufferId).value
  front := (offers bufferId).front
  keepMode := c.upKeep bufferId
  isCond := c.upCond bufferId

/-- The slot in which the operand of a buffer is matched. -/
def operand (x : ChanSGMF) (tag bufferId : Nat) : Slot := x.chanBuffer bufferId (c.addr tag bufferId)

/-! ## Push -/

def checkUpstream (x : ChanSGMF) (bufferId tag : Nat) : Bool :=
  if c.noUpstream then !(x.chanBuffer bufferId tag).valid
  else (offers bufferId).valid && (!c.drainMode || (offers bufferId).front.last)

/-- The tag of a datum when it is stored. -/
def bufferTag (bufferId tag : Nat) : Nat :=
  let tag :=
    if c.noUpstream then tag
    else if c.upKeep bufferId then 0 else (offers bufferId).front.tag
  if c.tagUpdateMode then (tag + 1) % c.tagSize else tag

/-- The inner declaration of `data` in `pushBuffer` hides the outer one, so nothing of the
upstream's datum but its value and tag is stored. -/
def bufferData (data : Int) (bufferId tag : Nat) : Slot :=
  let d : Data := { valid := true, value := data }
  { d with
    cycle := if c.branchMode && !d.cond then e.clk else e.clk + c.cycle
    tag := bufferTag c offers bufferId tag
    source :=
      if c.noUpstream then { valid := true, value := data, cycle := e.clk + c.cycle }
      else Chan.pushData c.toChanConfig e (upstream c offers) data bufferId }

def store (x : ChanSGMF) (bufferId addr : Nat) (d : Slot) : ChanSGMF :=
  { x with
    chanBuffer := Function.update x.chanBuffer bufferId
      (Function.update (x.chanBuffer bufferId) addr d)
    accepted := Function.update x.accepted bufferId
      (Function.update (x.accepted bufferId) addr (x.accepted bufferId addr ++ [d.source])) }

def pushBuffer (x : ChanSGMF) (data : Int) (bufferId tag : Nat) : ChanSGMF :=
  let d := bufferData c e offers data bufferId tag
  if c.keeps bufferId then
    if !(x.chanBuffer bufferId 0).valid then x.store bufferId 0 d else x
  else x.store bufferId (bufferTag c offers bufferId tag) d

def push (x : ChanSGMF) (data : Int) (bufferId tag : Nat) : ChanSGMF :=
  if checkUpstream c offers x bufferId tag then pushBuffer c e offers x data bufferId tag else x

/-- What one `get` pushes: the value, the buffer and the tag of each datum. -/
def inputs (data : List Int) (tag : Nat) : List (Int × Nat × Nat) :=
  (List.range c.arity).map fun i =>
    if c.noUpstream then (data.getD i 0, i, tag) else ((offers i).value, i, 0)

def pushAll (x : ChanSGMF) (inputs : List (Int × Nat × Nat)) : ChanSGMF :=
  inputs.foldl (fun x input => push c e offers x input.1 input.2.1 input.2.2) x

/-! ## Pop -/

/-- `ChanBase::popLastCheck`. -/
def popLastCheck (downstream : List Nat) (x : ChanSGMF) : Bool :=
  c.noDownstream || !c.keepMode || downstream.all fun d => 0 < x.lastTagQueue d

def popChannel (x : ChanSGMF) (popReady popLastReady : Bool) : ChanSGMF :=
  if popReady && (!c.keepMode || popLastReady) then
    let tag := (x.channel.headD {}).tag
    let popped i := operand c x tag i
    { x with
      channel := x.channel.tail
      chanBuffer := fun i =>
        if i < c.arity then
          Function.update (x.chanBuffer i) (c.addr tag i) { popped i with valid := false }
        else x.chanBuffer i
      lastPopVal := fun i => if i < c.arity then (popped i).value else x.lastPopVal i
      matchQueue := x.matchQueue.filter fun d => d.tag != tag
      lastTagQueue := if c.keepMode then fun d => x.lastTagQueue d - 1 else x.lastTagQueue
      consumed := fun i =>
        if i < c.arity then
          Function.update (x.consumed i) (c.tagOf tag i)
            (x.consumed i (c.tagOf tag i) ++ [(popped i).source])
        else x.consumed i }
  else x

def pop (downstream : List Nat) (x : ChanSGMF) : ChanSGMF :=
  popChannel c x x.valid (popLastCheck c downstream x)

/-! ## Status -/

/-- A datum moves up a round, if the slot there is free. -/
def move (tag : Nat) (buffer : Nat → Slot) (addrBase : Nat) : Nat → Slot :=
  if !(buffer (addrBase + c.tagSize + tag)).valid && (buffer (addrBase + tag)).valid then
    Function.update
      (Function.update buffer (addrBase + c.tagSize + tag) (buffer (addrBase + tag)))
      (addrBase + tag) { buffer (addrBase + tag) with valid := false }
  else buffer

/-- The data of one tag move, those of the last rounds first. -/
def shiftTag (buffer : Nat → Slot) (tag : Nat) : Nat → Slot :=
  (List.range (c.round - 1)).foldl
    (fun buffer i => move c tag buffer ((c.round - 2 - i) * c.tagSize)) buffer

def shiftDataInChanBuffer (x : ChanSGMF) : ChanSGMF :=
  { x with
    chanBuffer := fun i =>
      if i < c.arity ∧ c.keeps i = false then
        (List.range c.tagSize).foldl (shiftTag c) (x.chanBuffer i)
      else x.chanBuffer i }

/-- Each buffer has a datum of this tag. -/
def tagMatch (x : ChanSGMF) (tag : Nat) : Bool :=
  (List.range c.arity).all fun i => (operand c x tag i).valid

def matchData (x : ChanSGMF) (tag : Nat) : Data where
  valid := true
  cycle := (List.range c.arity).foldl (fun cycle i => max cycle (operand c x tag i).cycle) 0
  tag := tag

def checkTagMatch (x : ChanSGMF) : ChanSGMF :=
  { x with
    matchQueue := (List.range c.tagSize).foldl (fun queue tag =>
      if tagMatch c x tag && !queue.any (·.tag == tag) then queue ++ [matchData c x tag]
      else queue) x.matchQueue }

/-- The flags are those in the slots of the first round. -/
def updateDataStatus (x : ChanSGMF) (tag : Nat) (data : Data) : Data :=
  (List.range c.arity).foldl (fun data i =>
    let slot := x.chanBuffer i tag
    let front := x.chanBuffer i 0
    if !c.upKeep i && !c.drainMode then
      { data with last := data.last || slot.last, lastOuter := data.lastOuter || slot.lastOuter }
    else if front.last && front.lastOuter && c.isLoopVar then { data with lastOuter := true }
    else data) data

/-- The buffer whose condition an element gets. -/
def condChan : Nat :=
  let condChan := if c.branchMode then (List.range c.upNum).find? c.upCond else none
  condChan.getD 0

def pushChannel (x : ChanSGMF) (tag : Nat) : ChanSGMF :=
  let data : Data :=
    if c.noUpstream then { tag := tag, valid := true, cycle := e.clk }
    else
      { updateDataStatus c x tag { valid := true, tag := tag } with
        cond := (x.chanBuffer (condChan c) tag).cond }
  { x with
    channel := x.channel ++ [data]
    elements := x.elements ++ [{ data, operands := fun i => (operand c x tag i).source }]
    lastTags := if !c.noUpstream && data.last then x.lastTags + 1 else x.lastTags }

/-- The element in the output channel is valid for all downstreams. -/
def present (x : ChanSGMF) : ChanSGMF :=
  { x with
    valid := !x.channel.isEmpty
    channel :=
      match x.channel with
      | [] => []
      | d :: rest => { d with cycle := e.clk } :: rest
    chanDataCnt := if x.channel.isEmpty then x.chanDataCnt else x.chanDataCnt + 1 }

/-- `sendable` tells whether `checkSend` of every downstream accepts a tag. -/
def statusUpdate (sendable : Nat → Bool) (x : ChanSGMF) : ChanSGMF :=
  let x := checkTagMatch c (shiftDataInChanBuffer c x)
  present e <|
    if !c.noDownstream && x.channel.isEmpty then
      match x.matchQueue.find? fun d => d.cycle ≤ e.clk && (c.keepMode || sendable d.tag) with
      | some d => pushChannel c e x d.tag
      | none => x
    else x

/-- `ChanSGMF::get()`, and `ChanSGMF::get(data, tag)` for a channel without upstreams. -/
def get (downstream : List Nat) (sendable : Nat → Bool) (data : List Int) (tag : Nat)
    (x : ChanSGMF) : ChanSGMF :=
  statusUpdate c e sendable (pushAll c e offers (pop c downstream x) (inputs c offers data tag))

/-- An upstream asks whether it may send a datum with this tag. -/
def checkSend (x : ChanSGMF) (tag bufferId : Nat) : Bool :=
  !x.bp bufferId &&
    let tag := if c.tagUpdateMode then (tag + 1) % c.tagSize else tag
    !(x.chanBuffer bufferId tag).valid ||
      !c.keepMode && x.valid && (x.channel.headD {}).tag == tag

def assign (x : ChanSGMF) (bufferId : Nat) : Int :=
  match x.channel with
  | [] => x.lastPopVal bufferId
  | d :: _ => (operand c x d.tag bufferId).value

/-! ## Runs -/

/-- What a call of `get` meets. -/
structure Input where
  e : Clock
  offers : Nat → Offer := fun _ => {}
  downstream : List Nat := []
  sendable : Nat → Bool
  data : List Int := []
  tag : Nat := 0

def update (i : Input) (x : ChanSGMF) : ChanSGMF :=
  get c i.e i.offers i.downstream i.sendable i.data i.tag x

/-- The runs whose calls are all allowed; between two calls the downstreams may send last tags,
and a mux may set the back-pressure flags. -/
inductive Reachable (P : Input → ChanSGMF → Prop) : ChanSGMF → Prop
  | init : Reachable P {}
  | update {s} (i : Input) (allowed : P i s) : Reachable P s → Reachable P (update c i s)
  | tag {s} (lastTagQueue : Nat → Nat) :
      Reachable P s → Reachable P { s with lastTagQueue := lastTagQueue }
  | press {s} (bp : Nat → Bool) : Reachable P s → Reachable P { s with bp := bp }

/-! ## What each function changes -/

theorem pop_rest (downstream : List Nat) (x : ChanSGMF) : pop c downstream x =
    { pop c downstream x with
      bp := x.bp, valid := x.valid, chanDataCnt := x.chanDataCnt, accepted := x.accepted
      elements := x.elements, lastTags := x.lastTags } := by
  by_cases ready : (x.valid && (!c.keepMode || popLastCheck c downstream x)) = true
  · simp only [pop, popChannel, if_pos ready]
  · simp only [pop, popChannel, if_neg ready]

theorem push_rest (x : ChanSGMF) (data : Int) (bufferId tag : Nat) :
    push c e offers x data bufferId tag = { x with
      chanBuffer := (push c e offers x data bufferId tag).chanBuffer
      accepted := (push c e offers x data bufferId tag).accepted } := by
  unfold push pushBuffer
  split_ifs <;> rfl

theorem pushAll_rest (x : ChanSGMF) (inputs : List (Int × Nat × Nat)) :
    pushAll c e offers x inputs = { x with
      chanBuffer := (pushAll c e offers x inputs).chanBuffer
      accepted := (pushAll c e offers x inputs).accepted } := by
  induction inputs generalizing x with
  | nil => rfl
  | cons input inputs ih =>
    have rest := ih (push c e offers x input.1 input.2.1 input.2.2)
    have step := push_rest c e offers x input.1 input.2.1 input.2.2
    have unfold : pushAll c e offers x (input :: inputs) =
        pushAll c e offers (push c e offers x input.1 input.2.1 input.2.2) inputs := rfl
    rw [unfold]
    generalize push c e offers x input.1 input.2.1 input.2.2 = y at rest step
    exact rest.trans (by rw [step])

/-! ## Slots -/

variable {c} {Q : Nat → Slot → Prop} {x : ChanSGMF}

/-- What holds of the data that are stored holds of every slot. -/
def All (Q : Nat → Slot → Prop) (x : ChanSGMF) : Prop := ∀ i a, Q i (x.chanBuffer i a)

theorem All.store (h : All Q x) {i : Nat} (a : Nat) {d : Slot} (new : Q i d) :
    All Q (x.store i a d) := by
  intro j b
  by_cases eq : j = i
  · subst eq
    by_cases same : b = a
    · simpa [ChanSGMF.store, same] using new
    · simpa [ChanSGMF.store, same] using h j b
  · simpa [ChanSGMF.store, eq] using h j b

theorem All.push (h : All Q x) {data : Int} {i tag : Nat}
    (new : Q i (bufferData c e offers data i tag)) : All Q (push c e offers x data i tag) := by
  unfold ChanSGMF.push pushBuffer
  split_ifs
  · exact h.store _ new
  · exact h
  · exact h.store _ new
  · exact h

variable (hide : ∀ i (d : Slot), Q i d → Q i { d with valid := false })

include hide

theorem All.popChannel (h : All Q x) (popReady popLastReady : Bool) :
    All Q (popChannel c x popReady popLastReady) := by
  by_cases ready : (popReady && (!c.keepMode || popLastReady)) = true
  · intro i a
    rw [ChanSGMF.popChannel, if_pos ready]
    by_cases lt : i < c.arity
    · simp only [lt, if_true]
      by_cases eq : a = c.addr (x.channel.headD {}).tag i
      · rw [eq, Function.update_self]
        exact hide i _ (h i _)
      · rw [Function.update_of_ne eq]
        exact h i a
    · simpa only [lt, if_false] using h i a
  · rw [ChanSGMF.popChannel, if_neg ready]
    exact h

theorem shiftTag_all {i : Nat} {buffer : Nat → Slot} (h : ∀ a, Q i (buffer a)) (tag a : Nat) :
    Q i (shiftTag c buffer tag a) := by
  refine List.foldlRecOn (motive := fun (buffer : Nat → Slot) => ∀ a, Q i (buffer a)) _ _ h
    (fun buffer h r _ => ?_) a
  intro a
  dsimp only [move]
  split_ifs
  · simp only [Function.update_apply]
    split_ifs
    · exact hide i _ (h _)
    · exact h _
    · exact h a
  · exact h a

theorem All.shift (h : All Q x) : All Q (shiftDataInChanBuffer c x) := by
  intro i a
  simp only [shiftDataInChanBuffer]
  split_ifs
  · exact List.foldlRecOn (motive := fun (buffer : Nat → Slot) => ∀ a, Q i (buffer a)) _ _ (h i)
      (fun buffer h tag _ => shiftTag_all hide h tag) a
  · exact h i a

omit hide in
/-- At most one matched tag is put into the output channel, when it is empty. -/
theorem statusUpdate_cases (sendable : Nat → Bool) (x : ChanSGMF) :
    let y := checkTagMatch c (shiftDataInChanBuffer c x)
    statusUpdate c e sendable x = present e y ∨
      y.channel = [] ∧ ∃ d ∈ y.matchQueue, statusUpdate c e sendable x =
        present e (pushChannel c e y d.tag) := by
  intro y
  simp only [statusUpdate]
  split_ifs with free
  · cases found : y.matchQueue.find? fun d => d.cycle ≤ e.clk && (c.keepMode || sendable d.tag) with
    | none => exact .inl rfl
    | some d =>
      refine .inr ⟨?_, d, List.mem_of_find?_eq_some found, rfl⟩
      simpa using (Bool.and_eq_true_iff.mp free).2
  · exact .inl rfl

omit hide in
theorem All.pushAll (h : All Q x) (new : ∀ data i tag, Q i (bufferData c e offers data i tag))
    (inputs : List (Int × Nat × Nat)) : All Q (pushAll c e offers x inputs) :=
  List.foldlRecOn (motive := All Q) _ _ h fun _ h _ _ => h.push e offers (new _ _ _)

end ChanSGMF

end DataflowSim.Execution
