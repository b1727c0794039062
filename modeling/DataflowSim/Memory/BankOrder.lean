import DataflowSim.Memory.Hierarchy

/-!
# The order of a bank

A bank is a queue: requests enter behind the others, and only the head can become ready, leave
for the MSHR or be acknowledged. So what has left a bank entered before all that is still in
it, and a request that was found in the cache is acknowledged before any that entered later.
-/

namespace DataflowSim.Memory.Cache

variable {cfg : Config} {ports : Set Port} {s t : Cache} {l b : Nat}

variable (cfg s t l b) in
/-- How a step can change the requests of a bank. -/
inductive BankChange : List CacheReq → Prop where
  | same : BankChange ((s.level l).reqs b)
  | push (r : CacheReq) (stamp : r.stamp = s.history.length)
      (home : cfg.getCacheBank r.addr l = b) (grown : s.history.length < t.history.length) :
      BankChange ((s.level l).reqs b ++ [r])
  | ready (r : CacheReq) (rest : List CacheReq) (front : (s.level l).reqs b = r :: rest)
      (waits : r.ready = false) : BankChange ({ r with ready := true } :: rest)
  | miss (r : CacheReq) (rest : List CacheReq) (front : (s.level l).reqs b = r :: rest)
      (waits : r.ready = false) : BankChange rest
  | ack (r : CacheReq) (rest : List CacheReq) (front : (s.level l).reqs b = r :: rest)
      (ready : r.ready = true) (event : t.history = s.history ++ [.acked l r]) : BankChange rest

theorem BankChange.enqueued {u : Cache} {r : CacheReq} {k : Nat}
    (grown : s.history.length < t.history.length)
    (same : (u.level l).reqs b = ((enqueue cfg s r k).level l).reqs b) :
    BankChange cfg s t l b ((u.level l).reqs b) := by
  rw [same, enqueue_reqs]
  split_ifs with here
  · obtain ⟨rfl, rfl⟩ := here
    exact .push _ rfl rfl grown
  · exact .same

theorem BankChange.setReady {u : Cache} {r : CacheReq} {rest : List CacheReq} {k i : Nat}
    (same : (u.level l).reqs = (s.level l).reqs) (front : (s.level k).reqs i = r :: rest)
    (waits : r.ready = false) :
    BankChange cfg s t l b (((setFrontReady u k i).level l).reqs b) := by
  rw [setFrontReady_reqs]
  split_ifs with here
  · obtain ⟨rfl, rfl⟩ := here
    rw [same, front]
    exact .ready r rest front waits
  · rw [same]
    exact .same

theorem Step.bank (step : Step cfg ports s t) (l b : Nat) :
    BankChange cfg s t l b ((t.level l).reqs b) := by
  have refl (same : (t.level l).reqs = (s.level l).reqs) :
      BankChange cfg s t l b ((t.level l).reqs b) := same ▸ .same
  cases step with
  | book same => exact refl (same.reqs l)
  | core through req origin waits => exact .enqueued (by simp) rfl
  | hit level bankId index req rest bank front waits resident style =>
    refine .setReady ?_ front waits
    split
    · exact (setDirty_frame s level index l).1
    · rfl
  | through level bankId req rest bank front waits free style =>
    exact .setReady (missToMshr_frame cfg s level l req free).1 front waits
  | miss level bankId req rest bank front waits free =>
    rw [popReq_reqs, (missToMshr_frame cfg s level level req free).1,
      (missToMshr_frame cfg s level l req free).1]
    split_ifs with here
    · obtain ⟨rfl, rfl⟩ := here
      rw [front]
      exact .miss req rest front waits
    · exact .same
  | sendReady level bankId req rest front ready =>
    rw [(pushAck_frame _ _ _ _ _).1, popReq_reqs]
    split_ifs with here
    · obtain ⟨rfl, rfl⟩ := here
      rw [front]
      exact .ack req rest front ready rfl
    · exact .same
  | evict level index bound style dirty send =>
    obtain ⟨inner, rfl⟩ | ⟨last, rfl⟩ := sendBelow_cases send
    · exact .enqueued (by simp) (by rw [(clean_frame ..).1])
    · exact refl (by simp)
  | issue level id bound valid outstanding send =>
    obtain ⟨inner, rfl⟩ | ⟨last, rfl⟩ := sendBelow_cases send
    · exact .enqueued (by simp) (by rw [(clearOutstanding_frame ..).1, record_level])
    · exact refl (by simp)
  | _ => exact refl (by simp)

/-! ## Stamps -/

/-- The stamp of a request is the place of its entry in the history. -/
def Stamped (h : List Event) : Prop :=
  ∀ (i l : Nat) (r : CacheReq), h[i]? = some (.accepted l r) → r.stamp = i

theorem Stamped.snoc {h : List Event} (stamped : Stamped h) {e : Event}
    (last : ∀ l r, e = .accepted l r → r.stamp = h.length) : Stamped (h ++ [e]) := by
  intro i l r found
  obtain old | new := Nat.lt_or_ge i h.length
  · rw [List.getElem?_append_left old] at found
    exact stamped i l r found
  · rw [List.getElem?_append_right new, List.getElem?_singleton] at found
    split_ifs at found with here
    rw [last l r (Option.some.inj found)]
    omega

theorem missToMshr_stamped (stamped : Stamped s.history) {r : CacheReq}
    (free : (s.level l).mshr.seekMshrFreeEntry = true) :
    Stamped (missToMshr cfg s r l).history := by
  obtain ⟨_, eq⟩ | ⟨_, eq⟩ := missToMshr_history cfg r free <;> rw [eq] <;>
    exact stamped.snoc (by simp)

theorem enqueue_stamped (stamped : Stamped s.history) (r : CacheReq) (l : Nat) :
    Stamped (enqueue cfg s r l).history := by
  refine stamped.snoc fun k q same => ?_
  obtain ⟨-, rfl⟩ := Event.accepted.inj same
  rfl

theorem Step.stamped (step : Step cfg ports s t) (stamped : Stamped s.history) :
    Stamped t.history := by
  cases step with
  | book same => rwa [same.history]
  | core through req origin waits => exact enqueue_stamped stamped req 0
  | hit level bankId index req rest bank front waits resident style => split <;> exact stamped
  | through level bankId req rest bank front waits free style =>
    exact missToMshr_stamped stamped free
  | miss level bankId req rest bank front waits free => exact missToMshr_stamped stamped free
  | evict level index bound style dirty send =>
    obtain ⟨inner, rfl⟩ | ⟨last, rfl⟩ := sendBelow_cases send
    · exact (enqueue_stamped stamped _ _).snoc (by simp)
    · exact stamped.snoc (by simp)
  | issue level id bound valid outstanding send =>
    obtain ⟨inner, rfl⟩ | ⟨last, rfl⟩ := sendBelow_cases send
    · exact (enqueue_stamped stamped _ _).snoc (by simp)
    · exact stamped.snoc (by simp)
  | _ => first | exact stamped | exact stamped.snoc (by simp)

theorem Steps.stamped (steps : Steps cfg ports s t) (stamped : Stamped s.history) :
    Stamped t.history :=
  steps.ind (P := fun u => Stamped u.history) (fun _ _ => Step.stamped) stamped

/-! ## What has left a bank -/

/-- The request was acknowledged or sent to the MSHR. -/
def Left (s : Cache) (l : Nat) (q : CacheReq) : Prop :=
  .acked l q ∈ s.history ∨ ∃ id, q ∈ ((s.level l).mshr.mshrTable id).mshrQueue

theorem missToMshr_queue {q r : CacheReq} {k id : Nat}
    (free : (s.level k).mshr.seekMshrFreeEntry = true)
    (mem : q ∈ (((missToMshr cfg s r k).level l).mshr.mshrTable id).mshrQueue) :
    q ∈ ((s.level l).mshr.mshrTable id).mshrQueue ∨ (l = k ∧ q = r) := by
  obtain ⟨i, -, eq⟩ | ⟨i, -, eq⟩ := missToMshr_cases cfg r free <;> rw [eq] at mem <;>
    by_cases here : l = k
  · subst here
    simp only [record_level, setLevel_level, Function.update_self, Mshr.join,
      Mshr.setEntry_mshrTable, Function.update_apply] at mem
    grind
  · simp only [record_level, setLevel_level, Function.update_of_ne here] at mem
    exact .inl mem
  · subst here
    simp only [record_level, setLevel_level, Function.update_self, Mshr.allocate,
      Mshr.setEntry_mshrTable, Function.update_apply] at mem
    grind
  · simp only [record_level, setLevel_level, Function.update_of_ne here] at mem
    exact .inl mem

theorem missToMshr_acked {q r : CacheReq} {k : Nat}
    (free : (s.level k).mshr.seekMshrFreeEntry = true)
    (mem : .acked l q ∈ (missToMshr cfg s r k).history) : .acked l q ∈ s.history := by
  obtain ⟨_, eq⟩ | ⟨_, eq⟩ := missToMshr_history cfg r free <;> simpa [eq] using mem

/-- What left with the head of a bank: the MSHR got the head, or nothing new. -/
theorem missToMshr_left {q r : CacheReq} {k : Nat} (same : t.history = (missToMshr cfg s r k).history)
    (mshr : (t.level l).mshr = ((missToMshr cfg s r k).level l).mshr)
    (free : (s.level k).mshr.seekMshrFreeEntry = true) (left : Left t l q) :
    Left s l q ∨ (l = k ∧ q = r) := by
  obtain acked | ⟨id, mem⟩ := left
  · exact .inl (.inl (missToMshr_acked free (same ▸ acked)))
  · exact (missToMshr_queue free (mshr ▸ mem)).imp_left fun old => .inr ⟨id, old⟩

/-- A request that has left its bank did so before the step, or was the head of its bank. -/
theorem Step.left (step : Step cfg ports s t) (traced : Traced cfg s) {q : CacheReq}
    (left : Left t l q) :
    (∃ p, Left s l p ∧ p.stamp = q.stamp ∧ p.addr = q.addr) ∨
      ∃ b rest, (s.level l).reqs b = q :: rest ∧
        ∀ r ∈ (t.level l).reqs b, r = { q with ready := true } ∨ r ∈ rest := by
  have before (old : Left s l q) : ∃ p, Left s l p ∧ p.stamp = q.stamp ∧ p.addr = q.addr :=
    ⟨q, old, rfl, rfl⟩
  have kept (acked : .acked l q ∈ t.history → .acked l q ∈ s.history)
      (queue : ∀ id, q ∈ ((t.level l).mshr.mshrTable id).mshrQueue →
        q ∈ ((s.level l).mshr.mshrTable id).mshrQueue) :
      ∃ p, Left s l p ∧ p.stamp = q.stamp ∧ p.addr = q.addr :=
    before (left.imp acked fun ⟨id, mem⟩ => ⟨id, queue id mem⟩)
  cases step with
  | book same =>
    exact .inl (kept (by rw [same.history]; exact id) fun id => by rw [same.mshrTable]; exact fun h => h)
  | hit level bankId index req rest bank front waits resident style =>
    refine .inl (kept ?_ fun id => ?_) <;> split <;> simp
  | through level bankId req rest bank front waits free style =>
    have split := missToMshr_left (t := setFrontReady (missToMshr cfg s req level) level bankId)
      rfl (setFrontReady_frame ..).2.2 free left
    obtain old | ⟨rfl, rfl⟩ := split
    · exact .inl (before old)
    · refine .inr ⟨bankId, rest, front, fun r mem => ?_⟩
      rw [setFrontReady_reqs, if_pos ⟨rfl, rfl⟩, (missToMshr_frame cfg s l l q free).1, front] at mem
      exact List.mem_cons.mp mem
  | miss level bankId req rest bank front waits free =>
    have split := missToMshr_left (t := popReq (missToMshr cfg s req level) level bankId)
      rfl (popReq_frame ..).2.2 free left
    obtain old | ⟨rfl, rfl⟩ := split
    · exact .inl (before old)
    · refine .inr ⟨bankId, rest, front, fun r mem => ?_⟩
      rw [popReq_reqs, if_pos ⟨rfl, rfl⟩, (missToMshr_frame cfg s l l q free).1, front] at mem
      exact .inr mem
  | sendReady level bankId req rest front ready =>
    obtain acked | ⟨id, mem⟩ := left
    · simp only [pushAck_history, popReq_history, List.mem_append, List.mem_singleton,
        Event.acked.injEq] at acked
      obtain old | ⟨rfl, rfl⟩ := acked
      · exact .inl (before (.inl old))
      · refine .inr ⟨bankId, rest, front, fun r mem => ?_⟩
        rw [(pushAck_frame ..).1, popReq_reqs, if_pos ⟨rfl, rfl⟩, front] at mem
        exact .inr mem
    · exact .inl (before (.inr ⟨id, by simpa using mem⟩))
  | respond level id valid ready keep =>
    obtain acked | ⟨i, mem⟩ := left
    · simp only [popEntry_history, pushAck_history, List.mem_append, List.mem_singleton,
        Event.acked.injEq] at acked
      obtain old | ⟨rfl, rfl⟩ := acked
      · exact .inl (before (.inl old))
      · exact .inl ⟨_, .inr ⟨id, (traced.mshr l).front_mem valid⟩, rfl, rfl⟩
    · refine .inl (before (.inr ⟨i, ?_⟩))
      simp only [popEntry_mshr, pushAck_frame] at mem
      grind [Mshr.popEntry_table, List.mem_of_mem_tail]
  | drop level id valid ready writeBack =>
    refine .inl (kept (by simp) fun i mem => ?_)
    simp only [popEntry_mshr] at mem
    grind [Mshr.popEntry_table, List.mem_of_mem_tail]
  | setReady level addr origin hit answered =>
    refine .inl (kept (by simp) fun i mem => ?_)
    simp only [setMshrEntryReady_mshr] at mem
    grind [Mshr.setMshrEntryReady]
  | evict level index bound style dirty send =>
    obtain ⟨inner, rfl⟩ | ⟨last, rfl⟩ := sendBelow_cases send <;>
      exact .inl (kept (by simp) fun id => by simp)
  | issue level id bound valid outstanding send =>
    refine .inl (kept ?_ fun i mem => ?_)
    · obtain ⟨inner, rfl⟩ | ⟨last, rfl⟩ := sendBelow_cases send <;> simp
    · rw [clearOutstanding_mshr, record_level, sendBelow_mshr send, sendBelow_mshr send] at mem
      split_ifs at mem with here
      · subst here
        simp only [Mshr.clearOutstandingFlag, List.foldl_cons, List.foldl_nil,
          Mshr.setEntry_mshrTable, Function.update_apply] at mem
        grind
      · exact mem
  | _ => exact .inl (kept (by simp) fun id => by simp)

/-! ## The queue discipline -/

/-- Every bank holds requests of its own in the order in which they entered, behind all that
have left it. Only a request whose copy went to the MSHR is as old as one that has left. -/
structure Lined (cfg : Config) (s : Cache) : Prop where
  home : ∀ l b, ∀ r ∈ (s.level l).reqs b, cfg.getCacheBank r.addr l = b
  inOrder : ∀ l b, ((s.level l).reqs b).Pairwise (·.stamp < ·.stamp)
  entered : ∀ l b, ∀ r ∈ (s.level l).reqs b, r.stamp < s.history.length
  gone : ∀ l q, Left s l q → q.stamp < s.history.length
  behind : ∀ l q, Left s l q → ∀ r ∈ (s.level l).reqs (cfg.getCacheBank q.addr l),
    q.stamp < r.stamp ∨ (q.stamp = r.stamp ∧ r.ready = true)

theorem init_lined : Lined cfg (init cfg) := by
  constructor <;> simp [init, Level.reqs, Left]

/-- A request of a bank was there before the step, became ready, or has just entered. -/
theorem BankChange.mem {rs : List CacheReq} (change : BankChange cfg s t l b rs) {r : CacheReq}
    (mem : r ∈ rs) :
    (∃ p ∈ (s.level l).reqs b, p.stamp = r.stamp ∧ p.addr = r.addr ∧
        (p.ready = true → r.ready = true)) ∨
      r.stamp = s.history.length ∧ cfg.getCacheBank r.addr l = b ∧
        s.history.length < t.history.length := by
  cases change with
  | same => exact .inl ⟨r, mem, rfl, rfl, id⟩
  | push q stamp home grown =>
    obtain old | rfl := by simpa using mem
    · exact .inl ⟨r, old, rfl, rfl, id⟩
    · exact .inr ⟨stamp, home, grown⟩
  | ready q rest front waits =>
    rw [front]
    obtain rfl | old := List.mem_cons.mp mem
    · exact .inl ⟨q, List.mem_cons_self, rfl, rfl, fun _ => rfl⟩
    · exact .inl ⟨r, List.mem_cons_of_mem q old, rfl, rfl, id⟩
  | miss q rest front waits => exact .inl ⟨r, front ▸ List.mem_cons_of_mem q mem, rfl, rfl, id⟩
  | ack q rest front ready event =>
    exact .inl ⟨r, front ▸ List.mem_cons_of_mem q mem, rfl, rfl, id⟩

theorem Step.lined_inOrder (step : Step cfg ports s t) (h : Lined cfg s) (l b : Nat) :
    ((t.level l).reqs b).Pairwise (·.stamp < ·.stamp) := by
  have sorted := h.inOrder l b
  have change := step.bank l b
  generalize (t.level l).reqs b = rs at change
  cases change with
  | same => exact sorted
  | push r stamp home grown =>
    refine List.pairwise_append.mpr ⟨sorted, List.pairwise_singleton _ _, fun p mem q new => ?_⟩
    obtain rfl := List.mem_singleton.mp new
    exact stamp ▸ h.entered l b p mem
  | ready r rest front waits =>
    rw [front, List.pairwise_cons] at sorted
    exact List.pairwise_cons.mpr sorted
  | miss r rest front waits =>
    rw [front] at sorted
    exact sorted.of_cons
  | ack r rest front ready event =>
    rw [front] at sorted
    exact sorted.of_cons

theorem Step.lined_behind (step : Step cfg ports s t) (traced : Traced cfg s) (h : Lined cfg s)
    {q r : CacheReq} (left : Left t l q)
    (mem : r ∈ (t.level l).reqs (cfg.getCacheBank q.addr l)) :
    q.stamp < r.stamp ∨ (q.stamp = r.stamp ∧ r.ready = true) := by
  obtain ⟨p, old, stamp, addr⟩ | ⟨b, rest, front, stays⟩ := step.left traced left
  · rw [← stamp]
    obtain ⟨o, was, same, -, ready⟩ | ⟨new, -, -⟩ := (step.bank _ _).mem mem
    · rw [← same]
      rw [← addr] at was
      exact (h.behind l p old o was).imp_right fun tie => ⟨tie.1, ready tie.2⟩
    · exact .inl (new ▸ h.gone l p old)
  · -- the head of the bank has left, so what remains entered later
    have home := h.home l b q (front ▸ List.mem_cons_self)
    have sorted := h.inOrder l b
    rw [front, List.pairwise_cons] at sorted
    rw [home] at mem
    obtain rfl | later := stays r mem
    · exact .inr ⟨rfl, rfl⟩
    · exact .inl (sorted.1 r later)

theorem Step.lined (step : Step cfg ports s t) (traced : Traced cfg s) (h : Lined cfg s) :
    Lined cfg t := by
  have longer := step.history_grows.length_le
  refine ⟨fun l b r mem => ?_, step.lined_inOrder h, fun l b r mem => ?_, fun l q left => ?_,
    fun l q left r mem => step.lined_behind traced h left mem⟩
  · obtain ⟨p, old, -, addr, -⟩ | ⟨-, home, -⟩ := (step.bank l b).mem mem
    · exact addr ▸ h.home l b p old
    · exact home
  · obtain ⟨p, old, stamp, -⟩ | ⟨new, -, grown⟩ := (step.bank l b).mem mem
    · exact stamp ▸ (h.entered l b p old).trans_le longer
    · omega
  · obtain ⟨p, old, stamp, -⟩ | ⟨b, rest, front, -⟩ := step.left traced left
    · exact stamp ▸ (h.gone l p old).trans_le longer
    · exact (h.entered l b q (front ▸ List.mem_cons_self)).trans_le longer

theorem Steps.lined (steps : Steps cfg ports s t) (traced : Traced cfg s) (h : Lined cfg s) :
    Traced cfg t ∧ Lined cfg t :=
  steps.ind (P := fun u => Traced cfg u ∧ Lined cfg u)
    (fun _ _ step ⟨traced, lined⟩ => ⟨step.traced traced, step.lined traced lined⟩) ⟨traced, h⟩

/-! ## Acks in order -/

variable (cfg) in
/-- The request was acknowledged before any that entered its bank later. -/
def AckedFirst (h : List Event) (l b : Nat) (r : CacheReq) : Prop :=
  ∃ h₁ h₂, h = h₁ ++ .acked l r :: h₂ ∧
    ∀ q, .acked l q ∈ h₁ → cfg.getCacheBank q.addr l = b → q.stamp ≤ r.stamp

theorem AckedFirst.mono {h k : List Event} {r : CacheReq} (first : AckedFirst cfg h l b r)
    (pre : h <+: k) : AckedFirst cfg k l b r := by
  obtain ⟨h₁, h₂, rfl, older⟩ := first
  obtain ⟨more, rfl⟩ := pre
  exact ⟨h₁, h₂ ++ more, by simp, older⟩

/-- A ready head stays at the head of its bank until it is acknowledged. -/
theorem Step.head (step : Step cfg ports s t) (h : Lined cfg s) {r : CacheReq}
    {rest : List CacheReq} (ready : r.ready = true) (front : (s.level l).reqs b = r :: rest) :
    (∃ rest, (t.level l).reqs b = r :: rest) ∨ AckedFirst cfg t.history l b r := by
  have change := step.bank l b
  generalize (t.level l).reqs b = rs at change ⊢
  cases change with
  | same => exact .inl ⟨rest, front⟩
  | push q stamp home grown => exact .inl ⟨rest ++ [q], by rw [front, List.cons_append]⟩
  | ready q others front' waits =>
    obtain rfl := (List.cons.inj (front.symm.trans front')).1
    simp [ready] at waits
  | miss q others front' waits =>
    obtain rfl := (List.cons.inj (front.symm.trans front')).1
    simp [ready] at waits
  | ack q others front' was event =>
    obtain rfl := (List.cons.inj (front.symm.trans front')).1
    refine .inr ⟨s.history, [], event, fun q acked home => ?_⟩
    obtain less | ⟨tie, -⟩ := h.behind l q (.inl acked) r (by rw [home, front]; simp)
    · exact less.le
    · exact tie.le

theorem Steps.head (steps : Steps cfg ports s t) (traced : Traced cfg s) (h : Lined cfg s)
    {r : CacheReq} {rest : List CacheReq} (ready : r.ready = true)
    (front : (s.level l).reqs b = r :: rest) :
    (∃ rest, (t.level l).reqs b = r :: rest) ∨ AckedFirst cfg t.history l b r := by
  refine (steps.ind (P := fun u => (Traced cfg u ∧ Lined cfg u) ∧
    ((∃ rest, (u.level l).reqs b = r :: rest) ∨ AckedFirst cfg u.history l b r)) ?_
    ⟨⟨traced, h⟩, .inl ⟨rest, front⟩⟩).2
  rintro u v step ⟨⟨traced, lined⟩, ⟨rest, front⟩ | first⟩
  · exact ⟨⟨step.traced traced, step.lined traced lined⟩, step.head lined ready front⟩
  · exact ⟨⟨step.traced traced, step.lined traced lined⟩, .inr (first.mono step.history_grows)⟩

/-- While a ready request is at the head of its bank, and from then on, an ack of a request
that entered the bank later comes after its own. -/
theorem Steps.acks_inOrder (steps : Steps cfg ports s t) (traced : Traced cfg s) (h : Lined cfg s)
    {r q : CacheReq} {rest : List CacheReq} (ready : r.ready = true)
    (front : (s.level l).reqs b = r :: rest) {j : Nat}
    (acked : t.history[j]? = some (.acked l q)) (home : cfg.getCacheBank q.addr l = b)
    (later : r.stamp < q.stamp) : ∃ i < j, t.history[i]? = some (.acked l r) := by
  obtain ⟨rest, front⟩ | ⟨h₁, h₂, history, older⟩ := steps.head traced h ready front
  · -- an ack of a later request would have left the bank behind it
    have lined := (steps.lined traced h).2
    have := lined.behind l q (.inl (List.mem_of_getElem? acked)) r (by rw [home, front]; simp)
    omega
  · refine ⟨h₁.length, ?_, by rw [history]; simp⟩
    rw [history] at acked
    by_contra early
    obtain before | rfl : j < h₁.length ∨ j = h₁.length := by omega
    · rw [List.getElem?_append_left before] at acked
      have := older q (List.mem_of_getElem? acked) home
      omega
    · simp only [List.getElem?_append_right le_rfl, Nat.sub_self, List.getElem?_cons_zero,
        Option.some.injEq, Event.acked.injEq, true_and] at acked
      simp [acked] at later

end DataflowSim.Memory.Cache
