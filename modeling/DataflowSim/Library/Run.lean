import Mathlib

/-!
# Runs of a partial step function

A run is a monadic fold of the step function over the inputs. The rules below turn what one
step preserves into what every run preserves.
-/

namespace Run

variable {State Input : Type*} {step : State → Input → Option State}

theorem nil_eq_some {s t : State} : [].foldlM step s = some t ↔ s = t := by
  simp [List.foldlM]

theorem cons_eq_some {s t : State} {i : Input} {is : List Input} :
    (i :: is).foldlM step s = some t ↔ ∃ u, step s i = some u ∧ is.foldlM step u = some t := by
  simp only [List.foldlM_cons]
  cases step s i with
  | none => simp
  | some u => simp

theorem append_eq_some {s t : State} {is js : List Input} :
    (is ++ js).foldlM step s = some t ↔
      ∃ u, is.foldlM step s = some u ∧ js.foldlM step u = some t := by
  induction is generalizing s with
  | nil => simp
  | cons i is ih => simp only [List.cons_append, cons_eq_some, ih]; grind

theorem congr {step' : State → Input → Option State} {is : List Input}
    (same : ∀ i ∈ is, ∀ s, step s i = step' s i) (s : State) : is.foldlM step s = is.foldlM step' s := by
  induction is generalizing s with
  | nil => rfl
  | cons i is ih =>
    obtain ⟨here, rest⟩ := List.forall_mem_cons.mp same
    rw [List.foldlM_cons, List.foldlM_cons, here s]
    exact Option.bind_congr fun t _ => ih rest t

/-- A state that no input changes. -/
theorem stationary {s : State} {is : List Input} (same : ∀ i ∈ is, step s i = some s) :
    is.foldlM step s = some s := by
  induction is with
  | nil => rfl
  | cons i is ih =>
    obtain ⟨here, rest⟩ := List.forall_mem_cons.mp same
    exact cons_eq_some.mpr ⟨s, here, ih rest⟩

/-- A property that every step preserves holds at the end of a run. -/
theorem invariant {P : State → Prop} (preserved : ∀ s i t, P s → step s i = some t → P t)
    {s t : State} {is : List Input} (start : P s) (run : is.foldlM step s = some t) : P t := by
  induction is generalizing s with
  | nil => exact nil_eq_some.mp run ▸ start
  | cons i is ih =>
    obtain ⟨u, first, rest⟩ := cons_eq_some.mp run
    exact ih (preserved s i u start first) rest

/-- The same where the inputs are those of a list. -/
theorem invariant_of_mem {P : State → Prop} {is : List Input}
    (preserved : ∀ i ∈ is, ∀ s t, P s → step s i = some t → P t) {s t : State} (start : P s)
    (run : is.foldlM step s = some t) : P t := by
  induction is generalizing s with
  | nil => exact nil_eq_some.mp run ▸ start
  | cons i is ih =>
    obtain ⟨here, later⟩ := List.forall_mem_cons.mp preserved
    obtain ⟨u, first, rest⟩ := cons_eq_some.mp run
    exact ih later (here s u start first) rest

/-- A preorder that relates the ends of every step relates the ends of a run. -/
theorem related {R : State → State → Prop} (refl : ∀ s, R s s)
    (trans : ∀ {s t u}, R s t → R t u → R s u) (stepped : ∀ s i t, step s i = some t → R s t)
    {s t : State} {is : List Input} (run : is.foldlM step s = some t) : R s t := by
  induction is generalizing s with
  | nil => exact nil_eq_some.mp run ▸ refl s
  | cons i is ih =>
    obtain ⟨u, first, rest⟩ := cons_eq_some.mp run
    exact trans (stepped s i u first) (ih rest)

/-- Each step of a run starts from a state with the property. -/
theorem possible {P : State → Prop} {is : List Input}
    (preserved : ∀ i ∈ is, ∀ s t, P s → step s i = some t → P t) {s t : State} (start : P s)
    (run : is.foldlM step s = some t) : ∀ i ∈ is, ∃ u v, P u ∧ step u i = some v := by
  induction is generalizing s with
  | nil => simp
  | cons j is ih =>
    obtain ⟨here, later⟩ := List.forall_mem_cons.mp preserved
    obtain ⟨u, first, rest⟩ := cons_eq_some.mp run
    exact List.forall_mem_cons.mpr ⟨⟨s, u, start, first⟩, ih later (here s u start first) rest⟩

/-- Runs of inner loops, one after the other, are one run. -/
theorem flatMap {Outer : Type*} {outer : List Outer} {inner : Outer → List Input} {s : State} :
    (outer.flatMap inner).foldlM step s = outer.foldlM (fun s o => (inner o).foldlM step s) s := by
  induction outer generalizing s with
  | nil => rfl
  | cons o outer ih => simp [List.foldlM_append, ih]

/-- A run whose steps are all possible reaches its end, with what each of them adds. -/
theorem total {P : List Input → State → Prop} {is : List Input}
    (one : ∀ done i rest s, done ++ i :: rest = is → P done s →
      ∃ t, step s i = some t ∧ P (done ++ [i]) t) {s : State} (start : P [] s) :
    ∃ t, is.foldlM step s = some t ∧ P is t := by
  suffices from_here : ∀ rest done s, done ++ rest = is → P done s →
      ∃ t, rest.foldlM step s = some t ∧ P is t from from_here is [] s rfl start
  intro rest
  induction rest with
  | nil =>
    rintro done s rfl h
    exact ⟨s, rfl, by simpa using h⟩
  | cons i rest ih =>
    intro done s split h
    obtain ⟨t, first, h'⟩ := one done i rest s split h
    obtain ⟨u, run, final⟩ := ih (done ++ [i]) t (by simpa using split) h'
    exact ⟨u, cons_eq_some.mpr ⟨t, first, run⟩, final⟩

/-- A run that goes step by step with a fold of a total function. -/
theorem simulated {Model : Type*} {view : Model → State} {f : Model → Input → Model}
    {is : List Input} (one : ∀ i ∈ is, ∀ m, step (view m) i = some (view (f m i))) (m : Model) :
    is.foldlM step (view m) = some (view (is.foldl f m)) := by
  induction is generalizing m with
  | nil => rfl
  | cons i is ih =>
    obtain ⟨here, rest⟩ := List.forall_mem_cons.mp one
    exact cons_eq_some.mpr ⟨_, here m, ih rest (f m i)⟩

/-- A fold of total steps is a chain of the relation that each of them respects. -/
theorem foldl_chain {R : State → State → Prop} {f : State → Input → State} {P : State → Prop}
    (kept : ∀ s t, R s t → P s → P t) (one : ∀ s i, P s → Relation.ReflTransGen R s (f s i))
    (is : List Input) (s : State) (start : P s) : Relation.ReflTransGen R s (is.foldl f s) := by
  have chain {a b : State} (h : Relation.ReflTransGen R a b) (ha : P a) : P b := by
    induction h with
    | refl => exact ha
    | tail _ step ih => exact kept _ _ step ih
  induction is generalizing s with
  | nil => exact .refl
  | cons i is ih =>
    have first := one s i start
    exact first.trans (ih (f s i) (chain first start))

/-- A view of the state that goes step by step with a total function. -/
theorem viewed {Error View : Type*} {f : State → Input → Except Error State} {view : State → View}
    {g : View → Input → View} (one : ∀ s i t, f s i = .ok t → view t = g (view s) i) {s t : State}
    {is : List Input} (run : is.foldlM f s = .ok t) : view t = is.foldl g (view s) := by
  induction is generalizing s with
  | nil =>
    cases run
    rfl
  | cons i is ih =>
    rw [List.foldlM_cons] at run
    cases first : f s i with
    | error e =>
      rw [first] at run
      cases run
    | ok u =>
      rw [first] at run
      rw [List.foldl_cons, ← one s i u first]
      exact ih run

/-- What no step of a run with errors changes. -/
theorem unchanged {Error View : Type*} {f : State → Input → Except Error State} {view : State → View}
    (one : ∀ s i t, f s i = .ok t → view t = view s) {s t : State} {is : List Input}
    (run : is.foldlM f s = .ok t) : view t = view s := by
  rw [@viewed State Input Error View f view (fun v _ => v) one s t is run, List.foldl_fixed]

/-- Distinct inputs, each of which stays possible until it comes. -/
theorem all_possible {Error : Type*} {f : State → Input → Except Error State} {P : State → Prop}
    {Q : State → Input → Prop}
    (one : ∀ s i, P s → Q s i → ∃ t, f s i = .ok t ∧ P t ∧ ∀ j, j ≠ i → Q s j → Q t j)
    {is : List Input} (distinct : is.Nodup) {s : State} (start : P s) (possible : ∀ i ∈ is, Q s i) :
    ∃ t, is.foldlM f s = .ok t ∧ P t := by
  induction is generalizing s with
  | nil => exact ⟨s, rfl, start⟩
  | cons i is ih =>
    obtain ⟨here, rest⟩ := List.forall_mem_cons.mp possible
    obtain ⟨fresh, distinct⟩ := List.nodup_cons.mp distinct
    obtain ⟨u, first, kept, still⟩ := one s i start here
    have possible : ∀ j ∈ is, Q u j := fun j mem =>
      still j (fun same => fresh (same ▸ mem)) (rest j mem)
    obtain ⟨t, run, final⟩ := ih distinct kept possible
    refine ⟨t, ?_, final⟩
    rw [List.foldlM_cons, first]
    exact run

end Run
