import Mathlib

/-!
# Dataflow graphs

The meaning of an acyclic graph of operators: what an operator emits at position `k` of its
stream depends on what its upstreams emit at position `k`, and on nothing else. A stream ends
when one of the inputs it depends on does.
-/

/-- An acyclic graph; an operator without upstreams is fed with an input stream. -/
structure Dataflow (V α : Type*) where
  upstream : V → List V
  op : V → List α → α
  input : V → Nat → Option α
  rank : V → Nat
  acyclic : ∀ v, ∀ u ∈ upstream v, rank u < rank v

namespace Dataflow

variable {V α : Type*} (g : Dataflow V α)

/-- The operands at position `k`, for operators of rank below `n`. -/
def operandsBelow : Nat → V → Nat → Option (List α)
  | 0, _, _ => none
  | n + 1, v, k =>
    match g.upstream v with
    | [] => (g.input v k).map ([·])
    | us => us.mapM fun u => (operandsBelow n u k).map (g.op u)

/-- The operands of an operator at position `k`. -/
def operands (v : V) (k : Nat) : Option (List α) := g.operandsBelow (g.rank v + 1) v k

/-- What an operator emits at position `k`. -/
def stream (v : V) (k : Nat) : Option α := (g.operands v k).map (g.op v)

variable {g}

theorem mapM_congr {β γ : Type*} {l : List β} {f f' : β → Option γ}
    (same : ∀ b ∈ l, f b = f' b) : l.mapM f = l.mapM f' := by
  induction l with
  | nil => rfl
  | cons b l ih =>
    rw [List.mapM_cons, List.mapM_cons, same b (.head _), ih fun b mem => same b (.tail _ mem)]

theorem mapM_eq_some {β γ : Type*} {l : List β} {f : β → Option γ} {cs : List γ} :
    l.mapM f = some cs ↔ l.map f = cs.map some := by
  induction l generalizing cs with
  | nil => cases cs <;> simp
  | cons b l ih =>
    rw [List.mapM_cons, List.map_cons]
    constructor
    · intro h
      simp only [Option.bind_eq_bind, Option.bind_eq_some_iff, Option.pure_def,
        Option.some.injEq] at h
      obtain ⟨c, first, cs', rest, rfl⟩ := h
      rw [first, ih.mp rest, List.map_cons]
    · intro h
      cases cs with
      | nil => simp at h
      | cons c cs =>
        obtain ⟨first, rest⟩ := List.cons.inj h
        rw [first, ih.mpr rest]
        rfl

/-- The bound on the ranks does not matter. -/
theorem operandsBelow_eq {n m : Nat} {v : V} (lt : g.rank v < n) (lt' : g.rank v < m) (k : Nat) :
    g.operandsBelow n v k = g.operandsBelow m v k := by
  induction n generalizing v m with
  | zero => omega
  | succ n ih =>
    cases m with
    | zero => omega
    | succ m =>
      simp only [operandsBelow]
      cases us : g.upstream v with
      | nil => rfl
      | cons u us' =>
        refine mapM_congr fun w mem => ?_
        have less := g.acyclic v w (us ▸ mem)
        rw [ih (show g.rank w < n by omega) (show g.rank w < m by omega)]

theorem operands_source {v : V} (source : g.upstream v = []) (k : Nat) :
    g.operands v k = (g.input v k).map ([·]) := by
  simp only [operands, operandsBelow, source]

/-- The operands of an operator are the positional join of the streams of its upstreams. -/
theorem operands_join {v : V} (join : g.upstream v ≠ []) (k : Nat) :
    g.operands v k = (g.upstream v).mapM (g.stream · k) := by
  rw [operands, operandsBelow]
  split
  · contradiction
  · refine mapM_congr fun u mem => ?_
    rw [stream, operands, operandsBelow_eq (g.acyclic v u mem) (Nat.lt_succ_self _)]

/-! ## Graphs with relays -/

variable {W : Type*} {f : Dataflow W α} {R : W → V → Prop}

/-- `w` does to the same operands what `v` does. -/
structure Copies (f : Dataflow W α) (g : Dataflow V α) (R : W → V → Prop) (w : W) (v : V) : Prop where
  upstream : List.Forall₂ R (f.upstream w) (g.upstream v)
  op : f.op w = g.op v
  input : f.upstream w = [] → f.input w = g.input v

/-- `w` hands on what another operator emits that stands for the same one. -/
def Relays (f : Dataflow W α) (R : W → V → Prop) (w : W) (v : V) : Prop :=
  ∃ u, f.upstream w = [u] ∧ R u v ∧ ∀ a, f.op w [a] = a

/-- Each operator of the first graph that stands for one of the second is a copy or a relay of it. -/
def Implements (f : Dataflow W α) (g : Dataflow V α) (R : W → V → Prop) : Prop :=
  ∀ w v, R w v → Copies f g R w v ∨ Relays f R w v

theorem mapM_forall₂ {β γ δ : Type*} {l : List β} {l' : List γ} {f : β → Option δ}
    {f' : γ → Option δ} (same : List.Forall₂ (fun b c => f b = f' c) l l') :
    l.mapM f = l'.mapM f' := by
  induction same with
  | nil => rfl
  | cons here _ ih => rw [List.mapM_cons, List.mapM_cons, here, ih]

theorem Copies.operands {w : W} {v : V} (copies : Copies f g R w v) {k : Nat}
    (same : ∀ u ∈ f.upstream w, ∀ v, R u v → f.stream u k = g.stream v k) :
    f.operands w k = g.operands v k := by
  by_cases source : f.upstream w = []
  · have source' : g.upstream v = [] := by simpa [source] using copies.upstream
    rw [operands_source source, operands_source source', copies.input source]
  · have join : g.upstream v ≠ [] := fun none => source (by simpa [none] using copies.upstream)
    rw [operands_join source, operands_join join]
    refine mapM_forall₂ (List.forall₂_iff_get.mpr ⟨copies.upstream.length_eq, fun i lt lt' => ?_⟩)
    exact same _ (List.get_mem ..) _ (copies.upstream.get lt lt')

/-- By induction on the rank: a relay emits what the operator before it does. -/
theorem Implements.stream (implements : Implements f g R) {w : W} {v : V} (stands : R w v) (k : Nat) :
    f.stream w k = g.stream v k := by
  induction rank : f.rank w using Nat.strong_induction_on generalizing w v with
  | _ n ih =>
    obtain copies | ⟨u, only, behind, keeps⟩ := implements w v stands
    · rw [Dataflow.stream, Dataflow.stream, copies.op, copies.operands fun u mem v' stands' =>
        ih _ (rank ▸ f.acyclic w u mem) stands' rfl]
    · have before := ih _ (rank ▸ f.acyclic w u (by simp [only])) behind rfl
      rw [Dataflow.stream, operands_join (by simp [only]), only, List.mapM_cons, before]
      cases g.stream v k <;> simp [keeps]

theorem Implements.operands (implements : Implements f g R) {w : W} {v : V}
    (copies : Copies f g R w v) (k : Nat) : f.operands w k = g.operands v k :=
  copies.operands fun _ _ _ stands => implements.stream stands k

end Dataflow
