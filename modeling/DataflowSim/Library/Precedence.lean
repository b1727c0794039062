import Mathlib
import DataflowSim.Library.Search

/-!
# Lists in an order of precedence

`pre a` lists what has to come before `a`. A list is in order when it does. Where nothing comes
before itself there are ranks, and an element that is moved behind the last of its predecessors
pays with its weight for all elements that it comes to stand behind.
-/

namespace Precedence

variable {α : Type*} {pre : α → List α}

/-- What comes before an element stands before it. -/
def Ordered (pre : α → List α) (l : List α) : Prop :=
  ∀ front a rest, l = front ++ a :: rest → ∀ p ∈ pre a, p ∈ front

theorem ordered_nil : Ordered pre [] := by
  intro front a rest eq
  simp at eq

theorem Ordered.concat {l : List α} {a : α} (h : Ordered pre l) (all : ∀ p ∈ pre a, p ∈ l) :
    Ordered pre (l ++ [a]) := by
  intro front b rest eq p mem
  rcases List.eq_nil_or_concat rest with rfl | ⟨rest, c, rfl⟩
  · obtain ⟨rfl, same⟩ := List.append_inj' eq rfl
    obtain rfl := List.singleton_inj.mp same
    exact all p mem
  · have eq' : l ++ [a] = (front ++ b :: rest) ++ [c] := by simpa using eq
    exact h front b rest (List.append_inj' eq' rfl).1 p mem

theorem Ordered.idxOf_lt [DecidableEq α] {l : List α} (h : Ordered pre l) {a : α} (mem : a ∈ l)
    {p : α} (before : p ∈ pre a) : l.idxOf p < l.idxOf a := by
  have here : l.idxOf a < l.length := List.idxOf_lt_length_of_mem mem
  have split : l = l.take (l.idxOf a) ++ a :: l.drop (l.idxOf a + 1) := by
    conv_lhs => rw [← List.take_append_drop (l.idxOf a) l, List.drop_eq_getElem_cons here]
    rw [List.getElem_idxOf]
  have early : p ∈ l.take (l.idxOf a) := h _ _ _ split p before
  exact (List.mem_take_iff_idxOf_lt (List.mem_of_mem_take early)).mp early

/-! ## Ranks -/

/-- In a finite set where nothing precedes itself there are ranks. -/
theorem exists_rank {S : Finset α} (inside : ∀ a ∈ S, ∀ p ∈ pre a, p ∈ S)
    (acyclic : ∀ a, ¬ Relation.TransGen (fun p a => a ∈ S ∧ p ∈ pre a) a a) :
    ∃ rank : α → Nat, (∀ a, rank a ≤ S.card) ∧ ∀ a ∈ S, ∀ p ∈ pre a, rank p < rank a := by
  classical
  let below (a : α) := S.filter fun p => Relation.TransGen (fun p a => a ∈ S ∧ p ∈ pre a) p a
  refine ⟨fun a => (below a).card, fun a => Finset.card_filter_le _ _,
    fun a mem p before => Finset.card_lt_card ?_⟩
  rw [Finset.ssubset_iff_of_subset]
  · refine ⟨p, Finset.mem_filter.mpr ⟨inside a mem p before, .single ⟨mem, before⟩⟩, fun self => ?_⟩
    exact acyclic p (Finset.mem_filter.mp self).2
  · intro q there
    obtain ⟨known, path⟩ := Finset.mem_filter.mp there
    exact Finset.mem_filter.mpr ⟨known, path.tail ⟨mem, before⟩⟩

/-! ## The cost of a list -/

section
variable [DecidableEq α]

/-- An element that stands before one of its predecessors costs its weight. -/
def cost (pre : α → List α) (weight : α → Nat) : List α → Nat
  | [] => 0
  | a :: l => (if ∃ p ∈ pre a, p ∈ l then weight a else 0) + cost pre weight l

/-- Behind which an element comes to stand, and what that costs at most. -/
def charged (pre : α → List α) (weight : α → Nat) (a : α) (front : List α) : Nat :=
  ((front.filter fun b => a ∈ pre b).map weight).sum

theorem cost_insert_le {weight : α → Nat} {a : α} {front tail : List α}
    (last : ∀ p ∈ pre a, p ∉ tail) :
    cost pre weight (front ++ a :: tail) ≤
      cost pre weight (front ++ tail) + charged pre weight a front := by
  induction front with
  | nil =>
    have good : ¬ ∃ p ∈ pre a, p ∈ tail := by
      rintro ⟨p, before, there⟩
      exact last p before there
    simp [cost, good]
  | cons b front ih =>
    simp only [List.cons_append, cost, charged, List.filter_cons] at ih ⊢
    by_cases behind : a ∈ pre b
    · simp only [behind, decide_true, if_true, List.map_cons, List.sum_cons]
      split_ifs <;> omega
    · have same : (∃ p ∈ pre b, p ∈ front ++ a :: tail) ↔ ∃ p ∈ pre b, p ∈ front ++ tail := by
        constructor <;> rintro ⟨p, before, there⟩ <;> refine ⟨p, before, ?_⟩ <;> grind
      simp only [behind, decide_false, same]
      split_ifs <;> simp_all
      all_goals omega

/-- The weight of an element pays for those that have to come behind it. -/
theorem charged_lt {rank : α → Nat} {width height : Nat} {a : α} {front : List α}
    (low : ∀ b, rank b ≤ height) (above : ∀ b ∈ front, a ∈ pre b → rank a < rank b)
    (short : front.length ≤ width) :
    charged pre (fun b => (width + 1) ^ (height - rank b)) a front <
      (width + 1) ^ (height - rank a) := by
  refine Search.cost_lt ((List.length_filter_le _ _).trans short) fun b mem => ?_
  obtain ⟨there, behind⟩ := List.mem_filter.mp mem
  have higher := above b there (by simpa using behind)
  have bound := low b
  omega

/-- An element that moves behind the last of its predecessors lowers the cost. -/
theorem cost_move_lt {rank : α → Nat} {width height : Nat} {a p : α} {mid tail : List α}
    (low : ∀ b, rank b ≤ height)
    (above : ∀ b ∈ mid ++ [p], a ∈ pre b → rank a < rank b)
    (short : (mid ++ [p]).length ≤ width) (before : p ∈ pre a) (last : ∀ q ∈ pre a, q ∉ tail) :
    cost pre (fun b => (width + 1) ^ (height - rank b)) (mid ++ p :: a :: tail) <
      cost pre (fun b => (width + 1) ^ (height - rank b)) (a :: (mid ++ p :: tail)) := by
  set weight : α → Nat := fun b => (width + 1) ^ (height - rank b)
  have early : ∃ q ∈ pre a, q ∈ mid ++ p :: tail := ⟨p, before, by simp⟩
  have paid : charged pre weight a (mid ++ [p]) < weight a := charged_lt low above short
  have moved : cost pre weight (mid ++ [p] ++ a :: tail) ≤
      cost pre weight (mid ++ [p] ++ tail) + charged pre weight a (mid ++ [p]) := cost_insert_le last
  calc cost pre weight (mid ++ p :: a :: tail) = cost pre weight (mid ++ [p] ++ a :: tail) := by simp
    _ ≤ cost pre weight (mid ++ [p] ++ tail) + charged pre weight a (mid ++ [p]) := moved
    _ < cost pre weight (mid ++ p :: tail) + weight a := by simpa using paid
    _ = cost pre weight (a :: (mid ++ p :: tail)) := by rw [cost, if_pos early, Nat.add_comm]

end

end Precedence
