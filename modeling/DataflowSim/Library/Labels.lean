import DataflowSim.Library.Adjacency

/-!
# Numbering the parts of a list

A function numbers the elements of a list. `Exactly` says that the numbers in use are those below
a bound; the rules are for three ways of numbering: layers that are painted one over the other,
numbers in the order in which they come first, and a part that is moved to a new number.
-/

namespace Labels

variable {α : Type*} {S : List α} {f : α → Nat} {n : Nat}

def used (S : List α) (f : α → Nat) : Finset Nat := (S.map f).toFinset

@[simp] theorem mem_used {i : Nat} : i ∈ used S f ↔ ∃ a ∈ S, f a = i := by simp [used]

/-- The numbers in use are those below `n`. -/
def Exactly (S : List α) (f : α → Nat) (n : Nat) : Prop := ∀ i, (∃ a ∈ S, f a = i) ↔ i < n

theorem used_congr {f' : α → Nat} (same : ∀ a ∈ S, f a = f' a) : used S f = used S f' := by
  unfold used
  rw [List.map_congr_left same]

theorem Exactly.congr {f' : α → Nat} (same : ∀ a ∈ S, f a = f' a) :
    Exactly S f n ↔ Exactly S f' n := by
  unfold Exactly
  exact forall_congr' fun i => by grind

theorem Exactly.below (h : Exactly S f n) {a : α} (mem : a ∈ S) : f a < n := (h _).mp ⟨a, mem, rfl⟩

theorem Exactly.le_length (h : Exactly S f n) : n ≤ S.length := by
  have all : Finset.range n ⊆ used S f := fun i mem =>
    mem_used.mpr ((h i).mpr (Finset.mem_range.mp mem))
  calc n = (Finset.range n).card := (Finset.card_range n).symm
    _ ≤ (used S f).card := Finset.card_le_card all
    _ ≤ S.length := by simpa [used] using (S.map f).toFinset_card_le

theorem card_used_le (below : ∀ a ∈ S, f a < n) : (used S f).card ≤ n := by
  have all : used S f ⊆ Finset.range n := by grind [mem_used]
  simpa using Finset.card_le_card all

/-- Where all numbers are below `n`, they are counted. -/
theorem exactly_iff_card (below : ∀ a ∈ S, f a < n) : Exactly S f n ↔ (used S f).card = n := by
  have all : used S f ⊆ Finset.range n := by grind [mem_used]
  constructor
  · intro h
    have eq : used S f = Finset.range n := by
      ext i
      rw [mem_used, h i, Finset.mem_range]
    rw [eq, Finset.card_range]
  · intro card i
    have eq : used S f = Finset.range n :=
      Finset.eq_of_subset_of_card_le all (by rw [card, Finset.card_range])
    rw [← mem_used, eq, Finset.mem_range]

/-! ## In the order in which they come first -/

/-- The new numbers are those from zero on. -/
theorem exactly_idxOf : Exactly S (fun a => (Adjacency.distinct (S.map f)).idxOf (f a))
    (Adjacency.distinct (S.map f)).length := by
  intro i
  constructor
  · rintro ⟨a, mem, rfl⟩
    exact List.idxOf_lt_length_of_mem (Adjacency.mem_distinct.mpr (List.mem_map_of_mem mem))
  · intro inside
    obtain ⟨a, mem, value⟩ := List.mem_map.mp (Adjacency.mem_distinct.mp (List.getElem_mem inside))
    have place : (Adjacency.distinct (S.map f)).idxOf (f a) = i := by
      rw [value, (Adjacency.nodup_distinct _).idxOf_getElem i inside]
    exact ⟨a, mem, place⟩

/-- They are as many as the old ones. -/
theorem exactly_idxOf_iff (below : ∀ a ∈ S, f a < n) :
    Exactly S (fun a => (Adjacency.distinct (S.map f)).idxOf (f a)) n ↔ Exactly S f n := by
  set order := Adjacency.distinct (S.map f) with ho
  have once : order.Nodup := Adjacency.nodup_distinct _
  have length : order.length = (used S f).card := by
    rw [← List.toFinset_card_of_nodup once]
    congr 1
    ext i
    simp [order, used]
  have all : Exactly S (fun a => order.idxOf (f a)) order.length := exactly_idxOf
  rw [exactly_iff_card below, ← length]
  constructor
  · intro h
    by_contra differ
    rcases Nat.lt_or_gt_of_ne differ with less | more
    · exact absurd ((all _).mp ((h order.length).mpr less)) (lt_irrefl _)
    · exact absurd ((h _).mp ((all n).mpr more)) (lt_irrefl _)
  · rintro rfl
    exact all

/-! ## Layers -/

variable [DecidableEq α]

/-- The layers are painted one over the other, with the numbers from `k` on. -/
def paint : List (List α) → Nat → (α → Nat) → α → Nat
  | [], _, f => f
  | l :: layers, k, f => paint layers (k + 1) fun a => if a ∈ l then k else f a

/-- Each layer has an element that none of the later ones covers. -/
def Visible (layers : List (List α)) : Prop :=
  ∀ l later, l :: later <:+ layers → ∃ a ∈ l, ∀ m ∈ later, a ∉ m

theorem paint_of_not_mem {layers : List (List α)} {k : Nat} {a : α} (h : ∀ l ∈ layers, a ∉ l) :
    paint layers k f a = f a := by
  induction layers generalizing k f with
  | nil => rfl
  | cons l layers ih =>
    obtain ⟨here, later⟩ := List.forall_mem_cons.mp h
    rw [paint, ih later, if_neg here]

theorem paint_append (front rest : List (List α)) (k : Nat) (f : α → Nat) :
    paint (front ++ rest) k f = paint rest (k + front.length) (paint front k f) := by
  induction front generalizing k f with
  | nil => rfl
  | cons l front ih =>
    rw [List.cons_append, paint, ih, paint, List.length_cons]
    congr 1
    omega

/-- The last layer that has an element numbers it. -/
theorem paint_eq_of_last {before later : List (List α)} {l : List α} {k : Nat} {a : α} (mem : a ∈ l)
    (last : ∀ m ∈ later, a ∉ m) : paint (before ++ l :: later) k f a = k + before.length := by
  rw [paint_append, paint, paint_of_not_mem last, if_pos mem]

theorem exists_last {layers : List (List α)} {a : α} (h : ∃ l ∈ layers, a ∈ l) :
    ∃ before l later, layers = before ++ l :: later ∧ a ∈ l ∧ ∀ m ∈ later, a ∉ m := by
  induction layers with
  | nil => simp at h
  | cons l layers ih =>
    by_cases later : ∃ m ∈ layers, a ∈ m
    · obtain ⟨before, m, rest, rfl, mem, last⟩ := ih later
      exact ⟨l :: before, m, rest, rfl, mem, last⟩
    · refine ⟨[], l, layers, rfl, by grind, by grind⟩

/-- The number of a covered element is that of a layer, and no earlier one than any that has it. -/
theorem paint_bounds {before later : List (List α)} {l : List α} {k : Nat} {a : α} (mem : a ∈ l) :
    k + before.length ≤ paint (before ++ l :: later) k f a ∧
      paint (before ++ l :: later) k f a < k + (before ++ l :: later).length := by
  by_cases covered : ∃ m ∈ later, a ∈ m
  · obtain ⟨front, m, rest, rfl, there, last⟩ := exists_last covered
    have split : before ++ l :: (front ++ m :: rest) = (before ++ l :: front) ++ m :: rest := by simp
    rw [split, paint_eq_of_last there last]
    simp only [List.length_append, List.length_cons]
    omega
  · rw [paint_eq_of_last mem (by grind)]
    simp only [List.length_append, List.length_cons]
    omega

theorem paint_congr {layers : List (List α)} {k : Nat} {f' : α → Nat} {a : α} (same : f a = f' a) :
    paint layers k f a = paint layers k f' a := by
  induction layers generalizing k f f' with
  | nil => exact same
  | cons l layers ih =>
    rw [paint, paint]
    apply ih
    rw [same]

theorem paint_succ {layers : List (List α)} {k : Nat} {a : α} (covered : ∃ l ∈ layers, a ∈ l) :
    paint layers (k + 1) f a = paint layers k f a + 1 := by
  obtain ⟨before, l, later, rfl, mem, last⟩ := exists_last covered
  rw [paint_eq_of_last mem last, paint_eq_of_last mem last]
  omega

theorem paint_append_of_empty {front rest : List (List α)} (empty : ∀ l ∈ rest, l = []) (k : Nat)
    (f : α → Nat) : paint (front ++ rest) k f = paint front k f := by
  rw [paint_append]
  funext a
  exact paint_of_not_mem fun l mem => by simp [empty l mem]

/-- The layers are visible when the number of each of them is in use. -/
theorem visible_iff (layers : List (List α)) (k : Nat) (f : α → Nat) :
    Visible layers ↔
      ∀ i < layers.length, ∃ a, (∃ l ∈ layers, a ∈ l) ∧ paint layers k f a = k + i := by
  constructor
  · intro h i inside
    have split := List.take_append_drop i layers
    rw [List.drop_eq_getElem_cons inside] at split
    obtain ⟨a, mem, last⟩ := h layers[i] (layers.drop (i + 1)) ⟨layers.take i, split⟩
    refine ⟨a, ⟨_, List.getElem_mem inside, mem⟩, ?_⟩
    conv_lhs => rw [← split]
    rw [paint_eq_of_last mem last, List.length_take_of_le (by omega)]
  · rintro h l later ⟨before, rfl⟩
    obtain ⟨a, covered, value⟩ := h before.length (by simp)
    obtain ⟨front, m, rest, eq, mem, last⟩ := exists_last covered
    rw [eq, paint_eq_of_last mem last] at value
    obtain ⟨rfl, tail⟩ := List.append_inj eq (by omega)
    obtain ⟨rfl, rfl⟩ := List.cons.inj tail
    exact ⟨a, mem, last⟩

/-- Visible layers over a ground of which something is left. -/
theorem exactly_paint_iff {layers : List (List α)} (inside : ∀ l ∈ layers, ∀ a ∈ l, a ∈ S) :
    Exactly S (paint layers 1 fun _ => 0) (layers.length + 1) ↔
      Visible layers ∧ ∃ a ∈ S, ∀ l ∈ layers, a ∉ l := by
  have ground {a : α} (bare : ∀ l ∈ layers, a ∉ l) : paint layers 1 (fun _ => 0) a = 0 :=
    paint_of_not_mem bare
  have above {a : α} (covered : ∃ l ∈ layers, a ∈ l) :
      1 ≤ paint layers 1 (fun _ => 0) a ∧ paint layers 1 (fun _ => 0) a < layers.length + 1 := by
    obtain ⟨before, l, later, rfl, mem, last⟩ := exists_last covered
    have bounds := @paint_bounds _ (fun _ => 0) _ before later l 1 a mem
    omega
  constructor
  · intro h
    constructor
    · refine (visible_iff layers 1 fun _ => 0).mpr fun i less => ?_
      obtain ⟨a, -, value⟩ := (h (1 + i)).mpr (by omega)
      refine ⟨a, ?_, value⟩
      by_contra bare
      rw [ground (by grind)] at value
      omega
    · obtain ⟨a, mem, value⟩ := (h 0).mpr (by omega)
      refine ⟨a, mem, fun l there listed => ?_⟩
      have := above ⟨l, there, listed⟩
      omega
  · rintro ⟨visible, a, mem, bare⟩ i
    constructor
    · rintro ⟨b, -, rfl⟩
      by_cases covered : ∃ l ∈ layers, b ∈ l
      · exact (above covered).2
      · rw [ground (by grind)]
        omega
    · intro less
      cases i with
      | zero => exact ⟨a, mem, ground bare⟩
      | succ i =>
        obtain ⟨b, ⟨l, there, listed⟩, value⟩ := (visible_iff _ _ _).mp visible i (by omega)
        exact ⟨b, inside l there b listed, by rw [value, Nat.add_comm]⟩

/-- Layers that cover the ground use the numbers below `k` when those before the `k`th are visible
and the others are empty. -/
theorem exactly_paint_covered_iff {layers : List (List α)} (inside : ∀ l ∈ layers, ∀ a ∈ l, a ∈ S)
    (covered : ∀ a ∈ S, ∃ l ∈ layers, a ∈ l) {k : Nat} :
    Exactly S (paint layers 0 f) k ↔
      k ≤ layers.length ∧ (∀ l ∈ layers.drop k, l = []) ∧ Visible (layers.take k) := by
  have split := List.take_append_drop k layers
  constructor
  · intro h
    have long : k ≤ layers.length := by
      by_contra short
      obtain ⟨a, mem, value⟩ := (h layers.length).mpr (by omega)
      obtain ⟨before, l, later, eq, there, -⟩ := exists_last (covered a mem)
      have bounds := @paint_bounds _ f _ before later l 0 a there
      rw [← eq] at bounds
      omega
    have empty : ∀ l ∈ layers.drop k, l = [] := by
      intro l there
      by_contra some
      obtain ⟨a, mem⟩ := List.exists_mem_of_ne_nil l some
      obtain ⟨before, later, eq⟩ := List.append_of_mem there
      have bounds := @paint_bounds _ f _ (layers.take k ++ before) later l 0 a mem
      rw [List.append_assoc, ← eq, split, List.length_append, List.length_take_of_le long] at bounds
      have below := h.below (inside l (List.mem_of_mem_drop there) a mem)
      omega
    refine ⟨long, empty, (visible_iff _ 0 f).mpr fun i less => ?_⟩
    rw [List.length_take_of_le long] at less
    obtain ⟨a, mem, value⟩ := (h i).mpr less
    rw [← split, paint_append_of_empty empty] at value
    refine ⟨a, ?_, by rw [value, Nat.zero_add]⟩
    obtain ⟨l, there, listed⟩ := covered a mem
    rw [← split, List.mem_append] at there
    rcases there with front | rest
    · exact ⟨l, front, listed⟩
    · simp [empty l rest] at listed
  · rintro ⟨long, empty, visible⟩ i
    have length := List.length_take_of_le long
    rw [← split, paint_append_of_empty empty]
    constructor
    · rintro ⟨a, mem, rfl⟩
      obtain ⟨l, there, listed⟩ := covered a mem
      rw [← split, List.mem_append] at there
      rcases there with front | rest
      · obtain ⟨before, later, eq⟩ := List.append_of_mem front
        have bounds := @paint_bounds _ f _ before later l 0 a listed
        rw [← eq, length] at bounds
        omega
      · simp [empty l rest] at listed
    · intro less
      obtain ⟨a, ⟨l, there, listed⟩, value⟩ := (visible_iff _ _ _).mp visible i (by omega)
      exact ⟨a, inside l (List.mem_of_mem_take there) a listed, by rw [value, Nat.zero_add]⟩

/-! ## A part with a new number -/

/-- A part that is moved away from elements that stay adds one number. -/
theorem card_used_move {moved : List α} {m : Nat} (inside : ∀ a ∈ moved, a ∈ S) (new : ∀ a ∈ S, f a ≠ m)
    (stays : ∀ a ∈ moved, ∃ b ∈ S, b ∉ moved ∧ f b = f a) :
    (used S fun a => if a ∈ moved then m else f a).card =
      (used S f).card + if moved = [] then 0 else 1 := by
  by_cases none : moved = []
  · simp [none]
  · have eq : (used S fun a => if a ∈ moved then m else f a) = insert m (used S f) := by
      ext i
      obtain ⟨c, mem⟩ := List.exists_mem_of_ne_nil moved none
      simp only [mem_used, Finset.mem_insert]
      constructor
      · rintro ⟨a, there, value⟩
        split_ifs at value with there
        · exact .inl value.symm
        · exact .inr ⟨a, ‹_›, value⟩
      · rintro (rfl | ⟨a, there, rfl⟩)
        · exact ⟨c, inside c mem, if_pos mem⟩
        · by_cases away : a ∈ moved
          · obtain ⟨b, here, stay, value⟩ := stays a away
            exact ⟨b, here, by rw [if_neg stay, value]⟩
          · exact ⟨a, there, if_neg away⟩
    have fresh : m ∉ used S f := by
      rw [mem_used]
      rintro ⟨a, mem, value⟩
      exact new a mem value
    rw [eq, Finset.card_insert_of_notMem fresh, if_neg none]

end Labels
