import Mathlib

/-!
# Handing contents on

Each place has one place above it. Some of the places hand their contents on to the place above,
one after the other. Where no place does so after the place above it has done, the contents of a
place go up as long as the places on the way hand them on.
-/

namespace Gather

variable {α β : Type*} {hands : α → Prop} {up : α → α}

/-- From a place among those that have handed on to the place above. -/
def Through (hands : α → Prop) (up : α → α) (done : List α) (a b : α) : Prop :=
  a ∈ done ∧ hands a ∧ up a = b

theorem Through.mono {k l : List α} (sub : k ⊆ l) {a b : α} (h : Through hands up k a b) :
    Through hands up l a b := ⟨sub h.1, h.2⟩

/-- A place that hands nothing on opens no way. -/
theorem reaches_concat_of_not {done : List α} {a d r : α} (keeps : ¬hands a) :
    Relation.ReflTransGen (Through hands up (done ++ [a])) d r ↔
      Relation.ReflTransGen (Through hands up done) d r := by
  have same : Through hands up (done ++ [a]) = Through hands up done := by
    funext x y
    simp only [Through, List.mem_append, List.mem_singleton, eq_iff_iff]
    grind
  rw [same]

/-- The last place that hands on opens the ways to the place above, which go no further. -/
theorem reaches_concat {done : List α} {a d r : α} (gives : hands a) (open_above : up a ∉ done)
    (proper : up a ≠ a) :
    Relation.ReflTransGen (Through hands up (done ++ [a])) d r ↔
      Relation.ReflTransGen (Through hands up done) d r ∨
        r = up a ∧ Relation.ReflTransGen (Through hands up done) d a := by
  have wider : Through hands up done ≤ Through hands up (done ++ [a]) := fun _ _ step =>
    step.mono (List.subset_append_left _ _)
  constructor
  · intro path
    induction path with
    | refl => exact .inl .refl
    | @tail b c _ step ih =>
      obtain ⟨mem, gives', rfl⟩ := step
      rcases List.mem_append.mp mem with old | new
      · rcases ih with before | ⟨rfl, -⟩
        · exact .inl (before.tail ⟨old, gives', rfl⟩)
        · exact absurd old open_above
      · obtain rfl := List.mem_singleton.mp new
        rcases ih with before | ⟨same, -⟩
        · exact .inr ⟨rfl, before⟩
        · exact absurd same.symm proper
  · rintro (path | ⟨rfl, path⟩)
    · exact Relation.ReflTransGen.mono wider _ _ path
    · exact (Relation.ReflTransGen.mono wider _ _ path).tail ⟨List.mem_append_right _ (List.mem_singleton_self a), gives, rfl⟩

section
variable [DecidableEq α] [DecidablePred hands]

/-- A place hands its contents on. -/
def handOn (hands : α → Prop) [DecidablePred hands] (up : α → α) (contents : α → List β) (a : α) :
    α → List β :=
  if hands a then Function.update contents (up a) (contents (up a) ++ contents a) else contents

theorem mem_handOn {contents : α → List β} {a r : α} {x : β} :
    x ∈ handOn hands up contents a r ↔
      x ∈ contents r ∨ hands a ∧ r = up a ∧ x ∈ contents a := by
  unfold handOn
  split_ifs with gives
  · by_cases here : r = up a
    · subst here
      simp [gives]
    · simp [here]
  · simp [gives]

/-- Where each place hands on before the place above it. -/
def Upward (hands : α → Prop) (up : α → α) (l : List α) : Prop :=
  (∀ a ∈ l, hands a → up a ≠ a) ∧ l.Pairwise fun a b => hands b → up b ≠ a

omit [DecidableEq α] [DecidablePred hands] in
theorem Upward.concat {l : List α} {a : α} (h : Upward hands up (l ++ [a])) :
    Upward hands up l ∧ (hands a → up a ∉ l ∧ up a ≠ a) := by
  obtain ⟨proper, order⟩ := h
  obtain ⟨before, -, last⟩ := List.pairwise_append.mp order
  refine ⟨⟨fun b mem => proper b (List.mem_append_left _ mem), before⟩, fun gives => ⟨fun mem => ?_, ?_⟩⟩
  · exact last _ mem a (List.mem_singleton_self a) gives rfl
  · exact proper a (List.mem_append_right _ (List.mem_singleton_self a)) gives

/-- Contents are found where a way leads from their place. -/
theorem mem_foldl_handOn {l : List α} (order : Upward hands up l) {contents : α → List β} {r : α}
    {x : β} : x ∈ l.foldl (handOn hands up) contents r ↔
      ∃ d, x ∈ contents d ∧ Relation.ReflTransGen (Through hands up l) d r := by
  induction l using List.reverseRecOn generalizing r with
  | nil =>
    have still {d : α} : Relation.ReflTransGen (Through hands up []) d r ↔ d = r := by
      constructor
      · intro path
        rcases path.cases_tail with same | ⟨c, -, step⟩
        · exact same.symm
        · exact absurd step.1 List.not_mem_nil
      · rintro rfl
        exact .refl
    simp [still]
  | append_singleton l a ih =>
    obtain ⟨before, last⟩ := order.concat
    rw [List.foldl_append, List.foldl_cons, List.foldl_nil, mem_handOn, ih before, ih before]
    by_cases gives : hands a
    · obtain ⟨open_above, proper⟩ := last gives
      simp only [reaches_concat gives open_above proper]
      grind
    · simp only [reaches_concat_of_not gives, gives, false_and, or_false]

/-- Two contents that are handed on together. -/
theorem foldl_map_handOn {γ : Type*} (l : List α) (contents : (α → List β) × (α → List γ)) :
    l.foldl (fun c a => c.map (handOn hands up · a) (handOn hands up · a)) contents =
      (l.foldl (handOn hands up) contents.1, l.foldl (handOn hands up) contents.2) := by
  induction l generalizing contents with
  | nil => rfl
  | cons a l ih => exact ih _

end

/-! ## Owners -/

section
variable [DecidableEq β]

/-- A value is written to each place of a list. -/
theorem foldl_update {γ : Type*} (g : β → γ) (l : List β) (f : β → γ) (c : β) :
    l.foldl (fun f c => Function.update f c (g c)) f c = if c ∈ l then g c else f c := by
  induction l generalizing f with
  | nil => simp
  | cons b l ih =>
    rw [List.foldl_cons, ih]
    by_cases later : c ∈ l
    · simp [later]
    · by_cases here : c = b
      · subst here
        simp
      · simp [later, here]

/-- A place becomes the owner of what it lists. -/
def claim (lists : α → List β) (owner : β → α) (a : α) : β → α :=
  (lists a).foldl (fun owner c => Function.update owner c a) owner

/-- What no place lists keeps its owner. -/
theorem foldl_claim (l : List α) (lists : α → List β) (owner : β → α) (c : β) :
    (∃ a ∈ l, c ∈ lists a ∧ l.foldl (claim lists) owner c = a) ∨
      (∀ a ∈ l, c ∉ lists a) ∧ l.foldl (claim lists) owner c = owner c := by
  induction l using List.reverseRecOn with
  | nil => exact .inr ⟨by simp, rfl⟩
  | append_singleton l a ih =>
    rw [List.foldl_append, List.foldl_cons, List.foldl_nil]
    by_cases here : c ∈ lists a
    · exact .inl ⟨a, by simp, here, by rw [claim, foldl_update fun _ => a, if_pos here]⟩
    · have same (owner : β → α) : claim lists owner a c = owner c := by
        rw [claim, foldl_update fun _ => a, if_neg here]
      rw [same]
      rcases ih with ⟨b, mem, listed, eq⟩ | ⟨free, eq⟩
      · exact .inl ⟨b, List.mem_append_left _ mem, listed, eq⟩
      · exact .inr ⟨List.forall_mem_append.mpr ⟨free, by simpa using here⟩, eq⟩

end

end Gather
