import Mathlib

/-!
# Lineages

Each element of a set has one element above it. A nest lists an element and all that are above
it, up to the last one in the set. Two nests that share an element go on together from there,
so there is one way from the first element of the one to the first element of the other: up to
what they share and down from it.
-/

namespace Lineage

variable {α : Type*} {P : α → Prop} {up : α → α}

/-- An element of the set with all that are above it; the empty list belongs to what is outside. -/
inductive Nest (P : α → Prop) (up : α → α) : List α → Prop
  | nil : Nest P up []
  | top {a : α} (inside : P a) (outside : ¬P (up a)) : Nest P up [a]
  | under {a : α} {l : List α} (inside : P a) (rest : Nest P up (up a :: l)) :
      Nest P up (a :: up a :: l)

theorem Nest.inside {s : List α} (h : Nest P up s) : ∀ a ∈ s, P a := by
  induction h with
  | nil => simp
  | top inside => simpa using inside
  | under inside _ ih => exact List.forall_mem_cons.mpr ⟨inside, ih⟩

theorem Nest.tail {a : α} {s : List α} (h : Nest P up (a :: s)) : Nest P up s := by
  cases h with
  | top => exact .nil
  | under _ rest => exact rest

theorem Nest.suffix {s t : List α} (h : Nest P up (s ++ t)) : Nest P up t := by
  induction s with
  | nil => exact h
  | cons a s ih => exact ih h.tail

/-- There is one nest of each element. -/
theorem Nest.unique {a : α} {s t : List α} (hs : Nest P up (a :: s)) (ht : Nest P up (a :: t)) :
    s = t := by
  induction s generalizing a t with
  | nil =>
    cases hs with
    | top _ outside =>
      cases ht with
      | top => rfl
      | under _ rest => exact absurd (rest.inside _ List.mem_cons_self) outside
  | cons b s ih =>
    cases hs with
    | under _ rest =>
      cases ht with
      | top _ outside => exact absurd (rest.inside _ List.mem_cons_self) outside
      | under _ rest' => rw [ih rest rest']

theorem Nest.nodup {s : List α} (h : Nest P up s) : s.Nodup := by
  induction s with
  | nil => exact List.nodup_nil
  | cons a s ih =>
    refine List.nodup_cons.mpr ⟨fun again => ?_, ih h.tail⟩
    obtain ⟨x, y, rfl⟩ := List.append_of_mem again
    have same := h.unique (h.tail.suffix)
    have longer := congrArg List.length same
    simp only [List.length_append, List.length_cons] at longer
    omega

/-- From an element that two nests share they are one list. -/
theorem Nest.shared {p q p' q' : List α} {r : α} (h : Nest P up (p ++ r :: q))
    (h' : Nest P up (p' ++ r :: q')) : q = q' := h.suffix.unique h'.suffix

variable [DecidableEq α]

/-- From the first element of the one nest to the first element of the other. -/
def way (s t : List α) : List α :=
  s.takeWhile (· ∉ t) ++ (s.find? (· ∈ t)).toList ++ (t.takeWhile (· ∉ s)).reverse

/-- What is on the way without its ends. -/
def between (s t : List α) : List α :=
  let inner := if s = [] then way s t else (way s t).tail
  if t = [] then inner else inner.dropLast

omit [DecidableEq α] in
theorem takeWhile_eq {f : α → Bool} {p q : List α} {r : α} (before : ∀ a ∈ p, f a = true)
    (stop : f r = false) : (p ++ r :: q).takeWhile f = p := by
  rw [List.takeWhile_append_of_pos before, List.takeWhile_cons_of_neg (by simp [stop]),
    List.append_nil]

/-- Two nests that have an element in common, split at the first of these. -/
theorem exists_meet {s t : List α} (hs : Nest P up s) (ht : Nest P up t) {a : α} (inS : a ∈ s)
    (inT : a ∈ t) : ∃ p p' r q, s = p ++ r :: q ∧ t = p' ++ r :: q ∧
      (∀ b ∈ p, b ∉ t) ∧ ∀ b ∈ p', b ∉ s := by
  obtain ⟨r, found⟩ : ∃ r, s.find? (· ∈ t) = some r :=
    Option.isSome_iff_exists.mp (List.find?_isSome.mpr ⟨a, inS, by simpa using inT⟩)
  obtain ⟨inside, p, q, rfl, first⟩ := List.find?_eq_some_iff_append.mp found
  have first : ∀ b ∈ p, b ∉ t := fun b mem => by simpa using first b mem
  obtain ⟨p', q', rfl⟩ := List.append_of_mem (by simpa using inside : r ∈ t)
  obtain rfl := hs.shared ht
  refine ⟨p, p', r, q, rfl, rfl, first, fun b mem again => ?_⟩
  have later : b ∉ r :: q := fun there =>
    (List.nodup_append.mp ht.nodup).2.2 b mem b there rfl
  rcases List.mem_append.mp again with early | late
  · exact first b early (List.mem_append_left _ mem)
  · exact later late

theorem way_meet {p p' q : List α} {r : α} (first : ∀ b ∈ p, b ∉ p' ++ r :: q)
    (first' : ∀ b ∈ p', b ∉ p ++ r :: q) :
    way (p ++ r :: q) (p' ++ r :: q) = p ++ r :: p'.reverse := by
  have up : (p ++ r :: q).takeWhile (· ∉ p' ++ r :: q) = p :=
    takeWhile_eq (fun b mem => by simpa using first b mem) (by simp)
  have down : (p' ++ r :: q).takeWhile (· ∉ p ++ r :: q) = p' :=
    takeWhile_eq (fun b mem => by simpa using first' b mem) (by simp)
  have meet : (p ++ r :: q).find? (· ∈ p' ++ r :: q) = some r := by
    rw [List.find?_eq_some_iff_append]
    exact ⟨by simp, p, q, rfl, fun b mem => by simpa using first b mem⟩
  rw [way, up, down, meet]
  simp

@[simp] theorem way_nil_right (s : List α) : way s [] = s := by
  have all : s.takeWhile (fun _ => true) = s := List.takeWhile_eq_self_iff.mpr (by simp)
  simp [way, all]

@[simp] theorem way_nil_left (t : List α) : way [] t = t.reverse := by simp [way]

theorem between_nil_right (s : List α) : between s [] = s.tail := by
  cases s <;> simp [between]

theorem between_nil_left (t : List α) : between [] t = t.tail.reverse := by
  cases t <;> simp [between]

theorem between_of_ne {s t : List α} (hs : s ≠ []) (ht : t ≠ []) :
    between s t = (way s t).tail.dropLast := by
  simp [between, hs, ht]

theorem mem_way {s t : List α} {a : α} (mem : a ∈ way s t) : a ∈ s ∨ a ∈ t := by
  simp only [way, List.mem_append, Option.mem_toList, List.mem_reverse] at mem
  rcases mem with (up | meet) | down
  · exact .inl ((List.takeWhile_sublist _).subset up)
  · exact .inl (List.mem_of_find?_eq_some meet)
  · exact .inr ((List.takeWhile_sublist _).subset down)

theorem mem_between {s t : List α} {a : α} (mem : a ∈ between s t) : a ∈ s ∨ a ∈ t := by
  refine mem_way ?_
  unfold between at mem
  dsimp only at mem
  have inner : ∀ b ∈ (if s = [] then way s t else (way s t).tail), b ∈ way s t := fun b there => by
    split_ifs at there
    · exact there
    · exact List.mem_of_mem_tail there
  split_ifs at mem <;> grind [List.mem_of_mem_dropLast, List.mem_of_mem_tail]

/-! ## What lies before an element of the way -/

/-- The other end is outside, or the nests have an element in common. -/
def Meets (s t : List α) : Prop := t = [] ∨ ∃ a ∈ s, a ∈ t

/-- An element of the way is above the first end, or the rest of the way goes down through it. -/
theorem way_split {s t x y : List α} {b : α} (hs : Nest P up s) (ht : Nest P up t)
    (meets : Meets s t) (here : way s t = x ++ b :: y) :
    (∃ z, s = x ++ b :: z) ∨ b ∉ s ∧ ∃ p r q z, s = p ++ r :: q ∧ x = p ++ r :: z ∧
      Nest P up (b :: (z.reverse ++ r :: q)) ∧ ∀ a ∈ z, a ∉ s := by
  rcases meets with rfl | ⟨a, inS, inT⟩
  · exact .inl ⟨y, by rwa [way_nil_right] at here⟩
  obtain ⟨p, p', r, q, rfl, rfl, first, first'⟩ := exists_meet hs ht inS inT
  rw [way_meet first first', List.append_cons] at here
  have down {z : List α} (split : p'.reverse = z ++ b :: y) : b ∉ p ++ r :: q ∧
      Nest P up (b :: (z.reverse ++ r :: q)) ∧ ∀ a ∈ z, a ∉ p ++ r :: q := by
    have split' : p' = y.reverse ++ b :: z.reverse := by
      rw [← List.reverse_reverse p', split]
      simp
    refine ⟨first' b (by simp [split']), ?_, fun a mem => first' a (by simp [split', mem])⟩
    rw [split', List.append_assoc] at ht
    exact ht.suffix
  rcases List.append_eq_append_iff.mp here with ⟨z, rfl, split⟩ | ⟨c, upper, split⟩
  · obtain ⟨apart, nest, later⟩ := down split
    exact .inr ⟨apart, p, r, q, z, rfl, by simp, nest, later⟩
  · cases c with
    | nil =>
      obtain ⟨apart, nest, later⟩ := down (by simpa using split.symm : p'.reverse = [] ++ b :: y)
      exact .inr ⟨apart, p, r, q, [], rfl, by simpa using upper.symm, nest, later⟩
    | cons b' c =>
      obtain ⟨rfl, -⟩ := List.cons.inj split
      exact .inl ⟨c ++ q, by rw [List.append_cons p, upper]; simp⟩

/-- The ways from one element to others agree up to an element that they share. -/
theorem way_before {s t t' x x' y y' : List α} {b : α} (hs : Nest P up s) (ht : Nest P up t)
    (ht' : Nest P up t') (meets : Meets s t) (meets' : Meets s t')
    (here : way s t = x ++ b :: y) (there : way s t' = x' ++ b :: y') : x = x' := by
  rcases way_split hs ht meets here with ⟨z, split⟩ | ⟨apart, p, r, q, z, split, rfl, nest, later⟩
  · rcases way_split hs ht' meets' there with ⟨z', split'⟩ | ⟨apart, -⟩
    · have nodup := hs.nodup
      have same := split.symm.trans split'
      rw [split] at nodup
      have once := List.nodup_middle.mp nodup
      have apart := (List.nodup_cons.mp once).1
      rw [List.mem_append, not_or] at apart
      exact ((List.append_cons_inj_of_notMem apart.1 apart.2).mp same).1
    · exact absurd (by simp [split]) apart
  · rcases way_split hs ht' meets' there with
      ⟨z', split'⟩ | ⟨-, p', r', q', z', split', rfl, nest', later'⟩
    · exact absurd (by simp [split']) apart
    · have same := nest.unique nest'
      have top := congrArg (List.takeWhile (· ∉ s)) same
      rw [takeWhile_eq (by simpa using later) (by simp [split]),
        takeWhile_eq (by simpa using later') (by simp [split'])] at top
      obtain rfl := List.reverse_injective top
      obtain ⟨rfl, rfl⟩ := List.cons.inj (List.append_cancel_left same)
      rw [List.append_cancel_right (split.symm.trans split')]

theorem exists_between {s t : List α} (hs : Nest P up s) (ht : Nest P up t) (inside : s ≠ [])
    (meets : Meets s t) : ∃ a rest, way s t = a :: (between s t ++ rest) := by
  rcases meets with rfl | ⟨a, inS, inT⟩
  · obtain ⟨a, s, rfl⟩ := List.exists_cons_of_ne_nil inside
    exact ⟨a, [], by simp [between_nil_right]⟩
  · obtain ⟨p, p', r, q, rfl, rfl, first, first'⟩ := exists_meet hs ht inS inT
    have nonempty : way (p ++ r :: q) (p' ++ r :: q) ≠ [] := by simp [way_meet first first']
    obtain ⟨a, l, split⟩ := List.exists_cons_of_ne_nil nonempty
    refine ⟨a, l.getLast?.toList, ?_⟩
    rw [between_of_ne inside (by simp), split, List.tail_cons]
    cases l using List.reverseRecOn <;> simp

/-- What comes before an inner element of one way is an inner element of each way that has it. -/
theorem mem_between_of_next {s t t' x y : List α} {a b : α} (hs : Nest P up s) (ht : Nest P up t)
    (ht' : Nest P up t') (inside : s ≠ []) (meets : Meets s t) (meets' : Meets s t')
    (next : between s t = x ++ a :: b :: y) (mem : b ∈ between s t') : a ∈ between s t' := by
  obtain ⟨c, rest, here⟩ := exists_between hs ht inside meets
  obtain ⟨c', rest', there⟩ := exists_between hs ht' inside meets'
  obtain ⟨x', y', split⟩ := List.append_of_mem mem
  have here : way s t = (c :: (x ++ [a])) ++ b :: (y ++ rest) := by simp [here, next]
  have there : way s t' = (c' :: x') ++ b :: (y' ++ rest') := by simp [there, split]
  have same := (List.cons.inj (way_before hs ht ht' meets meets' here there)).2
  rw [split, ← same]
  simp

/-! ## Under one root -/

section

omit [DecidableEq α]

/-- One step upward from an element of the set. -/
def Up (P : α → Prop) (up : α → α) (a b : α) : Prop := P a ∧ up a = b

/-- All elements of the set are under one root outside of it. -/
theorem Nest.isChain {s : List α} {root : α} (h : Nest P up s)
    (rooted : ∀ a, P a → P (up a) ∨ up a = root) : (s ++ [root]).IsChain (Up P up) := by
  induction h with
  | nil => simp
  | top inside outside =>
    exact List.isChain_pair.mpr ⟨inside, (rooted _ inside).resolve_left outside⟩
  | under inside _ ih => exact List.isChain_cons_cons.mpr ⟨⟨inside, rfl⟩, ih⟩

theorem Nest.nodup_root {s : List α} {root : α} (h : Nest P up s) (outside : ¬P root) :
    (s ++ [root]).Nodup := by
  refine h.nodup.append (List.nodup_singleton root) fun a mem last => ?_
  obtain rfl := List.mem_singleton.mp last
  exact outside (h.inside a mem)

/-- Up to an element and down from it. -/
theorem isChain_meet {p p' : List α} {r : α} (hs : (p ++ [r]).IsChain (Up P up))
    (ht : (p' ++ [r]).IsChain (Up P up)) :
    (p ++ r :: p'.reverse).IsChain (fun a b => Up P up a b ∨ Up P up b a) := by
  have down : (r :: p'.reverse).IsChain (fun a b => Up P up a b ∨ Up P up b a) := by
    have back : (p' ++ [r]).reverse = r :: p'.reverse := by simp
    rw [← back, List.isChain_reverse]
    exact ht.imp fun _ _ step => .inr step
  rw [List.isChain_split]
  exact ⟨hs.imp fun _ _ step => .inl step, down⟩

end

/-- Two nests under one root, split where they meet. -/
theorem exists_meet_root {s t : List α} {root : α} (hs : Nest P up s) (ht : Nest P up t)
    (outside : ¬P root) : ∃ p p' r q, s ++ [root] = p ++ r :: q ∧ t ++ [root] = p' ++ r :: q ∧
      (∀ b ∈ p, b ∉ t ++ [root]) ∧ ∀ b ∈ p', b ∉ s ++ [root] := by
  have apart {u : List α} (h : Nest P up u) : ∀ b ∈ u, b ≠ root :=
    fun b mem same => outside (same ▸ h.inside b mem)
  have both {u : List α} {b : α} (new : b ∉ u) (ne : b ≠ root) : b ∉ u ++ [root] := by simp [new, ne]
  by_cases shared : ∃ a ∈ s, a ∈ t
  · obtain ⟨a, inS, inT⟩ := shared
    obtain ⟨p, p', r, q, rfl, rfl, first, first'⟩ := exists_meet hs ht inS inT
    exact ⟨p, p', r, q ++ [root], by simp, by simp,
      fun b mem => both (first b mem) (apart hs b (List.mem_append_left _ mem)),
      fun b mem => both (first' b mem) (apart ht b (List.mem_append_left _ mem))⟩
  · push Not at shared
    exact ⟨s, t, root, [], rfl, rfl, fun b mem => both (shared b mem) (apart hs b mem),
      fun b mem => both (fun there => shared b there mem) (apart ht b mem)⟩

end Lineage
