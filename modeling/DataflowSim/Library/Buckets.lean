import DataflowSim.Library.Adjacency

/-!
# Tables of lists

A map from keys to lists of several kinds. Elements are put behind a list unless they stand there
already, and a key comes into the map with its first element.
-/

/-- The lists of a key that is not in the map are empty. -/
structure Buckets (K κ α : Type*) where
  keys : List K
  lists : K → κ → List α
  nodup : keys.Nodup
  absent : ∀ k, k ∉ keys → ∀ i, lists k i = []

namespace Buckets

variable {K κ α : Type*} [DecidableEq K] [DecidableEq κ] [DecidableEq α]

def empty : Buckets K κ α where
  keys := []
  lists _ _ := []
  nodup := List.nodup_nil
  absent _ _ _ := rfl

/-- New elements for the lists of a key. A new key gets them as they are. -/
def add (t : Buckets K κ α) (k : K) (new : κ → List α) : Buckets K κ α where
  keys := Adjacency.keep t.keys k
  lists := Function.update t.lists k
    (if k ∈ t.keys then fun i => (new i).foldl Adjacency.keep (t.lists k i) else new)
  nodup := Adjacency.nodup_foldl_keep (l := [k]) t.nodup
  absent k' none i := by
    have apart : k' ≠ k ∧ k' ∉ t.keys := by
      unfold Adjacency.keep at none
      split_ifs at none with there
      · exact ⟨fun eq => none (eq ▸ there), none⟩
      · simpa [and_comm] using none
    rw [Function.update_of_ne apart.1, t.absent k' apart.2]

/-- One element for one list. -/
def single (i : κ) (a : α) (j : κ) : List α := if j = i then [a] else []

/-- An element is put into several lists. -/
def file (t : Buckets K κ α) (places : List (K × κ)) (a : α) : Buckets K κ α :=
  places.foldl (fun t p => t.add p.1 (single p.2 a)) t

variable {t : Buckets K κ α} {k l : K} {i j : κ} {a : α} {places : List (K × κ)}

omit [DecidableEq κ] in
theorem mem_add_keys {new : κ → List α} : l ∈ (t.add k new).keys ↔ l ∈ t.keys ∨ l = k := by
  simp only [add, Adjacency.keep]
  split_ifs with there
  · exact ⟨.inl, fun mem => mem.elim id (· ▸ there)⟩
  · simp

theorem add_single_lists : (t.add k (single i a)).lists l j =
    if l = k ∧ j = i then Adjacency.keep (t.lists l j) a else t.lists l j := by
  by_cases at_k : l = k
  · subst at_k
    by_cases at_i : j = i
    · subst at_i
      by_cases there : l ∈ t.keys
      · simp [add, there, single]
      · simp [add, there, single, t.absent l there, Adjacency.keep]
    · by_cases there : l ∈ t.keys
      · simp [add, there, single, at_i]
      · simp [add, there, single, at_i, t.absent l there]
  · simp [add, at_k]

theorem mem_file_keys : l ∈ (t.file places a).keys ↔ l ∈ t.keys ∨ ∃ i, (l, i) ∈ places := by
  induction places generalizing t with
  | nil => simp [file]
  | cons p places ih =>
    rw [file, List.foldl_cons, ← file, ih, mem_add_keys, or_assoc]
    refine or_congr_right ⟨?_, ?_⟩
    · rintro (rfl | ⟨i, mem⟩)
      · exact ⟨p.2, by simp⟩
      · exact ⟨i, List.mem_cons_of_mem _ mem⟩
    · rintro ⟨i, mem⟩
      rcases List.mem_cons.mp mem with rfl | later
      · exact .inl rfl
      · exact .inr ⟨i, later⟩

theorem file_lists : (t.file places a).lists l j =
    if (l, j) ∈ places then Adjacency.keep (t.lists l j) a else t.lists l j := by
  induction places generalizing t with
  | nil => simp [file]
  | cons p places ih =>
    obtain ⟨k, i⟩ := p
    rw [file, List.foldl_cons, ← file, ih, add_single_lists]
    by_cases here : (l, j) = (k, i)
    · obtain ⟨rfl, rfl⟩ := Prod.mk.inj here
      simp only [true_and, if_true, List.mem_cons, true_or]
      split_ifs
      · simp [Adjacency.keep]
        split_ifs <;> simp_all
      · rfl
    · have apart : ¬ (l = k ∧ j = i) := fun both => here (Prod.ext both.1 both.2)
      simp only [if_neg apart, List.mem_cons, here, false_or]

/-- Elements that are filed one after the other, each of them once: a list holds those that belong
into it, in this order. -/
theorem foldl_file (places : α → List (K × κ)) {as : List α} (nodup : as.Nodup) :
    let t := as.foldl (fun t a => t.file (places a) a) (empty : Buckets K κ α)
    (∀ k i, t.lists k i = as.filter fun a => (k, i) ∈ places a) ∧
      ∀ k, k ∈ t.keys ↔ ∃ a ∈ as, ∃ i, (k, i) ∈ places a := by
  induction as using List.reverseRecOn with
  | nil => simp [empty]
  | append_singleton as a ih =>
    obtain ⟨before, -, apart⟩ := List.nodup_append.mp nodup
    obtain ⟨lists, keys⟩ := ih before
    have new : a ∉ as := fun old => apart a old a (by simp) rfl
    simp only [List.foldl_append, List.foldl_cons, List.foldl_nil]
    refine ⟨fun k i => ?_, fun k => ?_⟩
    · rw [file_lists, lists, List.filter_append]
      split_ifs with here
      · simp [Adjacency.keep, new, here]
      · simp [here]
    · rw [mem_file_keys, keys]
      simp [or_and_right, exists_or]

end Buckets
