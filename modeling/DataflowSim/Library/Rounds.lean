import Mathlib

/-!
# Calls in a fixed order

Parties are called in rounds, always in the same order. `turn u v` tells whether `u` was called
after the last call of `v`. Two parties are called in turn, so whatever one of them did in its
last call the other finds exactly once.
-/

/-- Who was called in this round, who is to be called, and the history. -/
structure Rounds (V : Type*) where
  done : List V := []
  todo : List V
  turn : V → V → Bool := fun _ _ => false
  called : V → Bool := fun _ => false

namespace Rounds

variable {V : Type*} [DecidableEq V]

/-- After the last call of a round the next round begins. -/
def next (order : List V) (r : Rounds V) : Rounds V :=
  match r.todo with
  | [] => { r with done := [], todo := order }
  | v :: rest =>
    let r : Rounds V :=
      { done := r.done ++ [v]
        todo := rest
        turn := fun a b => if b = v then false else if a = v then true else r.turn a b
        called := fun a => if a = v then true else r.called a }
    if rest = [] then { r with done := [], todo := order } else r

theorem next_idle (order : List V) {r : Rounds V} (todo : r.todo = []) :
    (r.next order).turn = r.turn ∧ (r.next order).called = r.called := by
  simp [next, todo]

theorem next_last (order : List V) {r : Rounds V} {v : V} (todo : r.todo = [v]) :
    (r.next order).todo = order ∧ (r.next order).done = [] := by
  simp [next, todo]

theorem next_more (order : List V) {r : Rounds V} {v : V} {rest : List V}
    (todo : r.todo = v :: rest) (more : rest ≠ []) :
    (r.next order).todo = rest ∧ (r.next order).done = r.done ++ [v] := by
  simp [next, todo, more]

theorem next_turn {order : List V} {r : Rounds V} {v : V} {rest : List V}
    (todo : r.todo = v :: rest) (a b : V) :
    (r.next order).turn a b = if b = v then false else if a = v then true else r.turn a b := by
  simp only [next, todo]
  by_cases last : rest = []
  · rw [if_pos last]
  · rw [if_neg last]

theorem next_called {order : List V} {r : Rounds V} {v : V} {rest : List V}
    (todo : r.todo = v :: rest) (a : V) :
    (r.next order).called a = if a = v then true else r.called a := by
  simp only [next, todo]
  by_cases last : rest = []
  · rw [if_pos last]
  · rw [if_neg last]

/-- For two parties of which the second is next or was called before the first. -/
def Ahead (r : Rounds V) (v u : V) : Prop :=
  (r.turn u v = true ∨ r.called u = false) ∧ r.turn v u = false

/-- The calls so far respect the order. -/
structure Fair (order : List V) (r : Rounds V) : Prop where
  split : order = r.done ++ r.todo
  done : r.done.Pairwise r.Ahead
  todo : r.todo.Pairwise r.Ahead
  across : ∀ v ∈ r.todo, ∀ u ∈ r.done, r.Ahead v u

variable {order : List V} {r : Rounds V}

omit [DecidableEq V] in
theorem Fair.start (order : List V) : Fair order { todo := order } where
  split := rfl
  done := .nil
  todo := List.pairwise_of_forall fun _ _ => ⟨.inr rfl, rfl⟩
  across := by simp

omit [DecidableEq V] in
/-- Whoever is called next finds that all others were called since its last call, unless they
never were, and that it was not called since theirs. -/
theorem Fair.ahead (h : Fair order r) {v : V} {rest : List V} (todo : r.todo = v :: rest) {u : V}
    (mem : u ∈ order) (ne : u ≠ v) : r.Ahead v u := by
  rw [h.split, todo] at mem
  have later := h.todo
  rw [todo, List.pairwise_cons] at later
  obtain before | mem := List.mem_append.mp mem
  · exact h.across v (by simp [todo]) u before
  · exact later.1 u (by simpa [ne] using mem)

theorem Fair.next (h : Fair order r) (nodup : order.Nodup) : Fair order (r.next order) := by
  cases todo : r.todo with
  | nil =>
    have all := h.split
    rw [todo, List.append_nil] at all
    simp only [Rounds.next, todo]
    exact ⟨rfl, .nil, all ▸ h.done, by simp⟩
  | cons v rest =>
    have later := h.todo
    have split := h.split
    rw [todo] at later split
    rw [List.pairwise_cons] at later
    rw [split, List.nodup_append, List.nodup_cons] at nodup
    obtain ⟨-, ⟨fresh, -⟩, apart⟩ := nodup
    let r' : Rounds V :=
      { done := r.done ++ [v]
        todo := rest
        turn := fun a b => if b = v then false else if a = v then true else r.turn a b
        called := fun a => if a = v then true else r.called a }
    have kept {a b : V} (ahead : r.Ahead a b) (a_ne : a ≠ v) (b_ne : b ≠ v) : r'.Ahead a b := by
      simpa [Ahead, r', a_ne, b_ne] using ahead
    have called {a : V} (ne : a ≠ v) : r'.Ahead a v := by
      simp [Ahead, r', ne]
    have done_ne {a : V} (mem : a ∈ r.done) : a ≠ v := apart a mem v (.head _)
    have rest_ne {a : V} (mem : a ∈ rest) : a ≠ v := fun eq => fresh (eq ▸ mem)
    have done : (r.done ++ [v]).Pairwise r'.Ahead := by
      refine List.pairwise_append.mpr ⟨?_, List.pairwise_singleton .., fun a mem b mem' => ?_⟩
      · exact h.done.imp_of_mem fun mem mem' ahead => kept ahead (done_ne mem) (done_ne mem')
      · exact List.mem_singleton.mp mem' ▸ called (done_ne mem)
    have inner : Fair order r' := by
      refine ⟨by simpa [r'] using split, done, ?_, fun a mem b mem' => ?_⟩
      · exact later.2.imp_of_mem fun mem mem' ahead => kept ahead (rest_ne mem) (rest_ne mem')
      · obtain mem' | mem' := List.mem_append.mp mem'
        · exact kept (h.across a (todo ▸ .tail _ mem) b mem') (rest_ne mem) (done_ne mem')
        · exact List.mem_singleton.mp mem' ▸ called (rest_ne mem)
    simp only [Rounds.next, todo]
    split_ifs with last
    · have all : order = r.done ++ [v] := by rw [split, last]
      exact ⟨rfl, .nil, all ▸ done, by simp⟩
    · exact inner

/-- Who is called after `n` calls. -/
theorem todo_iterate (some : order ≠ []) (n : Nat) :
    ((next order)^[n] { todo := order }).todo = order.drop (n % order.length) := by
  have pos := List.length_pos_iff.mpr some
  induction n with
  | zero => simp
  | succ n ih =>
    have lt := Nat.mod_lt n pos
    have step := List.drop_eq_getElem_cons lt
    rw [Function.iterate_succ_apply']
    rw [step] at ih
    simp only [next, ih]
    have wrap : (n + 1) % order.length = (n % order.length + 1) % order.length :=
      (Nat.mod_add_mod ..).symm
    by_cases last : n % order.length + 1 = order.length
    · rw [if_pos (List.drop_eq_nil_of_le last.ge), wrap, last, Nat.mod_self, List.drop_zero]
    · have more : order.drop (n % order.length + 1) ≠ [] := by
        rw [Ne, List.drop_eq_nil_iff]
        omega
      have later : (n + 1) % order.length = n % order.length + 1 :=
        wrap.trans (Nat.mod_eq_of_lt (by omega))
      rw [if_neg more, later]

end Rounds
