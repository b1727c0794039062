import Mathlib

/-!
# Adjacency lists

A directed graph is kept twice: each vertex has a list of its predecessors and a list of its
successors. `complete` enters every edge that stands in one of the two lists into the other,
and `distinct` keeps the first of several copies.
-/

namespace Adjacency

variable {α : Type*} [DecidableEq α]

/-! ## Distinct elements -/

/-- Put an element behind the others unless it is there. -/
def keep (kept : List α) (a : α) : List α := if a ∈ kept then kept else kept ++ [a]

/-- The elements in the order in which they come first. -/
def distinct (l : List α) : List α := l.foldl keep []

theorem mem_foldl_keep {a : α} {kept l : List α} : a ∈ l.foldl keep kept ↔ a ∈ kept ∨ a ∈ l := by
  induction l generalizing kept with
  | nil => simp
  | cons b l ih => grind [keep]

@[simp, grind =] theorem mem_distinct {a : α} {l : List α} : a ∈ distinct l ↔ a ∈ l := by
  simp [distinct, mem_foldl_keep]

theorem nodup_foldl_keep {kept l : List α} (h : kept.Nodup) : (l.foldl keep kept).Nodup := by
  induction l generalizing kept with
  | nil => exact h
  | cons b l ih =>
    apply ih
    unfold keep
    split_ifs with there
    · exact h
    · exact h.append (List.nodup_singleton b) (by simpa using there)

@[simp] theorem nodup_distinct (l : List α) : (distinct l).Nodup := nodup_foldl_keep List.nodup_nil

theorem prefix_foldl_keep (kept l : List α) : kept <+: l.foldl keep kept := by
  induction l generalizing kept with
  | nil => exact List.prefix_rfl
  | cons b l ih =>
    refine List.IsPrefix.trans ?_ (ih _)
    unfold keep
    split_ifs
    · exact List.prefix_rfl
    · exact List.prefix_append _ _

theorem distinct_prefix (l k : List α) : distinct l <+: distinct (l ++ k) := by
  unfold distinct
  rw [List.foldl_append]
  exact prefix_foldl_keep _ _

theorem distinct_concat (l : List α) (a : α) : distinct (l ++ [a]) = keep (distinct l) a := by
  simp [distinct]

/-- Distinct elements stand in the order in which they come first. -/
theorem idxOf_distinct_lt_iff {l : List α} {a b : α} (ha : a ∈ l) (hb : b ∈ l) :
    (distinct l).idxOf a < (distinct l).idxOf b ↔ l.idxOf a < l.idxOf b := by
  induction l using List.reverseRecOn with
  | nil => cases ha
  | append_singleton l c ih =>
    have early {d : α} (there : d ∈ l) : (l ++ [c]).idxOf d = l.idxOf d ∧
        (distinct (l ++ [c])).idxOf d = (distinct l).idxOf d := by
      obtain ⟨rest, more⟩ := distinct_prefix l [c]
      exact ⟨List.idxOf_append_of_mem there,
        more ▸ List.idxOf_append_of_mem (mem_distinct.mpr there)⟩
    have late {d : α} (here : d ∈ l ++ [c]) (new : d ∉ l) : (l ++ [c]).idxOf d = l.length ∧
        (distinct (l ++ [c])).idxOf d = (distinct l).length := by
      obtain rfl : d = c := by simpa [new] using here
      rw [distinct_concat, keep, if_neg (mt mem_distinct.mp new)]
      exact ⟨by simp [List.idxOf_append_of_notMem new],
        by simp [List.idxOf_append_of_notMem (mt mem_distinct.mp new)]⟩
    have below {d : α} (there : d ∈ l) : l.idxOf d < l.length ∧
        (distinct l).idxOf d < (distinct l).length :=
      ⟨List.idxOf_lt_length_of_mem there, List.idxOf_lt_length_of_mem (mem_distinct.mpr there)⟩
    by_cases inA : a ∈ l <;> by_cases inB : b ∈ l
    · rw [(early inA).1, (early inA).2, (early inB).1, (early inB).2, ih inA inB]
    · rw [(early inA).1, (early inA).2, (late hb inB).1, (late hb inB).2]
      exact iff_of_true (below inA).2 (below inA).1
    · rw [(late ha inA).1, (late ha inA).2, (early inB).1, (early inB).2]
      have := below inB
      omega
    · rw [(late ha inA).1, (late ha inA).2, (late hb inB).1, (late hb inB).2]
      simp

theorem foldl_keep_of_subset {kept l : List α} (h : l ⊆ kept) : l.foldl keep kept = kept := by
  induction l generalizing kept with
  | nil => rfl
  | cons b l ih =>
    have there : b ∈ kept := h List.mem_cons_self
    rw [List.foldl_cons, keep, if_pos there]
    exact ih fun a mem => h (List.mem_cons_of_mem _ mem)

/-- Elements that were there before change nothing. -/
theorem distinct_append_of_subset {l k : List α} (h : k ⊆ l) : distinct (l ++ k) = distinct l := by
  unfold distinct
  rw [List.foldl_append]
  exact foldl_keep_of_subset fun a mem => mem_distinct.mpr (h mem)

omit [DecidableEq α] in
theorem mem_flatten_replicate {l : List α} {k : Nat} {a : α} (pos : k ≠ 0) :
    a ∈ (List.replicate k l).flatten ↔ a ∈ l := by
  simp [List.mem_flatten, pos]

omit [DecidableEq α] in
theorem flatten_replicate_succ (k : Nat) (l : List α) :
    (List.replicate (k + 1) l).flatten = (List.replicate k l).flatten ++ l := by
  simp [List.replicate_succ']

/-- A list several times over counts as once. -/
theorem distinct_flatten_replicate {l : List α} {k : Nat} (pos : k ≠ 0) :
    distinct (List.replicate k l).flatten = distinct l := by
  obtain ⟨k, rfl⟩ := Nat.exists_eq_succ_of_ne_zero pos
  rw [List.replicate_succ, List.flatten_cons]
  refine distinct_append_of_subset fun a mem => ?_
  obtain ⟨m, there, inside⟩ := List.mem_flatten.mp mem
  exact List.eq_of_mem_replicate there ▸ inside

theorem foldl_keep_map {β : Type*} [DecidableEq β] {f : α → β} {kept l : List α}
    (inj : ∀ a ∈ kept ++ l, ∀ b ∈ kept ++ l, f a = f b → a = b) :
    (l.map f).foldl keep (kept.map f) = (l.foldl keep kept).map f := by
  induction l generalizing kept with
  | nil => rfl
  | cons b l ih =>
    have same : keep (kept.map f) (f b) = (keep kept b).map f := by
      have iff : f b ∈ kept.map f ↔ b ∈ kept := by grind
      unfold keep
      split_ifs <;> simp_all
    rw [List.map_cons, List.foldl_cons, List.foldl_cons, same]
    exact ih fun a ha c hc => inj a (by grind [keep]) c (by grind [keep])

/-- Names that differ keep what comes first. -/
theorem distinct_map {β : Type*} [DecidableEq β] {f : α → β} {l : List α}
    (inj : ∀ a ∈ l, ∀ b ∈ l, f a = f b → a = b) : distinct (l.map f) = (distinct l).map f :=
  @foldl_keep_map _ _ _ _ f [] l (by simpa using inj)

theorem foldl_keep_of_nodup {kept l : List α} (nodup : l.Nodup) (apart : kept.Disjoint l) :
    l.foldl keep kept = kept ++ l := by
  induction l generalizing kept with
  | nil => simp
  | cons b l ih =>
    obtain ⟨fresh, rest⟩ := List.nodup_cons.mp nodup
    have absent : b ∉ kept := fun mem => apart mem List.mem_cons_self
    rw [List.foldl_cons, keep, if_neg absent, ih rest]
    · simp
    · intro a mem there
      obtain old | rfl : a ∈ kept ∨ a = b := by simpa using mem
      · exact apart old (List.mem_cons_of_mem _ there)
      · exact fresh there

/-- Nothing happens to a list without copies. -/
theorem distinct_of_nodup {l : List α} (h : l.Nodup) : distinct l = l := by
  simpa [distinct] using @foldl_keep_of_nodup _ _ [] l h (by simp)

omit [DecidableEq α] in
/-- Behind a list that begins with `l`, another list without copies stands first when it
stands first in `l`. -/
theorem prefix_iff_of_subset {k l m : List α} (nodup : k.Nodup) (sub : k ⊆ l)
    (behind : l <+: m) : k <+: m ↔ k <+: l := by
  constructor
  · exact fun first => List.prefix_of_prefix_length_le first behind
      (nodup.subperm sub).length_le
  · exact fun first => first.trans behind

omit [DecidableEq α] in
theorem map_prefix_iff {β : Type*} {f : α → β} {k l : List α}
    (inj : ∀ a ∈ k, ∀ b ∈ l, f a = f b → a = b) : k.map f <+: l.map f ↔ k <+: l := by
  induction k generalizing l with
  | nil => simp
  | cons a k ih =>
    cases l with
    | nil => simp
    | cons b l =>
      have here : f a = f b ↔ a = b :=
        ⟨inj a List.mem_cons_self b List.mem_cons_self, fun same => same ▸ rfl⟩
      simp only [List.map_cons, List.cons_prefix_cons, here]
      rw [ih fun a ha b hb => inj a (List.mem_cons_of_mem _ ha) b (List.mem_cons_of_mem _ hb)]

omit [DecidableEq α] in
/-- The elements grouped by a key. -/
theorem perm_flatMap_filter {κ : Type*} [DecidableEq κ] {key : α → κ} {keys : List κ} {l : List α}
    (distinct : keys.Nodup) (once : l.Nodup) (all : ∀ a ∈ l, key a ∈ keys) :
    (keys.flatMap fun k => l.filter fun a => key a = k).Perm l := by
  have nodup : (keys.flatMap fun k => l.filter fun a => key a = k).Nodup := by
    rw [List.nodup_flatMap]
    refine ⟨fun k _ => once.filter _, distinct.imp fun {a b} ne n here there => ?_⟩
    have inA := (List.mem_filter.mp here).2
    have inB := (List.mem_filter.mp there).2
    simp only [decide_eq_true_eq] at inA inB
    exact ne (inA.symm.trans inB)
  refine (List.perm_ext_iff_of_nodup nodup once).mpr fun a => ?_
  simp only [List.mem_flatMap, List.mem_filter, decide_eq_true_eq]
  exact ⟨fun ⟨_, _, mem, _⟩ => mem, fun mem => ⟨_, all a mem, mem, rfl⟩⟩

/-! ## Completion -/

/-- Enter each edge of the lists `source` into the lists `target` at its other end. -/
def fill (vertices : List α) (source target : α → List α) : α → List α :=
  vertices.foldl (fun target v =>
    (source v).foldl (fun target w => Function.update target w (target w ++ [v])) target) target

theorem push_all (ws : List α) (target : α → List α) (v x : α) :
    ws.foldl (fun target w => Function.update target w (target w ++ [v])) target x =
      target x ++ List.replicate (ws.count x) v := by
  induction ws generalizing target with
  | nil => simp
  | cons w ws ih =>
    rw [List.foldl_cons, ih]
    by_cases here : x = w
    · subst here
      simp [List.replicate_succ]
    · simp [Function.update_of_ne here, Ne.symm here]

/-- What is entered comes behind what was there, in the order of the vertices. -/
theorem fill_apply (vertices : List α) (source target : α → List α) (x : α) :
    fill vertices source target x =
      target x ++ vertices.flatMap fun v => List.replicate ((source v).count x) v := by
  unfold fill
  induction vertices generalizing target with
  | nil => simp
  | cons v vertices ih => simp [ih, push_all]

@[simp, grind =] theorem mem_fill {vertices : List α} {source target : α → List α} {x v : α} :
    v ∈ fill vertices source target x ↔ v ∈ target x ∨ v ∈ vertices ∧ x ∈ source v := by
  simp only [fill_apply, List.mem_append, List.mem_flatMap, List.mem_replicate]
  grind

/-- Both lists after completion and without copies. -/
def complete (vertices : List α) (pre next : α → List α) : (α → List α) × (α → List α) :=
  let next' := fill vertices pre next
  let pre' := fill vertices next' pre
  (fun v => distinct (pre' v), fun v => distinct (next' v))

section
variable {vertices : List α} {pre next : α → List α} {v w : α}

theorem mem_complete_next (hv : w ∈ vertices) :
    w ∈ (complete vertices pre next).2 v ↔ w ∈ next v ∨ v ∈ pre w := by
  simp [complete, hv]

theorem mem_complete_pre (hv : v ∈ vertices) (hw : w ∈ vertices) :
    v ∈ (complete vertices pre next).1 w ↔ w ∈ next v ∨ v ∈ pre w := by
  simp [complete, hv, hw]
  tauto

theorem nodup_complete :
    ((complete vertices pre next).1 v).Nodup ∧ ((complete vertices pre next).2 v).Nodup :=
  ⟨nodup_distinct _, nodup_distinct _⟩

/-- Predecessors keep their places, and those that are entered come behind them. -/
theorem complete_pre_prefix : distinct (pre v) <+: (complete vertices pre next).1 v := by
  simp only [complete, fill_apply]
  exact distinct_prefix _ _

theorem complete_next_prefix : distinct (next v) <+: (complete vertices pre next).2 v := by
  simp only [complete, fill_apply]
  exact distinct_prefix _ _

/-- Lists that agree and have no copies are complete. -/
theorem complete_of_symmetric (sym : ∀ w ∈ vertices, w ∈ next v ↔ v ∈ pre w)
    (sym' : ∀ w ∈ vertices, v ∈ next w ↔ w ∈ pre v) (pre_nodup : (pre v).Nodup)
    (next_nodup : (next v).Nodup) :
    (complete vertices pre next).1 v = pre v ∧ (complete vertices pre next).2 v = next v := by
  have entered {l : List α} {source : α → List α} (old : ∀ w ∈ vertices, v ∈ source w → w ∈ l) :
      (vertices.flatMap fun w => List.replicate ((source w).count v) w) ⊆ l := by
    intro w mem
    obtain ⟨x, there, copies⟩ := List.mem_flatMap.mp mem
    obtain ⟨pos, rfl⟩ := List.mem_replicate.mp copies
    exact old w there (List.count_pos_iff.mp (Nat.pos_of_ne_zero pos))
  simp only [complete, fill_apply _ _ _ v]
  constructor
  · rw [distinct_append_of_subset (entered fun w there mem => ?_), distinct_of_nodup pre_nodup]
    rcases mem_fill.mp mem with old | ⟨-, old⟩
    · exact (sym' w there).mp old
    · exact old
  · rw [distinct_append_of_subset (entered fun w there mem => (sym w there).mpr mem),
      distinct_of_nodup next_nodup]

/-- Predecessors stay when every successor list that names the vertex is known to it. -/
theorem complete_pre_of_entered (old : ∀ w ∈ vertices, v ∈ next w → w ∈ pre v) (nodup : (pre v).Nodup) :
    (complete vertices pre next).1 v = pre v := by
  simp only [complete, fill_apply _ _ _ v]
  rw [distinct_append_of_subset, distinct_of_nodup nodup]
  intro w mem
  obtain ⟨x, there, copies⟩ := List.mem_flatMap.mp mem
  obtain ⟨pos, rfl⟩ := List.mem_replicate.mp copies
  rcases mem_fill.mp (List.count_pos_iff.mp (Nat.pos_of_ne_zero pos)) with here | ⟨-, here⟩
  · exact old w there here
  · exact here

theorem complete_next_of_entered (old : ∀ w ∈ vertices, v ∈ pre w → w ∈ next v) (nodup : (next v).Nodup) :
    (complete vertices pre next).2 v = next v := by
  simp only [complete, fill_apply _ _ _ v]
  rw [distinct_append_of_subset, distinct_of_nodup nodup]
  intro w mem
  obtain ⟨x, there, copies⟩ := List.mem_flatMap.mp mem
  obtain ⟨pos, rfl⟩ := List.mem_replicate.mp copies
  exact old w there (List.count_pos_iff.mp (Nat.pos_of_ne_zero pos))

theorem fill_of_not_mem {source target : α → List α} {x : α} (h : ∀ w ∈ vertices, x ∉ source w) :
    fill vertices source target x = target x := by
  have none : (vertices.flatMap fun w => List.replicate ((source w).count x) w) = [] := by
    simpa [List.flatMap_eq_nil_iff, List.count_eq_zero] using h
  rw [fill_apply, none, List.append_nil]

end

/-! ## Joining one vertex at a time -/

/-- Enter the edges of one vertex at their other ends, first those of its list `pre`. -/
def join (lists : (α → List α) × (α → List α)) (v : α) : (α → List α) × (α → List α) :=
  let next := (lists.1 v).foldl (fun next u => Function.update next u (next u ++ [v])) lists.2
  let pre := (next v).foldl (fun pre w => Function.update pre w (pre w ++ [v])) lists.1
  (pre, next)

section
variable {lists : (α → List α) × (α → List α)} {v w x : α} {vertices : List α}

theorem join_next : (join lists v).2 x = lists.2 x ++ List.replicate ((lists.1 v).count x) v :=
  push_all _ _ _ _

theorem join_pre :
    (join lists v).1 x = lists.1 x ++ List.replicate (((join lists v).2 v).count x) v :=
  push_all _ _ _ _

theorem mem_join_next : w ∈ (join lists v).2 x ↔ w ∈ lists.2 x ∨ w = v ∧ x ∈ lists.1 v := by
  rw [join_next, List.mem_append, List.mem_replicate]
  grind

theorem mem_join_pre :
    w ∈ (join lists v).1 x ↔ w ∈ lists.1 x ∨ w = v ∧ x ∈ (join lists v).2 v := by
  rw [join_pre, List.mem_append, List.mem_replicate]
  grind

theorem foldl_join_prefix (vertices : List α) (x : α) :
    lists.1 x <+: (vertices.foldl join lists).1 x ∧ lists.2 x <+: (vertices.foldl join lists).2 x := by
  induction vertices generalizing lists with
  | nil => exact ⟨List.prefix_rfl, List.prefix_rfl⟩
  | cons v vertices ih =>
    obtain ⟨pre, next⟩ := @ih (join lists v)
    have first : lists.1 x <+: (join lists v).1 x := by
      rw [join_pre]
      exact List.prefix_append _ _
    have second : lists.2 x <+: (join lists v).2 x := by
      rw [join_next]
      exact List.prefix_append _ _
    exact ⟨first.trans pre, second.trans next⟩

/-- What comes into a list is one of the vertices. -/
theorem mem_foldl_join (vertices : List α) :
    (w ∈ (vertices.foldl join lists).1 x → w ∈ lists.1 x ∨ w ∈ vertices) ∧
      (w ∈ (vertices.foldl join lists).2 x → w ∈ lists.2 x ∨ w ∈ vertices) := by
  induction vertices generalizing lists with
  | nil => exact ⟨.inl, .inl⟩
  | cons v vertices ih =>
    constructor
    · intro mem
      rcases ih.1 mem with before | later
      · rcases mem_join_pre.mp before with old | ⟨rfl, -⟩
        · exact .inl old
        · exact .inr List.mem_cons_self
      · exact .inr (List.mem_cons_of_mem _ later)
    · intro mem
      rcases ih.2 mem with before | later
      · rcases mem_join_next.mp before with old | ⟨rfl, -⟩
        · exact .inl old
        · exact .inr List.mem_cons_self
      · exact .inr (List.mem_cons_of_mem _ later)

/-- The edges at a vertex stand in the lists of both ends. -/
def Settled (lists : (α → List α) × (α → List α)) (v : α) : Prop :=
  (∀ u ∈ lists.1 v, v ∈ lists.2 u) ∧ ∀ w ∈ lists.2 v, v ∈ lists.1 w

theorem settled_join : Settled (join lists v) v := by
  constructor
  · intro u mem
    rcases mem_join_pre.mp mem with old | ⟨rfl, there⟩
    · exact mem_join_next.mpr (.inr ⟨rfl, old⟩)
    · exact there
  · intro w mem
    exact mem_join_pre.mpr (.inr ⟨rfl, mem⟩)

theorem Settled.join (h : Settled lists w) : Settled (join lists v) w := by
  constructor
  · intro u mem
    rcases mem_join_pre.mp mem with old | ⟨rfl, there⟩
    · exact mem_join_next.mpr (.inl (h.1 u old))
    · exact there
  · intro u mem
    rcases mem_join_next.mp mem with old | ⟨rfl, there⟩
    · exact mem_join_pre.mpr (.inl (h.2 u old))
    · exact mem_join_pre.mpr (.inl there)

theorem Settled.foldl_join (h : Settled lists w) (vertices : List α) :
    Settled (vertices.foldl Adjacency.join lists) w := by
  induction vertices generalizing lists with
  | nil => exact h
  | cons v vertices ih => exact ih h.join

theorem settled_foldl_join (lists : (α → List α) × (α → List α)) :
    ∀ v ∈ vertices, Settled (vertices.foldl join lists) v := by
  induction vertices generalizing lists with
  | nil => simp
  | cons v vertices ih =>
    exact List.forall_mem_cons.mpr ⟨settled_join.foldl_join vertices, ih (join lists v)⟩

/-- When every vertex has had its turn, the two lists of an edge agree. -/
theorem foldl_join_symmetric (hv : v ∈ vertices) (hw : w ∈ vertices) :
    w ∈ (vertices.foldl join lists).2 v ↔ v ∈ (vertices.foldl join lists).1 w :=
  ⟨(settled_foldl_join lists v hv).2 w, (settled_foldl_join lists w hw).1 v⟩

/-- Lists that agree already get copies only. -/
theorem distinct_foldl_join (settled : ∀ v, Settled lists v) (vertices : List α) (x : α) :
    distinct ((vertices.foldl join lists).1 x) = distinct (lists.1 x) ∧
      distinct ((vertices.foldl join lists).2 x) = distinct (lists.2 x) := by
  induction vertices generalizing lists with
  | nil => exact ⟨rfl, rfl⟩
  | cons v vertices ih =>
    obtain ⟨pre, next⟩ := ih fun w => (settled w).join (v := v)
    rw [List.foldl_cons, pre, next]
    constructor
    · rw [join_pre]
      refine distinct_append_of_subset fun w mem => ?_
      obtain ⟨copied, rfl⟩ := List.mem_replicate.mp mem
      have there := List.count_pos_iff.mp (Nat.pos_of_ne_zero copied)
      rcases mem_join_next.mp there with old | ⟨rfl, old⟩
      · exact (settled w).2 x old
      · exact old
    · rw [join_next]
      refine distinct_append_of_subset fun w mem => ?_
      obtain ⟨copied, rfl⟩ := List.mem_replicate.mp mem
      exact (settled w).1 x (List.count_pos_iff.mp (Nat.pos_of_ne_zero copied))

end

end Adjacency
