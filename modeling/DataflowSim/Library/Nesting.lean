import Mathlib

/-!
# Nested texts

The depth-first sequence of a forest, each element with its depth, is written out with a heading
for each element. Behind an element stand as many closing marks as the depth of the next one asks
for, and the marks then nest as the forest does.
-/

namespace Nesting

variable {α β χ : Type*}

/-- The elements under a list of roots in depth-first order, each with its depth. -/
inductive Outline (next : α → Option (List α)) : ℕ → List α → List (α × ℕ) → Prop
  | nil {k : ℕ} : Outline next k [] []
  | cons {k : ℕ} {a : α} {as children : List α} {inside after : List (α × ℕ)}
      (expands : next a = some children) (down : Outline next (k + 1) children inside)
      (along : Outline next k as after) : Outline next k (a :: as) ((a, k) :: (inside ++ after))

def Below (next : α → Option (List α)) (a b : α) : Prop := ∃ children, next a = some children ∧ b ∈ children

namespace Outline

variable {next : α → Option (List α)} {k : ℕ} {roots : List α} {out : List (α × ℕ)}

/-- Where ranks fall from an element to those below it, the sequence ends. -/
theorem total {S : Set α} {rank : α → ℕ}
    (falls : ∀ a ∈ S, ∃ children, next a = some children ∧ ∀ b ∈ children, b ∈ S ∧ rank b < rank a)
    (k : ℕ) (known : ∀ a ∈ roots, a ∈ S) : ∃ out, Outline next k roots out := by
  suffices bounded : ∀ m k roots, (∀ a ∈ roots, a ∈ S ∧ rank a < m) →
      ∃ out, Outline next k roots out by
    refine bounded ((roots.map rank).sum + 1) k roots fun a mem => ⟨known a mem, ?_⟩
    have least : rank a ≤ (roots.map rank).sum :=
      List.single_le_sum (by simp) _ (List.mem_map_of_mem mem)
    omega
  intro m
  induction m with
  | zero =>
    intro k roots low
    cases roots with
    | nil => exact ⟨[], .nil⟩
    | cons a as => exact absurd (low a List.mem_cons_self).2 (Nat.not_lt_zero _)
  | succ m ih =>
    intro k roots low
    induction roots with
    | nil => exact ⟨[], .nil⟩
    | cons a as along =>
      obtain ⟨here, later⟩ := List.forall_mem_cons.mp low
      obtain ⟨children, expands, lower⟩ := falls a here.1
      obtain ⟨inside, down⟩ := ih (k + 1) children fun b mem => ⟨(lower b mem).1, by grind⟩
      obtain ⟨after, rest⟩ := along later
      exact ⟨_, .cons expands down rest⟩

theorem head? (outline : Outline next k roots out) :
    out.head? = roots.head?.map fun a => (a, k) := by
  cases outline <;> simp

/-- Depths start at that of the roots and rise one by one. -/
theorem depth_lt (outline : Outline next k roots out) : ∀ p ∈ out, p.2 < k + out.length := by
  induction outline with
  | nil => simp
  | cons _ _ _ down along =>
    intro p mem
    simp only [List.mem_cons, List.mem_append] at mem
    simp only [List.length_cons, List.length_append]
    rcases mem with rfl | below | after
    · dsimp only
      omega
    · have := down p below
      omega
    · have := along p after
      omega

theorem mem_iff (outline : Outline next k roots out) {b : α} :
    b ∈ out.map Prod.fst ↔ ∃ a ∈ roots, Relation.ReflTransGen (Below next) a b := by
  induction outline with
  | nil => simp
  | @cons k a as children inside after expands _ _ down along =>
    have start : Relation.ReflTransGen (Below next) a b ↔
        b = a ∨ ∃ c ∈ children, Relation.ReflTransGen (Below next) c b := by
      rw [Relation.ReflTransGen.cases_head_iff]
      have edge {c : α} : Below next a c ↔ c ∈ children := by simp [Below, expands]
      simp [edge, eq_comm]
    rw [List.map_cons, List.mem_cons, List.map_append, List.mem_append, down, along]
    simp only [List.mem_cons, exists_eq_or_imp, start, or_assoc]

/-- No root stands above another one, no element below two others or twice below one: each
element comes once. -/
theorem nodup (outline : Outline next k roots out) {rank : α → ℕ}
    (falls : ∀ a b, Below next a b → rank b < rank a)
    (one : ∀ a b c, Below next a c → Below next b c → a = b)
    (once : ∀ a children, next a = some children → children.Nodup)
    (apart : roots.Pairwise fun a b => ¬Relation.ReflTransGen (Below next) a b ∧
      ¬Relation.ReflTransGen (Below next) b a) : (out.map Prod.fst).Nodup := by
  have low {a b : α} (path : Relation.ReflTransGen (Below next) a b) : rank b ≤ rank a := by
    induction path with
    | refl => exact le_rfl
    | tail _ edge ih => exact (falls _ _ edge).le.trans ih
  -- two elements above a third one are above one another
  have line {a b c : α} (first : Relation.ReflTransGen (Below next) a c)
      (second : Relation.ReflTransGen (Below next) b c) :
      Relation.ReflTransGen (Below next) a b ∨ Relation.ReflTransGen (Below next) b a := by
    have unique : Relator.RightUnique (Function.swap (Below next)) := fun c a b ha hb => one a b c ha hb
    rw [← Relation.reflTransGen_swap] at first second
    have either := Relation.ReflTransGen.total_of_right_unique unique first second
    exact either.symm.imp Relation.reflTransGen_swap.mp Relation.reflTransGen_swap.mp
  induction outline with
  | nil => simp
  | @cons k a as children inside after expands down along nodupInside nodupAfter =>
    have edge {c : α} (mem : c ∈ children) : Below next a c := ⟨children, expands, mem⟩
    obtain ⟨others, later⟩ := List.pairwise_cons.mp apart
    have siblings : children.Pairwise fun b c => ¬Relation.ReflTransGen (Below next) b c ∧
        ¬Relation.ReflTransGen (Below next) c b := by
      have proper {b c : α} (hb : b ∈ children) (hc : c ∈ children) (ne : b ≠ c) :
          ¬Relation.ReflTransGen (Below next) b c := by
        intro path
        rcases path.cases_tail with same | ⟨d, before, last⟩
        · exact ne same.symm
        · obtain rfl := one d a c last (edge hc)
          exact absurd (falls d b (edge hb)) (low before).not_gt
      refine (once a children expands).imp_of_mem fun hb hc ne => ?_
      exact ⟨proper hb hc ne, proper hc hb ne.symm⟩
    rw [List.map_cons, List.map_append]
    refine List.nodup_cons.mpr ⟨fun mem => ?_, (nodupInside siblings).append (nodupAfter later) ?_⟩
    · rcases List.mem_append.mp mem with below | beside
      · obtain ⟨c, child, path⟩ := down.mem_iff.mp below
        exact absurd (falls a c (edge child)) (low path).not_gt
      · obtain ⟨b, root, path⟩ := along.mem_iff.mp beside
        exact (others b root).2 path
    · intro x below beside
      obtain ⟨c, child, path⟩ := down.mem_iff.mp below
      obtain ⟨b, root, path'⟩ := along.mem_iff.mp beside
      rcases line path path' with under | above
      · exact (others b root).1 (.head (edge child) under)
      · rcases above.cases_tail with rfl | ⟨d, before, last⟩
        · exact (others _ root).1 (.single (edge child))
        · obtain rfl := one d a c last (edge child)
          exact (others b root).2 before

end Outline

/-! ## The walk -/

/-- What an element expands to is inserted behind it, and the next one is expanded. -/
def walk (expand : β → Option (List β)) : ℕ → ℕ → List β → Option (List β)
  | 0, ptr, l => if ptr < l.length then none else some l
  | fuel + 1, ptr, l =>
    match l[ptr]? with
    | none => some l
    | some b => do
      let tmp ← expand b
      walk expand fuel (ptr + 1) (l.take (ptr + 1) ++ tmp ++ l.drop (ptr + 1))

theorem walk_length (expand : β → Option (List β)) (fuel : ℕ) (l : List β) :
    walk expand fuel l.length l = some l := by
  cases fuel <;> simp [walk]

theorem walk_next {expand : β → Option (List β)} {b : β} {tmp : List β} (expands : expand b = some tmp)
    (fuel : ℕ) (done rest : List β) :
    walk expand (fuel + 1) done.length (done ++ b :: rest) =
      walk expand fuel (done ++ [b]).length (done ++ [b] ++ (tmp ++ rest)) := by
  have here : (done ++ b :: rest)[done.length]? = some b := by simp
  have size : done.length + 1 = (done ++ [b]).length := by simp
  have parts : done ++ b :: rest = done ++ [b] ++ rest := by simp
  simp only [walk, here, expands, Option.bind_eq_bind, Option.bind_some]
  rw [size, parts, List.take_left, List.drop_left, List.append_assoc]

/-- The walk over a list of roots puts the depth-first sequence in their place. -/
theorem walk_outline {next : α → Option (List α)} {expand : β → Option (List β)} {f : α × ℕ → β}
    (goes : ∀ a k, expand (f (a, k)) = (next a).map fun children => children.map fun c => f (c, k + 1))
    {k : ℕ} {roots : List α} {out : List (α × ℕ)} (outline : Outline next k roots out)
    (fuel : ℕ) (done rest : List β) :
    walk expand (out.length + fuel) done.length (done ++ (roots.map (fun a => f (a, k)) ++ rest)) =
      walk expand fuel (done.length + out.length) (done ++ out.map f ++ rest) := by
  induction outline generalizing fuel done rest with
  | nil => simp
  | @cons k a as children inside after expands _ _ down along =>
    have count : ((a, k) :: (inside ++ after)).length + fuel =
        inside.length + (after.length + fuel) + 1 := by
      simp only [List.length_cons, List.length_append]
      omega
    have here : expand (f (a, k)) = some (children.map fun c => f (c, k + 1)) := by
      simp [goes, expands]
    have next := along fuel (done ++ [f (a, k)] ++ inside.map f) rest
    rw [count, List.map_cons, List.cons_append, walk_next here, down]
    simp only [List.length_append, List.length_map] at next
    simp only [List.length_append]
    rw [next]
    simp [Nat.add_assoc, Nat.add_comm, Nat.add_left_comm]

/-! ## Texts -/

/-- The text of a forest and the order of its headings: behind the heading of an element stands
the text of what is below it, and then its closing mark. Blanks may stand anywhere between. -/
inductive Nested (next : α → Option (List α)) (heading : α → List χ) (closer : χ) (blank : χ → Prop) :
    List α → List α → List χ → Prop
  | nil : Nested next heading closer blank [] [] []
  | space {as order : List α} {text : List χ} {c : χ} (skip : blank c)
      (rest : Nested next heading closer blank as order text) :
      Nested next heading closer blank as order (c :: text)
  | cons {a : α} {as children below after : List α} {inside text : List χ}
      (expands : next a = some children)
      (down : Nested next heading closer blank children below inside)
      (along : Nested next heading closer blank as after text) :
      Nested next heading closer blank (a :: as) (a :: (below ++ after))
        (heading a ++ inside ++ closer :: text)

/-- Headings in a row, each with closing marks that are told from its depth and the next one. -/
def emit (heading : α → List χ) (closing : ℕ → Option ℕ → List χ) : List (α × ℕ) → List χ
  | [] => []
  | (a, k) :: rest => heading a ++ closing k (rest.head?.map Prod.snd) ++ emit heading closing rest

/-- The closing marks bring the depth back to that of the next element, or to nothing at the end.
Only the first element has depth 0. -/
def Closes (closing : ℕ → Option ℕ → List χ) (closer : χ) (blank : χ → Prop) (bound : ℕ) : Prop :=
  ∀ k < bound, ∀ m : Option ℕ, (∀ n ∈ m, 1 ≤ n ∧ n ≤ k + 1) → ∃ spaces : List χ,
    (∀ c ∈ spaces, blank c) ∧ closing k m = List.replicate (k + 1 - m.getD 0) closer ++ spaces

section
variable {next : α → Option (List α)} {heading : α → List χ} {closer : χ} {blank : χ → Prop}

theorem Nested.spaces {as order : List α} {text spaces : List χ} (skip : ∀ c ∈ spaces, blank c)
    (rest : Nested next heading closer blank as order text) :
    Nested next heading closer blank as order (spaces ++ text) := by
  induction spaces with
  | nil => exact rest
  | cons c spaces ih =>
    obtain ⟨here, later⟩ := List.forall_mem_cons.mp skip
    exact .space here (ih later)

theorem Nested.append {as bs before after : List α} {text rest : List χ}
    (first : Nested next heading closer blank as before text)
    (second : Nested next heading closer blank bs after rest) :
    Nested next heading closer blank (as ++ bs) (before ++ after) (text ++ rest) := by
  induction first with
  | nil => exact second
  | space skip _ ih => exact .space skip ih
  | cons expands down _ _ ih => simpa using Nested.cons expands down ih

/-- The text of a list of roots, with the marks that close what is above them too. -/
def Written (next : α → Option (List α)) (heading : α → List χ) (closer : χ) (blank : χ → Prop)
    (roots order : List α) (surplus : ℕ) (written : List χ) : Prop :=
  ∃ text spaces, written = text ++ List.replicate surplus closer ++ spaces ∧
    Nested next heading closer blank roots order text ∧ ∀ c ∈ spaces, blank c

/-- An element with what is below it. -/
theorem Written.root {closing : ℕ → Option ℕ → List χ} {bound : ℕ}
    (closes : Closes closing closer blank bound) {a : α} {k : ℕ} {children : List α}
    (expands : next a = some children) (low : k < bound) {inside rest : List (α × ℕ)}
    (outline : Outline next (k + 1) children inside)
    (follow : ∀ n ∈ rest.head?.map Prod.snd, 1 ≤ n ∧ n ≤ k)
    (down : children ≠ [] → ∃ written, emit heading closing (inside ++ rest) =
      written ++ emit heading closing rest ∧ Written next heading closer blank children
        (inside.map Prod.fst) (k + 1 - (rest.head?.map Prod.snd).getD 0) written) :
    ∃ written, emit heading closing ((a, k) :: (inside ++ rest)) =
      written ++ emit heading closing rest ∧ Written next heading closer blank [a]
        (a :: inside.map Prod.fst) (k - (rest.head?.map Prod.snd).getD 0) written := by
  have back : (rest.head?.map Prod.snd).getD 0 ≤ k := by
    cases level : rest.head?.map Prod.snd with
    | none => simp
    | some n => exact (follow n level).2
  have one : k + 1 - (rest.head?.map Prod.snd).getD 0 =
      k - (rest.head?.map Prod.snd).getD 0 + 1 := by omega
  rw [one] at down
  cases children with
  | nil =>
    cases outline
    obtain ⟨spaces, skip, eq⟩ := closes k low _ fun n mem =>
      ⟨(follow n mem).1, (follow n mem).2.trans (Nat.le_succ k)⟩
    rw [one, List.replicate_succ] at eq
    refine ⟨heading a ++ closing k (rest.head?.map Prod.snd), by simp [emit], ?_⟩
    refine ⟨heading a ++ [] ++ [closer], spaces, by simp [eq], ?_, skip⟩
    exact .cons expands .nil .nil
  | cons c children =>
    obtain ⟨written, eq, text, spaces, rfl, nested, skip⟩ := down (List.cons_ne_nil _ _)
    have first : (inside ++ rest).head?.map Prod.snd = some (k + 1) := by
      simp [List.head?_append, outline.head?]
    obtain ⟨gap, skip', eq'⟩ := closes k low (some (k + 1)) fun n mem => by
      obtain rfl := Option.mem_some.mp mem
      exact ⟨Nat.le_add_left 1 k, le_rfl⟩
    have none_closed : closing k (some (k + 1)) = gap := by simpa using eq'
    refine ⟨heading a ++ (gap ++ text) ++ closer ::
      (List.replicate (k - (rest.head?.map Prod.snd).getD 0) closer ++ spaces), ?_, ?_⟩
    · rw [emit, first, none_closed, eq, List.replicate_succ]
      simp
    · refine ⟨heading a ++ (gap ++ text) ++ [closer], spaces, by simp, ?_, skip⟩
      simpa using Nested.cons expands (nested.spaces skip') .nil

theorem Written.along {as bs before after : List α} {surplus : ℕ} {first second : List χ}
    (start : Written next heading closer blank as before 0 first)
    (rest : Written next heading closer blank bs after surplus second) :
    Written next heading closer blank (as ++ bs) (before ++ after) surplus (first ++ second) := by
  obtain ⟨text, spaces, rfl, nested, skip⟩ := start
  obtain ⟨text', spaces', rfl, nested', skip'⟩ := rest
  exact ⟨text ++ (spaces ++ text'), spaces', by simp, nested.append (nested'.spaces skip), skip'⟩

/-- The headings of an outline with the marks between them are its nested text. -/
theorem emit_outline {closing : ℕ → Option ℕ → List χ} {bound : ℕ}
    (closes : Closes closing closer blank bound) {k : ℕ} {roots : List α} {out : List (α × ℕ)}
    (outline : Outline next k roots out) (some_root : roots ≠ []) (top : k = 0 → roots.length ≤ 1)
    (low : ∀ p ∈ out, p.2 < bound) (rest : List (α × ℕ))
    (follow : ∀ n ∈ rest.head?.map Prod.snd, 1 ≤ n ∧ n ≤ k) :
    ∃ written, emit heading closing (out ++ rest) = written ++ emit heading closing rest ∧
      Written next heading closer blank roots (out.map Prod.fst)
        (k - (rest.head?.map Prod.snd).getD 0) written := by
  induction outline generalizing rest with
  | nil => exact absurd rfl some_root
  | @cons k a as children inside after expands outline later down along =>
    obtain ⟨here, others⟩ := List.forall_mem_cons.mp low
    obtain ⟨lowInside, lowAfter⟩ := List.forall_mem_append.mp others
    have deeper {rest : List (α × ℕ)} (follow : ∀ n ∈ rest.head?.map Prod.snd, 1 ≤ n ∧ n ≤ k)
        (some_child : children ≠ []) := down some_child (by simp) lowInside rest fun n mem =>
      ⟨(follow n mem).1, (follow n mem).2.trans (Nat.le_succ k)⟩
    cases as with
    | nil =>
      cases later
      simpa using Written.root closes expands here outline follow (deeper follow)
    | cons b as =>
      have positive : 1 ≤ k := by
        by_contra zero
        have := top (by omega)
        simp at this
      have level : (after ++ rest).head?.map Prod.snd = some k := by
        simp [List.head?_append, later.head?]
      have follow' : ∀ n ∈ (after ++ rest).head?.map Prod.snd, 1 ≤ n ∧ n ≤ k := by
        rw [level]
        intro n mem
        obtain rfl := Option.mem_some.mp mem
        exact ⟨positive, le_rfl⟩
      obtain ⟨first, eq, root⟩ := Written.root closes expands here outline follow' (deeper follow')
      obtain ⟨second, eq', siblings⟩ := along (List.cons_ne_nil _ _) (by omega) lowAfter rest follow
      rw [level, Option.getD_some, Nat.sub_self] at root
      refine ⟨first ++ second, ?_, ?_⟩
      · rw [List.cons_append, List.append_assoc, eq, eq', List.append_assoc]
      · simpa using root.along siblings

end

/-! ## Balance -/

section
variable [DecidableEq χ] {opening closer : χ}

/-- The marks of a text. -/
def brackets (opening closer : χ) (text : List χ) : List DyckStep :=
  text.filterMap fun c =>
    if c = opening then some .U else if c = closer then some .D else none

theorem brackets_append (text rest : List χ) : brackets opening closer (text ++ rest) =
    brackets opening closer text ++ brackets opening closer rest :=
  List.filterMap_append

theorem brackets_eq_nil {text : List χ} (plain : opening ∉ text ∧ closer ∉ text) :
    brackets opening closer text = [] := by
  refine List.filterMap_eq_nil_iff.mpr fun c mem => ?_
  grind

/-- A text whose headings open once and which closes nothing else has the marks of a Dyck word. -/
theorem Nested.dyck {next : α → Option (List α)} {heading : α → List χ} {blank : χ → Prop}
    (distinct : closer ≠ opening) (unmarked : ∀ c, blank c → c ≠ opening ∧ c ≠ closer)
    {as order : List α} {text : List χ} (nested : Nested next heading closer blank as order text)
    (opens : ∀ a ∈ order, brackets opening closer (heading a) = [.U]) :
    ∃ w : DyckWord, brackets opening closer text = w.toList := by
  induction nested with
  | nil => exact ⟨0, rfl⟩
  | space skip _ ih =>
    obtain ⟨w, eq⟩ := ih opens
    obtain ⟨not_opening, not_closer⟩ := unmarked _ skip
    exact ⟨w, by simpa [brackets, not_opening, not_closer] using eq⟩
  | @cons a as children below after inside text expands _ _ down along =>
    obtain ⟨here, others⟩ := List.forall_mem_cons.mp opens
    obtain ⟨opensBelow, opensAfter⟩ := List.forall_mem_append.mp others
    obtain ⟨w, eq⟩ := down opensBelow
    obtain ⟨v, eq'⟩ := along opensAfter
    have last : brackets opening closer (closer :: text) = [.D] ++ v.toList := by
      rw [← eq']
      simp [brackets, distinct]
    refine ⟨w.nest + v, ?_⟩
    rw [brackets_append, brackets_append, here, eq, last, ← List.append_assoc]
    rfl

theorem count_brackets (distinct : closer ≠ opening) (text : List χ) :
    (brackets opening closer text).count .U = text.count opening ∧
      (brackets opening closer text).count .D = text.count closer := by
  induction text with
  | nil => exact ⟨rfl, rfl⟩
  | cons c text ih =>
    unfold brackets at ih ⊢
    rw [List.filterMap_cons]
    split_ifs <;> grind

/-- The marks of a Dyck word are never closed more often than opened. -/
theorem count_closer_le (distinct : closer ≠ opening) {text : List χ} {w : DyckWord}
    (marks : brackets opening closer text = w.toList) {front : List χ} (h : front <+: text) :
    front.count closer ≤ front.count opening := by
  have inside : brackets opening closer front <+: w.toList := marks ▸ h.filterMap _
  have bound := w.count_D_le_count_U (brackets opening closer front).length
  rw [← List.prefix_iff_eq_take.mp inside] at bound
  rwa [(count_brackets distinct front).1, (count_brackets distinct front).2] at bound

theorem count_closer_eq (distinct : closer ≠ opening) {text : List χ} {w : DyckWord}
    (marks : brackets opening closer text = w.toList) : text.count closer = text.count opening := by
  have equal := w.count_U_eq_count_D
  rw [← marks, (count_brackets distinct text).1, (count_brackets distinct text).2] at equal
  exact equal.symm

end

end Nesting
