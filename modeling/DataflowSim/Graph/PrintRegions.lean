import DataflowSim.Graph.ControlTree
import DataflowSim.Library.Nesting

/-!
# Clusters of a dot file

`traverseControlRegionsDfs`, `printSubgraphDot` and `Graph::printDotControlRegion`. A region is
printed as a cluster which is left open. How many clusters end behind it is told from its level
and the next one, which are unsigned numbers of 64 bits.
-/

namespace DataflowSim.Graph.ControlTree

def lowerRegions (t : ControlTree) (controlRegionName : String) : Option (List String) :=
  (t.getCtrlRegion controlRegionName).map (·.lowerControlRegion)

/-- The list `tmp` of the traversal. -/
def lowerLevel (t : ControlTree) (r : String × UInt64) : Option (List (String × UInt64)) := do
  let lowerControlRegions ← t.lowerRegions r.1
  some (lowerControlRegions.map fun controlRegionName => (controlRegionName, r.2 + 1))

/-- The loop of the source ends where no region is met again and again. -/
def traverseControlRegionsDfs (fuel : ℕ) (t : ControlTree) : Option (List (String × UInt64)) := do
  let first ← t.regions.head?
  Nesting.walk t.lowerLevel fuel 0 [(first, 0)]

def printNodes : List String → String
  | [] => ""
  | [node] => node ++ "\n"
  | node :: nodes => node ++ ", " ++ printNodes nodes

def printColor : ControlType → String
  | .Loop => "color=darkorange\n"
  | .Branch => "color=dodgerblue2\n"

def printSubgraphDot (t : ControlTree) (controlRegionName : String) : Option String := do
  let controlRegion ← t.getCtrlRegion controlRegionName
  some ("\nsubgraph cluster_" ++ controlRegionName ++ " \x7b\n" ++ printNodes controlRegion.nodes ++
    printColor controlRegion.controlType ++ "label=\"" ++ controlRegionName ++ "\"\n")

def braces (n : ℕ) : String := String.ofList (List.replicate n '\x7d')

/-- What ends behind a region, with the level of the next one. In the condition of the source the
negation is that of the first level alone, and the result is 1 or 0. -/
def printClosing (level : UInt64) : Option UInt64 → String
  | some nextLevel =>
    if (if level = 0 then 1 else 0) < nextLevel then
      braces (level - nextLevel + 1).toNat ++ "\n"
    else ""
  | none => braces (level + 1).toNat ++ "\n"

def printRegions (t : ControlTree) : List (String × UInt64) → Option String
  | [] => some ""
  | (controlRegionName, level) :: controlRegions => do
    let cluster ← t.printSubgraphDot controlRegionName
    let rest ← t.printRegions controlRegions
    some (cluster ++ printClosing level (controlRegions.head?.map Prod.snd) ++ rest)

def printDotControlRegion (fuel : ℕ) (t : ControlTree) : Option String := do
  let controlRegions ← t.traverseControlRegionsDfs fuel
  t.printRegions controlRegions

/-! ## What is printed -/

/-- No region stands below two others, twice below one or below itself, and no name has a brace.
A table is indexed by numbers of 64 bits. -/
structure Hierarchy (t : ControlTree) : Prop where
  lower : ∀ r ∈ t.regions, ∀ c ∈ (t.region r).lowerControlRegion, c ∈ t.regions
  once : ∀ r ∈ t.regions, (t.region r).lowerControlRegion.Nodup
  one : ∀ a ∈ t.regions, ∀ b ∈ t.regions, ∀ c ∈ (t.region a).lowerControlRegion,
    c ∈ (t.region b).lowerControlRegion → a = b
  ends : ∃ rank : String → ℕ, ∀ r ∈ t.regions, ∀ c ∈ (t.region r).lowerControlRegion,
    rank c < rank r
  plain : ∀ r ∈ t.regions, ∀ s ∈ r :: (t.region r).nodes, '\x7b' ∉ s.toList ∧ '\x7d' ∉ s.toList
  small : t.regions.length < 2 ^ 64

def heading (t : ControlTree) (r : String) : List Char := ((t.printSubgraphDot r).getD "").toList

/-- Clusters of the first region and all below it, each once, which nest as the regions do. -/
structure Clusters (t : ControlTree) (first : String) (order : List String) (text : List Char) :
    Prop where
  nested : Nesting.Nested t.lowerRegions t.heading '\x7d' (· = '\n') [first] order text
  nodup : order.Nodup
  below : ∀ r, r ∈ order ↔ Relation.ReflTransGen (Nesting.Below t.lowerRegions) first r
  whole : (∀ r ∈ t.regions, Relation.ReflTransGen (Nesting.Below t.lowerRegions) first r) →
    order.Perm t.regions
  open_first : ∀ front, front <+: text → front.count '\x7d' ≤ front.count '\x7b'
  balanced : text.count '\x7d' = text.count '\x7b'

/-! ## Levels of 64 bits -/

theorem toList_braces (n : ℕ) : (braces n).toList = List.replicate n '\x7d' := by simp [braces]

/-- A step down wraps around to no brace. -/
theorem toNat_sub_add_one {k n : ℕ} (small : k + 1 < 2 ^ 64) (near : n ≤ k + 1) :
    (UInt64.ofNat k - UInt64.ofNat n + 1).toNat = k + 1 - n := by
  simp only [UInt64.toNat_add, UInt64.toNat_sub, UInt64.toNat_ofNat', UInt64.toNat_one]
  omega

/-- The condition fails behind the first region alone, where nothing ends. -/
theorem printClosing_closes {bound : ℕ} (small : bound < 2 ^ 64) :
    Nesting.Closes (fun k m => (printClosing (UInt64.ofNat k) (m.map UInt64.ofNat)).toList)
      '\x7d' (· = '\n') bound := by
  intro k low m near
  cases m with
  | none =>
    have count := @toNat_sub_add_one k 0 (by omega) (Nat.zero_le _)
    refine ⟨['\n'], by simp, ?_⟩
    have level : UInt64.ofNat k + 1 = UInt64.ofNat k - UInt64.ofNat 0 + 1 := by simp
    simp [printClosing, toList_braces, level, count]
  | some n =>
    obtain ⟨pos, le⟩ := near n rfl
    have count := @toNat_sub_add_one k n (by omega) le
    by_cases zero : k = 0
    · subst zero
      obtain rfl : n = 1 := by omega
      exact ⟨[], by simp, by simp [printClosing]⟩
    · have first : UInt64.ofNat k ≠ 0 := by
        intro same
        have := congrArg UInt64.toNat same
        rw [UInt64.toNat_ofNat'] at this
        simp at this
        omega
      have next : 0 < UInt64.ofNat n := by
        rw [UInt64.lt_iff_toNat_lt, UInt64.toNat_ofNat']
        simp
        omega
      refine ⟨['\n'], by simp, ?_⟩
      simp [printClosing, first, next, toList_braces, count]

/-! ## The traversal -/

/-- The levels are the depths. -/
def withLevel (p : String × ℕ) : String × UInt64 := (p.1, UInt64.ofNat p.2)

theorem lowerLevel_withLevel (t : ControlTree) (a : String) (k : ℕ) :
    t.lowerLevel (withLevel (a, k)) =
      (t.lowerRegions a).map fun lower => lower.map fun c => withLevel (c, k + 1) := by
  cases lower : t.lowerRegions a <;> simp [lowerLevel, withLevel, lower, UInt64.ofNat_add]

theorem lowerRegions_of_mem {t : ControlTree} {r : String} (mem : r ∈ t.regions) :
    t.lowerRegions r = some (t.region r).lowerControlRegion := by
  rw [lowerRegions, getCtrlRegion_of_mem mem, Option.map_some]

theorem below_iff {t : ControlTree} {a c : String} : Nesting.Below t.lowerRegions a c ↔
    a ∈ t.regions ∧ c ∈ (t.region a).lowerControlRegion := by
  by_cases mem : a ∈ t.regions
  · simp [Nesting.Below, lowerRegions_of_mem mem, mem]
  · simp [Nesting.Below, lowerRegions, getCtrlRegion, mem]

/-- Where each region is met once, the loop ends. -/
theorem traverse_outline {t : ControlTree} {first : String} {out : List (String × ℕ)} (head : t.regions.head? = some first)
    (outline : Nesting.Outline t.lowerRegions 0 [first] out) (once : (out.map Prod.fst).Nodup)
    (known : ∀ r ∈ out.map Prod.fst, r ∈ t.regions) {fuel : ℕ} (enough : t.regions.length ≤ fuel) :
    t.traverseControlRegionsDfs fuel = some (out.map withLevel) := by
  have size : out.length ≤ t.regions.length := by
    simpa using (once.subperm known).length_le
  have run := Nesting.walk_outline t.lowerLevel_withLevel outline (fuel - out.length) [] []
  have last := Nesting.walk_length t.lowerLevel (fuel - out.length) (out.map withLevel)
  rw [Nat.add_sub_of_le (size.trans enough)] at run
  rw [List.length_map] at last
  simp only [List.length_nil, List.nil_append, List.append_nil, Nat.zero_add, last] at run
  simpa [traverseControlRegionsDfs, head, withLevel] using run

/-! ## The text -/

/-- Declared regions are printed with what ends behind them. -/
theorem printRegions_emit {t : ControlTree} {out : List (String × ℕ)} (known : ∀ r ∈ out.map Prod.fst, r ∈ t.regions) :
    ∃ text, t.printRegions (out.map withLevel) = some text ∧ text.toList = Nesting.emit t.heading
      (fun k m => (printClosing (UInt64.ofNat k) (m.map UInt64.ofNat)).toList) out := by
  induction out with
  | nil => exact ⟨"", rfl, rfl⟩
  | cons p out ih =>
    obtain ⟨r, k⟩ := p
    obtain ⟨mem, others⟩ := List.forall_mem_cons.mp known
    obtain ⟨rest, run, eq⟩ := ih others
    obtain ⟨cluster, printed⟩ : ∃ cluster, t.printSubgraphDot r = some cluster :=
      ⟨_, by rw [printSubgraphDot, getCtrlRegion_of_mem mem, Option.bind_eq_bind, Option.bind_some]⟩
    have level : (out.map withLevel).head?.map Prod.snd =
        (out.head?.map Prod.snd).map UInt64.ofNat := by
      cases out <;> rfl
    refine ⟨cluster ++ printClosing (UInt64.ofNat k) ((out.head?.map Prod.snd).map UInt64.ofNat) ++ rest,
      ?_, ?_⟩
    · simp [printRegions, withLevel, printed, run, ← level]
    · simp [Nesting.emit, heading, printed, eq]

theorem plain_printNodes {nodes : List String}
    (plain : ∀ s ∈ nodes, '\x7b' ∉ s.toList ∧ '\x7d' ∉ s.toList) :
    '\x7b' ∉ (printNodes nodes).toList ∧ '\x7d' ∉ (printNodes nodes).toList := by
  fun_induction printNodes nodes with
  | case1 => simp
  | case2 node => simpa using plain
  | case3 node nodes _ ih =>
    obtain ⟨here, later⟩ := List.forall_mem_cons.mp plain
    simpa [here] using ih later

/-! ## Hierarchies -/

section
variable {t : ControlTree} (hierarchy : t.Hierarchy) {first : String}
include hierarchy

/-- The traversal from a declared region has one order, of declared regions, each once. -/
theorem Hierarchy.outline (known : first ∈ t.regions) : ∃ out,
    Nesting.Outline t.lowerRegions 0 [first] out ∧ (out.map Prod.fst).Nodup ∧
      ∀ r ∈ out.map Prod.fst, r ∈ t.regions := by
  obtain ⟨rank, falls⟩ := hierarchy.ends
  obtain ⟨out, outline⟩ := @Nesting.Outline.total _ t.lowerRegions [first] {r | r ∈ t.regions} rank
    (fun r mem => ⟨_, lowerRegions_of_mem mem, fun c listed =>
      ⟨hierarchy.lower r mem c listed, falls r mem c listed⟩⟩) 0 (by simpa using known)
  refine ⟨out, outline, @Nesting.Outline.nodup _ _ _ _ _ outline rank ?_ ?_ ?_ (by simp), ?_⟩
  · intro a c below
    obtain ⟨mem, listed⟩ := below_iff.mp below
    exact falls a mem c listed
  · intro a b c below below'
    obtain ⟨mem, listed⟩ := below_iff.mp below
    obtain ⟨mem', listed'⟩ := below_iff.mp below'
    exact hierarchy.one a mem b mem' c listed listed'
  · intro a children expands
    by_cases mem : a ∈ t.regions
    · rw [lowerRegions_of_mem mem] at expands
      exact Option.some.inj expands ▸ hierarchy.once a mem
    · simp [lowerRegions, getCtrlRegion, mem] at expands
  · intro r mem
    obtain ⟨a, root, path⟩ := outline.mem_iff.mp mem
    obtain rfl := List.mem_singleton.mp root
    induction path with
    | refl => exact known
    | tail _ last ih =>
      obtain ⟨there, listed⟩ := below_iff.mp last
      exact hierarchy.lower _ there _ listed

/-- The one brace of a heading opens its cluster. -/
theorem Hierarchy.brackets_heading {r : String} (mem : r ∈ t.regions) :
    Nesting.brackets '\x7b' '\x7d' (t.heading r) = [.U] := by
  obtain ⟨here, inside⟩ := List.forall_mem_cons.mp (hierarchy.plain r mem)
  have name := Nesting.brackets_eq_nil here
  have nodes := Nesting.brackets_eq_nil (plain_printNodes inside)
  have front : Nesting.brackets '\x7b' '\x7d' "\nsubgraph cluster_".toList = [] := by decide
  have opens : Nesting.brackets '\x7b' '\x7d' " \x7b\n".toList = [.U] := by decide
  have color : Nesting.brackets '\x7b' '\x7d' (printColor (t.region r).controlType).toList = [] := by
    cases (t.region r).controlType <;> decide
  have label : Nesting.brackets '\x7b' '\x7d' "label=\"".toList = [] := by decide
  have close : Nesting.brackets '\x7b' '\x7d' "\"\n".toList = [] := by decide
  simp only [heading, printSubgraphDot, getCtrlRegion_of_mem mem, Option.bind_eq_bind,
    Option.bind_some, Option.getD_some, String.toList_append, Nesting.brackets_append, front, name,
    opens, nodes, color, label, close, List.nil_append, List.append_nil]

/-- The text of a hierarchy. -/
theorem printDotControlRegion_clusters (head : t.regions.head? = some first) {fuel : ℕ}
    (enough : t.regions.length ≤ fuel) : ∃ text order,
      t.printDotControlRegion fuel = some text ∧ t.Clusters first order text.toList := by
  have known : first ∈ t.regions := List.mem_of_head? head
  obtain ⟨out, outline, once, declared⟩ := hierarchy.outline known
  obtain ⟨text, run, eq⟩ := printRegions_emit declared
  have size : out.length ≤ t.regions.length := by
    simpa using (once.subperm declared).length_le
  have low : ∀ p ∈ out, p.2 < t.regions.length := fun p mem => by
    have := outline.depth_lt p mem
    omega
  obtain ⟨written, eq', body, spaces, rfl, nested, skip⟩ := Nesting.emit_outline
    (printClosing_closes hierarchy.small) outline (List.cons_ne_nil _ _) (by simp) low [] (by simp)
  have clusters : Nesting.Nested t.lowerRegions t.heading '\x7d' (· = '\n') [first]
      (out.map Prod.fst) text.toList := by
    rw [eq, ← List.append_nil out, eq']
    simpa [Nesting.emit] using nested.append (Nesting.Nested.nil.spaces skip)
  have unmarked : ∀ c : Char, c = '\n' → c ≠ '\x7b' ∧ c ≠ '\x7d' := by
    rintro c rfl
    decide
  obtain ⟨w, marks⟩ := clusters.dyck (by decide) unmarked fun r mem =>
    hierarchy.brackets_heading (declared r mem)
  have below : ∀ r, r ∈ out.map Prod.fst ↔
      Relation.ReflTransGen (Nesting.Below t.lowerRegions) first r := fun r => by
    simpa using outline.mem_iff
  refine ⟨text, out.map Prod.fst, ?_, clusters, once, below, fun all => ?_, ?_, ?_⟩
  · rw [printDotControlRegion, traverse_outline head outline once declared enough]
    exact run
  · refine (List.perm_ext_iff_of_nodup once t.nodup).mpr fun r => ⟨declared r, fun mem => ?_⟩
    exact (below r).mpr (all r mem)
  · exact fun front h => Nesting.count_closer_le (by decide) marks h
  · exact Nesting.count_closer_eq (by decide) marks

end

/-- Two levels end at once behind `k`. -/
def steps : ControlTree where
  regions := ["i", "j", "k", "m"]
  region := fun r =>
    if r = "i" then { lowerControlRegion := ["j", "m"], nodes := ["Lc_i"] }
    else if r = "j" then { lowerControlRegion := ["k"], nodes := ["Lc_j", "load"] }
    else if r = "m" then { controlType := .Branch }
    else {}
  nodup := by decide

theorem printDotControlRegion_clusters_steps : ∃ text order,
    steps.printDotControlRegion 4 = some text ∧ steps.Clusters "i" order text.toList :=
  printDotControlRegion_clusters ⟨by decide, by decide, by decide,
    ⟨fun r => if r = "i" then 2 else if r = "j" then 1 else 0, by decide⟩, by decide, by decide⟩
    rfl le_rfl

/-- The root of the tree is declared after the region below it. -/
def rootLast : ControlTree where
  regions := ["inner", "outer"]
  region := fun r => if r = "outer" then { lowerControlRegion := ["inner"] } else {}
  nodup := by decide

def braceName : ControlTree where
  regions := ["\x7d"]
  region := fun _ => {}
  nodup := by decide

/-- The traversal starts at the first region wherever that stands, and names are printed as they
are. -/
theorem printDotControlRegion_misses : (rootLast.Hierarchy ∧ rootLast.printDotControlRegion 2 = some
      "\nsubgraph cluster_inner \x7b\ncolor=darkorange\nlabel=\"inner\"\n\x7d\n") ∧
    ∃ text, braceName.printDotControlRegion 1 = some text ∧
      (text.toList.take 19).count '\x7b' < (text.toList.take 19).count '\x7d' := by
  refine ⟨⟨⟨by decide, by decide, by decide, ?_, by decide, by decide⟩, ?_⟩, ?_⟩
  · exact ⟨fun r => if r = "outer" then 1 else 0, by decide⟩
  · rfl
  · exact ⟨_, rfl, by decide⟩

end DataflowSim.Graph.ControlTree
