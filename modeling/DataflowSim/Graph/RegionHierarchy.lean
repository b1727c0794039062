import DataflowSim.Graph.ControlTree
import DataflowSim.Library.Run

/-!
# Completing the hierarchy of regions

`addUpperControlRegion`, `addLowerControlRegion` and `completeControlRegionHierarchy`. A region may
be declared below another one from either side. One pass over the table writes each declaration to
the other side too, while the lists it reads grow. The empty name stands for no region.
-/

namespace DataflowSim.Graph.ControlTree

def addUpperControlRegion (t : ControlTree) (targetCtrlRegion ctrlRegion : String) :
    Option ControlTree :=
  if targetCtrlRegion = "" then some t
  else t.modifyRegion targetCtrlRegion fun r => { r with upperControlRegion := ctrlRegion }

def addLowerControlRegion (t : ControlTree) (targetCtrlRegion : String)
    (ctrlRegions : List String) : Option ControlTree :=
  if targetCtrlRegion = "" then some t
  else t.modifyRegion targetCtrlRegion fun r =>
    { r with lowerControlRegion := r.lowerControlRegion ++ ctrlRegions }

def completeUpper (t : ControlTree) (controlRegionName : String) : Option ControlTree :=
  (t.region controlRegionName).lowerControlRegion.foldlM
    (fun t lowerRegion => t.addUpperControlRegion lowerRegion controlRegionName) t

def completeLower (t : ControlTree) (controlRegionName : String) : Option ControlTree :=
  t.addLowerControlRegion (t.region controlRegionName).upperControlRegion [controlRegionName]

/-- The body of the loop over the table. -/
def completeRegion (t : ControlTree) (controlRegionName : String) : Option ControlTree := do
  let t ← t.completeUpper controlRegionName
  t.completeLower controlRegionName

/-- The elements of a `set<string>`, which are in order. -/
def setOfList (l : List String) : List String := l.dedup.insertionSort (· ≤ ·)

def removeRedundancy (t : ControlTree) : ControlTree :=
  { t with region := fun r =>
      { t.region r with lowerControlRegion := setOfList (t.region r).lowerControlRegion } }

def completeControlRegionHierarchy (t : ControlTree) : Option ControlTree := do
  let t ← t.regions.foldlM completeRegion t
  some t.removeRedundancy

/-! ## Declarations -/

/-- Region `a` is declared above `b`, from one side or from both. -/
def Above (t : ControlTree) (a b : String) : Prop :=
  a ∈ t.regions ∧ b ∈ t.regions ∧
    (b ∈ (t.region a).lowerControlRegion ∨ (t.region b).upperControlRegion = a ∧ a ≠ "")

instance (t : ControlTree) (a b : String) : Decidable (t.Above a b) :=
  inferInstanceAs (Decidable (_ ∧ _ ∧ (_ ∨ _ ∧ _)))

/-- Declarations name regions of the table, and no region has two above it. -/
structure Declared (t : ControlTree) : Prop where
  lower : ∀ a ∈ t.regions, ∀ b ∈ (t.region a).lowerControlRegion, b ∈ t.regions
  upper : ∀ b ∈ t.regions, (t.region b).upperControlRegion ≠ "" →
    (t.region b).upperControlRegion ∈ t.regions
  one : ∀ a ∈ t.regions, ∀ b ∈ t.regions, ∀ c ∈ t.regions, t.Above a c → t.Above b c → a = b

/-- Both sides of `u` tell what either side of `t` tells, and the rest is as in `t`. -/
structure Completed (t u : ControlTree) : Prop where
  regions : u.regions = t.regions
  agree : ∀ a ∈ t.regions, ∀ b ∈ t.regions, a ≠ "" → b ≠ "" →
    (b ∈ (u.region a).lowerControlRegion ↔ (u.region b).upperControlRegion = a)
  nodup : ∀ a ∈ t.regions, (u.region a).lowerControlRegion.Nodup
  lower : ∀ a ∈ t.regions, ∀ b, b ∈ (u.region a).lowerControlRegion ↔ t.Above a b
  upper : ∀ b ∈ t.regions, (t.region b).upperControlRegion ≠ "" →
    (u.region b).upperControlRegion = (t.region b).upperControlRegion
  other : ∀ a, (u.region a).controlType = (t.region a).controlType ∧
    (u.region a).nodes = (t.region a).nodes ∧ (u.region a).theTailNode = (t.region a).theTailNode

/-! ## What a pass may do -/

/-- Nothing that `t` tells is lost in `u`. -/
structure Grows (t u : ControlTree) : Prop where
  lower : ∀ a, (t.region a).lowerControlRegion ⊆ (u.region a).lowerControlRegion
  upper : ∀ b, (t.region b).upperControlRegion ≠ "" →
    (u.region b).upperControlRegion = (t.region b).upperControlRegion

/-- Nothing is told in `u` that `t` does not declare. -/
structure Sound (t u : ControlTree) : Prop where
  regions : u.regions = t.regions
  lower : ∀ a ∈ t.regions, ∀ b ∈ (u.region a).lowerControlRegion, t.Above a b
  upper : ∀ b ∈ t.regions, (u.region b).upperControlRegion ≠ "" →
    t.Above (u.region b).upperControlRegion b
  other : ∀ a, (u.region a).controlType = (t.region a).controlType ∧
    (u.region a).nodes = (t.region a).nodes ∧ (u.region a).theTailNode = (t.region a).theTailNode

theorem Grows.refl (t : ControlTree) : t.Grows t := ⟨fun _ => List.Subset.refl _, fun _ _ => rfl⟩

theorem Grows.trans {t u v : ControlTree} (first : t.Grows u) (second : u.Grows v) : t.Grows v := by
  refine ⟨fun a => List.Subset.trans (first.lower a) (second.lower a), fun b known => ?_⟩
  have same := first.upper b known
  rw [second.upper b (same ▸ known), same]

theorem Declared.sound {t : ControlTree} (declared : t.Declared) : t.Sound t where
  regions := rfl
  lower a mem b listed := ⟨mem, declared.lower a mem b listed, .inl listed⟩
  upper b mem known := ⟨declared.upper b mem known, mem, .inr ⟨rfl, known⟩⟩
  other _ := ⟨rfl, rfl, rfl⟩

/-- What is declared at one region stands on both sides. -/
structure Told (t u : ControlTree) (r : String) : Prop where
  upper : ∀ c ∈ (t.region r).lowerControlRegion, c ≠ "" → r ≠ "" →
    (u.region c).upperControlRegion = r
  lower : (t.region r).upperControlRegion ≠ "" →
    r ∈ (u.region (t.region r).upperControlRegion).lowerControlRegion

theorem Told.mono {t u v : ControlTree} {r : String} (told : t.Told u r) (grows : u.Grows v) :
    t.Told v r where
  upper c listed named above := by
    have here := told.upper c listed named above
    rw [grows.upper c (here ▸ above), here]
  lower known := grows.lower _ (told.lower known)

theorem modifyRegion_of_mem {t : ControlTree} {name : String} (mem : name ∈ t.regions)
    (f : ControlRegion → ControlRegion) : t.modifyRegion name f = some
      { t with region := Function.update t.region name (f (t.region name)) } :=
  if_pos mem

section
variable {t u : ControlTree} (declared : t.Declared) (sound : t.Sound u)
include sound

include declared in
/-- A declaration from the lower side is written to the other side. -/
theorem Sound.addUpperControlRegion {a c : String} (above : t.Above a c) :
    ∃ v, u.addUpperControlRegion c a = some v ∧ t.Sound v ∧ u.Grows v ∧
      (c ≠ "" → (v.region c).upperControlRegion = a) := by
  unfold ControlTree.addUpperControlRegion
  split_ifs with empty
  · exact ⟨u, rfl, sound, .refl u, absurd empty⟩
  · have known : c ∈ u.regions := sound.regions ▸ above.2.1
    have other := sound.other
    refine ⟨_, modifyRegion_of_mem known _, ⟨sound.regions, ?_, ?_, ?_⟩, ⟨?_, ?_⟩, ?_⟩
    · intro b mem d listed
      exact sound.lower b mem d (by grind [Function.update_apply])
    · intro b mem told
      by_cases here : b = c
      · subst here
        simpa using above
      · simp only [Function.update_of_ne here] at told ⊢
        exact sound.upper b mem told
    · grind [Function.update_apply]
    · intro b d listed
      grind [Function.update_apply]
    · intro b old
      by_cases here : b = c
      · subst here
        have known' := sound.upper b above.2.1 old
        have same : (u.region b).upperControlRegion = a :=
          declared.one _ known'.1 a above.1 b above.2.1 known' above
        simp [same]
      · simp [here]
    · simp

/-- A declaration from the upper side is written to the other side. -/
theorem Sound.addLowerControlRegion {b : String} (mem : b ∈ t.regions) :
    ∃ v, u.completeLower b = some v ∧ t.Sound v ∧ u.Grows v ∧
      ((u.region b).upperControlRegion ≠ "" →
        b ∈ (v.region (u.region b).upperControlRegion).lowerControlRegion) := by
  unfold completeLower ControlTree.addLowerControlRegion
  split_ifs with empty
  · exact ⟨u, rfl, sound, .refl u, absurd empty⟩
  · have above := sound.upper b mem empty
    have known : (u.region b).upperControlRegion ∈ u.regions := sound.regions ▸ above.1
    have other := sound.other
    refine ⟨_, modifyRegion_of_mem known _, ⟨sound.regions, ?_, ?_, ?_⟩, ⟨?_, ?_⟩, ?_⟩
    · intro a there d listed
      by_cases here : a = (u.region b).upperControlRegion
      · subst here
        have either : d ∈ (u.region (u.region b).upperControlRegion).lowerControlRegion ∨ d = b := by
          simpa using listed
        rcases either with old | rfl
        · exact sound.lower _ there d old
        · exact above
      · simp only [Function.update_of_ne here] at listed
        exact sound.lower a there d listed
    · intro c there told
      have same := sound.upper c there
      grind [Function.update_apply]
    · grind [Function.update_apply]
    · intro a d listed
      grind [Function.update_apply]
    · intro c _
      grind [Function.update_apply]
    · simp

include declared in
/-- The inner loop, whose list is that of `u`. -/
theorem Sound.completeUpper {r : String} (mem : r ∈ t.regions) :
    ∃ v, u.completeUpper r = some v ∧ t.Sound v ∧ u.Grows v ∧
      ∀ c ∈ (u.region r).lowerControlRegion, c ≠ "" → r ≠ "" →
        (v.region c).upperControlRegion = r := by
  let P (done : List String) (v : ControlTree) : Prop := t.Sound v ∧ u.Grows v ∧
    ∀ c ∈ done, c ≠ "" → r ≠ "" → (v.region c).upperControlRegion = r
  refine @Run.total _ _ _ P _ (fun done c rest v split ⟨sound', grows, told⟩ => ?_) u
    ⟨sound, .refl u, by simp⟩
  have listed : c ∈ (u.region r).lowerControlRegion := split ▸ by simp
  obtain ⟨w, step, sound'', grows', here⟩ :=
    sound'.addUpperControlRegion declared (sound.lower r mem c listed)
  refine ⟨w, step, sound'', grows.trans grows', fun b among named above => ?_⟩
  rcases List.mem_append.mp among with old | new
  · have before := told b old named above
    rw [grows'.upper b (before ▸ above), before]
  · obtain rfl := List.mem_singleton.mp new
    exact here named

include declared in
/-- The body of the outer loop writes what is declared at its region to the other side. -/
theorem Sound.completeRegion {r : String} (mem : r ∈ t.regions) (more : t.Grows u) :
    ∃ v, u.completeRegion r = some v ∧ t.Sound v ∧ u.Grows v ∧ t.Told v r := by
  obtain ⟨v, first, sound', grows, uppers⟩ := sound.completeUpper declared mem
  obtain ⟨w, second, sound'', grows', lower⟩ := sound'.addLowerControlRegion mem
  refine ⟨w, ?_, sound'', grows.trans grows', ⟨fun c listed named above => ?_, fun known => ?_⟩⟩
  · rw [ControlTree.completeRegion, first]
    exact second
  · have before := uppers c (more.lower r listed) named above
    rw [grows'.upper c (before ▸ above), before]
  · have kept := (more.trans grows).upper r known
    rw [← kept]
    exact lower (kept ▸ known)

end

/-! ## The whole table -/

theorem mem_setOfList {l : List String} {b : String} : b ∈ setOfList l ↔ b ∈ l := by
  simp [setOfList]

theorem nodup_setOfList (l : List String) : (setOfList l).Nodup :=
  (List.perm_insertionSort _ _).nodup_iff.mpr (List.nodup_dedup l)

/-- Where each region has been told, the two sides agree. -/
theorem Sound.completed {t u : ControlTree} (sound : t.Sound u) (grows : t.Grows u)
    (told : ∀ r ∈ t.regions, t.Told u r) : t.Completed u.removeRedundancy := by
  have lower : ∀ a ∈ t.regions, ∀ b, b ∈ (u.region a).lowerControlRegion ↔ t.Above a b := by
    intro a mem b
    constructor
    · exact sound.lower a mem b
    · rintro ⟨-, there, listed | ⟨rfl, known⟩⟩
      · exact grows.lower a listed
      · exact (told b there).lower known
  have upper : ∀ a b, a ≠ "" → b ≠ "" → t.Above a b → (u.region b).upperControlRegion = a := by
    rintro a b above named ⟨mem, there, listed | ⟨rfl, known⟩⟩
    · exact (told a mem).upper b listed named above
    · exact grows.upper b known
  constructor
  case regions => exact sound.regions
  case nodup => exact fun a _ => nodup_setOfList _
  case lower => exact fun a mem b => mem_setOfList.trans (lower a mem b)
  case upper => exact fun b _ known => grows.upper b known
  case other => exact sound.other
  case agree =>
    intro a mem b there above named
    refine (mem_setOfList.trans (lower a mem b)).trans ⟨upper a b above named, ?_⟩
    rintro rfl
    exact sound.upper b there above

/-- In every order of the table, and whichever side declares, the pass makes both sides agree on
what is declared. -/
theorem completeControlRegionHierarchy_completed {t : ControlTree} (declared : t.Declared) :
    ∃ u, t.completeControlRegionHierarchy = some u ∧ t.Completed u := by
  let P (done : List String) (u : ControlTree) : Prop := t.Sound u ∧ t.Grows u ∧
    ∀ r ∈ done, t.Told u r
  have start : P [] t := ⟨declared.sound, .refl t, by simp⟩
  obtain ⟨u, run, sound, grows, told⟩ := @Run.total _ _ _ P t.regions
    (fun done r rest u split ⟨sound, grows, told⟩ => by
      have mem : r ∈ t.regions := split ▸ by simp
      obtain ⟨v, step, sound', grows', here⟩ := sound.completeRegion declared mem grows
      refine ⟨v, step, sound', grows.trans grows', List.forall_mem_append.mpr ⟨?_, by simpa using here⟩⟩
      exact fun q old => (told q old).mono grows') _ start
  refine ⟨u.removeRedundancy, ?_, sound.completed grows told⟩
  rw [completeControlRegionHierarchy, run]
  rfl

/-- Region `k` is declared before the one above it, from its own side, and `m` from both sides. -/
def mixed : ControlTree where
  regions := ["k", "i", "j", "m"]
  region := fun r =>
    if r = "k" then { upperControlRegion := "j" }
    else if r = "i" then { lowerControlRegion := ["m", "j"] }
    else if r = "m" then { controlType := .Branch, upperControlRegion := "i" }
    else {}
  nodup := by decide

theorem completeControlRegionHierarchy_completed_mixed :
    ∃ u, mixed.completeControlRegionHierarchy = some u ∧ mixed.Completed u :=
  completeControlRegionHierarchy_completed ⟨by decide, by decide, by decide⟩

/-- A region with the empty name below `p`. -/
def nameless : ControlTree where
  regions := ["p", ""]
  region := fun r => if r = "p" then { lowerControlRegion := [""] } else {}
  nodup := by decide

/-- The empty name is passed over, so the region never learns what is above it. -/
theorem nameless_upper : nameless.Declared ∧ ∃ u, nameless.completeControlRegionHierarchy = some u ∧
    "" ∈ (u.region "p").lowerControlRegion ∧ (u.region "").upperControlRegion ≠ "p" :=
  ⟨⟨by decide, by decide, by decide⟩, _, rfl, by decide, by decide⟩

end DataflowSim.Graph.ControlTree
