import Mathlib

/-!
# Control regions

`control_tree.h` and `control_tree.cpp`. The table is a list of names with a function from
names to regions; `addControlRegion` refuses a name that is taken, so the index dictionary of
the source finds the region of a name. A name that is not in it is an error which is printed,
and then an iterator is read that points nowhere: such a call has no result.
-/

namespace DataflowSim.Graph

inductive ControlType where
  | Loop | Branch
  deriving DecidableEq, Repr

structure ControlRegion where
  controlType : ControlType := .Loop
  upperControlRegion : String := ""
  lowerControlRegion : List String := []
  nodes : List String := []
  theTailNode : String := ""
  deriving DecidableEq, Repr

structure ControlTree where
  regions : List String
  region : String → ControlRegion
  nodup : regions.Nodup

namespace ControlTree

def getCtrlRegion (t : ControlTree) (controlRegionName : String) : Option ControlRegion :=
  if controlRegionName ∈ t.regions then some (t.region controlRegionName) else none

def modifyRegion (t : ControlTree) (controlRegionName : String)
    (f : ControlRegion → ControlRegion) : Option ControlTree :=
  if controlRegionName ∈ t.regions then
    some { t with region := Function.update t.region controlRegionName (f (t.region controlRegionName)) }
  else none

theorem getCtrlRegion_of_mem {t : ControlTree} {name : String} (h : name ∈ t.regions) :
    t.getCtrlRegion name = some (t.region name) := if_pos h

/-- The list of nodes of a declared region grows. -/
def addNodes (t : ControlTree) (targetCtrlRegion : String) (nodes : List String) :
    Option ControlTree :=
  t.modifyRegion targetCtrlRegion fun r => { r with nodes := r.nodes ++ nodes }

theorem addNodes_regions {t u : ControlTree} {target : String} {nodes : List String}
    (h : t.addNodes target nodes = some u) : u.regions = t.regions := by
  unfold addNodes modifyRegion at h
  split_ifs at h
  rw [← Option.some.inj h]

theorem addNodes_isSome {t : ControlTree} {target : String} (h : target ∈ t.regions)
    (nodes : List String) : ∃ u, t.addNodes target nodes = some u := by
  unfold addNodes modifyRegion
  rw [if_pos h]
  exact ⟨_, rfl⟩

end ControlTree

end DataflowSim.Graph
