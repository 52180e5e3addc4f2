import Workflow.Edit.NewStep

/-!
# Inserting a step

A new step takes the place of an edge. The edge into it keeps the branch of the
old one.
-/

namespace Workflow

namespace Flow

/-- Whether an edge joins two given nodes. -/
def joins (source target : NodeId) (edge : Edge) : Bool :=
  edge.source = source ∧ edge.target = target

/-- The first edge from one node to another. -/
def edge? (flow : Flow) (source target : NodeId) : Option Edge :=
  flow.edges.find? (joins source target)

/-- The flow without the first edge from one node to another. -/
def cut (flow : Flow) (source target : NodeId) : Flow :=
  { flow with edges := flow.edges.eraseP (joins source target) }

/-- The flow with a step in the place of an edge. -/
def splice (flow : Flow) (edge : Edge) (step : NewStep) : Change :=
  let patch : Patch :=
    { nodes := step.nodes
      edges := .connect edge.source step.head.id edge.branch ::
        (step.edges ++ [.connect step.exit edge.target none]) }
  { flow := ((flow.cut edge.source edge.target).append patch).settle id
    added := step.nodes.map (·.id) }

/-- Inserts a step on the edge from one node to another. -/
def insert (flow : Flow) (source target : NodeId) (kind : String) (label : Option String)
    (branches : Option (List String)) : Plan :=
  match flow.edge? source target with
  | none => throw (.unknownEdge source target)
  | some edge => return flow.splice edge <$> NewStep.make kind label none branches

theorem edge?_eq_some {flow : Flow} {source target : NodeId} {edge : Edge}
    (h : flow.edge? source target = some edge) :
    edge ∈ flow.edges ∧ edge.source = source ∧ edge.target = target := by
  refine ⟨List.mem_of_find?_eq_some h, ?_⟩
  simpa [joins] using List.find?_some h

/-- The edge that is cut is taken from between the others. -/
theorem exists_edges_cut {flow : Flow} {source target : NodeId} {edge : Edge}
    (found : flow.edge? source target = some edge) : ∃ before behind,
      flow.edges = before ++ edge :: behind ∧
        (flow.cut source target).edges = before ++ behind := by
  have joined : joins source target edge = true := List.find?_some found
  obtain ⟨first, before, behind, miss, isFirst, split, rest⟩ :=
    List.exists_of_eraseP (List.mem_of_find?_eq_some found) joined
  have none' : before.find? (joins source target) = none := List.find?_eq_none.mpr miss
  rw [edge?, split, List.find?_append, none', Option.none_or, List.find?_cons_of_pos isFirst,
    Option.some.injEq] at found
  exact ⟨before, behind, found ▸ split, rest⟩

/-- Without its first edge between two nodes, a flow has all edges but that. -/
theorem edges_cut {flow : Flow} {source target : NodeId} {edge : Edge}
    (found : flow.edge? source target = some edge) :
    flow.edges.Perm (edge :: (flow.cut source target).edges) := by
  obtain ⟨before, behind, whole, rest⟩ := exists_edges_cut found
  rw [whole, rest]
  exact List.perm_middle

end Flow

end Workflow
