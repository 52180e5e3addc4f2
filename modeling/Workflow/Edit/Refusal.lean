import Workflow.Flow.Basic

/-!
# Why an edit is refused

An edit that would break the structure of a flow is refused, and the flow stays as
it was. Each cause names the nodes it is about.
-/

namespace Workflow

/-- Why an edit is refused. -/
inductive Refusal where
  | unknownNode (id : NodeId)
  | unknownEdge (source target : NodeId)
  | closesBlock (merge head : NodeId)
  | openBlock (head : NodeId)
  | invalidMerge (head merge : NodeId)
  | differentRole (id : NodeId) (before : Option String) (after : String)
  | notPlaceholder (id : NodeId)
  | noIncomingEdge (id : NodeId)
  | notBranching (id : NodeId)
  | noBranch (id : NodeId)
  | unmerged (id : NodeId)
  deriving DecidableEq, Repr

namespace Refusal

/-- The sentence for a refusal. A step without a kind is said to be of kind `None`. -/
def message : Refusal → String
  | unknownNode id => "node not found: " ++ id
  | unknownEdge source target => "edge not found: " ++ source ++ " -> " ++ target
  | closesBlock merge head =>
    "merge node " ++ merge ++ " closes block " ++ head ++ "; delete the block instead"
  | openBlock head =>
    "block " ++ head ++ " has no reachable merge node (open/unterminated block)"
  | invalidMerge head merge => "block " ++ head ++ " resolves to invalid merge node " ++ merge
  | differentRole id before after =>
    "cannot swap " ++ id ++ " from " ++ before.getD "None" ++ " to " ++ after ++
      "; insert or delete the block instead"
  | notPlaceholder id => id ++ " is not a placeholder; swap it instead"
  | noIncomingEdge id => "placeholder " ++ id ++ " has no incoming edge"
  | notBranching id => id ++ " is not a parallel or loop node"
  | noBranch id => id ++ " needs at least one branch"
  | unmerged id => "block " ++ id ++ " has no reachable merge node"

end Refusal

end Workflow
