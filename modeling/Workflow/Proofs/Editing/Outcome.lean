import Workflow.Edit.Basic

/-!
# What edits come to

For each edit, the changes that it can make, with the conditions under which it makes them.
What edits preserve is proved from these cases, and no edit is opened again.

## Main results

* `Edit.insert_cases`, `Edit.fill_cases`, `Edit.swap_cases`, `Edit.delete_cases`,
  `Edit.setBranches_cases`
-/

namespace Workflow

namespace Edit

variable {flow : Flow} {limits : Limits} {supply rest : Supply} {change : Change}
  {source target id : NodeId} {kind : String} {label : Option String}
  {params : Option Json.Members} {branches : Option (List String)}

/-- An insertion that is made puts a new step in the place of an edge. -/
theorem insert_cases
    (done : (insert source target kind label branches).run flow limits supply = .ok (change, rest)) :
    ∃ edge, flow.edge? source target = some edge ∧
      change = flow.splice edge (StateT.run (NewStep.make kind label none branches) supply).1 := by
  -- The plan is opened along its cases; those in which it refuses contradict `planned`.
  obtain ⟨draw, planned, drawn⟩ := run_eq_ok_iff.mp done
  rw [plan, Flow.insert] at planned
  cases found : flow.edge? source target with
  | none =>
    rw [found] at planned
    cases planned
  | some edge =>
    rw [found] at planned
    cases planned
    rw [Fresh.run_map, Prod.mk.injEq] at drawn
    exact ⟨edge, rfl, drawn.1.symm⟩

/-- A slot to which an edge leads may be filled with a block. -/
theorem plan_fill_block {slot : Node} {block : BlockKind} (found : flow.node? id = some slot)
    (waits : slot.content.isPlaceholder = true) (known : BlockKind.ofName? kind = some block)
    (entered : flow.edgesTo id ≠ []) : (fill id kind label params branches).plan flow limits =
      .ok (flow.fillWithBlock limits slot <$> NewStep.makeBlock block label params branches) := by
  rw [plan, Flow.fill, found]
  dsimp only
  rw [if_neg (by simp [waits]), known]
  dsimp only
  rw [if_neg entered]
  rfl

/-- A slot that is filled takes the content of a plain step, or gives way to a new block. -/
theorem fill_cases
    (done : (fill id kind label params branches).run flow limits supply = .ok (change, rest)) :
    ∃ slot, flow.node? id = some slot ∧ slot.content.isPlaceholder = true ∧
      ((BlockKind.ofName? kind = none ∧ change = flow.replaceNode
          { slot with kind := some kind, content := slot.content.fill kind label params }) ∨
        ∃ block, BlockKind.ofName? kind = some block ∧ flow.edgesTo id ≠ [] ∧
          change = flow.fillWithBlock limits slot
            (StateT.run (NewStep.makeBlock block label params branches) supply).1) := by
  obtain ⟨draw, planned, drawn⟩ := run_eq_ok_iff.mp done
  rw [plan, Flow.fill] at planned
  cases found : flow.node? id with
  | none =>
    rw [found] at planned
    cases planned
  | some slot =>
    rw [found] at planned
    dsimp only at planned
    split at planned
    · cases planned
    · rename_i waits
      refine ⟨slot, rfl, by simpa using waits, ?_⟩
      cases known : BlockKind.ofName? kind with
      | none =>
        rw [known] at planned
        cases planned
        rw [Fresh.run_pure, Prod.mk.injEq] at drawn
        exact .inl ⟨rfl, drawn.1.symm⟩
      | some block =>
        rw [known] at planned
        dsimp only at planned
        split at planned
        · cases planned
        · rename_i entered
          cases planned
          rw [Fresh.run_map, Prod.mk.injEq] at drawn
          exact .inr ⟨block, rfl, entered, drawn.1.symm⟩

/-- A step that is swapped opens a block if and only if it did before. -/
theorem swap_cases
    (done : (swap id kind label params).run flow limits supply = .ok (change, rest)) :
    ∃ node, flow.node? id = some node ∧ node.isHead = (BlockKind.ofName? kind).isSome ∧
      change = flow.replaceNode
        { node with
          kind := some kind
          content := flow.pinMerge limits node (node.content.refill label params) } := by
  obtain ⟨draw, planned, drawn⟩ := run_eq_ok_iff.mp done
  rw [plan, Flow.swap] at planned
  cases found : flow.node? id with
  | none =>
    rw [found] at planned
    cases planned
  | some node =>
    rw [found] at planned
    dsimp only at planned
    split at planned
    · cases planned
    · rename_i alike
      cases planned
      rw [Fresh.run_pure, Prod.mk.injEq] at drawn
      exact ⟨node, rfl, Decidable.of_not_not alike, drawn.1.symm⟩

/-- What the deletion of a node that opens no block and starts no flow comes to. -/
inductive DeletesStep (flow : Flow) (limits : Limits) (supply : Supply) (node : Node) :
    Change → Prop
  | join (joins : 1 < (flow.edgesTo node.id).length) (filled : node.content.isPlaceholder = false) :
      DeletesStep flow limits supply node (flow.replaceNode
        { node with kind := some Kind.custom, content := .mergePlaceholder })
  | slot (lone : (flow.edgesTo node.id).length ≤ 1) (filled : node.content.isPlaceholder = false) :
      DeletesStep flow limits supply node (flow.replaceNode
        { node with kind := some Kind.custom, content := node.content.emptied })
  | gone (closes : node.isMerge = true → flow.closingHead? limits node.id = none) :
      DeletesStep flow limits supply node (StateT.run (flow.removeStep node.id) supply).1

/-- A block goes only with a merge that is there and is not the head itself. -/
theorem deleteBlock_cases {head : Node} {draw : Fresh Change}
    (planned : flow.deleteBlock limits head = .ok draw) :
    ∃ merge, flow.presentMerge? limits head.id = some merge ∧ merge ≠ head.id ∧
      draw = flow.removeBlock limits head merge := by
  rw [Flow.deleteBlock] at planned
  cases present : flow.presentMerge? limits head.id with
  | none =>
    rw [present] at planned
    cases planned
  | some merge =>
    rw [present] at planned
    dsimp only at planned
    split at planned
    · cases planned
    · rename_i apart
      cases planned
      exact ⟨merge, rfl, apart, rfl⟩

/-- A step becomes a join or a slot again, or goes. -/
theorem deleteStep_cases {node : Node} {draw : Fresh Change}
    (planned : flow.deleteStep limits node = .ok draw) :
    DeletesStep flow limits supply node (StateT.run draw supply).1 := by
  rw [Flow.deleteStep] at planned
  split at planned
  · rename_i joins
    cases planned
    exact .join joins.1 (by simpa using joins.2)
  · split at planned
    · rename_i lone
      cases planned
      exact .slot lone.1 (by simpa using lone.2.2)
    · split at planned
      · cases planned
      · rename_i closes
        cases planned
        apply DeletesStep.gone
        intro joining
        rw [if_pos joining] at closes
        exact closes

/-- A deletion that is made resets a trigger, takes out a block, or deletes a step. -/
theorem delete_cases (done : (delete id).run flow limits supply = .ok (change, rest)) :
    ∃ node, flow.node? id = some node ∧
      ((node.kind = some Kind.trigger ∧
          change = flow.replaceNode { node with content := .triggerPlaceholder }) ∨
        (node.kind ≠ some Kind.trigger ∧ node.isHead = true ∧
          ∃ merge, flow.presentMerge? limits node.id = some merge ∧ merge ≠ node.id ∧
            change = (StateT.run (flow.removeBlock limits node merge) supply).1) ∨
        (node.kind ≠ some Kind.trigger ∧ node.isHead = false ∧
          DeletesStep flow limits supply node change)) := by
  obtain ⟨draw, planned, drawn⟩ := run_eq_ok_iff.mp done
  have made : change = (StateT.run draw supply).1 := by rw [drawn]
  rw [plan, Flow.delete] at planned
  cases found : flow.node? id with
  | none =>
    rw [found] at planned
    cases planned
  | some node =>
    rw [found] at planned
    dsimp only at planned
    refine ⟨node, rfl, ?_⟩
    split at planned
    · rename_i starts
      cases planned
      exact .inl ⟨starts, made⟩
    · rename_i later
      right
      split at planned
      · rename_i opens
        obtain ⟨merge, present, apart, rfl⟩ := deleteBlock_cases planned
        exact .inl ⟨later, opens, merge, present, apart, made⟩
      · rename_i opens
        exact .inr ⟨later, by simpa using opens, made ▸ deleteStep_cases planned⟩

/-- Names are set for the branches of a parallel or loop step for which a merge is found. The new
branches lead to that merge. -/
theorem setBranches_cases {names : List String}
    (done : (setBranches id names).run flow limits supply = .ok (change, rest)) :
    ∃ head merge, flow.node? id = some head ∧
      (head.blockKind? = some .parallel ∨ head.blockKind? = some .loop) ∧ names ≠ [] ∧
      flow.merge? limits id = some merge ∧ ∃ slots,
        slots = (List.range (names.length - (flow.branchEdges id).length)).map supply.upcoming ∧
        change = flow.withBranches head merge names slots := by
  obtain ⟨draw, planned, drawn⟩ := run_eq_ok_iff.mp done
  rw [plan, Flow.setBranches] at planned
  cases found : flow.node? id with
  | none =>
    rw [found] at planned
    cases planned
  | some head =>
    rw [found] at planned
    dsimp only at planned
    split at planned
    · cases planned
    · rename_i branching
      split at planned
      · cases planned
      · rename_i named
        cases present : flow.merge? limits id with
        | none =>
          rw [present] at planned
          cases planned
        | some merge =>
          rw [present] at planned
          cases planned
          rw [Fresh.run_map, Prod.mk.injEq] at drawn
          refine ⟨head, merge, rfl, ?_, named, rfl, _, rfl, drawn.1.symm⟩
          by_cases parallel : head.blockKind? = some .parallel
          · exact .inl parallel
          · exact .inr (Decidable.of_not_not fun other => branching ⟨parallel, other⟩)

end Edit

/-- A node that is marked as a merge. -/
def Node.markMerge (node : Node) : Node :=
  node.mapContent fun content => { content with isMergeNode := true }

@[simp] theorem Node.id_markMerge (node : Node) : node.markMerge.id = node.id := rfl

@[simp] theorem Node.isHead_markMerge (node : Node) : node.markMerge.isHead = node.isHead := rfl

@[simp] theorem Node.isMerge_markMerge (node : Node) : node.markMerge.isMerge = true :=
  Bool.or_true _

@[simp] theorem Node.mergeNodeId_markMerge (node : Node) :
    node.markMerge.content.mergeNodeId = node.content.mergeNodeId := rfl

namespace Flow

variable {flow : Flow} {limits : Limits} {slot : Node} {step : NewStep} {head : NodeId}

/-- The edges of a block in the place of a slot: into its head, inside it and on from its exit. -/
def fillEdges (flow : Flow) (slot : Node) (step : NewStep) : List Edge :=
  (flow.edgesTo slot.id).map (fun edge => .connect edge.source step.head.id edge.branch) ++
    step.edges ++ (flow.edgesFrom slot.id).map fun edge => .connect step.exit edge.target none

theorem takesJoin_of_not_merge (plain : slot.isMerge = false) : flow.takesJoin slot = false := by
  simp [takesJoin, plain]

/-- A slot that is no join, and leads to one place at most, gives way to a block whose head is
entered from where the slot was, and whose merge leads to where the slot led. -/
theorem fillWithBlock_eq (lone : flow.takesJoin slot = false)
    (single : (flow.edgesFrom slot.id).length ≤ 1) :
    (flow.fillWithBlock limits slot step).flow = ((flow.without [slot.id]).append
      { nodes := step.nodes, edges := flow.fillEdges slot step }).settle fun id => id := by
  have all : (flow.edgesFrom slot.id).take 1 = flow.edgesFrom slot.id :=
    List.take_of_length_le single
  simp [fillWithBlock, fillHead, lone, pinHead, all, NewStep.nodes, fillEdges]

/-- A join that closes the block of a head gives way to a block whose head is a join in its
place, and the head above names that. -/
theorem fillWithBlock_join (joins : flow.takesJoin slot = true)
    (closes : flow.closingHead? limits slot.id = some head)
    (single : (flow.edgesFrom slot.id).length ≤ 1) :
    (flow.fillWithBlock limits slot step).flow = (((flow.without [slot.id]).append
      { nodes := step.head.markMerge :: step.parts
        edges := flow.fillEdges slot step }).pinHead (some head) step.head.id).settle
      (handOver slot.id step.head.id) := by
  have all : (flow.edgesFrom slot.id).take 1 = flow.edgesFrom slot.id :=
    List.take_of_length_le single
  simp [fillWithBlock, fillHead, joins, closes, all, fillEdges, Node.markMerge]

end Flow

end Workflow
