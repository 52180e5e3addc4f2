import Workflow.Proofs.Editing.Succession

/-!
# What edits leave alone

An edit tells which nodes it removed and which it added, and the nodes of its result are just
these. A node that stays keeps all but the merge that it names, unless the edit is about it, and a
slot on which a branch starts may get the name of that branch. An edge is lost only at the node that
the edit is about, at a node that is removed, or where a step is inserted.

Nothing forces edges to end at nodes. What is reached from the head of a block belongs to its body
whether it is a node or not, so edges that lead there from elsewhere are lost with the block.

## Main definitions

* `Edit.Keeps` — what an edit leaves of a node that it is not about
* `Edit.Engulfs` — an identity in the body of a block that goes which is not that of a node
* `Edit.Detaches` — an edge is where an edit cuts the flow

## Main results

* `Edit.preserves` — nodes and edges after an edit, told by those before it
-/

namespace Workflow

/-- An edit leaves fewer copies of an edge than there were. -/
def Change.Loses (change : Change) (flow : Flow) (edge : Edge) : Prop :=
  change.flow.edges.count edge < flow.edges.count edge

namespace Flow

variable {flow : Flow} {edge : Edge} {removed told : List NodeId} {gaps : List Gap}
  {rename : NodeId → NodeId} {supply : Supply} {limits : Limits} {slot head : Node}
  {merge source target : NodeId} {step : NewStep} {names : List String} {slots : List NodeId}

/-- The edges that are taken out with nodes are those at the nodes. -/
theorem count_edges_without (edge : Edge) (flow : Flow) (removed : List NodeId)
    (off : ∀ id ∈ removed, edge.touches id = false) :
    (flow.without removed).edges.count edge = flow.edges.count edge := by
  refine List.count_filter ?_
  have source : edge.source ∉ removed := fun gone => by simpa [Edge.touches] using off _ gone
  have target : edge.target ∉ removed := fun gone => by simpa [Edge.touches] using off _ gone
  simp [source, target]

/-- Where edges are put in after nodes were taken out, those are lost that were at the nodes. -/
theorem exists_touches_of_count_lt {patch : Patch}
    (lost : ((flow.without removed).append patch).edges.count edge < flow.edges.count edge) :
    ∃ id ∈ removed, edge.touches id = true := by
  by_contra off
  have kept := count_edges_without edge flow removed fun id gone =>
    Bool.eq_false_iff.mpr fun touches => off ⟨id, gone, touches⟩
  rw [edges_append, List.count_append, kept] at lost
  omega

/-- Names on the branches of a head change no edge that starts elsewhere. -/
theorem count_renameBranches {head : NodeId} {edges : List Edge} (elsewhere : edge.source ≠ head) :
    (renameBranches head names edges).count edge = edges.count edge := by
  fun_induction renameBranches head names edges with
  | case1 => rfl
  | case2 first rest starts ih =>
    have apart : first ≠ edge := by
      rintro rfl
      exact elsewhere (by simpa [startsBranch] using And.left (of_decide_eq_true starts))
    rw [ih, List.count_cons_of_ne apart]
  | case3 first rest starts name names ih =>
    have source : first.source = head := And.left (of_decide_eq_true starts)
    have apart : first ≠ edge := fun same => elsewhere (same ▸ source)
    have renamed : { first with branch := some name } ≠ edge := fun same =>
      elsewhere (same ▸ source)
    rw [List.count_cons_of_ne renamed, ih, List.count_cons_of_ne apart]
  | case4 names first rest starts ih => rw [List.count_cons, List.count_cons, ih]

/-- Edges are lost with branches only at the head and at slots that are cut off. -/
theorem touches_of_loses_withBranches
    (lost : (flow.withBranches head merge names slots).Loses flow edge) :
    edge.touches head.id = true ∨
      ∃ id ∈ (flow.withBranches head merge names slots).removed, edge.touches id = true := by
  by_cases starts : edge.source = head.id
  · exact .inl (by simp [Edge.touches, starts])
  · right
    let renamed : Flow :=
      { flow.relabelSlots head.id names with edges := renameBranches head.id names flow.edges }
    let patch := newBranches head.id merge (names.drop (flow.branchEdges head.id).length) slots
    have fewer : ((renamed.append patch).without
        (flow.surplusSlots head.id names)).edges.count edge < flow.edges.count edge := lost
    have kept : renamed.edges.count edge = flow.edges.count edge := count_renameBranches starts
    by_contra off
    rw [count_edges_without edge _ _ fun id gone => Bool.eq_false_iff.mpr fun touches =>
      off ⟨id, mem_removed_withBranches.mpr gone, touches⟩, edges_append, List.count_append,
      kept] at fewer
    omega

/-- What is taken out with a block is a node that is told of as removed, or is no node and in the
body. -/
theorem mem_removed_or_mem_body {id : NodeId} {keeps : Bool}
    (present : flow.presentMerge? limits head.id = some merge)
    (gone : id ∈ if keeps then flow.body limits head.id merge
      else flow.body limits head.id merge ++ [merge]) :
    id ∈ flow.ids ∨ id ∉ flow.ids ∧ id ∈ flow.body limits head.id merge := by
  by_cases known : id ∈ flow.ids
  · exact .inl known
  · refine .inr ⟨known, ?_⟩
    cases keeps with
    | true => exact gone
    | false =>
      refine (List.mem_append.mp gone).resolve_right fun last => known ?_
      exact List.mem_singleton.mp last ▸ mem_ids_of_presentMerge? present

end Flow

namespace Edit

variable {edit : Edit} {flow : Flow} {limits : Limits} {supply rest : Supply} {change : Change}
  {node after : Node} {edge : Edge} {id : NodeId} {kind : String} {label : Option String}
  {params : Option Json.Members} {branches : Option (List String)} {names : List String}

/-- What an edit leaves of a node that it is not about: all but the merge that the node names. Where
names are set for the branches of a head, the text of a slot to which the head leads may change,
too. -/
inductive Keeps (flow : Flow) : Edit → Node → Node → Prop
  | still {edit : Edit} {node : Node} (merge : Option NodeId) :
      Keeps flow edit node (node.mapContent (Content.withMerge merge))
  | slot {id : NodeId} {names : List String} {node : Node} (text : String) (merge : Option NodeId)
      (isSlot : node.content.isBranchPlaceholder = true) (leads : flow.Leads id node.id) :
      Keeps flow (setBranches id names) node
        ((node.mapContent (Content.withSubLabel text)).mapContent (Content.withMerge merge))

/-- An identity in the body of a block that is deleted which is not that of a node. -/
def Engulfs (edit : Edit) (flow : Flow) (limits : Limits) (id : NodeId) : Prop :=
  match edit with
  | delete head => flow.isHead head = true ∧ id ∉ flow.ids ∧
      ∃ merge, flow.presentMerge? limits head = some merge ∧ id ∈ flow.body limits head merge
  | swap .. | insert .. | fill .. | setBranches .. => False

/-- The edge on which an edit inserts a step. -/
def opened? (edit : Edit) (flow : Flow) : Option Edge :=
  match edit with
  | insert source target .. => flow.edge? source target
  | delete _ | swap .. | fill .. | setBranches .. => none

/-- An edge is where an edit cuts the flow: at the node that it is about, at one that it removes or
at what goes with a block, or where it inserts a step. -/
def Detaches (edit : Edit) (flow : Flow) (limits : Limits) (change : Change) (edge : Edge) : Prop :=
  (∃ id, edge.touches id = true ∧
    (edit.subject? = some id ∨ id ∈ change.removed ∨ edit.Engulfs flow limits id)) ∨
  edit.opened? flow = some edge

/-- What becomes of a node that an edit is not about, before merges are mended. -/
theorem Touches.keeps (touches : edit.Touches flow limits node after)
    (found : flow.node? node.id = some node) (other : edit.subject? ≠ some node.id)
    (rename : NodeId → NodeId) (alive : List NodeId) :
    edit.Keeps flow node (after.settle rename alive) := by
  cases touches with
  | still => exact .still _
  | repointed => exact @Keeps.still flow edit node _
  | labelled there isSlot leads =>
    obtain rfl := Option.some.inj (found.symm.trans there)
    exact .slot _ _ isSlot leads
  | named | swapped | filled | emptied => exact absurd rfl other

/-! ### Edges that are lost -/

/-- Where a node is replaced, no edge is lost. -/
theorem not_loses_replaceNode (flow : Flow) (node : Node) (edge : Edge) :
    ¬ (flow.replaceNode node).Loses flow edge :=
  Nat.lt_irrefl _

theorem detaches_delete (done : (delete id).run flow limits supply = .ok (change, rest))
    (lost : change.Loses flow edge) : (delete id).Detaches flow limits change edge := by
  obtain ⟨node, found, ⟨-, rfl⟩ | ⟨-, opens, merge, present, -, rfl⟩ | ⟨-, -, deletes⟩⟩ :=
    delete_cases done
  · exact absurd lost (not_loses_replaceNode flow _ edge)
  · obtain rfl := Flow.id_of_node?_eq_some found
    obtain ⟨id, gone, touches⟩ := Flow.exists_touches_of_count_lt lost
    refine .inl ⟨id, touches, .inr ?_⟩
    -- What goes with the block is told of as removed if it is a node.
    rcases Flow.mem_removed_or_mem_body present gone with known | ⟨ghost, inside⟩
    · exact .inl (List.mem_filter.mpr ⟨known, decide_eq_true gone⟩)
    · exact .inr ⟨(Flow.isHead_of_node? found).trans opens, ghost, merge, present, inside⟩
  · obtain rfl := Flow.id_of_node?_eq_some found
    cases deletes with
    | join => exact absurd lost (not_loses_replaceNode flow _ edge)
    | slot => exact absurd lost (not_loses_replaceNode flow _ edge)
    | gone =>
      obtain ⟨id, gone, touches⟩ := Flow.exists_touches_of_count_lt lost
      exact .inl ⟨id, touches, .inr (.inl gone)⟩

theorem detaches_fill
    (done : (fill id kind label params branches).run flow limits supply = .ok (change, rest))
    (lost : change.Loses flow edge) :
    (fill id kind label params branches).Detaches flow limits change edge := by
  obtain ⟨slot, -, -, ⟨-, rfl⟩ | ⟨block, -, -, rfl⟩⟩ := fill_cases done
  · exact absurd lost (not_loses_replaceNode flow _ edge)
  · rw [Change.Loses, Flow.fillWithBlock, Flow.edges_settle, Flow.edges_pinHead] at lost
    obtain ⟨id, gone, touches⟩ := Flow.exists_touches_of_count_lt lost
    exact .inl ⟨id, touches, .inr (.inl gone)⟩

theorem detaches_insert {source target : NodeId}
    (done : (insert source target kind label branches).run flow limits supply =
      .ok (change, rest)) (lost : change.Loses flow edge) :
    (insert source target kind label branches).Detaches flow limits change edge := by
  obtain ⟨old, found, rfl⟩ := insert_cases done
  obtain ⟨-, rfl, rfl⟩ := Flow.edge?_eq_some found
  -- All other edges are there as often as before.
  have here : old = edge := by
    by_contra other
    rw [Change.Loses, (Flow.edges_cut found).count_eq, List.count_cons_of_ne other, Flow.splice,
      Flow.edges_settle, Flow.edges_append, List.count_append] at lost
    omega
  exact .inr (here ▸ found)

/-- Edges are lost only where an edit cuts the flow. -/
theorem detaches_of_loses (done : edit.run flow limits supply = .ok (change, rest))
    (lost : change.Loses flow edge) : edit.Detaches flow limits change edge := by
  cases edit with
  | delete id => exact detaches_delete done lost
  | swap id kind label params =>
    obtain ⟨node, -, -, rfl⟩ := swap_cases done
    exact absurd lost (not_loses_replaceNode flow _ edge)
  | insert source target kind label branches => exact detaches_insert done lost
  | fill id kind label params branches => exact detaches_fill done lost
  | setBranches id names =>
    obtain ⟨head, merge, found, -, -, -, slots, -, rfl⟩ := setBranches_cases done
    obtain rfl := Flow.id_of_node?_eq_some found
    rcases Flow.touches_of_loses_withBranches lost with here | ⟨id, gone, touches⟩
    · exact .inl ⟨head.id, here, .inl rfl⟩
    · exact .inl ⟨id, touches, .inr (.inl gone)⟩

/-- After an edit that is made, the nodes are those of the flow that were not removed, in order, and
behind them those that were added, and they are distinct again. A node that stays keeps what
`Edit.Keeps` says, unless the edit is about it. An edge is lost only where the edit cuts the
flow. -/
theorem preserves (distinct : flow.ids.Nodup)
    (done : edit.run flow limits supply = .ok (change, rest)) (fresh : change.FreshFor flow) :
    (change.flow.ids = flow.ids.filter (· ∉ change.removed) ++ change.added ∧
      change.flow.ids.Nodup) ∧
    (∀ before ∈ flow.nodes, before.id ∉ change.removed → edit.subject? ≠ some before.id →
      ∃ after, change.flow.node? before.id = some after ∧ edit.Keeps flow before after) ∧
    ∀ edge, change.Loses flow edge → edit.Detaches flow limits change edge := by
  obtain ⟨touch, new, remakes⟩ := exists_remakes done fresh
  refine ⟨⟨remakes.ids_eq, remakes.nodup distinct fresh⟩, fun before member stays other => ?_,
    fun edge lost => detaches_of_loses done lost⟩
  have found := Flow.node?_eq_some_of_mem distinct member
  exact ⟨_, remakes.node?_eq found stays, (remakes.touches before stays).keeps found other _ _⟩

/-- A block with an edge out of its head that leads to no node, where an edge from elsewhere leads,
too. -/
def haunted : Flow where
  nodes := [{ id := "head", kind := some "condition" }, .mergePlaceholder "merge",
    { id := "other", kind := some "action" }, { id := "end", kind := some "end" }]
  edges := [.connect "head" "merge" (some "true"), .connect "head" "ghost" (some "false"),
    .connect "other" "ghost" none, .connect "other" "end" none, .connect "merge" "end" none]

/-- The block is taken out. -/
def hauntedDeleted : Change where
  flow := {
    nodes := [{ id := "other", kind := some "action" }, { id := "end", kind := some "end" }]
    edges := [.connect "other" "end" none] }
  removed := ["head", "merge"]

/-- The step beside the block stays as it is, and its edge to where the body of the block led is
lost. -/
theorem preserves_haunted :
    hauntedDeleted.flow.ids = ["other", "end"] ∧
    (∃ after, hauntedDeleted.flow.node? "other" = some after ∧
      (delete "head").Keeps haunted { id := "other", kind := some "action" } after) ∧
    (delete "head").Detaches haunted {} hauntedDeleted (.connect "other" "ghost" none) := by
  have done : (delete "head").run haunted {} .numbered = .ok (hauntedDeleted, .numbered) := by rfl
  have fresh : hauntedDeleted.FreshFor haunted := by decide +kernel
  obtain ⟨⟨ids, -⟩, keeps, cuts⟩ := preserves (by decide) done fresh
  exact ⟨ids, keeps _ (@Flow.mem_of_node?_eq_some haunted "other" _ rfl) (by decide) (by decide),
    cuts _ (by decide +kernel : _ < _)⟩

/-- The edge that is lost was there, and it touches neither the head that is deleted nor a node that
is removed. -/
theorem not_preserves_haunted :
    (delete "head").run haunted {} .numbered = .ok (hauntedDeleted, .numbered) ∧
    haunted.ids.Nodup ∧ hauntedDeleted.FreshFor haunted ∧
    ¬ ∀ edge ∈ haunted.edges, edge ∉ hauntedDeleted.flow.edges →
      edge.touches "head" = true ∨ (∃ id ∈ hauntedDeleted.removed, edge.touches id = true) ∨
        (delete "head").opened? haunted = some edge := by
  refine ⟨by rfl, by decide, by decide +kernel, fun claim => ?_⟩
  exact absurd (claim (.connect "other" "ghost" none) (by decide) (by decide)) (by decide +kernel)

end Edit

end Workflow
