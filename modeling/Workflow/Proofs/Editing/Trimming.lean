import Workflow.Proofs.Editing.Branching
import Workflow.Proofs.Editing.Framing
import Workflow.Proofs.Editing.Replacement
import Workflow.Proofs.Nesting.Lane

/-!
# Fewer names than branches

Where a block is given fewer names than it has branches, the edges of the branches left over are
dropped, and the slots on which they start are taken out. What else is on such a branch stays.
Edges and roles stay around the block, and no block is closed at another node than before.

## Main definitions

* `Flow.Trims` — the branches for which no name is left were cut off

## Main results

* `trims_withBranches` — what naming fewer branches does to a flow
* `Trims.frames` — around the block edges and roles stay
* `Trims.eq_last_of_closes`, `Trims.closes_iff` — a block is closed at its merge, or not at all
-/

namespace Workflow

namespace Flow

/-- The branches of a head for which no name is left were cut off from a flow, with the slots on
which they start. -/
structure Trims (flow trimmed : Flow) (head : NodeId) (names : List String) : Prop where
  ids : ∀ {id}, id ∈ trimmed.ids ↔ id ∈ flow.ids ∧ id ∉ flow.surplusSlots head names
  roles : ∀ {id}, id ∉ flow.surplusSlots head names →
    trimmed.isHead id = flow.isHead id ∧ trimmed.isMerge id = flow.isMerge id
  leads_iff : ∀ {id child}, trimmed.Leads id child ↔ flow.LeadsOn head names.length id child ∧
    id ∉ flow.surplusSlots head names ∧ child ∉ flow.surplusSlots head names
  unnamed : ∀ node ∈ trimmed.nodes, node.content.mergeNodeId = none
  into : ∀ id, (trimmed.edgesTo id).length ≤ (flow.edgesTo id).length
  outOf : ∀ id, (trimmed.edgesFrom id).length ≤ (flow.edgesFrom id).length
  fewer : trimmed.edges.length < flow.edges.length

variable {flow trimmed base : Flow} {line : Line} {head merge id child : NodeId} {lanes : List Lane}
  {lane : Lane} {names : List String} {slots : List NodeId} {node : Node} {limits : Limits}

/-! ### The flow after branches were cut off -/

/-- Two flows have the same nodes but for the texts on them. -/
structure Alike (flow base : Flow) : Prop where
  ids : base.ids = flow.ids
  roles : ∀ id, base.isHead id = flow.isHead id ∧ base.isMerge id = flow.isMerge id
  unnamed : (∀ node ∈ flow.nodes, node.content.mergeNodeId = none) →
    ∀ node ∈ base.nodes, node.content.mergeNodeId = none

namespace Alike

variable (alike : flow.Alike base)
include alike

/-- A node is there in a flow that is alike, in the same roles. -/
theorem exists_node? (found : flow.node? id = some node) : ∃ old, base.node? id = some old ∧
    node.isHead = old.isHead ∧ node.isMerge = old.isMerge := by
  obtain ⟨old, there⟩ : ∃ old, base.node? id = some old :=
    Option.isSome_iff_exists.mp (has_iff_mem_ids.mpr (alike.ids ▸ mem_ids_of_node? found))
  obtain ⟨hhead, hmerge⟩ := alike.roles id
  rw [isHead_of_node? found, isHead_of_node? there] at hhead
  rw [isMerge_of_node? found, isMerge_of_node? there] at hmerge
  exact ⟨old, there, hhead.symm, hmerge.symm⟩

/-- Writing a name on a slot leaves a flow alike. -/
theorem relabelSlot (name : String) (edge : Edge) :
    flow.Alike (flow.relabelSlot base name edge) := by
  rw [Flow.relabelSlot]
  split
  · rename_i slot found
    have known := (Option.filter_eq_some_iff.mp found).1
    split
    · exact alike
    · rw [← id_of_node?_eq_some known] at known
      obtain ⟨old, there, hhead, hmerge⟩ := alike.exists_node? known
      refine ⟨(ids_withNode _ _).trans alike.ids, fun id => ?_, fun unnamed other member => ?_⟩
      · rw [@isHead_withNode base (slot.mapContent (Content.withSubLabel name)) old there hhead,
          @isMerge_withNode base (slot.mapContent (Content.withSubLabel name)) old there hmerge]
        exact alike.roles id
      · rcases mem_nodes_withNode member with rfl | before
        · exact unnamed slot (mem_of_node?_eq_some known)
        · exact alike.unnamed unnamed other before
  · exact alike

end Alike

/-- Writing names on slots leaves a flow alike. -/
theorem alike_relabelSlots (flow : Flow) (head : NodeId) (names : List String) :
    flow.Alike (flow.relabelSlots head names) := by
  rw [relabelSlots]
  refine List.foldlRecOn _ _ ⟨rfl, fun _ => ⟨rfl, rfl⟩, fun unnamed => unnamed⟩ ?_
  intro base same arm _
  exact same.relabelSlot arm.1 arm.2

/-- With a branch for each name, naming the branches puts nothing in. -/
theorem exists_renamed (enough : names.length ≤ (flow.branchEdges node.id).length) :
    ∃ renamed, flow.Alike renamed ∧
      renamed.edges = renameBranches node.id names flow.edges ∧
      (flow.withBranches node merge names slots).flow =
        ((renamed.without (flow.surplusSlots node.id names)).withNode
          (node.mapContent (Content.withBranches names))).settle fun merge => merge := by
  have alike := flow.alike_relabelSlots node.id names
  refine ⟨{ flow.relabelSlots node.id names with
    edges := renameBranches node.id names flow.edges }, ⟨alike.ids, alike.roles, alike.unnamed⟩,
    rfl, ?_⟩
  rw [withBranches, List.drop_eq_nil_of_le enough]
  simp only [newBranches, List.zip_nil_left, List.map_nil, List.flatMap_nil, append,
    List.append_nil]
  rfl

/-- What naming fewer branches than there are does to a flow in which no merge is named. -/
theorem trims_withBranches (found : flow.node? head = some node)
    (fewer : names.length < (flow.branchEdges head).length)
    (stays : head ∉ flow.surplusSlots head names)
    (unnamed : ∀ node ∈ flow.nodes, node.content.mergeNodeId = none) :
    flow.Trims (flow.withBranches node merge names slots).flow head names := by
  obtain rfl := id_of_node?_eq_some found
  obtain ⟨renamed, alike, edges, whole⟩ :=
    @exists_renamed flow merge names slots node (Nat.le_of_lt fewer)
  obtain ⟨old, there, hhead, hmerge⟩ := alike.exists_node? found
  have kept : (renamed.without (flow.surplusSlots node.id names)).node? node.id = some old :=
    (node?_without stays).trans there
  -- Of the edges, those of the dropped branches are missing at least.
  have counted : ∀ counts : Edge → Bool,
      (∀ edge branch, counts { edge with branch } = counts edge) →
        (flow.withBranches node merge names slots).flow.edges.countP counts +
          ((flow.branchEdges node.id).drop names.length).countP counts ≤
            flow.edges.countP counts := by
    intro counts same
    have total := @countP_renameBranches node.id names flow.edges counts same
    have fewer : (renamed.without (flow.surplusSlots node.id names)).edges.countP counts ≤
        renamed.edges.countP counts := List.Sublist.countP_le List.filter_sublist
    rw [edges] at fewer
    rw [whole, edges_settle, edges_withNode, branchEdges]
    omega
  refine ⟨fun {id} => ?_, fun {id} off => ?_, fun {id child} => ?_, ?_, ?_, ?_, ?_⟩
  · rw [whole, ids_settle, ids_withNode, Flow.ids_without, List.mem_filter, decide_eq_true_iff,
      alike.ids]
  · rw [whole, isHead_settle, isMerge_settle,
      @isHead_withNode _ (node.mapContent (Content.withBranches names)) old kept hhead,
      @isMerge_withNode _ (node.mapContent (Content.withBranches names)) old kept hmerge,
      isHead_congr (node?_without off), isMerge_congr (node?_without off)]
    exact alike.roles id
  · rw [leads_withBranches, added_withBranches_eq_nil (Nat.le_of_lt fewer)]
    simp
  · rw [whole]
    intro settled member
    obtain ⟨other, inside, rfl⟩ := List.mem_map.mp member
    have nameless : other.content.mergeNodeId = none := by
      rcases mem_nodes_withNode inside with rfl | before
      · exact unnamed node (mem_of_node?_eq_some found)
      · exact alike.unnamed unnamed other (mem_nodes_without.mp before).1
    simp [Node.settle, Node.mapContent, Content.withMerge, nameless]
  · intro id
    have few := counted (fun edge => edge.target = id) fun _ _ => rfl
    rw [edgesTo, edgesTo, ← List.countP_eq_length_filter, ← List.countP_eq_length_filter]
    omega
  · intro id
    have few := counted (fun edge => edge.source = id) fun _ _ => rfl
    rw [edgesFrom, edgesFrom, ← List.countP_eq_length_filter, ← List.countP_eq_length_filter]
    omega
  · have few := counted (fun _ => true) fun _ _ => rfl
    simp only [List.countP_true, List.length_drop] at few
    omega

/-! ### Around the block -/

section Block

variable (nests : flow.Nests line) (block : .block head lanes merge ∈ line.items)
include nests block

/-- Where a branch that is dropped starts, no edge leads that stays. -/
theorem Nests.not_leadsOn (drops : flow.Drops head names.length child) (short : child ≠ merge) :
    ¬ flow.LeadsOn head names.length id child := by
  obtain ⟨hosts, -⟩ := nests.hosts_of_mem_items block
  obtain ⟨lane, member, begins⟩ := hosts.exists_lane_of_leads drops.leads short
  exact drops.not_leadsOn (nests.length_edgesTo_entrance_le block member begins)

/-- A slot that is cut off is entered from the head only. -/
theorem Nests.notMem_surplusSlots (leads : flow.Leads id child) (apart : id ≠ head)
    (short : child ≠ merge) : child ∉ flow.surplusSlots head names := fun cut =>
  nests.not_leadsOn block (drops_of_mem_surplusSlots cut) short (leadsOn_of_ne leads apart)

/-- The slots that are cut off are in the block, and its head is none of them. -/
theorem Nests.mem_ids_of_surplusSlots (h : id ∈ flow.surplusSlots head names) :
    id ∈ (Item.block head lanes merge).ids ∧ id ≠ head := by
  obtain ⟨hosts, -⟩ := nests.hosts_of_mem_items block
  have leads := (drops_of_mem_surplusSlots h).leads
  obtain ⟨wire, along, -, rfl⟩ := hosts.onward (Item.first_mem_ids (.block head lanes merge))
    hosts.merge_ne_head.symm leads
  exact ⟨Item.target_mem_ids along, fun same => nests.acyclic (.single (same ▸ leads))⟩

theorem Nests.head_notMem_surplusSlots : head ∉ flow.surplusSlots head names := fun cut =>
  (nests.mem_ids_of_surplusSlots block cut).2 rfl

theorem Nests.outside_notMem_surplusSlots (outside : id ∉ (Item.block head lanes merge).ids) :
    id ∉ flow.surplusSlots head names := fun cut =>
  outside (nests.mem_ids_of_surplusSlots block cut).1

variable (trims : flow.Trims trimmed head names)
include trims

omit nests block in
/-- An edge that does not start at the head stays, if both its ends do. -/
theorem Trims.leads (leads : flow.Leads id child) (apart : id ≠ head)
    (here : id ∉ flow.surplusSlots head names) (there : child ∉ flow.surplusSlots head names) :
    trimmed.Leads id child :=
  trims.leads_iff.mpr ⟨leadsOn_of_ne leads apart, here, there⟩

omit nests block in
theorem Trims.leads_of (leads : trimmed.Leads id child) : flow.Leads id child :=
  (trims.leads_iff.mp leads).1.leads

/-- Around the block edges and roles stay. -/
theorem Trims.frames : flow.Frames trimmed (.block head lanes merge) where
  roles _ outside := trims.roles (nests.outside_notMem_surplusSlots block outside)
  kept leads outside off := by
    refine trims.leads leads ?_ (nests.outside_notMem_surplusSlots block outside)
      (nests.outside_notMem_surplusSlots block off)
    rintro rfl
    exact outside (Item.first_mem_ids _)
  leads_cases leads := .inl (trims.leads_of leads)

/-- Where the block was entered it is entered still. -/
theorem Trims.leads_head (leads : flow.Leads id head)
    (outside : id ∉ (Item.block head lanes merge).ids) : trimmed.Leads id head :=
  trims.leads leads (fun same => outside (same ▸ Item.first_mem_ids (.block head lanes merge)))
    (nests.outside_notMem_surplusSlots block outside) (nests.head_notMem_surplusSlots block)

/-- If the merge stays, it leads to where it led. -/
theorem Trims.leads_behind (stays : merge ∉ flow.surplusSlots head names)
    (leads : flow.Leads merge child) : trimmed.Leads merge child := by
  obtain ⟨hosts, -⟩ := nests.hosts_of_mem_items block
  exact trims.leads leads hosts.merge_ne_head stays
    (nests.outside_notMem_surplusSlots block (nests.notMem_behind hosts leads))

end Block

/-! ### Where blocks are closed -/

section Charts

variable {other final early : NodeId} {bundle : List Lane}
  (trims : flow.Trims trimmed head names) (hosts : flow.Hosts (.block other bundle final))
  (stays : other ∉ flow.surplusSlots head names)
include trims hosts stays

/-- The nodes of a block that stay stand where they stood. -/
theorem Trims.charts : trimmed.Charts other fun id above =>
    id ∉ flow.surplusSlots head names ∧ (Item.block other bundle final).Stands id above where
  begins := ⟨stays, hosts.charts.begins⟩
  unique here there := hosts.charts.unique here.2 there.2
  onward here isOpen leads := by
    rw [rise_congr (trims.roles here.1)]
    exact ⟨(trims.leads_iff.mp leads).2.2, hosts.charts.onward here.2
      ((openAt_congr (trims.roles here.1)).mp isOpen) (trims.leads_of leads)⟩

/-- Nothing but its merge closes a block from which branches were cut off. -/
theorem Trims.eq_last_of_closes (closes : trimmed.Closes other early) :
    early = final ∧ early ∉ flow.surplusSlots head names := by
  obtain ⟨above, arrives, closed⟩ := closes
  obtain ⟨here, stands⟩ := (trims.charts hosts stays).stands_of_arrives arrives
  refine ⟨?_, here⟩
  by_contra short
  exact (hosts.openAt stands short).2 ((closesAt_congr (trims.roles here)).mp closed)

/-- A block closes where it did, if its merge is still reached. -/
theorem Trims.closes_iff (reaches : Relation.ReflTransGen trimmed.Leads other final) :
    trimmed.Closes other early ↔ early = final :=
  (trims.charts hosts stays).closes_iff
    (fun here short => (openAt_congr (trims.roles here.1)).mpr (hosts.openAt here.2 short))
    (fun here => (closesAt_congr (trims.roles here.1)).mpr (hosts.closesAt here.2)) reaches early

end Charts

end Flow

end Workflow
