import Workflow.Edit.Placeholder
import Workflow.Proofs.Nesting.Nests

/-!
# Heads, merges and bodies in well-nested flows

In a well-nested flow the queries about blocks answer what the nesting says: from the
head of a block its merge is found, from the merge the head, and between them the nodes
of the block.

## Main results

* `Nests.resolve` — the three queries about a block, when no merge is named
* `Nests.merge?_eq` — the merge of a block, also when heads name their own merges
-/

namespace Workflow

namespace Flow

variable {flow : Flow} {line rest : Line} {context : Line.Context} {lanes : List Lane}
  {head merge id : NodeId} {out : Option String} {limits : Limits}

/-- The nodes of a part of a well-nested flow are no more than those of the flow. -/
theorem Nests.length_ids_le {item : Item}
    (nests : flow.Nests (context.plug (.cons item out rest))) :
    item.ids.length ≤ flow.nodes.length := by
  have total := nests.ids_perm.length_eq
  rw [Flow.ids, List.length_map, Line.ids_cons, List.length_append, List.length_append] at total
  omega

section Block

variable (nests : flow.Nests (context.plug (.cons (.block head lanes merge) out rest)))
  (covers : limits.Covers flow)
include nests covers

/-- The search from the head of a block finds its merge. -/
theorem Nests.searchMerge?_eq : flow.searchMerge? limits head = some merge :=
  nests.hosts.searchMerge?_eq (covers.edges_lt (nests.mem_ids_of_item (Item.first_mem_ids _))).1

/-- The way up from the merge of a block ends at its head. -/
theorem Nests.starter?_eq : flow.starter? limits merge = some head := by
  have size := nests.length_ids_le
  have room := covers.search
  exact nests.hosts.starter?_eq (by omega)

/-- The body of a block is its head and what is on its branches. -/
theorem Nests.mem_body_iff : id ∈ flow.body limits head merge ↔ id ∈ head :: laneIds lanes :=
  nests.hosts.mem_body_iff (covers.edges_lt (nests.mem_ids_of_item (Item.first_mem_ids _))).2

/-- The nodes between the head of a block and its merge are those of the block. -/
theorem Nests.mem_block_iff :
    id ∈ flow.block limits head merge ↔ id ∈ (Item.block head lanes merge).ids := by
  have apart : head ≠ merge := nests.hosts.merge_ne_head.symm
  have present : flow.has merge = true :=
    has_iff_mem_ids.mpr (nests.mem_ids_of_item (Item.last_mem_ids (.block head lanes merge)))
  rw [block, if_pos ⟨apart, present⟩, List.mem_append, nests.mem_body_iff covers, Item.ids_block,
    List.mem_append]

end Block

/-- In a well-nested flow a head opens one block only. -/
theorem Nests.block_unique (nests : flow.Nests line) {block other : Block}
    (h : block ∈ line.blocks) (hother : other ∈ line.blocks) (same : block.head = other.head) :
    block.merge = other.merge := by
  obtain ⟨context, lanes, out, rest, whole⟩ := Line.exists_context_of_mem_blocks h
  obtain ⟨contextToo, lanesToo, outToo, restToo, wholeToo⟩ :=
    Line.exists_context_of_mem_blocks hother
  -- The flow hosts both blocks, and the merge of either closes the one head.
  have hosts := (whole ▸ nests).hosts
  have hostsToo := (wholeToo ▸ nests).hosts
  have closes := (hostsToo.closes_iff other.merge).mpr rfl
  rw [← same] at closes
  exact ((hosts.closes_iff other.merge).mp closes).symm

/-- What the head of a block names is the merge of the block. -/
theorem Nests.eq_merge_of_names
    (nests : flow.Nests (context.plug (.cons (.block head lanes merge) out rest)))
    (named : flow.NamesOwn (context.plug (.cons (.block head lanes merge) out rest)))
    {node : Node} (found : flow.node? head = some node) {own : NodeId}
    (names : node.content.mergeNodeId = some own) : own = merge := by
  -- It is the merge of a block that the head opens, and the head opens this one only.
  obtain ⟨block, member, opens, rfl⟩ := named node (mem_of_node?_eq_some found) own names
  have here : (⟨head, merge, lanes.length⟩ : Block) ∈
      (context.plug (.cons (.block head lanes merge) out rest)).blocks :=
    (context.blocks_plug _).mem_iff.mpr (by simp)
  exact nests.block_unique member here (opens.trans (id_of_node?_eq_some found))

/-- In a well-nested flow whose heads name their own merges, if any, the merge of each block
is found from its head. -/
theorem Nests.merge?_eq
    (nests : flow.Nests (context.plug (.cons (.block head lanes merge) out rest)))
    (covers : limits.Covers flow)
    (named : flow.NamesOwn (context.plug (.cons (.block head lanes merge) out rest))) :
    flow.merge? limits head = some merge := by
  cases remembered : flow.rememberedMerge? head with
  | none => rw [merge?_of_not_remembered remembered, nests.searchMerge?_eq covers]
  | some own =>
    rw [merge?_of_remembered remembered]
    obtain ⟨node, found, names⟩ := Option.bind_eq_some_iff.mp remembered
    rw [nests.eq_merge_of_names named found (Option.filter_eq_some_iff.mp names).1]

/-- In a well-nested flow in which no merge is named, from the head of each block its merge is
found, from the merge the head, and the extent of the block has the nodes of the block. -/
theorem Nests.resolve (nests : flow.Nests line) (covers : limits.Covers flow)
    (unnamed : ∀ node ∈ flow.nodes, node.content.mergeNodeId = none)
    (member : .block head lanes merge ∈ line.items) :
    flow.merge? limits head = some merge ∧ flow.starter? limits merge = some head ∧
      ∃ extent, flow.extent? limits head = some extent ∧ extent.head = head ∧
        extent.merge = merge ∧ ∀ id, id ∈ extent.nodes ↔ id ∈ (Item.block head lanes merge).ids := by
  obtain ⟨context, out, rest, rfl⟩ := Line.exists_context_of_mem_items member
  have named : flow.NamesOwn (context.plug (.cons (.block head lanes merge) out rest)) := by
    intro node inside merge names
    rw [unnamed node inside] at names
    cases names
  have found := nests.merge?_eq covers named
  refine ⟨found, nests.starter?_eq covers, ⟨head, merge, flow.block limits head merge⟩, ?_, rfl, rfl,
    fun id => nests.mem_block_iff covers⟩
  rw [extent?, found]
  rfl

/-- A condition in a branch of a parallel step, with nodes and edges out of order. -/
def sample : Flow where
  nodes := [.mergePlaceholder "join", { id := "inner", kind := some "condition" },
    { id := "outer", kind := some "parallel" }, { id := "end", kind := some "end" },
    .mergePlaceholder "close", { id := "start", kind := some "trigger" },
    .branchPlaceholder "slot" "True Path"]
  edges := [.connect "close" "join" none, .connect "inner" "close" (some "false"),
    .connect "start" "outer" none, .connect "outer" "join" (some "B"),
    .connect "slot" "close" none, .connect "outer" "inner" (some "A"),
    .connect "join" "end" none, .connect "inner" "slot" (some "true")]

/-- The condition in the sample. -/
def sampleInner : Item :=
  .block "inner" [(some "true", .cons (.step "slot") none .done), (some "false", .done)] "close"

/-- The sequence of which the sample is the graph. -/
def sampleLine : Line :=
  .cons (.step "start") none
    (.cons (.block "outer" [(some "A", .cons sampleInner none .done), (some "B", .done)] "join") none
      (.cons (.step "end") none .done))

/-- The condition in the sample is resolved. -/
theorem Nests.resolve_sample :
    sample.Nests sampleLine ∧ ({} : Limits).Covers sample ∧ sampleInner ∈ sampleLine.items ∧
      sample.merge? {} "inner" = some "close" ∧ sample.starter? {} "close" = some "inner" ∧
      ∃ extent, sample.extent? {} "inner" = some extent ∧ extent.head = "inner" ∧
        extent.merge = "close" ∧ ∀ id, id ∈ extent.nodes ↔ id ∈ sampleInner.ids := by
  have nests : sample.Nests sampleLine := by decide +kernel
  have covers : ({} : Limits).Covers sample := by decide +kernel
  have unnamed : ∀ node ∈ sample.nodes, node.content.mergeNodeId = none := by decide +kernel
  have member : sampleInner ∈ sampleLine.items := by
    simp [sampleLine, Line.items, Item.items, laneItems]
  exact ⟨nests, covers, member, nests.resolve covers unnamed member⟩

end Flow

end Workflow
