import Workflow.Proofs.Editing.BlockRemoval
import Workflow.Proofs.Editing.Bridging
import Workflow.Proofs.Editing.Closing

/-!
# Filling the merge of a block with a block

In a well-nested flow, a slot at which a block closes is filled with a block. If several edges
come together there, the new head takes the role of the merge over: the head above names it, and
all other heads close where they did. If one edge alone leads there, the new head is no merge,
and the block above is open.

## Main definitions

* `Flow.TakesOver` — the new head closes the block above, and nothing else changes

## Main results

* `Nests.joins_fillWithBlock` — the new head becomes a join if several edges lead to the merge
* `Edit.takesOver_iff` — exactly then the new head takes over
-/

namespace Workflow

namespace Flow

/-- After a merge was filled with a block, the new head closes the block of `head` and opens its
own, and all other heads close where they closed before. -/
structure TakesOver (flow after : Flow) (limits caps : Limits) (head opener closer : NodeId) :
    Prop where
  above : after.merge? caps head = some opener
  own : after.merge? caps opener = some closer
  present : opener ∈ after.ids ∧ closer ∈ after.ids
  others : ∀ other, flow.isHead other = true → other ≠ head →
    after.merge? caps other = flow.merge? limits other

variable {flow after joined : Flow} {context : Line.Context} {out : Option String} {rest : Line}
  {head merge opener closer id child other : NodeId} {lanes arms : List Lane} {limits caps : Limits}
  {slot node : Node} {patch : Patch} {kind : BlockKind} {label : Option String} {params : Option Json.Members}
  {names : List String} {slots : List NodeId}

theorem rememberedMerge?_of_node? (found : flow.node? id = some node)
    (names : node.content.mergeNodeId = some merge) (named : merge ≠ "") :
    flow.rememberedMerge? id = some merge := by
  rw [rememberedMerge?, found, Option.bind_some, Content.rememberedMerge?, names]
  simp [named]

/-- A merge that a head names closes its block at present, if it is there. -/
theorem presentMerge?_of_node? (found : flow.node? id = some node)
    (names : node.content.mergeNodeId = some merge) (named : merge ≠ "")
    (present : merge ∈ flow.ids) : flow.presentMerge? limits id = some merge := by
  rw [presentMerge?, merge?_of_remembered (rememberedMerge?_of_node? found names named)]
  simp [has_iff_mem_ids.mpr present]

/-! ### Handing a merge over -/

/-- A flow in which a merge has given way to a patch, and `opener` has its role now. -/
def handedOver (flow : Flow) (head merge opener : NodeId) (patch : Patch) : Flow :=
  (((flow.without [merge]).append patch).pinHead (some head) opener).settle (handOver merge opener)

theorem mem_ids_handedOver : id ∈ (flow.handedOver head merge opener patch).ids ↔
    id ∈ flow.ids ∧ id ≠ merge ∨ id ∈ patch.nodes.map (·.id) := by
  rw [handedOver, ids_settle, ids_pinHead, ids_append, Flow.ids_without]
  simp

theorem leads_handedOver : (flow.handedOver head merge opener patch).Leads id child ↔
    (flow.without [merge]).Leads id child ∨
      ∃ edge ∈ patch.edges, edge.source = id ∧ edge.target = child := by
  rw [handedOver, leads_settle, Leads, edges_pinHead]
  exact leads_append

/-- A node stays if it names neither the merge that is gone nor one that was not there, and is
not the head above. -/
theorem node?_handedOver (found : ((flow.without [merge]).append patch).node? id = some node)
    (apart : id ≠ head) (own : ∀ name, node.content.mergeNodeId = some name →
      name ≠ merge ∧ name ∈ (flow.handedOver head merge opener patch).ids) :
    (flow.handedOver head merge opener patch).node? id = some node := by
  have unpinned : some node.id ≠ some head := by
    rwa [id_of_node?_eq_some found, Ne, Option.some.injEq]
  rw [handedOver, node?_settle, node?_pinHead, found, Option.map_some, Option.map_some,
    if_neg unpinned, Node.settle_eq_self]
  intro name names
  obtain ⟨apart, known⟩ := own name names
  exact ⟨handOver_of_ne apart, by rwa [handedOver, ids_settle] at known⟩

/-- The head above names the node that has the role of the merge now. -/
theorem node?_handedOver_head (found : flow.node? head = some node) (apart : head ≠ merge)
    (old : head ∉ patch.nodes.map (·.id)) (new : opener ∈ patch.nodes.map (·.id)) :
    (flow.handedOver head merge opener patch).node? head =
      some (node.mapContent (Content.withMerge (some opener))) := by
  have still : ((flow.without [merge]).append patch).node? head = some node := by
    rw [node?_append_of_notMem old, node?_without (by simpa using apart), found]
  have pinned : some node.id = some head := congrArg some (id_of_node?_eq_some found)
  rw [handedOver, node?_settle, node?_pinHead, still, Option.map_some, Option.map_some,
    if_pos pinned, Node.settle_eq_self]
  rintro name names
  obtain rfl : opener = name := Option.some.inj names
  refine ⟨handOver_heir merge opener, ?_⟩
  rw [ids_pinHead, ids_append]
  exact List.mem_append_right _ new

/-- The nodes that are put in are found by their identities, if they are new and name one of
them or none. -/
theorem node?_handedOver_new (distinct : (patch.nodes.map (·.id)).Nodup)
    (unused : ∀ id ∈ patch.nodes.map (·.id), id ∉ flow.ids) (headIn : head ∈ flow.ids)
    (mergeIn : merge ∈ flow.ids) (member : node ∈ patch.nodes)
    (own : ∀ name, node.content.mergeNodeId = some name → name ∈ patch.nodes.map (·.id)) :
    (flow.handedOver head merge opener patch).node? node.id = some node := by
  have new : node.id ∈ patch.nodes.map (·.id) := List.mem_map_of_mem member
  have absent : node.id ∉ (flow.without [merge]).ids := by
    rw [Flow.ids_without]
    exact fun old => unused _ new (List.mem_filter.mp old).1
  refine node?_handedOver ?_ ?_ ?_
  · rw [node?_append_of_mem absent]
    exact find?_eq_some_of_mem distinct member
  · rintro same
    exact unused _ new (same ▸ headIn)
  · intro name names
    refine ⟨?_, mem_ids_handedOver.mpr (.inr (own name names))⟩
    rintro rfl
    exact unused _ (own _ names) mergeIn

/-! ### A block that is a join -/

/-- A new block for a slot, with a head that is a merge as well. -/
def joinPatch (flow : Flow) (slot : Node) (kind : BlockKind) (label : Option String)
    (params : Option Json.Members) (names : List String) (opener closer : NodeId)
    (slots : List NodeId) : Patch where
  nodes := (NewStep.blockHead kind label params names opener closer).markMerge ::
    (NewStep.block kind label params names opener closer slots).parts
  edges := flow.fillEdges slot (.block kind label params names opener closer slots)

section Join

variable (some' : names ≠ []) (full : slots.length = (kind.arms names).length)
  (made : patch = flow.joinPatch slot kind label params names opener closer slots)
include some' full made

theorem ids_joinPatch :
    patch.nodes.map (·.id) = (Item.block opener (kind.lanes names slots) closer).ids := by
  have forms := @NewStep.forms_block kind label params names opener closer slots some' full
  rw [made]
  exact forms.ids

/-- Edges lead to the join where they led to the slot, and on from its merge as they did from the
slot. -/
theorem leads_joinPatch : (flow.handedOver head slot.id opener patch).Leads id child ↔
    (flow.without [slot.id]).Leads id child ∨ flow.Leads id slot.id ∧ child = opener ∨
      (∃ wire ∈ (Item.block opener (kind.lanes names slots) closer).wires,
        wire.source = id ∧ wire.target = child) ∨ id = closer ∧ flow.Leads slot.id child := by
  have forms := @NewStep.forms_block kind label params names opener closer slots some' full
  rw [leads_handedOver, made]
  exact or_congr_right (exists_fillEdge_iff forms)

variable (distinct : (Item.block opener (kind.lanes names slots) closer).ids.Nodup)
  (unused : ∀ id ∈ (Item.block opener (kind.lanes names slots) closer).ids, ¬ flow.Mentions id)
  (headIn : head ∈ flow.ids) (slotIn : slot.id ∈ flow.ids)
include distinct unused headIn slotIn

/-- A node of a new block is found by its identity, if it names no merge but that of the block. -/
theorem node?_joinPatch (member : node ∈ patch.nodes)
    (own : ∀ name, node.content.mergeNodeId = some name → name = closer) :
    (flow.handedOver head slot.id opener patch).node? node.id = some node := by
  have ids := ids_joinPatch some' full made
  refine node?_handedOver_new ?_ ?_ headIn slotIn member ?_
  · rwa [ids]
  · rw [ids]
    exact fun id inside old => unused id inside (.inl old)
  · intro name names
    rw [own name names, ids]
    exact Item.last_mem_ids (.block opener _ closer)

/-- The new head is found. It names the new merge. -/
theorem node?_joinPatch_head : (flow.handedOver head slot.id opener patch).node? opener =
    some (NewStep.blockHead kind label params names opener closer).markMerge := by
  have member : (NewStep.blockHead kind label params names opener closer).markMerge ∈
      patch.nodes := by
    rw [made]
    exact List.mem_cons_self
  exact node?_joinPatch some' full made distinct unused headIn slotIn member
    fun _ own => Option.some.inj (own.symm.trans NewStep.mergeNodeId_blockHead)

/-- A new block for a slot is a joining block. -/
theorem joining_joinPatch : (flow.handedOver head slot.id opener patch).Joining
    opener (kind.lanes names slots) closer := by
  have ids := ids_joinPatch some' full made
  have forms := @NewStep.forms_block kind label params names opener closer slots some' full
  have headFound := node?_joinPatch_head some' full made distinct unused headIn slotIn
  -- The slots and the merge of the new block name no merge.
  have found : ∀ node ∈ (NewStep.block kind label params names opener closer slots).parts,
      node.content.mergeNodeId = none →
        (flow.handedOver head slot.id opener patch).node? node.id = some node := by
    intro node member unnamed
    refine node?_joinPatch some' full made distinct unused headIn slotIn ?_ ?_
    · rw [made]
      exact List.mem_cons_of_mem _ member
    · intro name own
      rw [unnamed] at own
      cases own
  refine ⟨distinct, ?_, forms.forked, ⟨?_, ?_⟩, ?_, ?_, ?_⟩
  · rw [← ids]
    exact fun id inside => mem_ids_handedOver.mpr (.inr inside)
  · rw [isHead_of_node? headFound, Node.isHead_markMerge, NewStep.isHead_blockHead]
  · rw [isMerge_of_node? headFound, Node.isMerge_markMerge]
  · intro id inside
    rw [BlockKind.laneIds_lanes] at inside
    obtain ⟨arm, place, rfl⟩ := List.mem_map.mp inside
    have member : Node.branchPlaceholder arm.2 arm.1.label ∈
        (NewStep.block kind label params names opener closer slots).parts :=
      List.mem_append_left _ (List.mem_map.mpr ⟨arm, place, rfl⟩)
    exact Plays.of_node? (found _ member rfl) rfl rfl
  · have member : Node.mergePlaceholder closer ∈
        (NewStep.block kind label params names opener closer slots).parts :=
      List.mem_append_right _ (List.mem_singleton.mpr rfl)
    exact Plays.of_node? (found _ member rfl) rfl rfl
  · exact fun wire member => (leads_joinPatch some' full made).mpr
      (.inr (.inr (.inl ⟨wire, member, rfl, rfl⟩)))

end Join

section Block

variable (nests : flow.Nests (context.plug (.cons (.block head lanes merge) out rest)))
  (covers : limits.Covers flow)
  (named : flow.NamesOwn (context.plug (.cons (.block head lanes merge) out rest)))
include nests covers named

omit named in
/-- The head of another block does not close at the merge of a block. -/
theorem Nests.last_ne_merge {around : Line.Context} {bundle : List Lane} {last : NodeId}
    {name : Option String} {behind : Line}
    (whole : context.plug (.cons (.block head lanes merge) out rest) =
      around.plug (.cons (.block other bundle last) name behind)) (apart : other ≠ head) :
    last ≠ merge := by
  rintro rfl
  -- The way up from the merge ends at one head only.
  have own := (whole ▸ nests).starter?_eq covers
  rw [nests.starter?_eq covers, Option.some.injEq] at own
  exact apart own.symm

/-- A merge at which several edges come together gives way to a block whose head is a join. -/
theorem Nests.joins_fillWithBlock (found : flow.node? merge = some slot)
    (several : 1 < (flow.edgesTo merge).length) (some' : names ≠ [])
    (full : slots.length = (kind.arms names).length)
    (fresh : (flow.fillWithBlock limits slot
      (.block kind label params names opener closer slots)).FreshFor flow) :
    flow.Joins (flow.fillWithBlock limits slot
        (.block kind label params names opener closer slots)).flow
      head merge opener closer (kind.lanes names slots) := by
  obtain rfl := id_of_node?_eq_some found
  have forms := @NewStep.forms_block kind label params names opener closer slots some' full
  obtain ⟨distinct, unused⟩ := fresh_of_forms forms fresh rfl
  have takes : flow.takesJoin slot = true := by
    have joins : slot.isMerge = true := (isMerge_of_node? found).symm.trans nests.plays_ends.2.2
    rw [takesJoin, joins, Bool.true_and]
    exact decide_eq_true several
  obtain ⟨patch, made, result⟩ : ∃ patch,
      patch = flow.joinPatch slot kind label params names opener closer slots ∧
      (flow.fillWithBlock limits slot (.block kind label params names opener closer slots)).flow =
        flow.handedOver head slot.id opener patch :=
    ⟨_, rfl, fillWithBlock_join takes (nests.closingHead?_eq covers named)
      nests.length_edgesFrom_last_le⟩
  have ids := ids_joinPatch some' full made
  have openerIn : opener ∈ patch.nodes.map (·.id) := ids ▸ Item.first_mem_ids (.block opener _ _)
  obtain ⟨headIn, slotIn⟩ := nests.mem_ids_ends
  rw [result]
  refine ⟨joining_joinPatch some' full made distinct unused headIn slotIn, unused,
    nests.plays_ends.2, ?_, ⟨_, node?_joinPatch_head some' full made distinct unused headIn slotIn,
      NewStep.mergeNodeId_blockHead⟩, ?_, ?_, leads_joinPatch some' full made⟩
  · exact fun loop => nests.acyclic (.single loop)
  · obtain ⟨node, before⟩ : ∃ node, flow.node? head = some node :=
      Option.isSome_iff_exists.mp (has_iff_mem_ids.mpr headIn)
    refine ⟨node, before, node?_handedOver_head before nests.hosts.merge_ne_head.symm ?_ openerIn⟩
    rw [ids]
    exact fun inside => unused head inside (.inl headIn)
  · intro id old short apart
    have still : ((flow.without [slot.id]).append patch).node? id = flow.node? id := by
      rw [node?_append_of_notMem (by rwa [ids]), node?_without (by simpa using short)]
    cases before : flow.node? id with
    | none =>
      rw [handedOver, node?_settle, node?_pinHead, still, before]
      rfl
    | some node =>
      -- Another head names the merge of its own block, which is there and is not this one.
      obtain rfl := id_of_node?_eq_some before
      have member := mem_of_node?_eq_some before
      refine node?_handedOver (still.trans before) apart fun name own => ?_
      obtain ⟨block, inside, -, rfl⟩ := named node member name own
      have other : block.merge ≠ slot.id := fun same =>
        apart (nests.eq_head_of_names covers named member (own.trans (congrArg some same)))
      have known := nests.ids.mem_iff.mpr (Line.mem_ids_of_mem_blocks inside).2
      exact ⟨other, mem_ids_handedOver.mpr (.inl ⟨known, other⟩)⟩

/-- A block whose head becomes a join takes over. -/
theorem Nests.takesOver_of_joins (joins : flow.Joins joined head merge opener closer arms)
    (enough : caps.Covers joined) (opens : opener ≠ "") (closes : closer ≠ "") :
    flow.TakesOver joined limits caps head opener closer := by
  obtain ⟨top, before, pinned⟩ := joins.pinned
  obtain ⟨node, found, own⟩ := joins.names
  have present : opener ∈ joined.ids := mem_ids_of_node? found
  refine ⟨?_, ?_, ⟨present, joins.block.present closer (Item.last_mem_ids (.block opener arms closer))⟩, ?_⟩
  · exact merge?_of_remembered (rememberedMerge?_of_node? pinned rfl opens)
  · exact merge?_of_remembered (rememberedMerge?_of_node? found own closes)
  · intro other opener apart
    obtain ⟨around, bundle, last, name, behind, whole⟩ := nests.exists_block_of_isHead opener
    have hosted := whole ▸ nests
    have far := nests.last_ne_merge covers whole apart
    -- Another head names what it named before, and else the search finds what it found before.
    have known : flow.Mentions other := .inl (mem_ids_of_isHead opener)
    have same : joined.node? other = flow.node? other := by
      refine joins.kept (fun new => joins.unused other new known) ?_ apart
      rintro rfl
      exact absurd (nests.plays_ends.2.1.symm.trans opener) Bool.false_ne_true
    have found : joined.searchMerge? caps other = some last :=
      joins.searchMerge?_eq hosted.hosts far (enough.edges_lt present).1
    rw [merge?, merge?, rememberedMerge?, rememberedMerge?, same, found,
      hosted.searchMerge?_eq covers]

omit covers in
/-- Where one edge alone leads to a merge, a block that fills it leaves the head above open. -/
theorem Nests.merge?_fillWithBlock_ne (found : flow.node? merge = some slot)
    (lone : (flow.edgesTo merge).length ≤ 1) (some' : names ≠ [])
    (full : slots.length = (kind.arms names).length)
    (fresh : (flow.fillWithBlock limits slot
      (.block kind label params names opener closer slots)).FreshFor flow) :
    (flow.fillWithBlock limits slot
      (.block kind label params names opener closer slots)).flow.merge? caps head ≠ some opener := by
  obtain rfl := id_of_node?_eq_some found
  have forms := @NewStep.forms_block kind label params names opener closer slots some' full
  have stays : flow.takesJoin slot = false := by
    rw [takesJoin, decide_eq_false (Nat.not_lt.mpr lone), Bool.and_false]
  obtain ⟨distinct, unused⟩ := fresh_of_forms forms fresh rfl
  obtain ⟨patch, nodes, result⟩ : ∃ patch : Patch,
      patch.nodes = (NewStep.block kind label params names opener closer slots).nodes ∧
      (flow.fillWithBlock limits slot (.block kind label params names opener closer slots)).flow =
        flow.closedOver [slot.id] patch := by
    rw [fillWithBlock_eq stays nests.length_edgesFrom_last_le]
    exact ⟨{
      nodes := (NewStep.block kind label params names opener closer slots).nodes
      edges := flow.fillEdges slot (.block kind label params names opener closer slots) }, rfl, rfl⟩
  rw [result]
  have ids : patch.nodes.map (·.id) = (Item.block opener (kind.lanes names slots) closer).ids := by
    rw [nodes, forms.ids]
  have gone : slot.id ∉ (flow.closedOver [slot.id] patch).ids := by
    rw [mem_ids_closedOver, ids]
    rintro (⟨-, stays⟩ | new)
    · exact stays List.mem_cons_self
    · exact unused _ new (.inl nests.mem_ids_ends.2)
  -- The head above named the merge that is gone, if any.
  have forgets : (flow.closedOver [slot.id] patch).rememberedMerge? head = none := by
    rw [Option.eq_none_iff_forall_ne_some]
    intro name remembers
    obtain ⟨node, after, own⟩ := Option.bind_eq_some_iff.mp remembers
    have own := (Option.filter_eq_some_iff.mp own).1
    have alive : name ∈ (flow.closedOver [slot.id] patch).ids := by
      rw [closedOver, ids_settle]
      exact mem_ids_of_mem_settle (mem_of_node?_eq_some after) own
    have old : head ∉ patch.nodes.map (·.id) := by
      rw [ids]
      exact fun new => unused head new (.inl nests.mem_ids_ends.1)
    rw [closedOver, node?_settle, node?_append_of_notMem old,
      node?_without (by simpa using nests.hosts.merge_ne_head.symm)] at after
    obtain ⟨before, present, rfl⟩ := Option.map_eq_some_iff.mp after
    obtain ⟨same, names, rfl⟩ := Option.map_eq_some_iff.mp (Option.filter_eq_some_iff.mp own).1
    exact gone (nests.eq_merge_of_names named present names ▸ alive)
  -- What the search finds is a merge, and the new head is none.
  have plain : (flow.closedOver [slot.id] patch).isMerge opener = false := by
    have opens : opener ∈ (Item.block opener (kind.lanes names slots) closer).ids :=
      Item.first_mem_ids _
    have absent : opener ∉ (flow.without [slot.id]).ids := by
      rw [Flow.ids_without]
      exact fun old => unused opener opens (.inl (List.mem_filter.mp old).1)
    have member : NewStep.blockHead kind label params names opener closer ∈ patch.nodes :=
      nodes ▸ List.mem_cons_self
    have found : ((flow.without [slot.id]).append patch).node? opener =
        some (NewStep.blockHead kind label params names opener closer) := by
      rw [node?_append_of_mem absent]
      exact find?_eq_some_of_mem (ids ▸ distinct) member
    rw [closedOver, isMerge_settle, isMerge_of_node? found, NewStep.isMerge_blockHead]
  rw [merge?_of_not_remembered forgets]
  exact fun finds =>
    absurd (plain.symm.trans (isMerge_of_searchMerge? finds)) Bool.false_ne_true

end Block

end Flow

namespace Edit

variable {flow : Flow} {limits caps : Limits} {supply left : Supply} {change : Change}
  {context : Line.Context} {out : Option String} {rest : Line} {head merge : NodeId}
  {lanes : List Lane} {kind : String} {label : Option String} {params : Option Json.Members}
  {branches : Option (List String)}

/-- A slot at which a block closes is filled with a block. The new head takes over, and nothing
else changes, if and only if several edges come together at the slot. -/
theorem takesOver_iff
    (nests : flow.Nests (context.plug (.cons (.block head lanes merge) out rest)))
    (covers : limits.Covers flow)
    (named : flow.NamesOwn (context.plug (.cons (.block head lanes merge) out rest)))
    (opens : (BlockKind.ofName? kind).isSome)
    (done : (fill merge kind label params branches).run flow limits supply = .ok (change, left))
    (fresh : change.FreshFor flow) (nonempty : "" ∉ change.added) (enough : caps.Covers change.flow) :
    ∃ opener closer, change.added.head? = some opener ∧ change.added.getLast? = some closer ∧
      (flow.TakesOver change.flow limits caps head opener closer ↔
        1 < (flow.edgesTo merge).length) := by
  obtain ⟨slot, found, -, ⟨plain, -⟩ | ⟨block, -, -, rfl⟩⟩ := fill_cases done
  · rw [plain] at opens
    cases opens
  obtain ⟨names, opener, closer, slots, made, some', full⟩ :=
    NewStep.makeBlock_cases block label params branches supply
  rw [made] at fresh nonempty enough ⊢
  have forms := @NewStep.forms_block block label params names opener closer slots some' full
  have added : (flow.fillWithBlock limits slot
      (.block block label params names opener closer slots)).added =
        opener :: laneIds (block.lanes names slots) ++ [closer] :=
    forms.ids.trans (Item.ids_block _ _ _)
  rw [added] at nonempty
  refine ⟨opener, closer, rfl, ?_, ?_⟩
  · rw [added]
    exact List.getLast?_concat
  · constructor
    · intro takes
      by_contra lone
      exact nests.merge?_fillWithBlock_ne named found (Nat.not_lt.mp lone) some' full fresh
        takes.above
    · intro several
      have joins := nests.joins_fillWithBlock covers named found several some' full fresh
      refine nests.takesOver_of_joins covers named joins enough ?_ ?_
      · rintro rfl
        exact nonempty List.mem_cons_self
      · rintro rfl
        exact nonempty (List.mem_append_right _ List.mem_cons_self)

/-- In the sample, the slot at which the condition closes is filled with a loop. -/
theorem takesOver_sample : ∃ change left,
    Flow.sample.Nests (Flow.sampleContext.plug (.cons Flow.sampleInner none .done)) ∧
    (fill "close" "loop" none none none).run .sample {} .numbered = .ok (change, left) ∧
      change.FreshFor .sample ∧ "" ∉ change.added ∧ ({} : Limits).Covers change.flow ∧
      1 < (Flow.sample.edgesTo "close").length ∧
      Flow.sample.TakesOver change.flow {} {} "inner" "000000000001" "000000000002" := by
  have nests : Flow.sample.Nests (Flow.sampleContext.plug (.cons Flow.sampleInner none .done)) := by
    decide +kernel
  have covers : ({} : Limits).Covers Flow.sample := by decide +kernel
  have named : Flow.sample.NamesOwn
      (Flow.sampleContext.plug (.cons Flow.sampleInner none .done)) := by decide +kernel
  let made := StateT.run (Flow.sample.fillWithBlock {} (.mergePlaceholder "close") <$>
    NewStep.makeBlock .loop none none none) .numbered
  have done : (fill "close" "loop" none none none).run .sample {} .numbered = .ok made := by rfl
  have fresh : made.1.FreshFor .sample := by decide +kernel
  have nonempty : "" ∉ made.1.added := by decide +kernel
  have enough : ({} : Limits).Covers made.1.flow := by decide +kernel
  have several : 1 < (Flow.sample.edgesTo "close").length := by decide +kernel
  obtain ⟨opener, closer, first, last, takes⟩ :=
    takesOver_iff nests covers named (by decide +kernel) done fresh nonempty enough
  have opens : made.1.added.head? = some "000000000001" := by decide +kernel
  have closes : made.1.added.getLast? = some "000000000002" := by decide +kernel
  obtain rfl := Option.some.inj (first.symm.trans opens)
  obtain rfl := Option.some.inj (last.symm.trans closes)
  exact ⟨made.1, made.2, nests, done, fresh, nonempty, enough, several, takes.mpr several⟩

/-- A parallel step with one branch, on which there is nothing. -/
def narrow : Flow where
  nodes := [{ id := "head", kind := some "parallel" }, .mergePlaceholder "merge",
    { id := "end", kind := some "end" }]
  edges := [.connect "head" "merge" (some "A"), .connect "merge" "end" none]

/-- With one branch only, filling the merge of a block with a block leaves the block open. -/
theorem not_takesOver_narrow : ∃ change left,
    narrow.Nests (.cons (.block "head" [(some "A", .done)] "merge") none
      (.cons (.step "end") none .done)) ∧
    (∀ node ∈ narrow.nodes, node.content.mergeNodeId = none) ∧
    (∃ slot ∈ narrow.nodes, slot.id = "merge" ∧ slot.content.isPlaceholder = true ∧
      slot.content.isMergePlaceholder = true) ∧
    ({} : Limits).Covers narrow ∧
    (fill "merge" "condition" none none none).run narrow {} .numbered = .ok (change, left) ∧
    change.FreshFor narrow ∧ "" ∉ change.added ∧ ({} : Limits).Covers change.flow ∧
    change.added.head? = some "000000000001" ∧
    narrow.merge? {} "head" = some "merge" ∧ change.flow.merge? {} "head" = none ∧
    ∀ closer, ¬ narrow.TakesOver change.flow {} {} "head" "000000000001" closer := by
  let made := StateT.run (narrow.fillWithBlock {} (.mergePlaceholder "merge") <$>
    NewStep.makeBlock .condition none none none) .numbered
  have done : (fill "merge" "condition" none none none).run narrow {} .numbered = .ok made := by
    rfl
  have opened : made.1.flow.merge? {} "head" = none := by decide +kernel
  refine ⟨made.1, made.2, by decide +kernel, by decide +kernel, by decide +kernel,
    by decide +kernel, done, by decide +kernel, by decide +kernel, by decide +kernel,
    by decide +kernel, by decide +kernel, opened, ?_⟩
  intro closer takes
  have above := takes.above
  rw [opened] at above
  cases above

end Edit

end Workflow
