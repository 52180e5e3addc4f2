import Workflow.Proofs.Editing.Branching
import Workflow.Proofs.Editing.Clearance
import Workflow.Proofs.Editing.Closing

/-!
# Edits keep flows acyclic

An edit of a flow without cycles puts its new nodes in at one place, the anchor: a node that they
come after, or one that they replace. So a way through the new nodes stands for a way past the
anchor, and it comes back to where it started only if the flow had a cycle before.

New branches lead from a head to the merge that is found from it. A head that is a join itself,
and names no merge, is its own merge there. New branches lead back to it then.

## Main definitions

* `Flow.Acyclic` — no way along the edges comes back
* `Flow.NamesAhead` — the merges that heads name are reached from them
* `Flow.Passes` — the order of nodes around an anchor
* `Edit.ComesRound` — branches are added to a head that is its own merge

## Main results

* `Edit.acyclic_iff` — exactly when an edit does not come round, it keeps a flow acyclic
-/

namespace Workflow

namespace Flow

/-- No way along the edges comes back to where it started. -/
def Acyclic (flow : Flow) : Prop := ∀ id, ¬ Relation.TransGen flow.Leads id id

/-- The merge that a head names is a node, and a way leads there from the head. -/
def NamesAhead (flow : Flow) : Prop :=
  ∀ node ∈ flow.nodes, node.isHead = true → ∀ merge, node.content.mergeNodeId = some merge →
    merge ∈ flow.ids ∧ Relation.TransGen flow.Leads node.id merge

/-- The order of nodes when new ones are put in at an anchor. Old nodes stay in order, the new ones
are in the order of their list, and they come between what leads to the anchor and what the anchor
leads to. -/
inductive Passes (flow : Flow) (anchor : NodeId) (new : List NodeId) : NodeId → NodeId → Prop
  | past {id child : NodeId} (start : id ∉ new) (finish : child ∉ new)
      (path : Relation.TransGen flow.Leads id child) : Passes flow anchor new id child
  | into {id child : NodeId} (start : id ∉ new) (finish : child ∈ new)
      (path : Relation.ReflTransGen flow.Leads id anchor) : Passes flow anchor new id child
  | out {id child : NodeId} (start : id ∈ new) (finish : child ∉ new)
      (path : Relation.TransGen flow.Leads anchor child) : Passes flow anchor new id child
  | among {id child : NodeId} (start : id ∈ new) (finish : child ∈ new)
      (order : new.idxOf id < new.idxOf child) : Passes flow anchor new id child

variable {flow after : Flow} {anchor id child last : NodeId} {new : List NodeId}

/-- If edges lead forward in a list, there is no cycle. -/
theorem acyclic_of_order (order : List NodeId)
    (forward : ∀ edge ∈ flow.edges, order.idxOf edge.source < order.idxOf edge.target) :
    flow.Acyclic := by
  have rises : ∀ {id child}, Relation.TransGen flow.Leads id child →
      order.idxOf id < order.idxOf child := by
    intro id child path
    induction path with
    | single leads =>
      obtain ⟨edge, member, rfl, rfl⟩ := leads
      exact forward edge member
    | tail _ leads ih =>
      obtain ⟨edge, member, rfl, rfl⟩ := leads
      exact Nat.lt_trans ih (forward edge member)
  exact fun id round => Nat.lt_irrefl _ (rises round)

namespace Passes

theorem trans (acyclic : flow.Acyclic) (first : flow.Passes anchor new id child)
    (second : flow.Passes anchor new child last) : flow.Passes anchor new id last := by
  cases first with
  | past start old path =>
    cases second with
    | past _ finish onward => exact .past start finish (path.trans onward)
    | into _ finish onward => exact .into start finish (path.to_reflTransGen.trans onward)
    | out inside _ _ => exact absurd inside old
    | among inside _ _ => exact absurd inside old
  | into start inside path =>
    cases second with
    | past old _ _ => exact absurd inside old
    | into old _ _ => exact absurd inside old
    | out _ finish onward => exact .past start finish (onward.trans_right path)
    | among _ finish _ => exact .into start finish path
  | out start old path =>
    cases second with
    | past _ finish onward => exact .out start finish (path.trans onward)
    -- From the anchor a way would lead back to it.
    | into _ _ onward => exact absurd (path.trans_left onward) (acyclic anchor)
    | out inside _ _ => exact absurd inside old
    | among inside _ _ => exact absurd inside old
  | among start inside order =>
    cases second with
    | past old _ _ => exact absurd inside old
    | into old _ _ => exact absurd inside old
    | out _ finish onward => exact .out start finish onward
    | among _ finish more => exact .among start finish (Nat.lt_trans order more)

theorem irrefl (acyclic : flow.Acyclic) : ¬ flow.Passes anchor new id id := by
  intro round
  cases round with
  | past _ _ path => exact acyclic id path
  | into outside inside _ => exact outside inside
  | out inside outside _ => exact outside inside
  | among _ _ order => exact Nat.lt_irrefl _ order

end Passes

/-- If the edges of a flow lead past an anchor of an acyclic one, it is acyclic itself. -/
theorem Acyclic.of_passes (acyclic : flow.Acyclic)
    (passes : ∀ {id child}, after.Leads id child → flow.Passes anchor new id child) :
    after.Acyclic := by
  intro id round
  have order : Relation.TransGen (flow.Passes anchor new) id id :=
    Relation.TransGen.mono (fun _ _ leads => passes leads) id id round
  have transitive : IsTrans NodeId (flow.Passes anchor new) := ⟨fun _ _ _ => Passes.trans acyclic⟩
  rw [Relation.transGen_eq_self] at order
  exact Passes.irrefl acyclic order

/-! ### Where edits put nodes in -/

variable {limits : Limits} {supply : Supply} {change : Change} {edge : Edge} {slot head : Node}
  {merge : NodeId} {step : NewStep} {item : Item} {gaps : List Gap} {removed told : List NodeId}
  {rename : NodeId → NodeId} {names : List String} {slots : List NodeId}

/-- The end of a way is mentioned. -/
theorem mentions_of_transGen (path : Relation.TransGen flow.Leads id child) :
    flow.Mentions child := by
  obtain ⟨_, -, leads⟩ := Relation.TransGen.tail'_iff.mp path
  exact leads.mentions_target

/-- What the flow has is not new. -/
theorem Mentions.notMem_added (h : flow.Mentions id) (fresh : change.FreshFor flow) :
    id ∉ change.added := fun inside => fresh.unused id inside h

/-- An edge of the flow leads past the anchor. -/
theorem Leads.passes (leads : flow.Leads id child) (fresh : change.FreshFor flow) :
    flow.Passes anchor change.added id child :=
  .past (leads.mentions_source.notMem_added fresh) (leads.mentions_target.notMem_added fresh)
    (.single leads)

/-- The edges of a new step lead forward. -/
theorem passes_of_wire (forms : step.Forms item) (fresh : change.FreshFor flow)
    (added : change.added = step.nodes.map (·.id)) (member : edge ∈ step.edges) :
    flow.Passes anchor change.added edge.source edge.target := by
  have inner : edge.wire ∈ item.wires := forms.wires ▸ List.mem_map_of_mem member
  have distinct := fresh.distinct
  rw [added, forms.ids] at distinct ⊢
  exact .among (Item.source_mem_ids inner) (Item.target_mem_ids inner)
    (idxOf_lt_of_sublist distinct (Item.sublist_of_mem_wires inner))

/-- A step that takes the place of an edge comes after the start of the edge. -/
theorem passes_splice {source target : NodeId} (found : flow.edge? source target = some edge)
    (forms : step.Forms item) (fresh : (flow.splice edge step).FreshFor flow)
    (leads : (flow.splice edge step).flow.Leads id child) :
    flow.Passes source (flow.splice edge step).added id child := by
  obtain ⟨present, rfl, rfl⟩ := edge?_eq_some found
  have old : flow.Leads edge.source edge.target := ⟨edge, present, rfl, rfl⟩
  have added : (flow.splice edge step).added = step.nodes.map (·.id) := rfl
  have first : step.head.id ∈ (flow.splice edge step).added := by simp [added, NewStep.nodes]
  have exit : step.exit ∈ (flow.splice edge step).added := by
    rw [added, forms.ids, forms.last]
    exact item.last_mem_ids
  rw [splice, leads_settle, leads_append] at leads
  rcases leads with kept | ⟨new, member, rfl, rfl⟩
  · exact ((leads_iff_cut found).mpr (.inl kept)).passes fresh
  · rcases List.mem_cons.mp member with rfl | member
    · exact .into (old.mentions_source.notMem_added fresh) first .refl
    · rcases List.mem_append.mp member with inner | outer
      · exact passes_of_wire forms fresh added inner
      · obtain rfl := List.mem_singleton.mp outer
        exact .out exit (old.mentions_target.notMem_added fresh) (.single old)

/-- A block that fills a slot comes in its place. -/
theorem passes_fillWithBlock (forms : step.Forms item)
    (fresh : (flow.fillWithBlock limits slot step).FreshFor flow)
    (leads : (flow.fillWithBlock limits slot step).flow.Leads id child) :
    flow.Passes slot.id (flow.fillWithBlock limits slot step).added id child := by
  have added : (flow.fillWithBlock limits slot step).added = step.nodes.map (·.id) := rfl
  rcases leads_fillWithBlock.mp leads with
    kept | ⟨into, rfl⟩ | ⟨edge, member, rfl, rfl⟩ | ⟨rfl, edge, leaves, rfl⟩
  · exact (leads_without.mp kept).1.passes fresh
  · exact .into (into.mentions_source.notMem_added fresh) (by simp [added, NewStep.nodes])
      (.single into)
  · exact passes_of_wire forms fresh added member
  · obtain ⟨known, source⟩ := mem_edgesFrom.mp (List.mem_of_mem_take leaves)
    have out : flow.Leads slot.id edge.target := ⟨edge, known, source, rfl⟩
    refine .out ?_ (out.mentions_target.notMem_added fresh) (.single out)
    rw [added, forms.ids, forms.last]
    exact item.last_mem_ids

/-- The slots that close gaps come in the place of a node to which the gaps lead, and which leads
to where they go on. -/
theorem passes_removeAndBridge
    (spans : ∀ gap ∈ gaps, flow.Leads gap.edge.source anchor ∧
      Relation.TransGen flow.Leads anchor gap.target)
    (fresh : (StateT.run (flow.removeAndBridge removed told gaps rename) supply).1.FreshFor flow)
    (leads : (StateT.run (flow.removeAndBridge removed told gaps rename) supply).1.flow.Leads
      id child) :
    flow.Passes anchor (StateT.run (flow.removeAndBridge removed told gaps rename) supply).1.added
      id child := by
  rcases leads_removeAndBridge.mp leads with ⟨kept, -, -⟩ | connects
  · exact kept.passes fresh
  · obtain ⟨gap, member, ⟨rfl, target⟩ | ⟨slot, rfl⟩⟩ :=
      (bridges_bridgeAll flow gaps supply).connects_cases connects
    · obtain ⟨into, onward⟩ := spans gap member
      have start := into.mentions_source.notMem_added fresh
      rcases target with rfl | slot
      · exact .past start ((mentions_of_transGen onward).notMem_added fresh)
          (.head into onward)
      · exact .into start slot (.single into)
    · obtain ⟨-, onward⟩ := spans gap member
      exact .out slot ((mentions_of_transGen onward).notMem_added fresh) onward

/-- A block that goes is closed over towards its merge, or what comes behind that. -/
theorem passes_removeBlock (reaches : Relation.TransGen flow.Leads head.id merge)
    (fresh : (StateT.run (flow.removeBlock limits head merge) supply).1.FreshFor flow)
    (leads : (StateT.run (flow.removeBlock limits head merge) supply).1.flow.Leads id child) :
    flow.Passes head.id (StateT.run (flow.removeBlock limits head merge) supply).1.added
      id child := by
  rw [removeBlock] at fresh leads ⊢
  refine passes_removeAndBridge (fun gap member => ?_) fresh leads
  obtain ⟨goal, -, into⟩ := of_mem_gaps member
  refine ⟨into, ?_⟩
  split at goal
  · exact List.mem_singleton.mp goal ▸ reaches
  · exact reaches.tail (leads_iff_mem_children.mpr (List.mem_filter.mp goal).1)

/-- A step that goes is closed over towards where its one way out led. -/
theorem passes_removeStep (fresh : (StateT.run (flow.removeStep anchor) supply).1.FreshFor flow)
    (leads : (StateT.run (flow.removeStep anchor) supply).1.flow.Leads id child) :
    flow.Passes anchor (StateT.run (flow.removeStep anchor) supply).1.added id child := by
  rw [removeStep] at fresh leads ⊢
  refine passes_removeAndBridge (fun gap member => ?_) fresh leads
  obtain ⟨leaving, only, enters, goes, -⟩ := mem_stepGaps.mp member
  obtain ⟨into, ends⟩ := mem_edgesTo.mp enters
  have leaves : leaving ∈ flow.edgesFrom anchor := by simp [only]
  obtain ⟨onward, starts⟩ := mem_edgesFrom.mp leaves
  exact ⟨⟨gap.edge, into, rfl, ends⟩, .single ⟨leaving, onward, starts, goes.symm⟩⟩

/-- New branches come after their head, before the merge that the head leads to. -/
theorem passes_withBranches (reaches : Relation.TransGen flow.Leads head.id merge)
    (fresh : (flow.withBranches head merge names slots).FreshFor flow)
    (leads : (flow.withBranches head merge names slots).flow.Leads id child) :
    flow.Passes head.id (flow.withBranches head merge names slots).added id child := by
  obtain ⟨kept | ⟨slot, new, ⟨rfl, rfl⟩ | ⟨rfl, rfl⟩⟩, -, -⟩ := leads_withBranches.mp leads
  · exact kept.leads.passes fresh
  · obtain ⟨_, out, -⟩ := Relation.TransGen.head'_iff.mp reaches
    exact .into (out.mentions_source.notMem_added fresh) new .refl
  · exact .out new ((mentions_of_transGen reaches).notMem_added fresh) reaches

/-! ### The merge below a head -/

/-- A merge that the search finds from a start is reached from it, or is the start itself. -/
theorem reaches_searchMerge? (present : flow.searchMerge? limits id = some merge) :
    Relation.TransGen flow.Leads id merge ∨ merge = id ∧ flow.isMerge id = true := by
  obtain ⟨above, arrives, closes⟩ := closes_of_searchMerge? present
  rcases arrives.reaches.cases_head with rfl | ⟨next, leads, onward⟩
  · exact .inr ⟨rfl, closes.2⟩
  · exact .inl (.head' leads onward)

/-- A merge that a head names is a node, and is reached from the head. -/
theorem NamesAhead.reaches_remembered (ahead : flow.NamesAhead) (found : flow.node? id = some head)
    (opens : head.isHead = true) (own : flow.rememberedMerge? id = some merge) :
    merge ∈ flow.ids ∧ Relation.TransGen flow.Leads id merge := by
  rw [rememberedMerge?, found] at own
  rw [← id_of_node?_eq_some found]
  exact ahead head (mem_of_node?_eq_some found) opens merge (Option.filter_eq_some_iff.mp own).1

/-- A merge that is found from a head is reached from it, or the head is a join that names none. -/
theorem NamesAhead.reaches_merge? (ahead : flow.NamesAhead) (found : flow.node? id = some head)
    (opens : head.isHead = true) (present : flow.merge? limits id = some merge) :
    Relation.TransGen flow.Leads id merge ∨
      flow.isMerge id = true ∧ flow.rememberedMerge? id = none := by
  cases own : flow.rememberedMerge? id with
  | some named =>
    rw [merge?_of_remembered own, Option.some.injEq] at present
    exact .inl (present ▸ (ahead.reaches_remembered found opens own).2)
  | none =>
    rw [merge?_of_not_remembered own] at present
    exact (reaches_searchMerge? present).imp_right fun same => ⟨same.2, rfl⟩

/-- The merge with which a block is deleted is reached from its head, unless it is the head. -/
theorem NamesAhead.reaches_presentMerge? (ahead : flow.NamesAhead)
    (found : flow.node? id = some head) (opens : head.isHead = true)
    (present : flow.presentMerge? limits id = some merge) (apart : merge ≠ id) :
    Relation.TransGen flow.Leads id merge := by
  rw [presentMerge?] at present
  cases own : flow.rememberedMerge? id with
  | some named =>
    obtain ⟨known, reaches⟩ := ahead.reaches_remembered found opens own
    rw [merge?_of_remembered own] at present
    dsimp only at present
    rw [if_pos (has_iff_mem_ids.mpr known), Option.some.injEq] at present
    exact present ▸ reaches
  | none =>
    -- Whether the flow has the merge or not, it is what the search finds.
    have searched : flow.searchMerge? limits id = some merge := by
      rw [merge?_of_not_remembered own] at present
      cases search : flow.searchMerge? limits id with
      | none => simp [search] at present
      | some other => simpa [search] using present
    exact (reaches_searchMerge? searched).resolve_right fun same => apart same.1

end Flow

namespace Edit

variable {flow : Flow} {limits : Limits} {supply rest : Supply} {change : Change} {edit : Edit}
  {id : NodeId} {names : List String}

/-- Branches are added to a head that is a join itself and names no merge. -/
def ComesRound (edit : Edit) (flow : Flow) : Prop :=
  match edit with
  | setBranches id names => flow.isMerge id = true ∧ flow.rememberedMerge? id = none ∧
      (flow.branchEdges id).length < names.length
  | _ => False

instance (flow : Flow) : (edit : Edit) → Decidable (edit.ComesRound flow)
  | .setBranches .. => inferInstanceAs (Decidable (_ ∧ _))
  | .delete .. | .swap .. | .insert .. | .fill .. => isFalse fun round => round

theorem acyclic_delete (acyclic : flow.Acyclic) (ahead : flow.NamesAhead)
    (done : (delete id).run flow limits supply = .ok (change, rest))
    (fresh : change.FreshFor flow) : change.flow.Acyclic := by
  obtain ⟨node, found, ⟨-, rfl⟩ | ⟨-, opens, merge, present, apart, rfl⟩ | ⟨-, -, deletes⟩⟩ :=
    delete_cases done
  · exact acyclic
  · obtain rfl := Flow.id_of_node?_eq_some found
    exact acyclic.of_passes (Flow.passes_removeBlock
      (ahead.reaches_presentMerge? found opens present apart) fresh)
  · cases deletes with
    | join joins filled => exact acyclic
    | slot lone filled => exact acyclic
    | gone closes => exact acyclic.of_passes (Flow.passes_removeStep fresh)

theorem acyclic_fill {kind : String} {label : Option String} {params : Option Json.Members}
    {branches : Option (List String)} (acyclic : flow.Acyclic)
    (done : (fill id kind label params branches).run flow limits supply = .ok (change, rest))
    (fresh : change.FreshFor flow) : change.flow.Acyclic := by
  obtain ⟨slot, found, -, ⟨-, rfl⟩ | ⟨block, -, -, rfl⟩⟩ := fill_cases done
  · exact acyclic
  · obtain ⟨names, head, merge, slots, made, some', full⟩ :=
      NewStep.makeBlock_cases block label params branches supply
    rw [made] at fresh ⊢
    exact acyclic.of_passes (Flow.passes_fillWithBlock (NewStep.forms_block some' full) fresh)

theorem acyclic_insert {source target : NodeId} {kind : String} {label : Option String}
    {branches : Option (List String)} (acyclic : flow.Acyclic)
    (done : (insert source target kind label branches).run flow limits supply = .ok (change, rest))
    (fresh : change.FreshFor flow) : change.flow.Acyclic := by
  obtain ⟨edge, found, rfl⟩ := insert_cases done
  obtain ⟨new, made, plain⟩ | ⟨block, names, head, merge, slots, made, some', full⟩ :=
    NewStep.make_cases kind label none branches supply
  · rw [made] at fresh ⊢
    exact acyclic.of_passes (Flow.passes_splice found (NewStep.forms_plain plain) fresh)
  · rw [made] at fresh ⊢
    exact acyclic.of_passes (Flow.passes_splice found (NewStep.forms_block some' full) fresh)

/-- New branches of a head that is its own merge lead back to it. -/
theorem comesRound_of_acyclic
    (done : (setBranches id names).run flow limits supply = .ok (change, rest))
    (round : (setBranches id names).ComesRound flow) : ¬ change.flow.Acyclic := by
  obtain ⟨head, merge, found, branching, -, present, slots, drawn, rfl⟩ := setBranches_cases done
  obtain rfl := Flow.id_of_node?_eq_some found
  obtain ⟨joins, unnamed, more⟩ := round
  have opens : flow.isHead head.id = true := by
    rw [Flow.isHead_of_node? found, Node.isHead, Option.isSome_iff_exists]
    exact branching.elim (fun kind => ⟨_, kind⟩) fun kind => ⟨_, kind⟩
  -- The search stops at the head itself.
  rw [Flow.merge?_of_not_remembered unnamed] at present
  obtain rfl := (Flow.closes_of_joining opens joins).mp (Flow.closes_of_searchMerge? present)
  have spared : flow.surplusSlots head.id names = [] :=
    Flow.surplusSlots_eq_nil (Nat.le_of_lt more)
  obtain ⟨slot, new⟩ : ∃ slot, slot ∈ (flow.withBranches head head.id names slots).added :=
    Flow.exists_added_withBranches more (by simp [drawn])
  have into : (flow.withBranches head head.id names slots).flow.Leads head.id slot :=
    Flow.leads_withBranches.mpr
      ⟨.inr ⟨slot, new, .inl ⟨rfl, rfl⟩⟩, by simp [spared], by simp [spared]⟩
  have back : (flow.withBranches head head.id names slots).flow.Leads slot head.id :=
    Flow.leads_withBranches.mpr
      ⟨.inr ⟨slot, new, .inr ⟨rfl, rfl⟩⟩, by simp [spared], by simp [spared]⟩
  exact fun acyclic => acyclic head.id (.head into (.single back))

theorem acyclic_setBranches_iff (acyclic : flow.Acyclic) (ahead : flow.NamesAhead)
    (done : (setBranches id names).run flow limits supply = .ok (change, rest))
    (fresh : change.FreshFor flow) :
    change.flow.Acyclic ↔ ¬ (setBranches id names).ComesRound flow := by
  refine ⟨fun after round => comesRound_of_acyclic done round after, fun straight => ?_⟩
  obtain ⟨head, merge, found, branching, -, present, slots, -, rfl⟩ := setBranches_cases done
  obtain rfl := Flow.id_of_node?_eq_some found
  have opens : head.isHead = true := by
    rw [Node.isHead, Option.isSome_iff_exists]
    exact branching.elim (fun kind => ⟨_, kind⟩) fun kind => ⟨_, kind⟩
  rcases ahead.reaches_merge? found opens present with reaches | ⟨joins, unnamed⟩
  · exact acyclic.of_passes (Flow.passes_withBranches reaches fresh)
  · -- No branch is added, so the edges that are left were there before.
    have enough : names.length ≤ (flow.branchEdges head.id).length :=
      Nat.le_of_not_lt fun more => straight ⟨joins, unnamed, more⟩
    have passes : ∀ {id child}, (flow.withBranches head merge names slots).flow.Leads id child →
        flow.Passes head.id (flow.withBranches head merge names slots).added id child := by
      intro id child leads
      obtain ⟨kept | ⟨slot, new, -⟩, -, -⟩ := Flow.leads_withBranches.mp leads
      · exact kept.leads.passes fresh
      · rw [Flow.added_withBranches_eq_nil enough] at new
        cases new
    exact acyclic.of_passes passes

/-- An edit of an acyclic flow, in which the merges that heads name are reached from them, leaves it
acyclic, unless it comes round: it adds branches to a head that is a join itself, and names no
merge. -/
theorem acyclic_iff (acyclic : flow.Acyclic) (ahead : flow.NamesAhead)
    (done : edit.run flow limits supply = .ok (change, rest)) (fresh : change.FreshFor flow) :
    change.flow.Acyclic ↔ ¬ edit.ComesRound flow := by
  cases edit with
  | delete id => exact iff_of_true (acyclic_delete acyclic ahead done fresh) fun round => round
  | swap id kind label params =>
    obtain ⟨node, -, -, rfl⟩ := swap_cases done
    exact iff_of_true acyclic fun round => round
  | insert source target kind label branches =>
    exact iff_of_true (acyclic_insert acyclic done fresh) fun round => round
  | fill id kind label params branches =>
    exact iff_of_true (acyclic_fill acyclic done fresh) fun round => round
  | setBranches id names => exact acyclic_setBranches_iff acyclic ahead done fresh

/-- The head of a block that names its merge. -/
def knotFork : Node :=
  { id := "fork", kind := some "parallel", content := { mergeNodeId := some "join" } }

/-- A head that is a join itself and names no merge. -/
def knotTurn : Node :=
  { id := "turn", kind := some "parallel", content := { isMergeNode := true } }

/-- A block, and a head behind it that is its own merge. -/
def knot : Flow where
  nodes := [knotFork, { id := "step", kind := some "action" }, .mergePlaceholder "join", knotTurn,
    { id := "end", kind := some "end" }]
  edges := [.connect "fork" "step" (some "A"), .connect "step" "join" none,
    .connect "join" "turn" none, .connect "turn" "end" (some "A")]

/-- A branch is added to the block. -/
def knotForked : Change := knot.withBranches knotFork "join" ["A", "B"] ["000000000001"]

/-- A branch is added to the head that is its own merge. -/
def knotTurned : Change := knot.withBranches knotTurn "turn" ["A", "B"] ["000000000001"]

theorem acyclic_knot : knot.Acyclic :=
  Flow.acyclic_of_order ["fork", "step", "join", "turn", "end"] (by decide)

theorem namesAhead_knot : knot.NamesAhead := by
  have names : ∀ node ∈ knot.nodes, ∀ merge, node.content.mergeNodeId = some merge →
      node.id = "fork" ∧ merge = "join" := by
    decide
  intro node member _ merge named
  obtain ⟨fork, rfl⟩ := names node member merge named
  have into : knot.Leads "fork" "step" := ⟨_, List.mem_cons_self, rfl, rfl⟩
  have onward : knot.Leads "step" "join" :=
    ⟨_, List.mem_cons_of_mem _ List.mem_cons_self, rfl, rfl⟩
  exact ⟨by decide, fork ▸ .head into (.single onward)⟩

/-- A branch more for the block makes no cycle. -/
theorem acyclic_iff_knot : knotForked.flow.Acyclic := by
  have done : (setBranches "fork" ["A", "B"]).run knot {} .numbered =
      .ok (knotForked, Supply.numbered.skip 1) := rfl
  have fresh : knotForked.FreshFor knot := ⟨by decide, by decide⟩
  exact (acyclic_iff acyclic_knot namesAhead_knot done fresh).mpr (by decide)

/-- A branch more for the head that is its own merge leads back to it. -/
theorem not_acyclic_knot :
    knot.Acyclic ∧ knot.NamesAhead ∧
      (setBranches "turn" ["A", "B"]).run knot {} .numbered =
        .ok (knotTurned, Supply.numbered.skip 1) ∧
      knotTurned.FreshFor knot ∧ ¬ knotTurned.flow.Acyclic := by
  have into : knotTurned.flow.Leads "turn" "000000000001" :=
    ⟨.connect "turn" "000000000001" (some "B"), by decide, rfl, rfl⟩
  have back : knotTurned.flow.Leads "000000000001" "turn" :=
    ⟨.connect "000000000001" "turn" none, by decide, rfl, rfl⟩
  exact ⟨acyclic_knot, namesAhead_knot, rfl, ⟨by decide, by decide⟩,
    fun acyclic => acyclic "turn" (.head into (.single back))⟩

end Edit

end Workflow
