import Workflow.Proofs.Editing.Outcome
import Workflow.Proofs.Editing.Retouching

/-!
# Branches that bear their names

After the branches of a head were made to fit a list of names, they bear these names in order: on
their edges, among the settings of the head, and on the slots on which they start. Then there is
nothing left to do, and to ask for the same names again changes nothing.

## Main definitions

* `Flow.Bears` — the branches of a head bear the names in a list

## Main results

* `branchEdges_withBranches` — the edges on which branches start after they were named
* `bears_withBranches` — the branches bear the names that they were given
* `Bears.withBranches_eq` — naming branches as they are named is no change
* `Edit.setBranches_fits` — what it comes to to name branches once, and twice
-/

namespace Workflow

namespace Json.Members

/-- Writing a member twice is writing it once. -/
theorem set_set (members : Members) (key : String) (value : Json) :
    (members.set key value).set key value = members.set key value := by
  have written : (members.set key value).has key = true := by
    rw [has, get?_set_self]
    rfl
  rw [set, if_pos written]
  refine (List.map_congr_left fun member inside => ?_).trans (List.map_id' _)
  split
  · rename_i named
    rw [set] at inside
    split at inside
    · obtain ⟨before, -, rfl⟩ := List.mem_map.mp inside
      by_cases here : before.1 = key
      · rw [if_pos here]
      · rw [if_neg here] at named
        exact absurd named here
    · rename_i missing
      rcases List.mem_append.mp inside with old | new
      · refine absurd ?_ missing
        rw [has, get?, Option.isSome_map, List.find?_isSome]
        exact ⟨member, old, decide_eq_true named⟩
      · exact (List.mem_singleton.mp new).symm
  · rfl

end Json.Members

/-- The edge under another name. -/
def Edge.named (name : String) (edge : Edge) : Edge := { edge with branch := some name }

/-- A slot on which a branch starts, with the name of the branch on it. Another node stays as it
is. -/
def Node.label (name : String) (node : Node) : Node :=
  if node.content.isBranchPlaceholder then node.mapContent (Content.withSubLabel name) else node

/-- A slot gets the name that is written on it. -/
theorem Node.subLabel_label {name : String} {node : Node}
    (isSlot : (node.label name).content.isBranchPlaceholder = true) :
    (node.label name).content.subLabel = some name := by
  rw [label] at isSlot ⊢
  split at isSlot
  · rename_i waits
    rw [if_pos waits]
    rfl
  · rename_i filled
    exact absurd isSlot filled

namespace Flow

/-- The branches of a head bear the names in a list: their edges in order, the head in its settings,
and the slots on which branches start. -/
structure Bears (flow : Flow) (head : Node) (names : List String) : Prop where
  edges : (flow.branchEdges head.id).map (·.branch) = names.map some
  listed : head.content.withBranches names = head.content
  slots : ∀ edge ∈ flow.branchEdges head.id, ∀ slot, flow.branchSlot? edge = some slot →
    slot.content.subLabel = edge.branch

variable {flow base : Flow} {head node slot : Node} {merge id : NodeId} {edge : Edge} {name : String}
  {names : List String} {edges : List Edge} {slots : List NodeId} {arms : List (String × Edge)}

/-! ### Names on edges -/

/-- An edge that is given a name is one of the first. -/
theorem mem_take_of_mem_zip {arm : String × Edge} (member : arm ∈ names.zip edges) :
    arm.2 ∈ edges.take names.length := by
  rw [List.zip_eq_zip_take_min] at member
  exact List.take_subset_take_left _ (Nat.min_le_left _ _) (List.of_mem_zip member).2

/-- The edges on which branches start bear the names in order, as far as there are names. -/
theorem filter_renameBranches (free : Branch.loopBypass ∉ names) :
    (renameBranches head.id names edges).filter (startsBranch head.id) =
      (names.zip (edges.filter (startsBranch head.id))).map fun arm => arm.2.named arm.1 := by
  fun_induction renameBranches head.id names edges with
  | case1 => simp
  | case2 edge rest starts ih => simpa using ih
  | case3 edge rest starts name names ih =>
    have other : name ≠ Branch.loopBypass := fun same => free (same ▸ List.mem_cons_self)
    have freeToo : Branch.loopBypass ∉ names := fun taken => free (List.mem_cons_of_mem _ taken)
    have source : edge.source = head.id := (of_decide_eq_true starts).1
    have starts' : startsBranch head.id { edge with branch := some name } = true :=
      decide_eq_true ⟨source, fun same => other (Option.some.inj same)⟩
    rw [List.filter_cons_of_pos starts, List.filter_cons_of_pos starts', ih freeToo]
    rfl
  | case4 names edge rest starts ih =>
    rw [List.filter_cons_of_neg starts, List.filter_cons_of_neg starts, ih free]

/-- The head leads to each slot in the order of the names. -/
theorem filter_newBranches (free : Branch.loopBypass ∉ names) (apart : head.id ∉ slots) :
    (newBranches head.id merge names slots).edges.filter (startsBranch head.id) =
      (names.zip slots).map fun arm => .connect head.id arm.2 (some arm.1) := by
  rw [newBranches, List.filter_flatMap, List.map_eq_flatMap]
  refine List.flatMap_congr fun arm member => ?_
  obtain ⟨named, new⟩ := List.of_mem_zip member
  have first : startsBranch head.id (.connect head.id arm.2 (some arm.1)) = true :=
    decide_eq_true ⟨rfl, fun same => free (Option.some.inj same ▸ named)⟩
  have second : startsBranch head.id (.connect arm.2 merge none) = false :=
    decide_eq_false fun starts => apart (starts.1 ▸ new)
  rw [List.filter_cons_of_pos first, List.filter_cons_of_neg (by simp [second]), List.filter_nil]

/-- With a slot for each name that is left, these are the slots that are put in. -/
theorem added_withBranches_eq
    (full : slots.length = names.length - (flow.branchEdges head.id).length) :
    (flow.withBranches head merge names slots).added = slots := by
  have enough : slots.length ≤ (names.drop (flow.branchEdges head.id).length).length := by
    simp [full]
  simp [withBranches, newBranches, Node.branchPlaceholder, Function.comp_def,
    List.map_snd_zip enough]

/-- The edges on which branches start after they were named: those that stay, each under its name,
and those to new slots. No edge that stays is at a slot that is cut off. -/
theorem branchEdges_withBranches (free : Branch.loopBypass ∉ names)
    (found : flow.node? head.id = some head)
    (fresh : (flow.withBranches head merge names slots).FreshFor flow)
    (full : slots.length = names.length - (flow.branchEdges head.id).length)
    (stays : head.id ∉ flow.surplusSlots head.id names)
    (clear : ∀ edge ∈ (flow.branchEdges head.id).take names.length,
      edge.target ∉ flow.surplusSlots head.id names) :
    (flow.withBranches head merge names slots).flow.branchEdges head.id =
      ((names.zip (flow.branchEdges head.id)).map fun arm => arm.2.named arm.1) ++
        ((names.drop (flow.branchEdges head.id).length).zip slots).map fun arm =>
          .connect head.id arm.2 (some arm.1) := by
  have unused : ∀ slot ∈ slots, slot ∉ flow.ids := fun slot new old =>
    fresh.unused slot (by rwa [added_withBranches_eq full]) (.inl old)
  have apart : head.id ∉ slots := fun new => unused _ new (mem_ids_of_node? found)
  have freeToo : Branch.loopBypass ∉ names.drop (flow.branchEdges head.id).length :=
    fun taken => free (List.mem_of_mem_drop taken)
  have edges : (flow.withBranches head merge names slots).flow.edges =
      (renameBranches head.id names flow.edges ++ (newBranches head.id merge
        (names.drop (flow.branchEdges head.id).length) slots).edges).filter fun edge =>
          edge.source ∉ flow.surplusSlots head.id names ∧
            edge.target ∉ flow.surplusSlots head.id names := rfl
  rw [branchEdges, edges, List.filter_comm, List.filter_append, filter_renameBranches free,
    filter_newBranches freeToo apart, ← branchEdges]
  refine List.filter_eq_self.mpr fun edge member => decide_eq_true ?_
  rcases List.mem_append.mp member with old | new
  · obtain ⟨arm, inside, rfl⟩ := List.mem_map.mp old
    have kept := mem_take_of_mem_zip inside
    have source : arm.2.source = head.id :=
      (source_of_mem_branchEdges (List.mem_of_mem_take kept)).2
    exact ⟨source ▸ stays, clear arm.2 kept⟩
  · obtain ⟨arm, inside, rfl⟩ := List.mem_map.mp new
    have slot := (List.of_mem_zip inside).2
    refine ⟨stays, fun cut => ?_⟩
    obtain ⟨-, node, there, -⟩ := mem_surplusSlots.mp cut
    exact unused arm.2 slot (mem_ids_of_node? there)

/-- With a name for each branch, and a branch for each name, the edges are only renamed. -/
theorem branchEdges_withBranches_of_length (free : Branch.loopBypass ∉ names)
    (found : flow.node? head.id = some head)
    (full : (flow.branchEdges head.id).length = names.length) :
    (flow.withBranches head merge names slots).flow.branchEdges head.id =
      (names.zip (flow.branchEdges head.id)).map fun arm => arm.2.named arm.1 := by
  have same : flow.withBranches head merge names slots = flow.withBranches head merge names [] := by
    rw [withBranches, withBranches, full, List.drop_length]
    rfl
  have none : flow.surplusSlots head.id names = [] := surplusSlots_eq_nil (Nat.le_of_eq full)
  have added : (flow.withBranches head merge names []).added = [] :=
    added_withBranches_eq_nil (Nat.le_of_eq full.symm)
  have fresh : (flow.withBranches head merge names []).FreshFor flow := by
    constructor <;> simp [added]
  rw [same, branchEdges_withBranches free found fresh (by simp [full]) (by simp [none])
    (by simp [none]), List.zip_nil_right, List.map_nil, List.append_nil]

/-! ### Names on slots -/

/-- Away from where the edge of a branch ends no name is written. -/
theorem node?_relabelSlot_of_ne (apart : id ≠ edge.target) :
    (flow.relabelSlot base name edge).node? id = base.node? id := by
  rw [relabelSlot]
  split
  · rename_i slot starts
    have target := id_of_node?_eq_some (Option.filter_eq_some_iff.mp starts).1
    split
    · rfl
    · have off : id ≠ (slot.mapContent (Content.withSubLabel name)).id := target.symm ▸ apart
      exact node?_withNode_of_ne off
  · rfl

/-- Where the edge of a branch ends the name of the branch is written. -/
theorem node?_relabelSlot (there : base.node? edge.target = flow.node? edge.target) :
    (flow.relabelSlot base name edge).node? edge.target =
      (flow.node? edge.target).map (Node.label name) := by
  rw [relabelSlot, branchSlot?]
  cases found : flow.node? edge.target with
  | none => exact there.trans found
  | some node =>
    rw [found] at there
    have target := id_of_node?_eq_some found
    cases isSlot : node.content.isBranchPlaceholder with
    | false => simp [Node.label, Option.filter, isSlot, there]
    | true =>
      simp only [Option.filter_some, isSlot, if_true, Option.map_some, Node.label]
      split
      · rename_i written
        rw [there, Node.mapContent, Content.withSubLabel, ← written]
      · exact (@node?_withNode base (node.mapContent (Content.withSubLabel name)) node
          (target ▸ there) _).trans (if_pos target.symm)

/-- Away from where the edges of branches end no name is written. -/
theorem node?_foldl_relabelSlot_of_ne (away : ∀ arm ∈ arms, id ≠ arm.2.target) :
    (arms.foldl (fun relabelled arm => flow.relabelSlot relabelled arm.1 arm.2) base).node? id =
      base.node? id :=
  List.foldlRecOn (motive := fun relabelled : Flow => relabelled.node? id = base.node? id) arms _
    rfl fun _ same arm member => (node?_relabelSlot_of_ne (away arm member)).trans same

/-- Where the edges of branches end at different nodes, the name of each branch is written. -/
theorem node?_foldl_relabelSlot (distinct : (arms.map (·.2.target)).Nodup)
    (there : ∀ arm ∈ arms, base.node? arm.2.target = flow.node? arm.2.target)
    {arm : String × Edge} (member : arm ∈ arms) :
    (arms.foldl (fun relabelled arm => flow.relabelSlot relabelled arm.1 arm.2) base).node?
      arm.2.target = (flow.node? arm.2.target).map (Node.label arm.1) := by
  induction arms generalizing base with
  | nil => cases member
  | cons first rest ih =>
    obtain ⟨new, distinct⟩ := List.nodup_cons.mp distinct
    have apart : ∀ arm ∈ rest, first.2.target ≠ arm.2.target := fun arm later same =>
      new (List.mem_map.mpr ⟨arm, later, same.symm⟩)
    rcases List.mem_cons.mp member with rfl | later
    · exact (node?_foldl_relabelSlot_of_ne apart).trans
        (node?_relabelSlot (there arm List.mem_cons_self))
    · refine ih distinct (fun arm later => ?_) later
      exact (node?_relabelSlot_of_ne (apart arm later).symm).trans
        (there arm (List.mem_cons_of_mem _ later))

/-- What is found after branches were named, away from the head and from slots that came or went:
what was found before, with names on the slots. -/
theorem node?_withBranches (apart : id ≠ head.id) (stays : id ∉ flow.surplusSlots head.id names)
    (old : id ∉ (flow.withBranches head merge names slots).added) :
    (flow.withBranches head merge names slots).flow.node? id =
      ((flow.relabelSlots head.id names).node? id).map
        (Node.settle (fun merge => merge) (flow.withBranches head merge names slots).flow.ids) := by
  have off : id ≠ (head.mapContent (Content.withBranches names)).id := apart
  rw [withBranches] at old ⊢
  dsimp only at old ⊢
  rw [node?_settle, ids_settle, node?_withNode_of_ne off, node?_without stays,
    node?_append_of_notMem old]
  rfl

/-! ### Branches under their names -/

section Named

variable (loose : head.id ∉ flow.children head.id) (simple : (flow.children head.id).Nodup)

include loose in
/-- A head that does not lead to itself is no slot that is cut off. -/
theorem head_notMem_surplusSlots : head.id ∉ flow.surplusSlots head.id names := by
  intro cut
  obtain ⟨edge, known, source, target⟩ := (drops_of_mem_surplusSlots cut).leads
  exact loose (mem_children.mpr ⟨edge, known, source, target⟩)

include simple in
theorem nodup_targets_branchEdges : ((flow.branchEdges head.id).map (·.target)).Nodup := by
  have fewer : (flow.branchEdges head.id).Sublist (flow.edgesFrom head.id) :=
    List.monotone_filter_right _ fun edge starts => by
      have source := (of_decide_eq_true starts).1
      exact decide_eq_true source
  exact simple.sublist (fewer.map _)

include simple in
/-- Where a head leads to each node once, a branch that stays starts on no slot that is cut off. -/
theorem target_notMem_surplusSlots (kept : edge ∈ (flow.branchEdges head.id).take names.length) :
    edge.target ∉ flow.surplusSlots head.id names := by
  intro cut
  obtain ⟨other, beyond, same⟩ := drops_of_mem_surplusSlots cut
  have apart := List.disjoint_take_drop (nodup_targets_branchEdges simple) (Nat.le_refl names.length)
  rw [← List.map_take, ← List.map_drop] at apart
  exact apart (List.mem_map_of_mem kept) (same ▸ List.mem_map_of_mem beyond)

include simple in
/-- The names are written on the slots on which the branches start. -/
theorem node?_relabelSlots {arm : String × Edge}
    (member : arm ∈ names.zip (flow.branchEdges head.id)) :
    (flow.relabelSlots head.id names).node? arm.2.target =
      (flow.node? arm.2.target).map (Node.label arm.1) := by
  refine node?_foldl_relabelSlot ?_ (fun _ _ => rfl) member
  have fewer : ((names.zip (flow.branchEdges head.id)).map Prod.snd).Sublist
      (flow.branchEdges head.id) := by
    rw [List.zip_eq_zip_take_min, List.map_snd_zip (by simp)]
    exact List.take_sublist _ _
  have targets := (nodup_targets_branchEdges simple).sublist (fewer.map _)
  rwa [List.map_map] at targets

variable (found : flow.node? head.id = some head)
  (fresh : (flow.withBranches head merge names slots).FreshFor flow)
  (full : slots.length = names.length - (flow.branchEdges head.id).length)
  (free : Branch.loopBypass ∉ names)
include loose simple found fresh full free

/-- The edges on which branches start bear the names in order. -/
theorem map_branch_withBranches :
    ((flow.withBranches head merge names slots).flow.branchEdges head.id).map (·.branch) =
      names.map some := by
  rw [branchEdges_withBranches free found fresh full (head_notMem_surplusSlots loose)
    fun edge kept => target_notMem_surplusSlots simple kept, List.map_append, List.map_map,
    List.map_map]
  -- The names of the edges that stay come first, those of the new edges after them.
  have old : (names.zip (flow.branchEdges head.id)).map Prod.fst =
      names.take (flow.branchEdges head.id).length := by
    rw [List.zip_eq_zip_take_min, List.map_fst_zip (by simp)]
    rcases Nat.le_total names.length (flow.branchEdges head.id).length with few | more
    · rw [Nat.min_eq_left few, List.take_length, List.take_of_length_le few]
    · rw [Nat.min_eq_right more]
  have new : ((names.drop (flow.branchEdges head.id).length).zip slots).map Prod.fst =
      names.drop (flow.branchEdges head.id).length :=
    List.map_fst_zip (by simp [full])
  calc ((names.zip (flow.branchEdges head.id)).map fun arm => some arm.1) ++
        ((names.drop (flow.branchEdges head.id).length).zip slots).map fun arm => some arm.1
    _ = ((names.zip (flow.branchEdges head.id)).map Prod.fst ++
        ((names.drop (flow.branchEdges head.id).length).zip slots).map Prod.fst).map some := by
      rw [List.map_append, List.map_map, List.map_map]
      rfl
    _ = names.map some := by rw [old, new, List.take_append_drop]

omit found full free in
/-- A branch that stays starts where it started, with its name there if that is a slot. -/
theorem node?_target_withBranches {arm : String × Edge}
    (member : arm ∈ names.zip (flow.branchEdges head.id)) :
    (flow.withBranches head merge names slots).flow.node? arm.2.target =
      ((flow.node? arm.2.target).map (Node.label arm.1)).map
        (Node.settle (fun merge => merge) (flow.withBranches head merge names slots).flow.ids) := by
  obtain ⟨known, source⟩ := source_of_mem_branchEdges (List.of_mem_zip member).2
  have apart : arm.2.target ≠ head.id := fun same =>
    loose (mem_children.mpr ⟨arm.2, known, source, same⟩)
  have old : arm.2.target ∉ (flow.withBranches head merge names slots).added := fun new =>
    fresh.unused _ new (.inr ⟨arm.2, known, .inr rfl⟩)
  rw [node?_withBranches apart (target_notMem_surplusSlots simple (mem_take_of_mem_zip member)) old,
    node?_relabelSlots simple member]

/-- The slot on which a branch starts bears the name on its edge. -/
theorem subLabel_withBranches
    (starts : edge ∈ (flow.withBranches head merge names slots).flow.branchEdges head.id)
    (there : (flow.withBranches head merge names slots).flow.branchSlot? edge = some slot) :
    slot.content.subLabel = edge.branch := by
  rw [branchEdges_withBranches free found fresh full (head_notMem_surplusSlots loose)
    fun edge kept => target_notMem_surplusSlots simple kept] at starts
  obtain ⟨last, isSlot⟩ := Option.filter_eq_some_iff.mp there
  rcases List.mem_append.mp starts with old | new
  · obtain ⟨arm, member, rfl⟩ := List.mem_map.mp old
    have settled := (node?_target_withBranches loose simple fresh member).symm.trans last
    obtain ⟨labelled, written, rfl⟩ := Option.map_eq_some_iff.mp settled
    obtain ⟨node, -, rfl⟩ := Option.map_eq_some_iff.mp written
    exact Node.subLabel_label isSlot
  · -- A new slot comes with its name.
    obtain ⟨arm, member, rfl⟩ := List.mem_map.mp new
    obtain ⟨touch, -, retouches⟩ := exists_retouches_withBranches found fresh
    have put := retouches.node?_new fresh (List.mem_map_of_mem member)
    obtain rfl := Option.some.inj (put.symm.trans last)
    rfl

/-- The branches bear the names that they were given. -/
theorem bears_withBranches (alive : List NodeId) :
    (flow.withBranches head merge names slots).flow.Bears
      ((head.mapContent (Content.withBranches names)).settle (fun merge => merge) alive) names where
  edges := map_branch_withBranches loose simple found fresh full free
  listed := by
    simp [Node.settle, Node.mapContent, Content.withBranches, Content.withMerge,
      Json.Members.set_set]
  slots _ starts _ there := subLabel_withBranches loose simple found fresh full free starts there

end Named

/-! ### Nothing left to do -/

theorem withNode_eq_self (distinct : flow.ids.Nodup) (found : flow.node? node.id = some node) :
    flow.withNode node = flow := by
  have same : ∀ other ∈ flow.nodes, (if other.id = node.id then node else other) = other := by
    intro other member
    split
    · rename_i here
      have own := node?_eq_some_of_mem distinct member
      rw [here, found] at own
      exact Option.some.inj own
    · rfl
  rw [withNode, List.map_congr_left same, List.map_id']

/-- Edges that bear the names already are kept as they are. -/
theorem renameBranches_eq_self {head : NodeId}
    (borne : (edges.filter (startsBranch head)).map (·.branch) = names.map some) :
    renameBranches head names edges = edges := by
  fun_induction renameBranches head names edges with
  | case1 => rfl
  | case2 edge rest starts ih => simp [starts] at borne
  | case3 edge rest starts name names ih =>
    rw [List.filter_cons_of_pos starts, List.map_cons, List.map_cons, List.cons.injEq] at borne
    rw [ih borne.2, ← borne.1]
  | case4 names edge rest starts ih =>
    rw [List.filter_cons_of_neg starts] at borne
    rw [ih borne]

namespace Bears

variable (bears : flow.Bears head names)
include bears

theorem length_branchEdges : (flow.branchEdges head.id).length = names.length := by
  simpa using congrArg List.length bears.edges

/-- Each name is on the edge in its place. -/
theorem branch_eq {arm : String × Edge} (member : arm ∈ names.zip (flow.branchEdges head.id)) :
    arm.2.branch = some arm.1 := by
  have both : (some arm.1, arm.2.branch) ∈
      (names.map some).zip ((flow.branchEdges head.id).map (·.branch)) := by
    rw [List.zip_map]
    exact List.mem_map_of_mem (f := Prod.map some (·.branch)) member
  rw [bears.edges] at both
  have same : List.Forall₂ Eq (names.map some) (names.map some) := List.forall₂_refl _
  exact (List.forall₂_zip same both).symm

/-- Slots that bear the names already are kept as they are. -/
theorem relabelSlots_eq : flow.relabelSlots head.id names = flow := by
  rw [relabelSlots]
  refine List.foldlRecOn (motive := fun relabelled : Flow => relabelled = flow) _ _ rfl ?_
  intro relabelled same arm member
  change flow.relabelSlot relabelled arm.1 arm.2 = flow
  rw [same, relabelSlot]
  split
  · rename_i slot starts
    have written := bears.slots arm.2 (List.of_mem_zip member).2 slot starts
    exact if_pos (written.trans (bears.branch_eq member))
  · rfl

/-- Branches that bear the names already are kept as they are. -/
theorem withBranches_eq (distinct : flow.ids.Nodup) (found : flow.node? head.id = some head)
    (present : flow.NamesPresent) :
    flow.withBranches head merge names slots = ⟨flow, [], []⟩ := by
  have same : head.mapContent (Content.withBranches names) = head := by
    rw [Node.mapContent, bears.listed]
  have fresh : newBranches head.id merge (names.drop (flow.branchEdges head.id).length) slots =
      {} := by
    rw [bears.length_branchEdges, List.drop_length]
    rfl
  have surplus : flow.surplusSlots head.id names = [] :=
    surplusSlots_eq_nil (Nat.le_of_eq bears.length_branchEdges)
  have still : (flow.append {}).without [] = flow := by
    simp [append, without]
  rw [withBranches, surplus, fresh, same, bears.relabelSlots_eq,
    renameBranches_eq_self bears.edges]
  dsimp only
  rw [still, withNode_eq_self distinct found]
  congr 1
  · exact present.settle_eq_self
  · simp [idsIn]

omit bears in
/-- In a session nothing comes of naming branches as they are named, whether it is refused or not. -/
theorem perform_setBranches {session : Session} (bears : session.flow.Bears head names)
    (distinct : session.flow.ids.Nodup) (found : session.flow.node? head.id = some head)
    (present : session.flow.NamesPresent) :
    (session.perform (.setBranches head.id names)).2.flow = session.flow ∧
      ∀ again, (session.perform (.setBranches head.id names)).1 = .ok again →
        again = ⟨session.flow, [], []⟩ := by
  cases done : (Edit.setBranches head.id names).run session.flow session.limits session.supply with
  | error refusal =>
    rw [Session.perform_of_error done]
    exact ⟨rfl, fun again same => nomatch same⟩
  | ok made =>
    obtain ⟨again, left⟩ := made
    obtain ⟨first, merge, foundFirst, -, -, -, slots, -, rfl⟩ := Edit.setBranches_cases done
    obtain rfl := Option.some.inj (found.symm.trans foundFirst)
    have still := @withBranches_eq session.flow head merge names slots bears distinct found present
    rw [Session.perform_of_ok done]
    exact ⟨congrArg Change.flow still, fun again same => (Except.ok.inj same).symm.trans still⟩

end Bears

end Flow

namespace Edit

variable {flow : Flow} {limits : Limits} {supply rest : Supply} {change : Change} {id : NodeId}
  {names : List String}

/-- Branches are set for a head that does not lead to itself, nor to one node twice, and no name is
that of the edge around a body. Then the edges on which branches start bear the names in order, the
head has the names in its settings beside the other settings, and each slot on which a branch starts
bears the name on its edge. Setting the same names again, under any limits, leaves the flow as it
is: if it is not refused, it is no change. -/
theorem setBranches_fits (distinct : flow.ids.Nodup) (loose : id ∉ flow.children id)
    (simple : (flow.children id).Nodup) (free : Branch.loopBypass ∉ names)
    (done : (setBranches id names).run flow limits supply = .ok (change, rest))
    (fresh : change.FreshFor flow) :
    (change.flow.branchEdges id).map (·.branch) = names.map some ∧
    (∃ head after members, flow.node? id = some head ∧ change.flow.node? id = some after ∧
      after.content.params = some members ∧ members.get? "branches" = some (.ofTexts names) ∧
      ∀ key, key ≠ "branches" → members.get? key = (head.content.params.getD []).get? key) ∧
    (∀ edge ∈ change.flow.branchEdges id, ∀ slot, change.flow.branchSlot? edge = some slot →
      slot.content.subLabel = edge.branch) ∧
    ∀ session : Session, session.flow = change.flow →
      (session.perform (.setBranches id names)).2.flow = change.flow ∧
      ∀ again, (session.perform (.setBranches id names)).1 = .ok again →
        again = ⟨change.flow, [], []⟩ := by
  obtain ⟨head, merge, found, -, -, -, slots, drawn, rfl⟩ := setBranches_cases done
  obtain rfl := Flow.id_of_node?_eq_some found
  have full : slots.length = names.length - (flow.branchEdges head.id).length := by
    rw [drawn, List.length_map, List.length_range]
  obtain ⟨touch, -, retouches⟩ := Flow.exists_retouches_withBranches found fresh
  have stays : head.id ∉ (flow.withBranches head merge names slots).removed := fun cut =>
    Flow.head_notMem_surplusSlots loose (Flow.mem_removed_withBranches.mp cut)
  have after := retouches.node?_eq found stays
  rw [if_pos rfl] at after
  have bears := Flow.bears_withBranches loose simple found fresh full free
    (flow.withBranches head merge names slots).flow.ids
  refine ⟨bears.edges, ⟨head, _, _, found, after, rfl, Json.Members.get?_set_self _ _ _,
    fun key other => Json.Members.get?_set_of_ne _ _ other⟩, bears.slots, ?_⟩
  rintro ⟨_, left, caps⟩ rfl
  have still := @Flow.Bears.perform_setBranches _ names ⟨_, left, caps⟩ bears
    (retouches.nodup distinct fresh) after
    fun node member merge names => retouches.named_mem_ids member names
  exact still

/-- A parallel step with a slot on its first branch and a step on its second. -/
def rack : Flow where
  nodes := [
    { id := "fork", kind := some "parallel",
      content :=
        { params := some [("branches", Json.ofTexts ["A", "B"]), ("mode", Json.str "all")] } },
    .branchPlaceholder "slot" "A", { id := "step", kind := some "action" },
    .mergePlaceholder "join", { id := "end", kind := some "end" }]
  edges := [.connect "fork" "slot" (some "A"), .connect "slot" "join" none,
    .connect "fork" "step" (some "B"), .connect "step" "join" none, .connect "join" "end" none]

/-- The branches are renamed and a third one is put in, and the names are set once more. -/
theorem setBranches_fits_rack : ∃ change,
    (setBranches "fork" ["B", "C", "D"]).run rack {} .numbered =
      .ok (change, Supply.numbered.skip 1) ∧
    (change.flow.branchEdges "fork").map (·.branch) = [some "B", some "C", some "D"] ∧
    (∃ after members, change.flow.node? "fork" = some after ∧
      after.content.params = some members ∧ members.get? "mode" = some (.str "all")) ∧
    (∀ slot, change.flow.branchSlot? (.connect "fork" "slot" (some "B")) = some slot →
      slot.content.subLabel = some "B") ∧
    (Session.perform ⟨change.flow, Supply.numbered.skip 1, {}⟩
      (.setBranches "fork" ["B", "C", "D"])).2.flow = change.flow := by
  obtain ⟨change, done⟩ : ∃ change, (setBranches "fork" ["B", "C", "D"]).run rack {} .numbered =
      .ok (change, Supply.numbered.skip 1) := ⟨_, rfl⟩
  have fresh : change.FreshFor rack := by
    cases done
    decide +kernel
  have starts : .connect "fork" "slot" (some "B") ∈ change.flow.branchEdges "fork" := by
    cases done
    decide +kernel
  obtain ⟨named, ⟨head, after, members, found, later, listed, -, kept⟩, slots, again⟩ :=
    setBranches_fits (by decide) (by decide +kernel) (by decide +kernel) (by decide) done fresh
  obtain rfl := Option.some.inj ((show rack.node? "fork" = some _ from rfl).symm.trans found)
  exact ⟨change, done, named, ⟨after, members, later, listed, (kept "mode" (by decide)).trans rfl⟩,
    slots _ starts, (again _ rfl).1⟩

end Edit

end Workflow
