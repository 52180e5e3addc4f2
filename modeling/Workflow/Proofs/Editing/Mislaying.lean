import Workflow.Proofs.Editing.Remaking
import Workflow.Proofs.Editing.Session

/-!
# Steps in the slots of branches

When the branches of a head are made fewer, a slot that is cut off is removed, and a step that was
put there is only disconnected. The two are told apart by the flag of the slot alone. Filling a slot
takes the flag away, but swapping does not: a step that came into a slot by a swap is still flagged
as the slot of its branch, and is lost with it, however many edits later.

## Main definitions

* `Flow.Occupied` — a node is flagged as the slot of a branch, and does not wait for a step
* `Session.Mislays` — in a session, a step came into the slot of a branch by a swap, and was not
  deleted since

## Main results

* `Session.occupied_performAll_iff` — the occupied slots after a session
* `Session.mem_removed_setBranches_iff` — the steps that are lost when branches are set
-/

namespace Workflow

/-- A node is flagged as the slot of a branch, and does not wait for a step. -/
def Flow.Occupied (flow : Flow) (id : NodeId) : Prop :=
  ∃ node, flow.node? id = some node ∧ ¬ node.SlotWaits

namespace Edit

/-- An edit swaps what is in the slot of a branch. -/
def SwapsSlot (edit : Edit) (flow : Flow) (id : NodeId) : Prop :=
  match edit with
  | swap slot .. => slot = id ∧ (flow.node? id).any (·.content.isBranchPlaceholder) = true
  | delete _ | insert .. | fill .. | setBranches .. => False

instance (edit : Edit) (flow : Flow) (id : NodeId) : Decidable (edit.SwapsSlot flow id) := by
  unfold SwapsSlot
  split <;> infer_instance

/-- An edit that came to a change puts a step in the slot of a branch, and leaves the flag. -/
def Occupies (edit : Edit) (flow : Flow) (id : NodeId) : Except Refusal Change → Prop
  | .ok _ => edit.SwapsSlot flow id
  | .error _ => False

/-- An edit that came to a change deletes a node, or removes it with others. -/
def Vacates (edit : Edit) (id : NodeId) : Except Refusal Change → Prop
  | .ok change => edit = delete id ∨ id ∈ change.removed
  | .error _ => False

instance (edit : Edit) (flow : Flow) (id : NodeId) :
    (outcome : Except Refusal Change) → Decidable (edit.Occupies flow id outcome)
  | .ok _ => inferInstanceAs (Decidable (edit.SwapsSlot flow id))
  | .error _ => isFalse fun occupies => occupies

instance (edit : Edit) (id : NodeId) :
    (outcome : Except Refusal Change) → Decidable (edit.Vacates id outcome)
  | .ok change => inferInstanceAs (Decidable (edit = delete id ∨ id ∈ change.removed))
  | .error _ => isFalse fun vacates => vacates

variable {edit : Edit} {flow : Flow} {limits : Limits} {supply rest : Supply} {change : Change}
  {node after : Node} {id : NodeId} {touch : Node → Node} {new : List Node}

/-! ### One edit -/

/-- A node that stays is flagged as a slot and filled if it was so before and is not deleted, or if
it is swapped and was flagged. -/
theorem Touches.not_slotWaits_iff (touches : edit.Touches flow limits node after)
    (found : flow.node? node.id = some node) : ¬ after.SlotWaits ↔
      edit.SwapsSlot flow node.id ∨ ¬ node.SlotWaits ∧ edit ≠ delete node.id := by
  cases touches with
  | still other =>
    have kept : edit ≠ delete node.id := fun same => other (same ▸ rfl)
    have unswapped : ¬ edit.SwapsSlot flow node.id := by
      cases edit with
      | swap slot => exact fun swaps => other (congrArg some swaps.1)
      | delete | insert | fill | setBranches => exact fun swaps => swaps
    simp [kept, unswapped]
  | repointed above =>
    cases edit with
    | fill => simp [SwapsSlot, Node.SlotWaits, Node.mapContent, Content.withMerge]
    | delete | swap | insert | setBranches => cases above
  | labelled there =>
    obtain rfl := Option.some.inj (found.symm.trans there)
    simp [SwapsSlot, Node.SlotWaits, Node.mapContent, Content.withSubLabel]
  | named there =>
    obtain rfl := Option.some.inj (found.symm.trans there)
    simp [SwapsSlot, Node.SlotWaits, Node.mapContent, Content.withBranches]
  | @swapped kind label params _ _ _ there flag taken =>
    obtain rfl := Option.some.inj (found.symm.trans there)
    -- A swap fills the node, so it is the flag that decides.
    have flagged : ¬ after.SlotWaits ↔ node.content.isBranchPlaceholder = true := by
      simp [Node.SlotWaits, flag, taken]
    have swaps : (swap node.id kind label params).SwapsSlot flow node.id ↔
        node.content.isBranchPlaceholder = true := by
      simp [SwapsSlot, found]
    rw [flagged, swaps]
    exact (or_iff_left_of_imp fun before => (Classical.not_imp.mp before.1).1).symm
  | filled there waits plain =>
    obtain rfl := Option.some.inj (found.symm.trans there)
    simp [SwapsSlot, Node.SlotWaits, plain, waits]
  | emptied plain => simp [SwapsSlot, Node.SlotWaits, plain]

/-- A node of a result is a slot in which a step is only if it was a node that stays. -/
theorem Remakes.exists_of_occupied (remakes : edit.Remakes flow limits change touch new)
    (occupied : change.flow.Occupied id) : id ∉ change.removed ∧ id ∈ flow.ids := by
  obtain ⟨node, found, filled⟩ := occupied
  obtain rfl := Flow.id_of_node?_eq_some found
  rcases remakes.mem_nodes_cases (Flow.mem_of_node?_eq_some found) with
    ⟨before, known, stays, rfl⟩ | ⟨before, put, rfl⟩
  · rw [Node.id_settle, remakes.same]
    exact ⟨stays, List.mem_map_of_mem known⟩
  · exact absurd (remakes.slots before put) filled

/-- What is swapped is not removed. -/
theorem SwapsSlot.notMem_removed (swaps : edit.SwapsSlot flow id)
    (done : edit.run flow limits supply = .ok (change, rest)) :
    id ∉ change.removed ∧ ∃ node, flow.node? id = some node := by
  cases edit with
  | swap slot kind label params =>
    obtain ⟨rfl, flagged⟩ := swaps
    obtain ⟨node, found, -, rfl⟩ := swap_cases done
    exact ⟨List.not_mem_nil, node, found⟩
  | delete | insert | fill | setBranches => exact swaps.elim

/-- After an edit that is made, the slots in which steps are are those in which steps were that are
neither deleted nor removed, and the one that was swapped. -/
theorem occupied_iff (done : edit.run flow limits supply = .ok (change, rest))
    (fresh : change.FreshFor flow) : change.flow.Occupied id ↔
      edit.SwapsSlot flow id ∨ flow.Occupied id ∧ ¬ (edit = delete id ∨ id ∈ change.removed) := by
  obtain ⟨touch, new, remakes⟩ := exists_remakes done fresh
  by_cases here : id ∉ change.removed ∧ ∃ node, flow.node? id = some node
  · obtain ⟨stays, node, found⟩ := here
    obtain rfl := Flow.id_of_node?_eq_some found
    have after := remakes.node?_eq found stays
    have before : flow.Occupied node.id ↔ ¬ node.SlotWaits := by simp [Flow.Occupied, found]
    have now : change.flow.Occupied node.id ↔ ¬ (touch node).SlotWaits := by
      rw [Flow.Occupied, after]
      simp only [Option.some.injEq, exists_eq_left']
      rfl
    rw [now, before, (remakes.touches node stays).not_slotWaits_iff found]
    simp [stays]
  · refine iff_of_false (fun occupied => here ?_) fun h => here ?_
    · obtain ⟨stays, known⟩ := remakes.exists_of_occupied occupied
      exact ⟨stays, Option.isSome_iff_exists.mp (Flow.has_iff_mem_ids.mpr known)⟩
    · rcases h with swaps | ⟨⟨node, found, -⟩, kept⟩
      · exact swaps.notMem_removed done
      · exact ⟨fun gone => kept (.inr gone), node, found⟩

end Edit

namespace Session

variable {session : Session} {edit : Edit} {edits : List Edit} {id : NodeId} {names : List String}
  {change : Change} {node : Node}

/-- The identities that the edits of a session draw are fresh. -/
def DrawsFresh (session : Session) : List Edit → Prop
  | [] => True
  | edit :: rest => session.flow.DrawsFresh (session.perform edit).1 ∧
      (session.perform edit).2.DrawsFresh rest

/-- No edit of a session deletes or removes a node. -/
def Spares (session : Session) (id : NodeId) : List Edit → Prop
  | [] => True
  | edit :: rest => ¬ edit.Vacates id (session.perform edit).1 ∧
      (session.perform edit).2.Spares id rest

/-- An edit of a session swaps what is in the slot of a branch, and none deletes or removes it
later. -/
def Mislays (session : Session) (id : NodeId) : List Edit → Prop
  | [] => False
  | edit :: rest =>
    edit.Occupies session.flow id (session.perform edit).1 ∧
        (session.perform edit).2.Spares id rest ∨
      (session.perform edit).2.Mislays id rest

instance decidableDrawsFresh :
    (session : Session) → (edits : List Edit) → Decidable (session.DrawsFresh edits)
  | _, [] => isTrue trivial
  | session, edit :: rest =>
    have := decidableDrawsFresh (session.perform edit).2 rest
    inferInstanceAs (Decidable (session.flow.DrawsFresh (session.perform edit).1 ∧
      (session.perform edit).2.DrawsFresh rest))

instance decidableSpares (id : NodeId) :
    (session : Session) → (edits : List Edit) → Decidable (session.Spares id edits)
  | _, [] => isTrue trivial
  | session, edit :: rest =>
    have := decidableSpares id (session.perform edit).2 rest
    inferInstanceAs (Decidable (¬ edit.Vacates id (session.perform edit).1 ∧
      (session.perform edit).2.Spares id rest))

instance decidableMislays (id : NodeId) :
    (session : Session) → (edits : List Edit) → Decidable (session.Mislays id edits)
  | _, [] => isFalse fun mislays => mislays
  | session, edit :: rest =>
    have := decidableMislays id (session.perform edit).2 rest
    inferInstanceAs (Decidable (edit.Occupies session.flow id (session.perform edit).1 ∧
      (session.perform edit).2.Spares id rest ∨ (session.perform edit).2.Mislays id rest))

/-- A change that is performed is one that the edit makes. -/
theorem exists_run_of_perform (done : (session.perform edit).1 = .ok change) :
    ∃ rest, edit.run session.flow session.limits session.supply = .ok (change, rest) := by
  cases made : edit.run session.flow session.limits session.supply with
  | error refusal =>
    rw [perform_of_error made] at done
    cases done
  | ok result =>
    obtain ⟨other, rest⟩ := result
    rw [perform_of_ok made] at done
    cases done
    exact ⟨rest, rfl⟩

/-- The slots in which steps are after one edit, made or refused. -/
theorem occupied_perform_iff (fresh : session.flow.DrawsFresh (session.perform edit).1) :
    (session.perform edit).2.flow.Occupied id ↔
      edit.Occupies session.flow id (session.perform edit).1 ∨
        session.flow.Occupied id ∧ ¬ edit.Vacates id (session.perform edit).1 := by
  cases done : edit.run session.flow session.limits session.supply with
  | error refusal =>
    rw [perform_of_error done]
    simp [Edit.Occupies, Edit.Vacates]
  | ok made =>
    obtain ⟨change, supply⟩ := made
    rw [perform_of_ok done] at fresh ⊢
    exact Edit.occupied_iff done fresh

/-- The slots in which steps are after a session are those in which steps were and which no edit
vacates, and those in which a step is mislaid. -/
theorem occupied_performAll_iff (fresh : session.DrawsFresh edits) :
    (session.performAll edits).2.flow.Occupied id ↔
      session.flow.Occupied id ∧ session.Spares id edits ∨ session.Mislays id edits := by
  induction edits generalizing session with
  | nil => simp [performAll, Spares, Mislays]
  | cons edit rest ih =>
    -- A slot that is occupied after the first edit stays so unless a later edit vacates it.
    obtain ⟨now, later⟩ := fresh
    have last := ih later
    rw [occupied_perform_iff now] at last
    refine last.trans ?_
    simp only [Spares, Mislays]
    tauto

/-- In a session that starts where all slots of branches wait, setting branches removes a step that
was put in if and only if a branch that is cut off starts there, and the step came into the slot of
a branch by a swap. Where nodes share an identity, a step goes with a slot that has its own, too. -/
theorem mem_removed_setBranches_iff (waits : ∀ node ∈ session.flow.nodes, node.SlotWaits)
    (fresh : session.DrawsFresh edits)
    (done : ((session.performAll edits).2.perform (.setBranches id names)).1 = .ok change) :
    ∀ node ∈ (session.performAll edits).2.flow.nodes, node.content.isPlaceholder = false →
      (node.id ∈ change.removed ↔
        (session.performAll edits).2.flow.Drops id names.length node.id ∧
          (session.Mislays node.id edits ∨
            ∃ slot, (session.performAll edits).2.flow.node? node.id = some slot ∧ slot ≠ node ∧
              slot.content.isBranchPlaceholder = true ∧ slot.content.isPlaceholder = true)) := by
  intro node _ filled
  have history : (session.performAll edits).2.flow.Occupied node.id ↔
      session.Mislays node.id edits := by
    rw [occupied_performAll_iff fresh]
    -- At the start no slot of a branch is occupied, so it is a swap that comes later.
    refine or_iff_right fun ⟨⟨slot, found, taken⟩, _⟩ => ?_
    exact taken (waits slot (Flow.mem_of_node?_eq_some found))
  rw [← history]
  generalize (session.performAll edits).2 = last at *
  obtain ⟨rest, made⟩ := exists_run_of_perform done
  obtain ⟨head, merge, found, -, -, -, slots, -, rfl⟩ := Edit.setBranches_cases made
  obtain rfl := Flow.id_of_node?_eq_some found
  rw [Flow.mem_removed_withBranches, Flow.mem_surplusSlots]
  refine and_congr_right fun _ => ⟨fun ⟨slot, known, flagged⟩ => ?_, fun h => ?_⟩
  · cases empty : slot.content.isPlaceholder with
    | false => exact .inl ⟨slot, known, fun waits => by simp [waits flagged] at empty⟩
    | true =>
      -- The node is filled and the slot is not, so there are two of the identity.
      refine .inr ⟨slot, known, fun same => ?_, flagged, empty⟩
      rw [same, filled] at empty
      cases empty
  · rcases h with ⟨slot, known, taken⟩ | ⟨slot, known, -, flagged, -⟩
    · exact ⟨slot, known, (Classical.not_imp.mp taken).1⟩
    · exact ⟨slot, known, flagged⟩

/-- A parallel step with a slot on each of its branches. -/
def shelf : Session where
  flow := {
    nodes := [{ id := "fork", kind := some "parallel" }, .branchPlaceholder "a" "A",
      .branchPlaceholder "b" "B", .mergePlaceholder "join", { id := "end", kind := some "end" }]
    edges := [.connect "fork" "a" (some "A"), .connect "fork" "b" (some "B"),
      .connect "a" "join" none, .connect "b" "join" none, .connect "join" "end" none] }
  supply := .numbered

/-- A step that filled a slot of the shelf is only disconnected with its branch, and one that was
swapped in is removed. -/
theorem mem_removed_setBranches_iff_shelf :
    (∃ change, ((shelf.performAll [.fill "b" "action" none none none]).2.perform
        (.setBranches "fork" ["A"])).1 = .ok change ∧ "b" ∉ change.removed) ∧
      ∃ change, ((shelf.performAll [.swap "b" "action" none none]).2.perform
        (.setBranches "fork" ["A"])).1 = .ok change ∧ "b" ∈ change.removed := by
  have waits : ∀ node ∈ shelf.flow.nodes, node.SlotWaits := by decide
  constructor
  · let filled : Node :=
      { id := "b", kind := some "action"
        content := { label := some "action", subLabel := some "B" } }
    have fresh : shelf.DrawsFresh [.fill "b" "action" none none none] := by decide +kernel
    have there : filled ∈ (shelf.performAll [.fill "b" "action" none none none]).2.flow.nodes := by
      decide +kernel
    obtain ⟨change, done⟩ : ∃ change,
        ((shelf.performAll [.fill "b" "action" none none none]).2.perform
          (.setBranches "fork" ["A"])).1 = .ok change := ⟨_, rfl⟩
    refine ⟨change, done, fun gone => ?_⟩
    obtain ⟨-, mislaid | ⟨slot, found, -, flagged, -⟩⟩ :=
      (mem_removed_setBranches_iff waits fresh done filled there rfl).mp gone
    · exact absurd mislaid (by decide +kernel)
    · cases found
      cases flagged
  · let swapped : Node :=
      { Node.branchPlaceholder "b" "B" with
        kind := some "action"
        content := { Content.branchPlaceholder "B" with isPlaceholder := false } }
    have fresh : shelf.DrawsFresh [.swap "b" "action" none none] := by decide +kernel
    have there : swapped ∈ (shelf.performAll [.swap "b" "action" none none]).2.flow.nodes := by
      decide +kernel
    have drops : (shelf.performAll [.swap "b" "action" none none]).2.flow.Drops "fork" 1 "b" :=
      ⟨.connect "fork" "b" (some "B"), by decide +kernel, rfl⟩
    obtain ⟨change, done⟩ : ∃ change, ((shelf.performAll [.swap "b" "action" none none]).2.perform
      (.setBranches "fork" ["A"])).1 = .ok change := ⟨_, rfl⟩
    exact ⟨change, done, (mem_removed_setBranches_iff waits fresh done swapped there rfl).mpr
      ⟨drops, .inl (by decide +kernel)⟩⟩

/-- All slots of the shelf wait at the start, and yet a step that is not a placeholder is removed
when branches are set. -/
theorem not_mem_removed_setBranches_shelf :
    shelf.flow.ids.Nodup ∧ (∀ node ∈ shelf.flow.nodes, node.SlotWaits) ∧
    shelf.DrawsFresh [.swap "b" "action" none none, .setBranches "fork" ["A"]] ∧
    ¬ ∀ change, ((shelf.performAll [.swap "b" "action" none none]).2.perform
        (.setBranches "fork" ["A"])).1 = .ok change →
      ∀ node ∈ (shelf.performAll [.swap "b" "action" none none]).2.flow.nodes,
        node.content.isPlaceholder = false → node.id ∉ change.removed := by
  refine ⟨by decide, by decide, by decide +kernel, fun claim => ?_⟩
  exact absurd (claim _ rfl) (by decide +kernel)

end Session

end Workflow
