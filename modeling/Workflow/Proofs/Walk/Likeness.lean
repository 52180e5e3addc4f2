import Workflow.Block.Body
import Workflow.Block.Merge
import Workflow.Block.Starter

/-!
# Flows that look alike to the searches

The searches through a flow see its edges, which identities it has, and which of them are heads and
merges. Two flows that agree in these are searched step by step in the same way, and each search
ends after as many steps, wherever its limit stands. What else is on the nodes shows only in the
merges that heads name.

## Main definitions

* `Flow.Resembles` — two flows have the same edges, and the same nodes in the same roles
* `Flow.AnswersLike` — what is asked about the blocks of two flows is answered alike

## Main results

* `Resembles.searchMerge?_eq`, `Resembles.starter?_eq`, `Resembles.body_eq` — the searches agree
* `Resembles.answersLike` — what is asked is answered alike if heads name what closed their blocks
-/

namespace Workflow

namespace Flow

/-- Two flows have the same edges, and the same nodes in the same roles. -/
structure Resembles (flow other : Flow) : Prop where
  edges : other.edges = flow.edges
  ids : other.ids = flow.ids
  heads : ∀ id, other.isHead id = flow.isHead id
  merges : ∀ id, other.isMerge id = flow.isMerge id

/-- Within these limits, what is asked about the blocks of two flows is answered alike. -/
structure AnswersLike (flow other : Flow) (limits : Limits) : Prop where
  merge? : ∀ id, other.merge? limits id = flow.merge? limits id
  searchMerge? : ∀ id, other.searchMerge? limits id = flow.searchMerge? limits id
  starter? : ∀ id, other.starter? limits id = flow.starter? limits id
  body : ∀ head merge, other.body limits head merge = flow.body limits head merge
  block : ∀ head merge, other.block limits head merge = flow.block limits head merge
  extent? : ∀ id, other.extent? limits id = flow.extent? limits id

variable {flow other : Flow} {limits : Limits} {id head merge : NodeId}

namespace Resembles

variable (resembles : flow.Resembles other)
include resembles

theorem children_eq (id : NodeId) : other.children id = flow.children id := by
  rw [children, children, edgesFrom, edgesFrom, resembles.edges]

theorem firstParent?_eq (id : NodeId) : other.firstParent? id = flow.firstParent? id := by
  rw [firstParent?, firstParent?, parents, parents, edgesTo, edgesTo, resembles.edges]

theorem has_eq (id : NodeId) : other.has id = flow.has id := by
  rw [Bool.eq_iff_iff, has_iff_mem_ids, has_iff_mem_ids, resembles.ids]

theorem rise_eq (id : NodeId) : other.rise id = flow.rise id := by
  rw [rise, rise, resembles.heads, resembles.merges]

theorem levels_eq (id : NodeId) : other.levels id = flow.levels id := by
  rw [levels, levels, resembles.heads, resembles.merges]

/-! ### The searches -/

/-- The search down from a stack takes the same steps in both flows. -/
theorem descend_eq (steps : Nat) (stack : List (NodeId × Int)) (seen : List NodeId) :
    other.descend steps stack seen = flow.descend steps stack seen := by
  induction steps generalizing stack seen with
  | zero => rfl
  | succ steps ih =>
    cases stack with
    | nil => rfl
    | cons entry stack =>
      simp only [descend, resembles.rise_eq, resembles.merges, resembles.children_eq, ih]

/-- The way up from a node takes the same steps in both flows. -/
theorem climb_eq (steps : Nat) (next : Option NodeId) (seen : List NodeId) (below : Int) :
    other.climb steps next seen below = flow.climb steps next seen below := by
  induction steps generalizing next seen below with
  | zero => rfl
  | succ steps ih =>
    cases next with
    | none => rfl
    | some id => simp only [climb, resembles.levels_eq, resembles.firstParent?_eq, ih]

/-- The collection of a body takes the same steps in both flows. -/
theorem spread_eq (merge : NodeId) (steps : Nat) (done queue : List NodeId) :
    other.spread merge steps done queue = flow.spread merge steps done queue := by
  induction steps generalizing done queue with
  | zero => rfl
  | succ steps ih =>
    cases queue with
    | nil => rfl
    | cons id queue => simp only [spread, newcomers, resembles.children_eq, ih]

theorem searchMerge?_eq (limits : Limits) (head : NodeId) :
    other.searchMerge? limits head = flow.searchMerge? limits head :=
  resembles.descend_eq _ _ _

theorem starter?_eq (limits : Limits) (merge : NodeId) :
    other.starter? limits merge = flow.starter? limits merge := by
  rw [starter?, starter?, resembles.firstParent?_eq, resembles.climb_eq]

theorem body_eq (limits : Limits) (head merge : NodeId) :
    other.body limits head merge = flow.body limits head merge := by
  rw [body, body, resembles.spread_eq]

theorem block_eq (limits : Limits) (head merge : NodeId) :
    other.block limits head merge = flow.block limits head merge := by
  rw [block, block, resembles.body_eq, resembles.has_eq]

/-- A head resolves to the same merge in both flows if it names the same one in them, or names in
the second what it resolved to in the first. -/
theorem merge?_eq (named : other.rememberedMerge? id = flow.rememberedMerge? id ∨
    other.rememberedMerge? id = flow.merge? limits id) :
    other.merge? limits id = flow.merge? limits id := by
  have search := resembles.searchMerge?_eq limits id
  rcases named with same | pinned
  · rw [merge?, merge?, same, search]
  · cases resolved : flow.merge? limits id with
    | some merge => exact merge?_of_remembered (pinned.trans resolved)
    | none =>
      -- Where nothing is found, nothing was named either.
      have unnamed : flow.rememberedMerge? id = none := by
        cases own : flow.rememberedMerge? id with
        | none => rfl
        | some merge => cases (merge?_of_remembered own).symm.trans resolved
      rw [merge?_of_not_remembered (pinned.trans resolved), search,
        ← merge?_of_not_remembered unnamed, resolved]

/-- Two flows that look alike answer alike if each head names the same merge in them, or names in
the second what it resolved to in the first. -/
theorem answersLike (named : ∀ id, other.rememberedMerge? id = flow.rememberedMerge? id ∨
    other.rememberedMerge? id = flow.merge? limits id) : flow.AnswersLike other limits where
  merge? id := resembles.merge?_eq (named id)
  searchMerge? := resembles.searchMerge?_eq limits
  starter? := resembles.starter?_eq limits
  body := resembles.body_eq limits
  block := resembles.block_eq limits
  extent? id := by
    simp only [Flow.extent?, resembles.merge?_eq (named id), resembles.block_eq]

end Resembles

end Flow

end Workflow
