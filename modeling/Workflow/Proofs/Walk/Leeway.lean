import Workflow.Proofs.Walk.Ascent
import Workflow.Proofs.Walk.Spread

/-!
# What the limits can do to an answer

A search that runs out of steps finds nothing, and a body for which the steps run out lacks the
nodes that lie behind those left waiting. What was found with fewer steps is found with more, too.
With more steps than there are edges no search runs out of them, so beyond that the limit plays no
part.

## Main definitions

* `SettlesAbove` — an answer holds on to what it has when the limit is raised, and is the same for
  all limits above a bound

## Main results

* `descend_of_le`, `descend_eq_of_le` — the search for a merge with more steps
* `scan_eq_of_le` — the collection of a body with more steps than it takes
* `Flow.answers_settle` — the answers about blocks settle above the number of edges
-/

namespace Workflow

/-- What is in the answer within a limit is in the answer within each larger one, and all limits
above a bound give the same answer. -/
structure SettlesAbove {γ : Type} [Membership NodeId γ] (bound : Nat) (answer : Int → γ) :
    Prop where
  keeps : ∀ {few more : Int}, few ≤ more → ∀ id ∈ answer few, id ∈ answer more
  settles : ∀ {few more : Int}, (bound : Int) < few → (bound : Int) < more →
    answer few = answer more

namespace SettlesAbove

variable {γ : Type} [Membership NodeId γ] {bound : Nat}

/-- An answer in which the limit has no part is settled. -/
theorem const (fixed : γ) : SettlesAbove bound fun _ => fixed :=
  ⟨fun _ _ known => known, fun _ _ => rfl⟩

/-- An answer that takes as many steps as the limit admits is settled above a bound if more steps
keep what it has, and change nothing beyond the bound. -/
theorem of_steps (answer : Nat → γ)
    (keeps : ∀ {few more : Nat}, few ≤ more → ∀ id ∈ answer few, id ∈ answer more)
    (settles : ∀ {few more : Nat}, bound < few → few ≤ more → answer more = answer few) :
    SettlesAbove bound fun limit => answer limit.toNat where
  keeps le := keeps (Int.toNat_le_toNat le)
  settles {few more} above aboveToo := by
    have room : bound < few.toNat := by omega
    have roomToo : bound < more.toNat := by omega
    rcases Nat.le_total few.toNat more.toNat with le | le
    · exact (settles room le).symm
    · exact settles roomToo le

/-- What is put behind a settled list leaves it settled. -/
theorem append {answer : Int → List NodeId} (settled : SettlesAbove bound answer)
    (more : List NodeId) : SettlesAbove bound fun limit => answer limit ++ more where
  keeps le id known :=
    List.mem_append.mpr ((List.mem_append.mp known).imp_left (settled.keeps le id))
  settles above aboveToo := congrArg (· ++ more) (settled.settles above aboveToo)

end SettlesAbove

namespace Flow

variable {flow : Flow} {merge : NodeId} {few more : Nat} {stack : List (NodeId × Int)}
  {seen done queue : List NodeId}

private theorem exists_succ_of_succ_le (le : few + 1 ≤ more) :
    ∃ rest, more = rest + 1 ∧ few ≤ rest :=
  ⟨more - 1, by omega, by omega⟩

/-! ### The search for a merge -/

/-- The search finds with more steps what it has found with fewer. -/
theorem descend_of_le (found : flow.descend few stack seen = some merge) (le : few ≤ more) :
    flow.descend more stack seen = some merge := by
  induction few generalizing more stack seen with
  | zero => cases found
  | succ few ih =>
    obtain ⟨more, rfl, fewer⟩ := exists_succ_of_succ_le le
    cases stack with
    | nil => cases found
    | cons entry stack =>
      simp only [descend] at found ⊢
      split_ifs at found ⊢ with closes skips
      · exact found
      · exact ih found fewer
      · exact ih found fewer

/-- With steps for all that is on the stack and all edges beyond the nodes seen, the search comes to
its end, so that more steps change nothing. -/
theorem descend_eq_of_le (enough : stack.length + flow.edgesBeyond seen ≤ few) (le : few ≤ more) :
    flow.descend more stack seen = flow.descend few stack seen := by
  induction few generalizing more stack seen with
  | zero =>
    obtain rfl : stack = [] := List.eq_nil_of_length_eq_zero (by omega)
    cases more <;> rfl
  | succ few ih =>
    obtain ⟨more, rfl, fewer⟩ := exists_succ_of_succ_le le
    cases stack with
    | nil => rfl
    | cons entry stack =>
      rw [List.length_cons] at enough
      simp only [descend]
      split_ifs with closes skips
      · rfl
      · exact ih (by omega) fewer
      · -- The edges of the node count no longer, and its children stand on the stack instead.
        have split := flow.edgesBeyond_eq fun known => skips (.inr known)
        refine ih ?_ fewer
        rw [List.length_append, List.length_map, List.length_reverse]
        omega

theorem searchMerge?_settles (flow : Flow) (limits : Limits) (id : NodeId) :
    SettlesAbove flow.edges.length fun steps =>
      flow.searchMerge? { limits with maxIterations := steps } id := by
  refine SettlesAbove.of_steps (fun steps => flow.descend steps [(id, 0)] [])
    (fun le _ found => descend_of_le found le) fun room le => descend_eq_of_le ?_ le
  have bound := flow.edgesBeyond_le []
  rw [List.length_singleton]
  omega

theorem merge?_settles (flow : Flow) (limits : Limits) (id : NodeId) :
    SettlesAbove flow.edges.length fun steps =>
      flow.merge? { limits with maxIterations := steps } id := by
  simp only [merge?]
  cases flow.rememberedMerge? id with
  | none => exact flow.searchMerge?_settles limits id
  | some remembered => exact .const _

/-! ### The search for a head -/

theorem starter?_settles (flow : Flow) (limits : Limits) (id : NodeId) :
    SettlesAbove flow.edges.length fun steps =>
      flow.starter? { limits with maxIterations := steps } id where
  keeps le opener found := by
    obtain ⟨chain, short, climbs⟩ := starter?_eq_some_iff.mp found
    exact starter?_eq_some_iff.mpr ⟨chain, short.trans (Int.toNat_le_toNat le), climbs⟩
  settles above aboveToo := by
    refine Option.ext fun opener => ?_
    rw [starter?_eq_some_iff_climbs (Int.le_of_lt above),
      starter?_eq_some_iff_climbs (Int.le_of_lt aboveToo)]

/-! ### The nodes of a block -/

/-- A body that is collected with fewer steps is part of one collected with more. -/
theorem spread_subset_of_le (le : few ≤ more) :
    flow.spread merge few done queue ⊆ flow.spread merge more done queue := by
  fun_induction spread flow merge few done queue generalizing more with
  | case1 => exact fun id known => mem_spread_of_mem known
  | case2 => exact fun id known => mem_spread_of_mem (List.mem_append_left _ known)
  | case3 few done next queue ih =>
    obtain ⟨more, rfl, fewer⟩ := exists_succ_of_succ_le le
    exact ih fewer

/-- When no node is left waiting, more steps change nothing. -/
theorem scan_eq_of_le (clear : (flow.scan merge few done queue).2 = []) (le : few ≤ more) :
    flow.scan merge more done queue = flow.scan merge few done queue := by
  fun_induction scan flow merge few done queue generalizing more with
  | case1 =>
    subst clear
    cases more <;> rfl
  | case2 => cases more <;> rfl
  | case3 few done next queue ih =>
    obtain ⟨more, rfl, fewer⟩ := exists_succ_of_succ_le le
    exact ih clear fewer

theorem body_settles (flow : Flow) (limits : Limits) (head merge : NodeId) :
    SettlesAbove flow.edges.length fun steps =>
      flow.body { limits with scanLimit := steps } head merge := by
  simp only [body]
  split
  · exact .const _
  · refine SettlesAbove.of_steps (fun steps => flow.spread merge steps [] [head])
      (fun le id known => spread_subset_of_le le known) fun {few _} room le => ?_
    have clear : (flow.scan merge few [] [head]).2 = [] := by
      have bound := flow.edgesBeyond_le []
      refine (Scanned.start flow head merge).scan_snd_eq_nil ?_
      rw [List.length_singleton]
      omega
    rw [spread_eq, spread_eq, scan_eq_of_le clear le]

theorem block_settles (flow : Flow) (limits : Limits) (head merge : NodeId) :
    SettlesAbove flow.edges.length fun steps =>
      flow.block { limits with scanLimit := steps } head merge :=
  (flow.body_settles limits head merge).append _

/-! ### All answers -/

/-- Raising the limit on the steps of a search, or of the collection of a block, keeps what was
answered. For limits above the number of edges the answers are the same. -/
theorem answers_settle (flow : Flow) (limits : Limits) :
    (∀ id, SettlesAbove flow.edges.length fun steps =>
      flow.merge? { limits with maxIterations := steps } id) ∧
    (∀ id, SettlesAbove flow.edges.length fun steps =>
      flow.searchMerge? { limits with maxIterations := steps } id) ∧
    (∀ id, SettlesAbove flow.edges.length fun steps =>
      flow.starter? { limits with maxIterations := steps } id) ∧
    (∀ head merge, SettlesAbove flow.edges.length fun steps =>
      flow.body { limits with scanLimit := steps } head merge) ∧
    ∀ head merge, SettlesAbove flow.edges.length fun steps =>
      flow.block { limits with scanLimit := steps } head merge :=
  ⟨flow.merge?_settles limits, flow.searchMerge?_settles limits, flow.starter?_settles limits,
    flow.body_settles limits, flow.block_settles limits⟩

-- In the flow with the cycle, a single step finds no merge, and follows no node but the head.
example : eddy.searchMerge? { maxIterations := 1 } "outer" = none ∧
    eddy.searchMerge? { maxIterations := 9 } "outer" = some "join" ∧
    eddy.body { scanLimit := 1 } "outer" "join" = ["outer", "a"] := by decide +kernel

end Flow

end Workflow
