import Workflow.Proofs.Editing.Acyclicity
import Workflow.Proofs.Editing.Relabelling
import Workflow.Proofs.Editing.Seating

/-!
# Names that change places

A step that is put in on a branch takes over the branch with its name. But the edge into it comes
last among the edges of the head, and a list of names is given to the branches in the order of their
edges. So when the names that the branches bear are set again, names change places, unless the
branches that were taken over came last before.

## Main definitions

* `Edit.Moves` — an edge gives way to one into a new step
* `Edit.KeepsNames` — each branch bears the name that it had

## Main results

* `Edit.branchEdges_of_putsIn` — the edges on which branches start after a step was put in
* `Session.keepsNames_iff` — exactly when branches keep their names
-/

namespace Workflow

/-! ### Lists -/

/-- Under distinct names, lists that are paired with them alike are the same. -/
theorem eq_of_zip_subset {names : List String} {first second : List NodeId}
    (distinct : names.Nodup) (full : first.length = names.length)
    (fullToo : second.length = names.length)
    (within : ∀ pair ∈ names.zip first, pair ∈ names.zip second) : first = second := by
  induction names generalizing first second with
  | nil => rw [List.eq_nil_of_length_eq_zero full, List.eq_nil_of_length_eq_zero fullToo]
  | cons name names ih =>
    obtain ⟨new, distinct⟩ := List.nodup_cons.mp distinct
    obtain ⟨id, first, rfl⟩ := List.exists_cons_of_length_eq_add_one full
    obtain ⟨child, second, rfl⟩ := List.exists_cons_of_length_eq_add_one fullToo
    have same : id = child := by
      rcases List.mem_cons.mp (within (name, id) List.mem_cons_self) with same | later
      · exact (Prod.mk.inj same).2
      · exact absurd (List.of_mem_zip later).1 new
    have rest : first = second := by
      refine ih distinct (by simpa using full) (by simpa using fullToo) fun pair member => ?_
      rcases List.mem_cons.mp (within pair (List.mem_cons_of_mem _ member)) with rfl | later
      · exact absurd (List.of_mem_zip member).1 new
      · exact later
    rw [same, rest]

section Split

variable {α : Type} {moves : α → Prop} [DecidablePred moves] {items : List α}

/-- Items that have a property come behind the others if each item behind one of them is one. -/
theorem filter_not_append_filter (last : items.Pairwise fun first second => moves first → moves second) :
    (items.filter fun item => ¬ moves item) ++ items.filter (moves ·) = items := by
  induction items with
  | nil => rfl
  | cons item rest ih =>
    obtain ⟨behind, last⟩ := List.pairwise_cons.mp last
    by_cases moved : moves item
    · have none : rest.filter (fun item => ¬ moves item) = [] :=
        List.filter_eq_nil_iff.mpr fun other member => by simpa using behind other member moved
      have all : rest.filter (moves ·) = rest :=
        List.filter_eq_self.mpr fun other member => by simpa using behind other member moved
      rw [List.filter_cons_of_neg (by simpa using moved), List.filter_cons_of_pos (by simpa using moved),
        none, all, List.nil_append]
    · rw [List.filter_cons_of_pos (by simpa using moved), List.filter_cons_of_neg (by simpa using moved),
        List.cons_append, ih last]

/-- With the items that have a property put last, each item behind one of them is one. -/
theorem pairwise_filter_not_append_filter (items : List α) :
    ((items.filter fun item => ¬ moves item) ++ items.filter (moves ·)).Pairwise
      fun first second => moves first → moves second := by
  have still : ∀ item ∈ items.filter (fun item => ¬ moves item), ¬ moves item :=
    fun item member => of_decide_eq_true (List.mem_filter.mp member).2
  have moved : ∀ item ∈ items.filter (moves ·), moves item :=
    fun item member => of_decide_eq_true (List.mem_filter.mp member).2
  rw [List.pairwise_append]
  exact ⟨List.pairwise_of_forall_mem_list fun item member _ _ moves =>
      absurd moves (still item member),
    List.pairwise_of_forall_mem_list fun _ _ item member _ => moved item member,
    fun item member _ _ moves => absurd moves (still item member)⟩

end Split

/-- Edges that are all the same stand between others. -/
theorem filter_middle {edge : Edge} {before middle behind : List Edge}
    (off : ∀ other ∈ before, edge ≠ other) (here : ∀ other ∈ middle, edge = other)
    (offToo : ∀ other ∈ behind, edge ≠ other) :
    (before ++ (middle ++ behind)).filter (fun other => ¬ edge = other) = before ++ behind ∧
      (before ++ (middle ++ behind)).filter (fun other => edge = other) = middle := by
  simp only [List.filter_append]
  constructor
  · have none : middle.filter (fun other => ¬ edge = other) = [] :=
      List.filter_eq_nil_iff.mpr fun other member => by simpa using here other member
    rw [List.filter_eq_self.mpr fun other member => decide_eq_true (off other member),
      List.filter_eq_self.mpr fun other member => decide_eq_true (offToo other member), none,
      List.nil_append]
  · have none : before.filter (fun other => edge = other) = [] :=
      List.filter_eq_nil_iff.mpr fun other member => by simpa using off other member
    have noneToo : behind.filter (fun other => edge = other) = [] :=
      List.filter_eq_nil_iff.mpr fun other member => by simpa using offToo other member
    rw [List.filter_eq_self.mpr fun other member => decide_eq_true (here other member), none,
      noneToo, List.nil_append, List.append_nil]

namespace Flow

variable {flow : Flow} {step : NewStep} {item : Item} {edge : Edge} {edges : List Edge}
  {source target id head : NodeId} {kept entering leaving : List Edge} {names : List String}
  {slot : Node} {name : String}

/-- No branch bears the name of the edge around a body. -/
theorem loopBypass_notMem (named : (flow.branchEdges id).map (·.branch) = names.map some) :
    Branch.loopBypass ∉ names := by
  intro member
  have bears : some Branch.loopBypass ∈ (flow.branchEdges id).map (·.branch) :=
    named ▸ List.mem_map_of_mem member
  obtain ⟨edge, starts, same⟩ := List.mem_map.mp bears
  exact (of_decide_eq_true (List.mem_filter.mp starts).2).2 same

/-- An edge and its place among the names. -/
theorem mem_zip_map_iff (named : edges.map (·.branch) = names.map some) {ends : Edge → NodeId} :
    (name, id) ∈ names.zip (edges.map ends) ↔
      ∃ edge ∈ edges, edge.branch = some name ∧ ends edge = id := by
  have lifted : (name, id) ∈ names.zip (edges.map ends) ↔
      (some name, id) ∈ (names.map some).zip (edges.map ends) := by
    rw [List.zip_map_left, List.mem_map]
    constructor
    · exact fun member => ⟨_, member, rfl⟩
    · rintro ⟨⟨other, child⟩, member, same⟩
      obtain ⟨h, rfl⟩ := Prod.mk.inj same
      obtain rfl := Option.some.inj h
      exact member
  rw [lifted, ← named, List.zip_map', List.mem_map]
  simp only [Prod.mk.injEq]

/-- The branches of an old head after a step was put in: those that stayed, then those into it. -/
theorem Seats.branchEdges_eq (seats : flow.Seats step kept entering leaving)
    (forms : step.Forms item) (old : id ∉ step.nodes.map (·.id)) :
    flow.branchEdges id = kept.filter (startsBranch id) ++ entering.filter (startsBranch id) := by
  have inner : step.edges.filter (startsBranch id) = [] :=
    List.filter_eq_nil_iff.mpr fun edge member starts => by
      have wire : edge.wire ∈ item.wires := forms.wires ▸ List.mem_map_of_mem member
      have source : edge.source = id := (of_decide_eq_true starts).1
      exact old (forms.ids ▸ source ▸ Item.source_mem_ids wire)
  have outer : leaving.filter (startsBranch id) = [] :=
    List.filter_eq_nil_iff.mpr fun edge member starts => by
      have source : edge.source = id := (of_decide_eq_true starts).1
      have exit : step.exit ∈ item.ids := forms.last ▸ item.last_mem_ids
      exact old (forms.ids ▸ source ▸ (seats.leaves edge member).1 ▸ exit)
  rw [branchEdges, seats.edges, List.filter_append, List.filter_append, List.filter_append, inner,
    outer, List.append_nil, List.append_nil]

/-- Edges that enter another node start the same branches. -/
theorem filter_map_connect (edges : List Edge) (new : NodeId) :
    (edges.map fun edge => Edge.connect edge.source new edge.branch).filter (startsBranch id) =
      (edges.filter (startsBranch id)).map fun edge => .connect edge.source new edge.branch :=
  List.filter_map

/-- Cutting an edge takes it from the branches of a head, if it starts one of them. -/
theorem filter_cut (found : flow.edge? source target = some edge)
    (distinct : (flow.branchEdges id).Nodup) :
    (flow.cut source target).edges.filter (startsBranch id) =
        (flow.branchEdges id).filter (fun other => ¬ flow.edge? source target = some other) ∧
      [edge].filter (startsBranch id) =
        (flow.branchEdges id).filter (fun other => flow.edge? source target = some other) := by
  obtain ⟨before, behind, whole, rest⟩ := exists_edges_cut found
  have parts : flow.branchEdges id = before.filter (startsBranch id) ++
      ([edge].filter (startsBranch id) ++ behind.filter (startsBranch id)) := by
    rw [branchEdges, whole, ← List.filter_append, ← List.filter_append]
    rfl
  rw [parts, List.nodup_append', List.nodup_append'] at distinct
  obtain ⟨-, ⟨-, -, apart⟩, apartToo⟩ := distinct
  -- An edge that is there twice would start a branch twice.
  have off : ∀ other ∈ before.filter (startsBranch id), edge ≠ other := by
    rintro _ member rfl
    exact apartToo member (List.mem_append_left _
      (List.mem_filter.mpr ⟨List.mem_singleton.mpr rfl, (List.mem_filter.mp member).2⟩))
  have offToo : ∀ other ∈ behind.filter (startsBranch id), edge ≠ other := by
    rintro _ member rfl
    exact apart (List.mem_filter.mpr ⟨List.mem_singleton.mpr rfl, (List.mem_filter.mp member).2⟩)
      member
  have here : ∀ other ∈ [edge].filter (startsBranch id), edge = other := fun other member =>
    (List.mem_singleton.mp (List.mem_filter.mp member).1).symm
  obtain ⟨kept, cut⟩ := filter_middle off here offToo
  simp only [found, Option.some.injEq]
  rw [rest, parts, List.filter_append]
  exact ⟨kept.symm, cut.symm⟩

/-- The branches of a head without a slot, and those that enter the slot. -/
theorem filter_without (apart : id ≠ slot.id) :
    (flow.without [slot.id]).edges.filter (startsBranch id) =
        (flow.branchEdges id).filter (fun edge => ¬ edge.target = slot.id) ∧
      (flow.edgesTo slot.id).filter (startsBranch id) =
        (flow.branchEdges id).filter (fun edge => edge.target = slot.id) := by
  constructor
  · rw [without, branchEdges, List.filter_comm (startsBranch id), List.filter_filter,
      List.filter_filter]
    refine List.filter_congr fun edge _ => ?_
    by_cases starts : startsBranch id edge = true
    · have source : edge.source ≠ slot.id := (of_decide_eq_true starts).1 ▸ apart
      simp [starts, source]
    · simp [starts]
  · rw [edgesTo, branchEdges, List.filter_comm]

end Flow

namespace Edit

variable {edit : Edit} {flow last : Flow} {limits : Limits} {supply rest : Supply} {change : Change}
  {id : NodeId}

/-- An edit that puts a new step in: it inserts one, or it puts a block in the place of a slot. -/
def PutsIn : Edit → Prop
  | insert .. => True
  | fill _ kind .. => (BlockKind.ofName? kind).isSome
  | delete .. | swap .. | setBranches .. => False

/-- An edge gives way to one into the new step: the edge on which the step is inserted, and each
edge into the slot that a block fills. -/
def Moves (edit : Edit) (flow : Flow) (edge : Edge) : Prop :=
  match edit with
  | insert source target .. => flow.edge? source target = some edge
  | fill id .. => edge.target = id
  | delete .. | swap .. | setBranches .. => False

instance : (edit : Edit) → Decidable edit.PutsIn
  | .insert .. => isTrue trivial
  | .fill .. => inferInstanceAs (Decidable (_ = true))
  | .delete .. | .swap .. | .setBranches .. => isFalse fun puts => puts

instance (flow : Flow) : (edit : Edit) → DecidablePred (edit.Moves flow)
  | .insert .. => fun _ => inferInstanceAs (Decidable (_ = _))
  | .fill .. => fun _ => inferInstanceAs (Decidable (_ = _))
  | .delete .. | .swap .. | .setBranches .. => fun _ => isFalse fun moves => moves

/-- Each branch of a head bears the name that it had. It starts where it started, or at the new step
that took it over. -/
def KeepsNames (edit : Edit) (flow : Flow) (change : Change) (last : Flow) (head : NodeId) : Prop :=
  ∀ edge ∈ flow.branchEdges head, ∃ after ∈ last.branchEdges head, after.branch = edge.branch ∧
    if edit.Moves flow edge then change.added.head? = some after.target
    else after.target = edge.target

instance (edit : Edit) (flow : Flow) (change : Change) (last : Flow) (head : NodeId) :
    Decidable (edit.KeepsNames flow change last head) :=
  inferInstanceAs (Decidable (∀ _ ∈ _, _))

/-- After a step was put in, the branches that it took over come last, under their names. -/
theorem branchEdges_of_putsIn (puts : edit.PutsIn) (distinct : (flow.branchEdges id).Nodup)
    (known : id ∈ flow.ids) (done : edit.run flow limits supply = .ok (change, rest))
    (fresh : change.FreshFor flow) (stays : id ∉ change.removed) :
    ∃ new, change.added.head? = some new ∧ change.flow.branchEdges id =
      (flow.branchEdges id).filter (fun edge => ¬ edit.Moves flow edge) ++
        ((flow.branchEdges id).filter (edit.Moves flow ·)).map fun edge =>
          .connect edge.source new edge.branch := by
  have old : id ∉ change.added := fun new => fresh.unused id new (.inl known)
  cases edit with
  | insert source target kind label branches =>
    obtain ⟨edge, found, rfl⟩ := insert_cases done
    obtain ⟨item, forms⟩ := NewStep.exists_forms_make kind label none branches supply
    obtain ⟨kept, entering⟩ := Flow.filter_cut found distinct
    refine ⟨_, rfl, ((Flow.seats_splice found fresh).branchEdges_eq forms old).trans ?_⟩
    obtain rfl := (Flow.edge?_eq_some found).2.1
    rw [kept]
    exact congrArg _ ((Flow.filter_map_connect [edge] _).trans (congrArg _ entering))
  | fill slot kind label params branches =>
    obtain ⟨node, found, -, ⟨plain, -⟩ | ⟨block, known, -, rfl⟩⟩ := fill_cases done
    · simp [PutsIn, plain] at puts
    · obtain ⟨item, forms⟩ := NewStep.exists_forms_make kind label params branches supply
      rw [NewStep.make, known] at forms
      have apart : id ≠ node.id := fun same => stays (List.mem_singleton.mpr same)
      obtain ⟨kept, entering⟩ := @Flow.filter_without flow id node apart
      refine ⟨_, rfl, ((Flow.seats_fillWithBlock fresh).branchEdges_eq forms old).trans ?_⟩
      obtain rfl := Flow.id_of_node?_eq_some found
      rw [kept, Flow.filter_map_connect, entering]
      rfl
  | delete | swap | setBranches => exact puts.elim

/-- Where a branch starts after a step was put in. -/
def seat (edit : Edit) (flow : Flow) (new : NodeId) (edge : Edge) : NodeId :=
  if edit.Moves flow edge then new else edge.target

section Named

variable {names : List String} (puts : edit.PutsIn) (known : id ∈ flow.ids)
  (distinct : names.Nodup) (named : (flow.branchEdges id).map (·.branch) = names.map some)
  (done : edit.run flow limits supply = .ok (change, rest)) (fresh : change.FreshFor flow)
  (stays : id ∉ change.removed)

include distinct named in
theorem nodup_branchEdges : (flow.branchEdges id).Nodup := by
  refine List.Nodup.of_map (·.branch) ?_
  rw [named]
  exact distinct.map fun _ _ => Option.some.inj

include puts known distinct named done fresh stays

/-- To put a step in leaves the names where they are. -/
theorem keepsNames_of_putsIn : edit.KeepsNames flow change change.flow id := by
  obtain ⟨new, first, seated⟩ := branchEdges_of_putsIn puts
    (nodup_branchEdges distinct named) known done fresh stays
  intro edge starts
  rw [seated, first]
  by_cases moves : edit.Moves flow edge
  · refine ⟨.connect edge.source new edge.branch, List.mem_append_right _ ?_, rfl, ?_⟩
    · exact List.mem_map.mpr ⟨edge, List.mem_filter.mpr ⟨starts, decide_eq_true moves⟩, rfl⟩
    · rw [if_pos moves]
      rfl
  · refine ⟨edge, List.mem_append_left _ ?_, rfl, ?_⟩
    · exact List.mem_filter.mpr ⟨starts, decide_eq_true moves⟩
    · rw [if_neg moves]

/-- To put a step in leaves the number of branches as it was. -/
theorem length_branchEdges_of_putsIn : (change.flow.branchEdges id).length = names.length := by
  obtain ⟨new, -, seated⟩ := branchEdges_of_putsIn puts
    (nodup_branchEdges distinct named) known done fresh stays
  have parts := (List.filter_append_perm (edit.Moves flow ·) (flow.branchEdges id)).length_eq
  have length := congrArg List.length named
  simp only [List.length_append, List.length_map] at parts length
  rw [seated]
  simp only [List.length_append, List.length_map, decide_not]
  omega

omit puts known distinct named done fresh stays in
/-- A branch keeps its name if an edge with the name leads to where the branch starts. -/
theorem keepsNames_iff_seat {new : NodeId} (first : change.added.head? = some new) :
    edit.KeepsNames flow change last id ↔ ∀ edge ∈ flow.branchEdges id,
      ∃ after ∈ last.branchEdges id, after.branch = edge.branch ∧
        after.target = edit.seat flow new edge := by
  refine forall₂_congr fun edge _ => exists_congr fun after =>
    and_congr_right fun _ => and_congr_right fun _ => ?_
  rw [first, seat]
  split
  · rw [Option.some.injEq, eq_comm]
  · rfl

omit puts known done fresh stays in
/-- Where the names are given to edges in order, each branch keeps its name if and only if the edges
lead in this order to where the branches start. -/
theorem keepsNames_iff_map_eq {new : NodeId} {edges : List Edge}
    (first : change.added.head? = some new) (full : edges.length = names.length)
    (renamed : last.branchEdges id = (names.zip edges).map fun arm => arm.2.named arm.1) :
    edit.KeepsNames flow change last id ↔
      (flow.branchEdges id).map (edit.seat flow new) = edges.map (·.target) := by
  have length := congrArg List.length named
  rw [List.length_map, List.length_map] at length
  rw [keepsNames_iff_seat first, renamed]
  constructor
  · intro keeps
    refine eq_of_zip_subset distinct (by simpa using length) (by simpa using full) ?_
    rintro ⟨name, place⟩ member
    obtain ⟨edge, starts, bears, rfl⟩ := (Flow.mem_zip_map_iff named).mp member
    obtain ⟨_, inside, same, target⟩ := keeps edge starts
    obtain ⟨arm, paired, rfl⟩ := List.mem_map.mp inside
    obtain rfl : arm.1 = name := Option.some.inj (same.trans bears)
    rw [← target, List.zip_map_right]
    exact List.mem_map_of_mem (f := Prod.map (fun name => name) (·.target)) paired
  · intro same edge starts
    obtain ⟨name, -, bears⟩ := List.mem_map.mp (named ▸ List.mem_map_of_mem starts)
    have member := (Flow.mem_zip_map_iff named).mpr
      ⟨edge, starts, bears.symm, (rfl : edit.seat flow new edge = _)⟩
    rw [same, List.zip_map_right] at member
    obtain ⟨arm, paired, ends⟩ := List.mem_map.mp member
    obtain ⟨rfl, target⟩ := Prod.mk.inj ends
    exact ⟨_, List.mem_map_of_mem paired, bears, target⟩

omit puts known distinct named done stays in
/-- A branch starts at the new step if and only if the step took it over. -/
theorem moves_iff_seat_eq {new : NodeId} (first : change.added.head? = some new) {edge : Edge}
    (starts : edge ∈ flow.branchEdges id) :
    edit.Moves flow edge ↔ edit.seat flow new edge = new := by
  -- No edge led to the new step before.
  have apart : edge.target ≠ new := fun same => fresh.unused new (List.mem_of_mem_head? first)
    (.inr ⟨edge, (Flow.source_of_mem_branchEdges starts).1, .inr same⟩)
  rw [seat]
  split
  · rename_i moves
    exact iff_of_true moves rfl
  · rename_i still
    exact iff_of_false still apart

/-- Where the branches start after a step was put in: first those that stayed, then those that the
step took over. -/
theorem exists_targets_of_putsIn : ∃ new, change.added.head? = some new ∧
    (change.flow.branchEdges id).map (·.target) =
      ((flow.branchEdges id).filter (fun edge => ¬ edit.Moves flow edge) ++
        (flow.branchEdges id).filter (edit.Moves flow ·)).map (edit.seat flow new) := by
  obtain ⟨new, first, seated⟩ := branchEdges_of_putsIn puts
    (nodup_branchEdges distinct named) known done fresh stays
  refine ⟨new, first, ?_⟩
  rw [seated, List.map_append, List.map_append, List.map_map]
  congr 1
  · refine List.map_congr_left fun edge member => (if_neg ?_).symm
    exact of_decide_eq_true (List.mem_filter.mp member).2
  · refine List.map_congr_left fun edge member => (if_pos ?_).symm
    exact of_decide_eq_true (List.mem_filter.mp member).2

/-- If the names are given to the branches in the order of their edges after a step was put in,
each branch keeps its name if and only if the branches that were taken over came last. -/
theorem keepsNames_iff_pairwise
    (renamed : last.branchEdges id =
      (names.zip (change.flow.branchEdges id)).map fun arm => arm.2.named arm.1) :
    edit.KeepsNames flow change last id ↔ (flow.branchEdges id).Pairwise
      fun first second => edit.Moves flow first → edit.Moves flow second := by
  obtain ⟨new, first, targets⟩ :=
    exists_targets_of_putsIn puts known distinct named done fresh stays
  rw [keepsNames_iff_map_eq distinct named first
    (length_branchEdges_of_putsIn puts known distinct named done fresh stays) renamed, targets]
  constructor
  · intro same
    -- The order of the edges is told from where they lead: to the new step or not.
    have sorted := @pairwise_filter_not_append_filter _ (edit.Moves flow) _ (flow.branchEdges id)
    have seats : ((flow.branchEdges id).map (edit.seat flow new)).Pairwise
        fun first second => first = new → second = new := by
      rw [same, List.pairwise_map]
      refine sorted.imp_of_mem fun {before behind} member memberToo moves turns => ?_
      have starts : before ∈ flow.branchEdges id ∧ behind ∈ flow.branchEdges id := by
        simp only [List.mem_append, List.mem_filter] at member memberToo
        exact ⟨member.elim And.left And.left, memberToo.elim And.left And.left⟩
      exact (moves_iff_seat_eq fresh first starts.2).mp
        (moves ((moves_iff_seat_eq fresh first starts.1).mpr turns))
    rw [List.pairwise_map] at seats
    refine seats.imp_of_mem fun {before behind} member memberToo turns moves => ?_
    exact (moves_iff_seat_eq fresh first memberToo).mpr
      (turns ((moves_iff_seat_eq fresh first member).mp moves))
  · intro last
    rw [filter_not_append_filter last]

end Named

end Edit

namespace Session

variable {session grown last : Session} {edit : Edit} {change : Change}
  {outcome : Except Refusal Change} {head : NodeId} {names : List String}

/-- A step is put in, and the head stays. Then the names that the branches of the head bore before
are set again. Each branch keeps its name if and only if that is refused, or the branches that the
step took over came last. -/
theorem keepsNames_iff (puts : edit.PutsIn) (known : head ∈ session.flow.ids)
    (distinct : names.Nodup)
    (named : (session.flow.branchEdges head).map (·.branch) = names.map some)
    (grows : session.perform edit = (.ok change, grown)) (fresh : change.FreshFor session.flow)
    (stays : head ∉ change.removed)
    (sets : grown.perform (.setBranches head names) = (outcome, last)) :
    edit.KeepsNames session.flow change last.flow head ↔
      (∃ refusal, outcome = .error refusal) ∨ (session.flow.branchEdges head).Pairwise
        fun first second => edit.Moves session.flow first → edit.Moves session.flow second := by
  cases done : edit.run session.flow session.limits session.supply with
  | error refusal => cases (perform_of_error done).symm.trans grows
  | ok made =>
    obtain ⟨made, left⟩ := made
    rw [perform_of_ok done, Prod.mk.injEq] at grows
    obtain ⟨same, rfl⟩ := grows
    obtain rfl := Except.ok.inj same
    cases again : (Edit.setBranches head names).run made.flow session.limits left with
    | error refusal =>
      rw [perform_of_error again, Prod.mk.injEq] at sets
      obtain ⟨rfl, rfl⟩ := sets
      exact iff_of_true (Edit.keepsNames_of_putsIn puts known distinct named done fresh stays)
        (.inl ⟨refusal, rfl⟩)
    | ok set =>
      obtain ⟨set, rest⟩ := set
      rw [perform_of_ok again, Prod.mk.injEq] at sets
      obtain ⟨rfl, rfl⟩ := sets
      obtain ⟨node, merge, found, -, -, -, slots, -, rfl⟩ := Edit.setBranches_cases again
      obtain rfl := Flow.id_of_node?_eq_some found
      have renamed := @Flow.branchEdges_withBranches_of_length made.flow node merge names slots
        (Flow.loopBypass_notMem named) found
        (Edit.length_branchEdges_of_putsIn puts known distinct named done fresh stays)
      rw [Edit.keepsNames_iff_pairwise puts known distinct named done fresh stays renamed]
      simp

/-- A session on a parallel step with two branches. -/
def racked : Session := ⟨Edit.rack, .numbered, {}⟩

/-- A step is put in on a branch. -/
def rackGrown (target : NodeId) : Except Refusal Change × Session :=
  racked.perform (.insert "fork" target "action" none none)

/-- Then the names that the branches bore are set again. -/
def rackRenamed (target : NodeId) : Except Refusal Change × Session :=
  (rackGrown target).2.perform (.setBranches "fork" ["A", "B"])

/-- After a step was put in on the first branch names change places, and after one was put in on the
last branch they do not. -/
theorem keepsNames_iff_rack : ∃ first last,
    (rackGrown "slot").1 = .ok first ∧ (rackGrown "step").1 = .ok last ∧
    ¬ (Edit.insert "fork" "slot" "action" none none).KeepsNames racked.flow first
      (rackRenamed "slot").2.flow "fork" ∧
    (Edit.insert "fork" "step" "action" none none).KeepsNames racked.flow last
      (rackRenamed "step").2.flow "fork" := by
  have named : (racked.flow.branchEdges "fork").map (·.branch) = ["A", "B"].map some := by
    decide +kernel
  obtain ⟨first, grows⟩ : ∃ change, (rackGrown "slot").1 = .ok change := ⟨_, rfl⟩
  obtain ⟨last, growsToo⟩ : ∃ change, (rackGrown "step").1 = .ok change := ⟨_, rfl⟩
  have fresh : first.FreshFor racked.flow ∧ "fork" ∉ first.removed := by
    cases grows
    decide +kernel
  have freshToo : last.FreshFor racked.flow ∧ "fork" ∉ last.removed := by
    cases growsToo
    decide +kernel
  have exactly := @keepsNames_iff racked (rackGrown "slot").2 (rackRenamed "slot").2
    (.insert "fork" "slot" "action" none none) first (rackRenamed "slot").1 "fork" ["A", "B"]
    trivial (by decide) (by decide) named (congrArg (·, _) grows) fresh.1 fresh.2 rfl
  have exactlyToo := @keepsNames_iff racked (rackGrown "step").2 (rackRenamed "step").2
    (.insert "fork" "step" "action" none none) last (rackRenamed "step").1 "fork" ["A", "B"]
    trivial (by decide) (by decide) named (congrArg (·, _) growsToo) freshToo.1 freshToo.2 rfl
  refine ⟨first, last, grows, growsToo, fun keeps => ?_, exactlyToo.mpr (.inr (by decide +kernel))⟩
  rcases exactly.mp keeps with ⟨refusal, refused⟩ | behind
  · obtain ⟨change, set⟩ : ∃ change, (rackRenamed "slot").1 = .ok change := ⟨_, rfl⟩
    cases set.symm.trans refused
  · exact absurd behind (by decide +kernel)

/-- The block has no cycle, its edges bear the names in its settings, and each branch leads to its
merge. A step is put in on the branch with the first name, and the names are set again. Then the
other branch bears the first name. -/
theorem not_keepsNames_rack : racked.flow.ids.Nodup ∧ racked.flow.Acyclic ∧
    (∃ head members, racked.flow.node? "fork" = some head ∧ head.blockKind? = some .parallel ∧
      head.content.params = some members ∧
      members.get? "branches" = some (.ofTexts ["A", "B"])) ∧
    (racked.flow.branchEdges "fork").map (·.branch) = [some "A", some "B"] ∧
    racked.flow.merge? racked.limits "fork" = some "join" ∧
    (∀ edge ∈ racked.flow.branchEdges "fork", racked.flow.Leads edge.target "join") ∧
    ∃ first second, (rackGrown "slot").1 = .ok first ∧ first.FreshFor racked.flow ∧
      (rackRenamed "slot").1 = .ok second ∧ second.flow = (rackRenamed "slot").2.flow ∧
      .connect "fork" "step" (some "B") ∈ racked.flow.branchEdges "fork" ∧
      .connect "fork" "step" (some "A") ∈ second.flow.branchEdges "fork" ∧
      ¬ (Edit.insert "fork" "slot" "action" none none).KeepsNames racked.flow first second.flow
        "fork" := by
  refine ⟨by decide, Flow.acyclic_of_order ["fork", "slot", "step", "join", "end"]
    (by decide +kernel), ⟨_, _, rfl, by decide +kernel, rfl, rfl⟩, by decide +kernel,
    by decide +kernel, fun edge member => Flow.leads_iff_mem_children.mpr ?_, _, _, rfl,
    by decide +kernel, rfl, rfl, by decide +kernel, by decide +kernel, by decide +kernel⟩
  revert edge
  decide +kernel

end Session

end Workflow
