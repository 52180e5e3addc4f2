import Workflow.Proofs.Editing.Lookup

/-!
# The edges next to an item

In a well-nested flow one edge at most leads into an item, and one at most out of it. When the
nodes of the item are taken out, the edges that stay are those around it and those of what
comes behind it.

## Main results

* `Nests.edgesTo_first`, `Nests.edgesFrom_last` — the edges into and out of an item
* `Nests.wires_without` — the edges that stay without the item
-/

namespace Workflow

namespace Flow

variable {flow : Flow} {context : Line.Context} {item : Item} {out : Option String} {rest part : Line}
  {wire : Wire} {id : NodeId} {port : Port}

theorem map_wire_edgesTo (flow : Flow) (id : NodeId) :
    (flow.edgesTo id).map Edge.wire = flow.wires.filter (·.target = id) := by
  rw [edgesTo, wires, List.filter_map]
  rfl

theorem map_wire_edgesFrom (flow : Flow) (id : NodeId) :
    (flow.edgesFrom id).map Edge.wire = flow.wires.filter (·.source = id) := by
  rw [edgesFrom, wires, List.filter_map]
  rfl

/-- There is one edge at most between two given ends. -/
theorem eq_link_of_perm {wires : List Wire} {entry : Option Port} {exit : Option NodeId}
    (h : wires.Perm (link entry exit)) : wires = link entry exit := by
  rcases entry with _ | port <;> rcases exit with _ | target
  · exact List.perm_nil.mp h
  · exact List.perm_nil.mp h
  · exact List.perm_nil.mp h
  · exact List.perm_singleton.mp h

theorem length_link_le (entry : Option Port) (exit : Option NodeId) :
    (link entry exit).length ≤ 1 := by
  cases entry <;> cases exit <;> simp [link]

/-! ### Where the nodes of a well-nested flow are -/

section Item

variable (nests : flow.Nests (context.plug (.cons item out rest)))
include nests

theorem Nests.mem_ids_of_context (h : id ∈ context.ids) : id ∈ flow.ids :=
  nests.ids_perm.mem_iff.mpr (List.mem_append_left _ h)

theorem Nests.mem_ids_of_rest (h : id ∈ rest.ids) : id ∈ flow.ids :=
  nests.ids_perm.mem_iff.mpr (by simp [h])

theorem Nests.notMem_item_of_context (h : id ∈ context.ids) : id ∉ item.ids := fun inside =>
  (List.nodup_append.mp nests.nodup).2.2 id h id (by simp [inside]) rfl

theorem Nests.notMem_item_of_rest (h : id ∈ rest.ids) : id ∉ item.ids := by
  have distinct := (List.nodup_append.mp nests.nodup).2.1
  rw [Line.ids_cons] at distinct
  exact fun inside => (List.nodup_append.mp distinct).2.2 id inside id h rfl

theorem Nests.notMem_item_of_exit (h : context.exit none = some id) : id ∉ item.ids :=
  nests.notMem_item_of_context (Line.Context.mem_ids_of_exit h)

theorem Nests.notMem_item_of_entrance (h : rest.entrance (context.exit none) = some id) :
    id ∉ item.ids := by
  rcases List.mem_append.mp (Line.mem_of_entrance h) with behind | exit
  · exact nests.notMem_item_of_rest behind
  · exact nests.notMem_item_of_exit (by simpa using exit)

theorem Nests.notMem_item_of_entry (h : context.entry none = some port) : port.node ∉ item.ids :=
  nests.notMem_item_of_context (Line.Context.node_mem_ids_of_entry h)

/-- The edges around an item, into it, inside it, out of it and behind it. -/
theorem Nests.wires_split : flow.wires.Perm (context.wires none none ++
    (link (context.entry none) (some item.first) ++ item.wires ++
      (link (some ⟨item.last, out⟩) (rest.entrance (context.exit none)) ++
        rest.inner (context.exit none)))) := by
  have split := nests.wires_perm
  rw [Line.wires, rest.wires_eq] at split
  exact split

/-- An edge around an item has no end in it. -/
theorem Nests.apart_of_mem_context (h : wire ∈ context.wires none none) :
    wire.source ∉ item.ids ∧ wire.target ∉ item.ids := by
  obtain ⟨source, target⟩ := Line.Context.mem_of_mem_wires h
  exact ⟨nests.notMem_item_of_context (by simpa using source),
    nests.notMem_item_of_context (by simpa using target)⟩

/-- An edge behind an item has no end in it. -/
theorem Nests.apart_of_mem_inner (h : wire ∈ rest.inner (context.exit none)) :
    wire.source ∉ item.ids ∧ wire.target ∉ item.ids := by
  refine ⟨nests.notMem_item_of_rest (Line.source_mem_inner h), ?_⟩
  rcases List.mem_append.mp (Line.target_mem_inner h) with behind | exit
  · exact nests.notMem_item_of_rest behind
  · exact nests.notMem_item_of_exit (by simpa using exit)

/-- Of the edges of a well-nested flow, those that touch an item are into it, inside it or out
of it. -/
theorem Nests.filter_wires {touches : Wire → Bool}
    (h : ∀ wire, touches wire = true → wire.source ∈ item.ids ∨ wire.target ∈ item.ids) :
    (flow.wires.filter touches).Perm
      ((link (context.entry none) (some item.first)).filter touches ++ item.wires.filter touches ++
        (link (some ⟨item.last, out⟩) (rest.entrance (context.exit none))).filter touches) := by
  have missed : ∀ {wires : List Wire}, (∀ wire ∈ wires, wire.source ∉ item.ids ∧
      wire.target ∉ item.ids) → wires.filter touches = [] := by
    intro wires apart
    apply List.filter_eq_nil_iff.mpr
    intro wire member touched
    exact (h wire touched).elim (apart wire member).1 (apart wire member).2
  have around := missed fun _ member => nests.apart_of_mem_context member
  have behind := missed fun _ member => nests.apart_of_mem_inner member
  apply (nests.wires_split.filter touches).trans
  simp only [List.filter_append, around, behind, List.nil_append, List.append_nil, List.Perm.refl]

/-- The edge into an item is the one from its entry, if there is one. -/
theorem Nests.edgesTo_first :
    (flow.edgesTo item.first).map Edge.wire = link (context.entry none) (some item.first) := by
  have touching := @Nests.filter_wires _ _ _ _ _ nests (·.target = item.first) fun wire same =>
    .inr (of_decide_eq_true same ▸ item.first_mem_ids)
  have into : (link (context.entry none) (some item.first)).filter (·.target = item.first) =
      link (context.entry none) (some item.first) := by
    apply List.filter_eq_self.mpr
    intro wire member
    exact decide_eq_true (Option.some.inj (mem_link.mp member).2).symm
  have inside : item.wires.filter (·.target = item.first) = [] := by
    apply List.filter_eq_nil_iff.mpr
    intro wire member same
    exact Item.target_ne_first nests.hosts.distinct member (of_decide_eq_true same)
  have outOf : (link (some ⟨item.last, out⟩) (rest.entrance (context.exit none))).filter
      (·.target = item.first) = [] := by
    apply List.filter_eq_nil_iff.mpr
    intro wire member same
    have apart := nests.notMem_item_of_entrance (mem_link.mp member).2
    rw [of_decide_eq_true same] at apart
    exact apart item.first_mem_ids
  rw [into, inside, outOf, List.append_nil, List.append_nil] at touching
  rw [map_wire_edgesTo]
  exact eq_link_of_perm touching

/-- The edge out of an item is the one to what comes behind it, if there is something. -/
theorem Nests.edgesFrom_last : (flow.edgesFrom item.last).map Edge.wire =
    link (some ⟨item.last, out⟩) (rest.entrance (context.exit none)) := by
  have touching := @Nests.filter_wires _ _ _ _ _ nests (·.source = item.last) fun wire same =>
    .inl (of_decide_eq_true same ▸ item.last_mem_ids)
  have into : (link (context.entry none) (some item.first)).filter (·.source = item.last) = [] := by
    apply List.filter_eq_nil_iff.mpr
    intro wire member same
    have apart := nests.notMem_item_of_entry (mem_link.mp member).1
    rw [of_decide_eq_true same] at apart
    exact apart item.last_mem_ids
  have inside : item.wires.filter (·.source = item.last) = [] := by
    apply List.filter_eq_nil_iff.mpr
    intro wire member same
    exact Item.source_ne_last nests.hosts.distinct member (of_decide_eq_true same)
  have outOf : (link (some ⟨item.last, out⟩) (rest.entrance (context.exit none))).filter
      (·.source = item.last) = link (some ⟨item.last, out⟩) (rest.entrance (context.exit none)) := by
    apply List.filter_eq_self.mpr
    intro wire member
    have port := Option.some.inj (mem_link.mp member).1
    exact decide_eq_true (congrArg Port.node port).symm
  rw [into, inside, outOf, List.nil_append, List.nil_append] at touching
  rw [map_wire_edgesFrom]
  exact eq_link_of_perm touching

theorem Nests.length_edgesTo_first_le : (flow.edgesTo item.first).length ≤ 1 := by
  rw [← List.length_map Edge.wire, nests.edgesTo_first]
  exact length_link_le _ _

theorem Nests.length_edgesFrom_last_le : (flow.edgesFrom item.last).length ≤ 1 := by
  rw [← List.length_map Edge.wire, nests.edgesFrom_last]
  exact length_link_le _ _

/-- Into an item leads no edge, or one from its entry. -/
theorem Nests.edgesTo_cases :
    context.entry none = none ∧ flow.edgesTo item.first = [] ∨
      ∃ edge port, context.entry none = some port ∧ flow.edgesTo item.first = [edge] ∧
        edge.source = port.node ∧ edge.branch = port.branch := by
  have into := nests.edgesTo_first
  cases entry : context.entry none with
  | none =>
    rw [entry] at into
    exact .inl ⟨rfl, List.map_eq_nil_iff.mp into⟩
  | some port =>
    rw [entry] at into
    obtain ⟨edge, only, wire⟩ := List.map_eq_singleton_iff.mp into
    exact .inr ⟨edge, port, rfl, only, congrArg Wire.source wire, congrArg Wire.branch wire⟩

/-- Out of an item leads no edge, or one to what comes behind it. -/
theorem Nests.edgesFrom_cases :
    rest.entrance (context.exit none) = none ∧ flow.edgesFrom item.last = [] ∨
      ∃ edge, rest.entrance (context.exit none) = some edge.target ∧
        flow.edgesFrom item.last = [edge] := by
  have outOf := nests.edgesFrom_last
  cases entrance : rest.entrance (context.exit none) with
  | none =>
    rw [entrance] at outOf
    exact .inl ⟨rfl, List.map_eq_nil_iff.mp outOf⟩
  | some target =>
    rw [entrance] at outOf
    obtain ⟨edge, only, wire⟩ := List.map_eq_singleton_iff.mp outOf
    exact .inr ⟨edge, congrArg (some ∘ Wire.target) wire.symm, only⟩

/-- Without the nodes of an item, the edges around it and behind it stay. -/
theorem Nests.wires_without : (flow.without item.ids).wires.Perm
    (context.wires none none ++ rest.inner (context.exit none)) := by
  rw [Flow.wires_without]
  -- Edges into the item, inside it and out of it have an end in it, and the others have none.
  apply (nests.wires_split.filter _).trans
  have around : (context.wires none none).filter (fun wire =>
      wire.source ∉ item.ids ∧ wire.target ∉ item.ids) = context.wires none none :=
    List.filter_eq_self.mpr fun wire member => decide_eq_true (nests.apart_of_mem_context member)
  have into : (link (context.entry none) (some item.first)).filter (fun wire =>
      wire.source ∉ item.ids ∧ wire.target ∉ item.ids) = [] := by
    apply List.filter_eq_nil_iff.mpr
    intro wire member kept
    have target := Option.some.inj (mem_link.mp member).2
    exact (of_decide_eq_true kept).2 (target ▸ item.first_mem_ids)
  have inside : item.wires.filter (fun wire =>
      wire.source ∉ item.ids ∧ wire.target ∉ item.ids) = [] :=
    List.filter_eq_nil_iff.mpr fun wire member kept =>
      (of_decide_eq_true kept).1 (Item.source_mem_ids member)
  have outOf : (link (some ⟨item.last, out⟩) (rest.entrance (context.exit none))).filter
      (fun wire => wire.source ∉ item.ids ∧ wire.target ∉ item.ids) = [] := by
    apply List.filter_eq_nil_iff.mpr
    intro wire member kept
    have source : item.last = wire.source :=
      congrArg Port.node (Option.some.inj (mem_link.mp member).1)
    exact (of_decide_eq_true kept).1 (source ▸ item.last_mem_ids)
  have behind : (rest.inner (context.exit none)).filter (fun wire =>
      wire.source ∉ item.ids ∧ wire.target ∉ item.ids) = rest.inner (context.exit none) :=
    List.filter_eq_self.mpr fun wire member => decide_eq_true (nests.apart_of_mem_inner member)
  simp only [List.filter_append, around, into, inside, outOf, behind, List.nil_append,
    List.Perm.refl]

/-- Without the nodes of an item, those around it and behind it stay. -/
theorem Nests.ids_without : (flow.without item.ids).ids.Perm (context.ids ++ rest.ids) := by
  rw [Flow.ids_without]
  apply (nests.ids_perm.filter _).trans
  have around : context.ids.filter (· ∉ item.ids) = context.ids :=
    List.filter_eq_self.mpr fun id member => decide_eq_true (nests.notMem_item_of_context member)
  have inside : item.ids.filter (· ∉ item.ids) = [] :=
    List.filter_eq_nil_iff.mpr fun id member kept => of_decide_eq_true kept member
  have behind : rest.ids.filter (· ∉ item.ids) = rest.ids :=
    List.filter_eq_self.mpr fun id member => decide_eq_true (nests.notMem_item_of_rest member)
  simp only [Line.ids_cons, List.filter_append, around, inside, behind, List.nil_append,
    List.Perm.refl]

end Item

/-! ### The roles next to an item -/

/-- An item is not entered at a merge. -/
theorem Nests.isMerge_first (nests : flow.Nests (context.plug (.cons item out rest))) :
    flow.isMerge item.first = false := by
  obtain ⟨spot, member, same, plain⟩ := item.exists_first_role 0
  have plays := (nests.hosts.fits.plays spot member).2
  rw [same] at plays
  exact plays.trans plain

/-- A part leads on to a merge. -/
theorem Nests.isMerge_exit (nests : flow.Nests (context.plug part))
    (h : context.exit none = some id) : flow.isMerge id = true := by
  rcases Line.Context.exists_spot_of_exit 0 h with outer | ⟨spot, member, rfl, joins⟩
  · cases outer
  · rw [(nests.plays_parts.1 spot member).2, joins]
    rfl

/-- A part that begins a branch is entered from a head, and other parts are not. -/
theorem Nests.isHead_entry (nests : flow.Nests (context.plug part))
    (h : context.entry none = some port) : flow.isHead port.node = context.opens := by
  have layered : context ≠ [] := by
    rintro rfl
    cases h
  obtain ⟨spot, member, same, opens⟩ := Line.Context.exists_spot_of_entry 0 h layered
  rw [← same, (nests.plays_parts.1 spot member).1, opens]

section Block

variable {head merge : NodeId} {lanes : List Lane}
  (nests : flow.Nests (context.plug (.cons (.block head lanes merge) out rest)))
include nests

/-- The roles of the ends of a block. -/
theorem Nests.plays_ends : flow.Plays head .head ∧ flow.Plays merge .merge :=
  nests.hosts.plays_ends

theorem Nests.mem_ids_ends : head ∈ flow.ids ∧ merge ∈ flow.ids :=
  ⟨nests.mem_ids_of_item (Item.first_mem_ids _), nests.mem_ids_of_item (by simp)⟩

end Block

/-- A node of a well-nested flow is a step, the head of a block or the merge of one, and plays
that role. -/
theorem Nests.place_cases {line : Line} (nests : flow.Nests line) (known : id ∈ flow.ids) :
    (∃ context out rest, line = Line.Context.plug context (.cons (.step id) out rest) ∧
      flow.Plays id .step) ∨
    (∃ context lanes merge out rest,
      line = Line.Context.plug context (.cons (.block id lanes merge) out rest) ∧
      flow.Plays id .head) ∨
    ∃ context head lanes out rest,
      line = Line.Context.plug context (.cons (.block head lanes id) out rest) ∧
      flow.Plays id .merge := by
  obtain ⟨context, item, out, rest, rfl, ends⟩ :=
    Line.exists_context_of_mem_ids (nests.ids.mem_iff.mp known)
  cases item with
  | step own =>
    obtain rfl : id = own := ends.elim (fun first => first) fun last => last
    have plays := nests.hosts.fits.plays ⟨id, .step, 0⟩ (List.mem_singleton.mpr rfl)
    exact .inl ⟨context, out, rest, rfl, plays⟩
  | block head lanes merge =>
    right
    rcases ends with first | last
    · obtain rfl : id = head := first
      exact .inl ⟨context, lanes, merge, out, rest, rfl, nests.plays_ends.1⟩
    · obtain rfl : id = merge := last
      exact .inr ⟨context, head, lanes, out, rest, rfl, nests.plays_ends.2⟩

/-- Where a flow opens a block, its sequence does. -/
theorem Nests.exists_block_of_isHead {line : Line} (nests : flow.Nests line)
    (opens : flow.isHead id = true) : ∃ context lanes merge out rest,
      line = Line.Context.plug context (.cons (.block id lanes merge) out rest) := by
  rcases nests.place_cases (mem_ids_of_isHead opens) with
    ⟨_, _, _, -, plays⟩ | ⟨context, lanes, merge, out, rest, whole, -⟩ | ⟨_, _, _, _, _, -, plays⟩
  · exact absurd (plays.1.symm.trans opens) Bool.false_ne_true
  · exact ⟨context, lanes, merge, out, rest, whole⟩
  · exact absurd (plays.1.symm.trans opens) Bool.false_ne_true

/-- Where a flow has a merge, its sequence closes a block. -/
theorem Nests.exists_block_of_isMerge {line : Line} (nests : flow.Nests line)
    (joins : flow.isMerge id = true) : ∃ context head lanes out rest,
      line = Line.Context.plug context (.cons (.block head lanes id) out rest) := by
  rcases nests.place_cases (mem_ids_of_isMerge joins) with
    ⟨_, _, _, -, plays⟩ | ⟨_, _, _, _, _, -, plays⟩ | ⟨context, head, lanes, out, rest, whole, -⟩
  · exact absurd (plays.2.symm.trans joins) Bool.false_ne_true
  · exact absurd (plays.2.symm.trans joins) Bool.false_ne_true
  · exact ⟨context, head, lanes, out, rest, whole⟩

/-- Where a flow has a plain step, its sequence has. -/
theorem Nests.exists_step_of_plays {line : Line} (nests : flow.Nests line) (known : id ∈ flow.ids)
    (plays : flow.Plays id .step) : ∃ context out rest,
      line = Line.Context.plug context (.cons (.step id) out rest) := by
  rcases nests.place_cases known with
    ⟨context, out, rest, whole, -⟩ | ⟨_, _, _, _, _, -, opens⟩ | ⟨_, _, _, _, _, -, joins⟩
  · exact ⟨context, out, rest, whole⟩
  · exact absurd (plays.1.symm.trans opens.1) Bool.false_ne_true
  · exact absurd (plays.2.symm.trans joins.2) Bool.false_ne_true

end Flow

end Workflow
