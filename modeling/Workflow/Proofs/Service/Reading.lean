import Mathlib.Data.List.Basic
import Workflow.Flow.Document

/-!
# Documents are read as they were written

What is written gives each field under its wire name, and then the further members. It is read as
it was if no further member has the wire name of a field, and a document that was read has none.

## Main definitions

* `Json.Members.Off` — members that have no wire name of a field
* `Flow.Legible` — a flow whose further members are off the fields

## Main results

* `Flow.legible_of_ofJson` — what was read is legible
* `Flow.Legible.ofJson_toJson` — what is legible is read as it was
-/

namespace Workflow

open Schema

/-- No member has the wire name of a field. -/
def Json.Members.Off (members : Json.Members) (spellings : List Spelling) : Prop :=
  ∀ member ∈ members, ∀ spelling ∈ spellings, member.1 ≠ spelling.wire

instance (members : Json.Members) (spellings : List Spelling) : Decidable (members.Off spellings) :=
  inferInstanceAs (Decidable (∀ member ∈ members, _))

namespace Schema

variable {α β : Type} {outcome argument : Checked α} {function : Checked (α → β)} {f : α → β}
  {a absent : α} {b : β} {key : Key} {position : Nat} {spelling : Spelling}
  {spellings : List Spelling} {members fields extras : Json.Members} {value : Json}

/-! ### Outcomes -/

namespace Checked

theorem map_eq_valid_iff : map f outcome = valid b ↔ ∃ a, outcome = valid a ∧ f a = b := by
  cases outcome <;> simp [map]

theorem apply_eq_valid_iff : apply function argument = valid b ↔
    ∃ f a, function = valid f ∧ argument = valid a ∧ f a = b := by
  cases function <;> cases argument <;> simp [apply]

@[simp] theorem within_eq_valid_iff : within key outcome = valid a ↔ outcome = valid a := by
  cases outcome <;> simp [within]

/-- Each item of a list that passes was read from an item that passes. -/
theorem exists_of_mem_allFrom {check : β → Checked α} {items : List β} {values : List α}
    (h : allFrom check position items = valid values) (member : a ∈ values) :
    ∃ item ∈ items, check item = valid a := by
  induction items generalizing position values with
  | nil =>
    rw [allFrom, valid.injEq] at h
    rw [← h] at member
    cases member
  | cons item rest ih =>
    simp only [allFrom, apply_eq_valid_iff, map_eq_valid_iff, within_eq_valid_iff] at h
    obtain ⟨_, others, ⟨first, passes, rfl⟩, later, rfl⟩ := h
    rcases List.mem_cons.mp member with rfl | member
    · exact ⟨item, List.mem_cons_self, passes⟩
    · obtain ⟨other, inside, passes⟩ := ih later member
      exact ⟨other, List.mem_cons_of_mem _ inside, passes⟩

/-- A list is read as it was written if each of its items is. -/
theorem allFrom_map {check : β → Checked α} {write : α → β} {values : List α}
    (reads : ∀ value ∈ values, check (write value) = valid value) :
    allFrom check position (values.map write) = valid values := by
  induction values generalizing position with
  | nil => rfl
  | cons value rest ih =>
    rw [List.map_cons, allFrom, reads value List.mem_cons_self,
      ih fun other member => reads other (List.mem_cons_of_mem _ member)]
    rfl

end Checked

/-! ### Fields -/

theorem find?_of_get? (h : members.get? spelling.wire = some value) :
    spelling.find? members = some (spelling.wire, value) := by
  rw [Spelling.find?, h]

theorem required_of_get? {check : Check α} (h : members.get? spelling.wire = some value)
    (passes : check value = .valid a) : required spelling check members = .valid a := by
  rw [required, find?_of_get? h]
  exact Checked.within_eq_valid_iff.mpr passes

theorem defaulted_of_get? {check : Check α} (h : members.get? spelling.wire = some value)
    (passes : check value = .valid a) : defaulted spelling absent check members = .valid a := by
  rw [defaulted, find?_of_get? h]
  exact Checked.within_eq_valid_iff.mpr passes

/-- A text, or `null` for none, is read as it was written. -/
theorem nullable_ofText? (name : Option String) : nullable text (.ofText? name) = .valid name := by
  cases name <;> rfl

/-- A table, or `null` for none, is read as it was written. -/
theorem nullable_ofTable? (entries : Option Json.Members) :
    nullable table (.ofTable? entries) = .valid entries := by
  cases entries <;> rfl

theorem optional_text_of_get? {name : Option String}
    (h : members.get? spelling.wire = some (.ofText? name)) :
    optional spelling text members = .valid name :=
  defaulted_of_get? h (nullable_ofText? name)

theorem required_text_of_get? {name : String} (h : members.get? spelling.wire = some (.str name)) :
    required spelling text members = .valid name :=
  required_of_get? h rfl

theorem optional_table_of_get? {entries : Option Json.Members}
    (h : members.get? spelling.wire = some (.ofTable? entries)) :
    optional spelling table members = .valid entries :=
  defaulted_of_get? h (nullable_ofTable? entries)

theorem flagged_of_get? {holds : Bool} (h : members.get? spelling.wire = some (.bool holds)) :
    flagged spelling members = .valid holds :=
  defaulted_of_get? h rfl

/-- A list is read as it was written if each of its items is. -/
theorem list_map {check : Check α} {write : α → Json} {values : List α}
    (reads : ∀ value ∈ values, check (write value) = .valid value) :
    list check (.arr (values.map write)) = .valid values :=
  Checked.allFrom_map reads

theorem exists_of_mem_list {check : Check α} {values : List α} (h : list check value = .valid values)
    (member : a ∈ values) : ∃ item, check item = .valid a := by
  cases value with
  | arr items =>
    obtain ⟨item, -, passes⟩ := Checked.exists_of_mem_allFrom h member
    exact ⟨item, passes⟩
  | _ => cases h

/-- What no field takes has the wire name of none. -/
theorem off_further (spellings : List Spelling) (members : Json.Members) :
    (further spellings members).Off spellings := by
  intro member inside spelling known same
  have left := (List.mem_filter.mp inside).2
  rw [Bool.not_eq_true', List.any_eq_false] at left
  exact left spelling known (by simp [Spelling.takes, same])

/-- Members behind all fields are left over if they have no wire name of a field. A plain name is
not taken, since the wire name is there. -/
theorem further_append (named : fields.map (·.1) = spellings.map Spelling.wire)
    (off : extras.Off spellings) : further spellings (fields ++ extras) = extras := by
  have taken : ∀ member ∈ fields,
      spellings.any (·.takes (fields ++ extras) member.1) = true := by
    intro member inside
    have known : member.1 ∈ spellings.map Spelling.wire := named ▸ List.mem_map_of_mem inside
    obtain ⟨spelling, field, same⟩ := List.mem_map.mp known
    exact List.any_eq_true.mpr ⟨spelling, field, by simp [Spelling.takes, same]⟩
  have spared : ∀ member ∈ extras,
      spellings.any (·.takes (fields ++ extras) member.1) = false := by
    intro member inside
    rw [List.any_eq_false]
    intro spelling field
    have there : spelling.wire ∈ fields.map (·.1) := named ▸ List.mem_map_of_mem field
    obtain ⟨written, first, same⟩ := List.mem_map.mp there
    have has : (fields ++ extras).has spelling.wire = true := by
      rw [Json.Members.has, Json.Members.get?, Option.isSome_map, List.find?_isSome]
      exact ⟨written, List.mem_append_left _ first, decide_eq_true same⟩
    simp [Spelling.takes, has, off member inside spelling field]
  rw [further, List.filter_append, List.filter_eq_nil_iff.mpr fun member inside => by
    simp [taken member inside], List.nil_append]
  exact List.filter_eq_self.mpr fun member inside => by simp [spared member inside]

end Schema

/-! ### Records -/

/-- The further members of a content have no wire name of a field. -/
def Content.Legible (content : Content) : Prop := content.extras.Off Content.Field.all

/-- The further members of a node, and of its content, have no wire name of a field. -/
structure Node.Legible (node : Node) : Prop where
  extras : node.extras.Off Node.Field.all
  content : node.content.Legible

/-- The further members of an edge have no wire name of a field. -/
def Edge.Legible (edge : Edge) : Prop := edge.extras.Off Edge.Field.all

/-- The further members of all nodes and edges have no wire name of a field. -/
structure Flow.Legible (flow : Flow) : Prop where
  nodes : ∀ node ∈ flow.nodes, node.Legible
  edges : ∀ edge ∈ flow.edges, edge.Legible

namespace Content

variable {content : Content} {value : Json} {members : Json.Members}

theorem extras_of_ofMembers (h : ofMembers members = .valid content) :
    content.extras = further Field.all members := by
  simp only [ofMembers, Checked.functorMap_eq, Checked.seq_eq, Checked.pure_eq,
    Checked.apply_eq_valid_iff, Checked.map_eq_valid_iff, Checked.valid.injEq] at h
  obtain ⟨_, _, ⟨_, _, ⟨_, _, ⟨_, _, ⟨_, _, ⟨_, _, ⟨_, _, ⟨_, _, ⟨_, _, rfl⟩, _, rfl⟩, _, rfl⟩, _, rfl⟩,
    _, rfl⟩, _, rfl⟩, _, rfl⟩, _, rfl⟩, rfl, rfl⟩ := h
  rfl

theorem legible_of_ofJson (h : ofJson value = .valid content) : content.Legible := by
  cases value with
  | obj members =>
    rw [Legible, extras_of_ofMembers h]
    exact off_further _ _
  | _ => cases h

theorem legible_empty : Legible {} := by
  intro member inside
  cases inside

theorem legible_of_ofJsonOrNull (h : ofJsonOrNull value = .valid content) : content.Legible := by
  cases value with
  | null =>
    rw [ofJsonOrNull, Checked.valid.injEq] at h
    exact h ▸ legible_empty
  | _ => exact legible_of_ofJson h

theorem get?_toMembers (content : Content) :
    content.toMembers.get? Field.label.wire = some (.ofText? content.label) ∧
    content.toMembers.get? Field.subLabel.wire = some (.ofText? content.subLabel) ∧
    content.toMembers.get? Field.params.wire = some (.ofTable? content.params) ∧
    content.toMembers.get? Field.isPlaceholder.wire = some (.bool content.isPlaceholder) ∧
    content.toMembers.get? Field.isBranchPlaceholder.wire =
      some (.bool content.isBranchPlaceholder) ∧
    content.toMembers.get? Field.isMergePlaceholder.wire =
      some (.bool content.isMergePlaceholder) ∧
    content.toMembers.get? Field.isMergeNode.wire = some (.bool content.isMergeNode) ∧
    content.toMembers.get? Field.mergeNodeId.wire = some (.ofText? content.mergeNodeId) := by
  simp [toMembers, Json.Members.get?_cons, Spelling.single, Field.label, Field.subLabel,
    Field.params, Field.isPlaceholder, Field.isBranchPlaceholder, Field.isMergePlaceholder,
    Field.isMergeNode, Field.mergeNodeId]

/-- A legible content is read as it was. -/
theorem Legible.ofJson_toJson (legible : content.Legible) :
    ofJson content.toJson = .valid content := by
  obtain ⟨label, subLabel, params, isPlaceholder, isBranchPlaceholder, isMergePlaceholder,
    isMergeNode, mergeNodeId⟩ := get?_toMembers content
  have extras : further Field.all content.toMembers = content.extras := further_append rfl legible
  simp only [toJson, ofJson, record, ofMembers, optional_text_of_get? label,
    optional_text_of_get? subLabel, optional_table_of_get? params, flagged_of_get? isPlaceholder,
    flagged_of_get? isBranchPlaceholder, flagged_of_get? isMergePlaceholder,
    flagged_of_get? isMergeNode, optional_text_of_get? mergeNodeId, extras]
  rfl

end Content

namespace Node

variable {node : Node} {value : Json} {members : Json.Members}

theorem legible_of_ofJson (h : ofJson value = .valid node) : node.Legible := by
  cases value with
  | obj members =>
    simp only [ofJson, record, ofMembers, Checked.functorMap_eq, Checked.seq_eq, Checked.pure_eq,
      Checked.apply_eq_valid_iff, Checked.map_eq_valid_iff, Checked.valid.injEq] at h
    obtain ⟨_, _, ⟨_, content, ⟨_, _, ⟨_, _, rfl⟩, _, rfl⟩, reads, rfl⟩, rfl, rfl⟩ := h
    refine ⟨off_further _ _, ?_⟩
    rw [defaulted] at reads
    split at reads
    · exact Content.legible_of_ofJsonOrNull (Checked.within_eq_valid_iff.mp reads)
    · rw [Checked.valid.injEq] at reads
      subst reads
      exact Content.legible_empty
  | _ => cases h

theorem get?_toMembers (node : Node) :
    node.toMembers.get? Field.id.wire = some (.str node.id) ∧
    node.toMembers.get? Field.kind.wire = some (.ofText? node.kind) ∧
    node.toMembers.get? Field.content.wire = some node.content.toJson := by
  simp [toMembers, Json.Members.get?_cons, Spelling.single, Field.id, Field.kind, Field.content]

/-- A legible node is read as it was. -/
theorem Legible.ofJson_toJson (legible : node.Legible) : ofJson node.toJson = .valid node := by
  obtain ⟨id, kind, content⟩ := get?_toMembers node
  have extras : further Field.all node.toMembers = node.extras := further_append rfl legible.extras
  have reads : Content.ofJsonOrNull node.content.toJson = .valid node.content :=
    legible.content.ofJson_toJson
  simp only [toJson, ofJson, record, ofMembers, required_text_of_get? id,
    optional_text_of_get? kind, defaulted_of_get? content reads, extras]
  rfl

end Node

namespace Edge

variable {edge : Edge} {value : Json} {members : Json.Members}

theorem legible_of_ofJson (h : ofJson value = .valid edge) : edge.Legible := by
  cases value with
  | obj members =>
    simp only [ofJson, record, ofMembers, Checked.functorMap_eq, Checked.seq_eq, Checked.pure_eq,
      Checked.apply_eq_valid_iff, Checked.map_eq_valid_iff, Checked.valid.injEq] at h
    obtain ⟨_, _, ⟨_, _, ⟨_, _, ⟨_, _, ⟨_, _, rfl⟩, _, rfl⟩, _, rfl⟩, _, rfl⟩, rfl, rfl⟩ := h
    exact off_further _ _
  | _ => cases h

theorem get?_toMembers (edge : Edge) :
    edge.toMembers.get? Field.id.wire = some (.ofText? edge.id) ∧
    edge.toMembers.get? Field.source.wire = some (.str edge.source) ∧
    edge.toMembers.get? Field.target.wire = some (.str edge.target) ∧
    edge.toMembers.get? Field.branch.wire = some (.ofText? edge.branch) := by
  simp [toMembers, Json.Members.get?_cons, Spelling.single, Field.id, Field.source, Field.target,
    Field.branch]

/-- A legible edge is read as it was. -/
theorem Legible.ofJson_toJson (legible : edge.Legible) : ofJson edge.toJson = .valid edge := by
  obtain ⟨id, source, target, branch⟩ := get?_toMembers edge
  have extras : further Field.all edge.toMembers = edge.extras := further_append rfl legible
  simp only [toJson, ofJson, record, ofMembers, optional_text_of_get? id,
    required_text_of_get? source, required_text_of_get? target, optional_text_of_get? branch, extras]
  rfl

end Edge

namespace Flow

variable {flow : Flow} {value : Json}

/-- What was read of a list field comes from items that were read, or is absent. -/
theorem exists_of_mem_defaulted {α : Type} {spelling : Spelling} {check : Check α}
    {members : Json.Members} {values : List α} {a : α}
    (h : defaulted spelling [] (list check) members = .valid values) (member : a ∈ values) :
    ∃ item, check item = .valid a := by
  rw [defaulted] at h
  split at h
  · exact exists_of_mem_list (Checked.within_eq_valid_iff.mp h) member
  · rw [Checked.valid.injEq] at h
    rw [← h] at member
    cases member

/-- A flow that was read is legible. -/
theorem legible_of_ofJson (h : ofJson value = .valid flow) : flow.Legible := by
  cases value with
  | obj members =>
    simp only [ofJson, record, ofMembers, Checked.functorMap_eq, Checked.seq_eq,
      Checked.apply_eq_valid_iff, Checked.map_eq_valid_iff] at h
    obtain ⟨_, _, ⟨_, _, ⟨_, _, rfl⟩, nodes, rfl⟩, edges, rfl⟩ := h
    constructor
    · intro node member
      obtain ⟨item, reads⟩ := exists_of_mem_defaulted nodes member
      exact Node.legible_of_ofJson reads
    · intro edge member
      obtain ⟨item, reads⟩ := exists_of_mem_defaulted edges member
      exact Edge.legible_of_ofJson reads
  | _ => cases h

/-- A flow is written as a record of its fields. -/
theorem exists_toJson_eq (flow : Flow) : ∃ members : Json.Members, flow.toJson = .obj members ∧
    members.get? Field.flowId.wire = some (.ofText? flow.flowId) ∧
    members.get? Field.nodes.wire = some (.arr (flow.nodes.map Node.toJson)) ∧
    members.get? Field.edges.wire = some (.arr (flow.edges.map Edge.toJson)) := by
  refine ⟨_, rfl, ?_⟩
  simp [Json.Members.get?_cons, Spelling.single, Field.flowId, Field.nodes, Field.edges]

/-- A legible flow is read as it was. -/
theorem Legible.ofJson_toJson (legible : flow.Legible) : ofJson flow.toJson = .valid flow := by
  obtain ⟨members, written, flowId, nodes, edges⟩ := exists_toJson_eq flow
  have readsNodes := list_map fun node inside => (legible.nodes node inside).ofJson_toJson
  have readsEdges := list_map fun edge inside => (legible.edges edge inside).ofJson_toJson
  rw [written]
  simp only [ofJson, record, ofMembers, optional_text_of_get? flowId,
    defaulted_of_get? nodes readsNodes, defaulted_of_get? edges readsEdges]
  rfl

end Flow

end Workflow
