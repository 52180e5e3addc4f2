import Workflow.Proofs.Service.Reading

/-!
# What a document keeps when it is read and written

A document that is read and written again has each field of a record under its wire name, and all
further members as they were. A plain name stays as a further member only where the wire name of
its field is there too; else its value is that of the field.

## Main definitions

* `Schema.Carries` — a record has the fields under their wire names, and all else as it was read
* `Content.Mirrors`, `Node.Mirrors`, `Edge.Mirrors`, `Flow.Mirrors` — a written record or document
  beside the one that was read

## Main results

* `Schema.carries_further` — a record written as fields and further members carries what was read
* `Flow.ofJson_toJson_and_mirrors` — a document that is accepted is written so that it is read as
  the same flow, and keeps all that it had
-/

namespace Workflow

open Schema

namespace Schema

/-- The value that a record has for a field, or `null` for none. -/
def Spelling.value (spelling : Spelling) (members : Json.Members) : Json :=
  ((spelling.find? members).map (·.2)).getD .null

/-- The items that a record has for a list field, or no items for none. -/
def Spelling.Lists (spelling : Spelling) (members : Json.Members) (items : List Json) : Prop :=
  (spelling.find? members).map (·.2) = some (.arr items) ∨
    spelling.find? members = none ∧ items = []

/-- No plain name of a field is a name of another one. -/
def Apart (spellings : List Spelling) : Prop :=
  ∀ spelling ∈ spellings, ∀ other ∈ spellings, spelling ≠ other →
    spelling.plain ≠ other.plain ∧ spelling.plain ≠ other.wire

instance (spellings : List Spelling) : Decidable (Apart spellings) :=
  inferInstanceAs (Decidable (∀ spelling ∈ spellings, _))

/-- A written record beside the one that was read. Each field is there under its wire name. A plain
name is there, with its value, if and only if it was there beside the wire name. All members with
other names are there as they were read. -/
structure Carries (spellings : List Spelling) (read written : Json.Members) : Prop where
  fields : ∀ spelling ∈ spellings, written.has spelling.wire = true
  plain : ∀ spelling ∈ spellings, spelling.plain ≠ spelling.wire →
    written.get? spelling.plain =
      if read.has spelling.wire then read.get? spelling.plain else none
  further : ∀ key, (∀ spelling ∈ spellings, key ≠ spelling.wire ∧ key ≠ spelling.plain) →
    written.get? key = read.get? key

variable {spelling : Spelling} {spellings : List Spelling} {members fields read : Json.Members}
  {key : String}

/-! ### Members that are no fields -/

theorem get?_append_of_absent {others : Json.Members} (absent : key ∉ members.map (·.1)) :
    Json.Members.get? (members ++ others) key = others.get? key := by
  rw [Json.Members.get?, Json.Members.get?, List.find?_append,
    List.find?_eq_none.mpr fun member inside same =>
      absent (List.mem_map.mpr ⟨member, inside, by simpa using same⟩), Option.none_or]

/-- Among the further members, a name has its value unless a field takes it. -/
theorem get?_further (spellings : List Spelling) (members : Json.Members) (key : String) :
    (further spellings members).get? key =
      if spellings.any (·.takes members key) then none else members.get? key := by
  rw [Json.Members.get?, Json.Members.get?, further, List.find?_filter]
  split
  next taken =>
    rw [List.find?_eq_none.mpr, Option.map_none]
    intro member _ chosen
    simp only [Bool.not_eq_true', decide_eq_true_eq] at chosen
    rw [chosen.2, taken] at chosen
    exact absurd chosen.1 (by simp)
  next spared =>
    congr 2
    funext member
    by_cases same : member.1 = key
    · simp [same, Bool.eq_false_iff.mpr spared]
    · simp [same]

/-- A record that is written as its fields and the further members carries what was read. -/
theorem carries_further (named : fields.map (·.1) = spellings.map Spelling.wire)
    (apart : Apart spellings) : Carries spellings read (fields ++ further spellings read) := by
  have others : ∀ key, (∀ spelling ∈ spellings, key ≠ spelling.wire) →
      (fields ++ further spellings read).get? key =
        if spellings.any (·.takes read key) then none else read.get? key := by
    intro key unlike
    rw [get?_append_of_absent, get?_further]
    rw [named, List.mem_map]
    rintro ⟨spelling, known, rfl⟩
    exact unlike spelling known rfl
  refine ⟨fun spelling known => ?_, fun spelling known two => ?_, fun key unlike => ?_⟩
  · have inside : spelling.wire ∈ fields.map (·.1) := named ▸ List.mem_map_of_mem known
    obtain ⟨member, first, same⟩ := List.mem_map.mp inside
    rw [Json.Members.has, Json.Members.get?, Option.isSome_map, List.find?_isSome]
    exact ⟨member, List.mem_append_left _ first, decide_eq_true same⟩
  · -- No other field takes the plain name, so it is taken if and only if the wire name is not there.
    have alone : ∀ other ∈ spellings, spelling ≠ other →
        other.takes read spelling.plain = false := by
      intro other there differs
      have names := apart spelling known other there differs
      simp [Spelling.takes, names.1, names.2]
    rw [others spelling.plain fun other there same => ?_]
    · cases wired : read.has spelling.wire with
      | true =>
        rw [if_neg, if_pos rfl]
        rw [Bool.not_eq_true, List.any_eq_false]
        intro other there taken
        by_cases same : spelling = other
        · rw [← same] at taken
          simp [Spelling.takes, two, wired] at taken
        · rw [alone other there same] at taken
          cases taken
      | false =>
        rw [if_pos, if_neg Bool.false_ne_true]
        exact List.any_eq_true.mpr ⟨spelling, known, by simp [Spelling.takes, wired]⟩
    · by_cases own : spelling = other
      · exact two (own ▸ same)
      · exact (apart spelling known other there own).2 same
  · rw [others key fun spelling known => (unlike spelling known).1, if_neg]
    rw [Bool.not_eq_true, List.any_eq_false]
    intro spelling known taken
    simp [Spelling.takes, unlike spelling known] at taken

/-! ### What fields hold -/

section Values

variable {α : Type} {check : Check α} {absent a : α}

/-- A field that counts as absent when it is `null` is read from its value, which is `null` when the
field is not there. -/
theorem value_of_defaulted (null : check .null = .valid absent)
    (h : defaulted spelling absent check members = .valid a) :
    check (spelling.value members) = .valid a := by
  rw [defaulted] at h
  rw [Spelling.value]
  cases found : spelling.find? members with
  | none =>
    rw [found] at h
    exact null.trans h
  | some member =>
    rw [found] at h
    exact Checked.within_eq_valid_iff.mp h

/-- A field that has to be there is read from its value. -/
theorem value_of_required (h : required spelling check members = .valid a) :
    check (spelling.value members) = .valid a := by
  rw [required] at h
  rw [Spelling.value]
  cases found : spelling.find? members with
  | none =>
    rw [found] at h
    cases h
  | some member =>
    rw [found] at h
    exact Checked.within_eq_valid_iff.mp h

end Values

/-- Only the text itself is read as a text. -/
theorem str_of_text {name : String} {value : Json} (h : text value = .valid name) :
    .str name = value := by
  cases value with
  | str content =>
    cases h
    rfl
  | _ => cases h

theorem ofText?_of_nullable {name : Option String} {value : Json}
    (h : nullable text value = .valid name) : .ofText? name = value := by
  cases value with
  | null =>
    cases h
    rfl
  | str content =>
    cases h
    rfl
  | _ => cases h

theorem ofTable?_of_nullable {entries : Option Json.Members} {value : Json}
    (h : nullable table value = .valid entries) : .ofTable? entries = value := by
  cases value with
  | null =>
    cases h
    rfl
  | obj members =>
    cases h
    rfl
  | _ => cases h

theorem ofText?_of_optional {name : Option String}
    (h : optional spelling text members = .valid name) : .ofText? name = spelling.value members :=
  ofText?_of_nullable (value_of_defaulted rfl h)

/-- Each item of a list that passes is written beside the one that was read. -/
theorem Checked.forall₂_of_allFrom {α : Type} {check : Check α} {items : List Json}
    {values : List α} {write : α → Json} {related : Json → Json → Prop} {position : Nat}
    (passes : ∀ value a, check value = .valid a → related value (write a))
    (h : Checked.allFrom check position items = .valid values) :
    List.Forall₂ related items (values.map write) := by
  induction items generalizing position values with
  | nil =>
    cases h
    exact .nil
  | cons item rest ih =>
    simp only [Checked.allFrom, Checked.apply_eq_valid_iff, Checked.map_eq_valid_iff,
      Checked.within_eq_valid_iff] at h
    obtain ⟨_, others, ⟨first, reads, rfl⟩, later, rfl⟩ := h
    exact .cons (passes item first reads) (ih later)

end Schema

/-! ### Records -/

/-- Two values are records that stand in a relation. -/
def Json.Records (related : Json.Members → Json.Members → Prop) (value other : Json) : Prop :=
  ∃ read written, value = .obj read ∧ other = .obj written ∧ related read written

namespace Content

/-- A written content beside the members that were read. Texts and settings are as they were, `null`
where there were none, and flags are what was read as a flag. -/
structure Mirrors (read written : Json.Members) : Prop extends Carries Field.all read written where
  same : ∀ spelling ∈ [Field.label, Field.subLabel, Field.params, Field.mergeNodeId],
    written.get? spelling.wire = some (spelling.value read)
  flags : ∀ spelling ∈ [Field.isPlaceholder, Field.isBranchPlaceholder, Field.isMergePlaceholder,
    Field.isMergeNode], ∃ holds, flag (spelling.value read) = .valid holds ∧
      written.get? spelling.wire = some (.bool holds)

variable {content : Content} {members : Json.Members}

theorem mirrors_of_ofMembers (h : ofMembers members = .valid content) :
    Mirrors members content.toMembers := by
  obtain ⟨label, subLabel, params, isPlaceholder, isBranchPlaceholder, isMergePlaceholder,
    isMergeNode, mergeNodeId⟩ := get?_toMembers content
  have carries : Carries Field.all members content.toMembers := by
    rw [toMembers, extras_of_ofMembers h]
    exact carries_further rfl (by decide)
  simp only [ofMembers, Checked.functorMap_eq, Checked.seq_eq, Checked.pure_eq,
    Checked.apply_eq_valid_iff, Checked.map_eq_valid_iff, Checked.valid.injEq] at h
  obtain ⟨_, _, ⟨_, _, ⟨_, _, ⟨_, _, ⟨_, _, ⟨_, _, ⟨_, _, ⟨_, _, ⟨_, readsLabel, rfl⟩, readsSub, rfl⟩,
    readsParams, rfl⟩, readsSlot, rfl⟩, readsBranch, rfl⟩, readsMerge, rfl⟩, readsNode, rfl⟩,
    readsNamed, rfl⟩, rfl, rfl⟩ := h
  refine ⟨carries, ?_, ?_⟩
  · simp only [List.forall_mem_cons, List.not_mem_nil, false_imp_iff, implies_true, and_true]
    refine ⟨?_, ?_, ?_, ?_⟩
    · rw [label, ofText?_of_optional readsLabel]
    · rw [subLabel, ofText?_of_optional readsSub]
    · rw [params, ofTable?_of_nullable (value_of_defaulted rfl readsParams)]
    · rw [mergeNodeId, ofText?_of_optional readsNamed]
  · simp only [List.forall_mem_cons, List.not_mem_nil, false_imp_iff, implies_true, and_true]
    exact ⟨⟨_, value_of_defaulted rfl readsSlot, isPlaceholder⟩,
      ⟨_, value_of_defaulted rfl readsBranch, isBranchPlaceholder⟩,
      ⟨_, value_of_defaulted rfl readsMerge, isMergePlaceholder⟩,
      ⟨_, value_of_defaulted rfl readsNode, isMergeNode⟩⟩

/-- What a step has as its content is a record, or `null`, which counts as an empty one. -/
theorem exists_of_ofJsonOrNull {value : Json} (h : ofJsonOrNull value = .valid content) :
    ∃ members, (value = .obj members ∨ value = .null ∧ members = []) ∧
      ofMembers members = .valid content := by
  cases value with
  | null =>
    cases h
    exact ⟨[], .inr ⟨rfl, rfl⟩, rfl⟩
  | obj members => exact ⟨members, .inl rfl, h⟩
  | _ => cases h

end Content

namespace Node

/-- A written node beside the members that were read. Its texts are as they were, `null` where there
were none. Its content is written beside the one that was read, or an empty one for none. -/
structure Mirrors (read written : Json.Members) : Prop extends Carries Field.all read written where
  same : ∀ spelling ∈ [Field.id, Field.kind],
    written.get? spelling.wire = some (spelling.value read)
  content : ∃ before after,
    (Field.content.value read = .obj before ∨ Field.content.value read = .null ∧ before = []) ∧
    written.get? Field.content.wire = some (.obj after) ∧ Content.Mirrors before after

variable {node : Node} {members : Json.Members} {value : Json}

theorem mirrors_of_ofMembers (h : ofMembers members = .valid node) :
    Mirrors members node.toMembers := by
  obtain ⟨id, kind, content⟩ := get?_toMembers node
  simp only [ofMembers, Checked.functorMap_eq, Checked.seq_eq, Checked.pure_eq,
    Checked.apply_eq_valid_iff, Checked.map_eq_valid_iff, Checked.valid.injEq] at h
  obtain ⟨_, _, ⟨_, _, ⟨_, _, ⟨_, readsId, rfl⟩, readsKind, rfl⟩, reads, rfl⟩, rfl, rfl⟩ := h
  obtain ⟨before, given, readsContent⟩ :=
    Content.exists_of_ofJsonOrNull (value_of_defaulted rfl reads)
  refine ⟨carries_further rfl (by decide), ?_, before, _, given, content,
    Content.mirrors_of_ofMembers readsContent⟩
  simp only [List.forall_mem_cons, List.not_mem_nil, false_imp_iff, implies_true, and_true]
  exact ⟨by rw [id, str_of_text (value_of_required readsId)],
    by rw [kind, ofText?_of_optional readsKind]⟩

theorem mirrors_of_ofJson (h : ofJson value = .valid node) :
    Json.Records Mirrors value node.toJson := by
  cases value with
  | obj members => exact ⟨members, _, rfl, rfl, mirrors_of_ofMembers h⟩
  | _ => cases h

end Node

namespace Edge

/-- A written edge beside the members that were read. Its texts are as they were, `null` where there
were none. -/
structure Mirrors (read written : Json.Members) : Prop extends Carries Field.all read written where
  same : ∀ spelling ∈ [Field.id, Field.source, Field.target, Field.branch],
    written.get? spelling.wire = some (spelling.value read)

variable {edge : Edge} {members : Json.Members} {value : Json}

theorem mirrors_of_ofMembers (h : ofMembers members = .valid edge) :
    Mirrors members edge.toMembers := by
  obtain ⟨id, source, target, branch⟩ := get?_toMembers edge
  simp only [ofMembers, Checked.functorMap_eq, Checked.seq_eq, Checked.pure_eq,
    Checked.apply_eq_valid_iff, Checked.map_eq_valid_iff, Checked.valid.injEq] at h
  obtain ⟨_, _, ⟨_, _, ⟨_, _, ⟨_, _, ⟨_, readsId, rfl⟩, readsSource, rfl⟩, readsTarget, rfl⟩,
    readsBranch, rfl⟩, rfl, rfl⟩ := h
  refine ⟨carries_further rfl (by decide), ?_⟩
  simp only [List.forall_mem_cons, List.not_mem_nil, false_imp_iff, implies_true, and_true]
  exact ⟨by rw [id, ofText?_of_optional readsId],
    by rw [source, str_of_text (value_of_required readsSource)],
    by rw [target, str_of_text (value_of_required readsTarget)],
    by rw [branch, ofText?_of_optional readsBranch]⟩

theorem mirrors_of_ofJson (h : ofJson value = .valid edge) :
    Json.Records Mirrors value edge.toJson := by
  cases value with
  | obj members => exact ⟨members, _, rfl, rfl, mirrors_of_ofMembers h⟩
  | _ => cases h

end Edge

namespace Flow

/-- A written document beside the one that was read: the flow's own name, and each node and each edge
beside the one that was read at its place. -/
def Mirrors (value written : Json) : Prop :=
  ∃ members nodes edges newNodes newEdges, value = .obj members ∧
    Field.nodes.Lists members nodes ∧ List.Forall₂ (Json.Records Node.Mirrors) nodes newNodes ∧
    Field.edges.Lists members edges ∧ List.Forall₂ (Json.Records Edge.Mirrors) edges newEdges ∧
    written = .obj [(Field.flowId.wire, Field.flowId.value members),
      (Field.nodes.wire, .arr newNodes), (Field.edges.wire, .arr newEdges)]

variable {flow : Flow} {value : Json}

/-- Each item of a list field that was read is written beside the one that was read. -/
theorem exists_lists {α : Type} {check : Check α} {spelling : Spelling} {members : Json.Members}
    {values : List α} {write : α → Json} {related : Json → Json → Prop}
    (passes : ∀ value a, check value = .valid a → related value (write a))
    (h : defaulted spelling [] (Schema.list check) members = .valid values) :
    ∃ items, spelling.Lists members items ∧ List.Forall₂ related items (values.map write) := by
  rw [defaulted] at h
  cases found : spelling.find? members with
  | none =>
    rw [found] at h
    cases h
    exact ⟨[], .inr ⟨found, rfl⟩, .nil⟩
  | some member =>
    obtain ⟨key, value⟩ := member
    rw [found] at h
    have reads := Checked.within_eq_valid_iff.mp h
    cases value with
    | arr items =>
      refine ⟨items, .inl (by rw [found]; rfl), ?_⟩
      exact Checked.forall₂_of_allFrom passes reads
    | _ => cases reads

/-- A document that is accepted is written so that it is read as the same flow. What is written has
each node and each edge at its place, with all fields under their wire names and all else as it
was. -/
theorem ofJson_toJson_and_mirrors (h : ofJson value = .valid flow) :
    ofJson flow.toJson = .valid flow ∧ Mirrors value flow.toJson := by
  refine ⟨(legible_of_ofJson h).ofJson_toJson, ?_⟩
  cases value with
  | obj members =>
    simp only [ofJson, record, ofMembers, Checked.functorMap_eq, Checked.seq_eq,
      Checked.apply_eq_valid_iff, Checked.map_eq_valid_iff] at h
    obtain ⟨_, _, ⟨_, _, ⟨_, readsId, rfl⟩, readsNodes, rfl⟩, readsEdges, rfl⟩ := h
    obtain ⟨nodes, listsNodes, passNodes⟩ :=
      exists_lists (fun _ _ => Node.mirrors_of_ofJson) readsNodes
    obtain ⟨edges, listsEdges, passEdges⟩ :=
      exists_lists (fun _ _ => Edge.mirrors_of_ofJson) readsEdges
    refine ⟨members, nodes, edges, _, _, rfl, listsNodes, passNodes, listsEdges, passEdges, ?_⟩
    rw [toJson, ofText?_of_optional readsId]
  | _ => cases h

/-- A document with both names of a field, with a plain name alone, with a word for a flag, with a
content that is `null`, and with members that are no fields. -/
def motley : Json :=
  .obj [("flow_id", .str "motley"), ("zoom", .ofNat 2),
    ("nodes", .arr [
      .obj [("id", .str "step"), ("data", .obj [("sub_label", .ofNat 7), ("subLabel", .null),
        ("is_merge_node", .str "YES"), ("icon", .obj [("parts", .arr [.null, .bool true])])])],
      .obj [("data", .null), ("id", .str "end"), ("type", .str "end")]]),
    ("edges", .arr [.obj [("branch_id", .str "A"), ("source", .str "step"), ("target", .str "end"),
      ("weight", .num (.decimal true 25 1))]])]

/-- The flow that the sample document describes. -/
def motleyFlow : Flow where
  flowId := some "motley"
  nodes := [
    { id := "step", content := { isMergeNode := true, extras := [("sub_label", .ofNat 7),
      ("icon", .obj [("parts", .arr [.null, .bool true])])] } },
    { id := "end", kind := some "end" }]
  edges := [⟨none, "step", "end", some "A", [("weight", .num (.decimal true 25 1))]⟩]

/-- The sample document is accepted, and passes through. -/
theorem ofJson_toJson_and_mirrors_motley : ofJson motley = .valid motleyFlow ∧
    ofJson motleyFlow.toJson = .valid motleyFlow ∧ Mirrors motley motleyFlow.toJson := by
  have reads : ofJson motley = .valid motleyFlow := by decide +kernel
  exact ⟨reads, ofJson_toJson_and_mirrors reads⟩

end Flow

end Workflow
