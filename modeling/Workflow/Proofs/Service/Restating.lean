import Workflow.Proofs.Service.Respelling
import Workflow.Proofs.Service.Siting

/-!
# Documents that say the same

A document may leave out what it would give as `null`, and may give a field under either of its two
names. However many such changes are made to it, wherever in it, it is accepted as the same flow, or
rejected for the same faults. Only the names of fields on the way to a fault are those that the
document uses, and where a field is missing, the fault repeats the record that lacks it as the
document has it.

## Main definitions

* `Content.Restates`, `Node.Restates`, `Edge.Restates` — one change to a record
* `Flow.Restates` — one change to a document: to the flow, a node, a content or an edge
* `Flow.PartRestates` — one change to a record that may lack a field
* `Flow.spellings` — the fields of all records of a document

## Main results

* `Flow.Restates.alike` — one change leaves the outcome alike
* `Flow.alike_ofJson_of_restated` — any number of changes leave the outcome alike
-/

namespace Workflow

open Schema

/-! ### One change -/

/-- A content is written in another way. Each of its fields may be `null`. -/
def Content.Restates : Json → Json → Prop :=
  Json.Records (Respells Field.all Field.all)

/-- A node is written in another way: its kind or its content is left out or put in as `null`, or
its content is written in another way. -/
def Node.Restates : Json → Json → Prop :=
  Json.Records fun read other => Respells Field.all [Field.kind, Field.content] read other ∨
    Json.Members.ChangesAt Field.content.wire Content.Restates read other

/-- An edge is written in another way. Its own identity and its branch may be `null`. -/
def Edge.Restates : Json → Json → Prop :=
  Json.Records (Respells Field.all [Field.id, Field.branch])

namespace Flow

/-- All fields of a flow, in order. -/
def Field.all : List Spelling := [flowId, nodes, edges]

/-- A document is written in another way: its own name is, or one of its nodes, or one of its
edges. -/
def Restates : Json → Json → Prop :=
  Json.Records fun read other => Respells Field.all [Field.flowId] read other ∨
    Json.Members.ChangesAt Field.nodes.wire (Json.ChangesItem Node.Restates) read other ∨
    Json.Members.ChangesAt Field.edges.wire (Json.ChangesItem Edge.Restates) read other

/-- A node or an edge is written in another way. These are the records that may lack a field. -/
def PartRestates (value new : Json) : Prop := Node.Restates value new ∨ Edge.Restates value new

/-- The fields of all records of a document. -/
def spellings : List Spelling :=
  Field.all ++ Node.Field.all ++ Content.Field.all ++ Edge.Field.all

theorem wiredIn_spellings : ∀ spelling ∈ spellings, spelling.WiredIn spellings := by decide

end Flow

variable {read other : Json.Members} {value new : Json} {spelling : Spelling}

/-! ### Fields that are checked alike -/

section Fields

variable {α : Type} {check : Check α} {absent : α} {related : Json → Json → Prop}

theorem alike_required (given : spelling.given? read = spelling.given? other)
    (records : Relation.ReflTransGen related (.obj read) (.obj other))
    (known : spelling ∈ Flow.spellings) :
    (required spelling check read).Alike Flow.spellings related (required spelling check other) :=
  .required_of_given (Flow.wiredIn_spellings spelling known) given records

theorem alike_defaulted (given : spelling.given? read = spelling.given? other)
    (known : spelling ∈ Flow.spellings) :
    (defaulted spelling absent check read).Alike Flow.spellings related
      (defaulted spelling absent check other) :=
  .defaulted_of_given (Flow.wiredIn_spellings spelling known) given

theorem alike_nullable (same : spelling.value read = spelling.value other)
    (null : check .null = .valid absent) (known : spelling ∈ Flow.spellings) :
    (defaulted spelling absent check read).Alike Flow.spellings related
      (defaulted spelling absent check other) :=
  .defaulted_of_value (Flow.wiredIn_spellings spelling known) null same

/-- A list field in which one item is changed for one that is checked alike is checked alike. -/
theorem alike_items {changed : Json → Json → Prop}
    (changes : Json.Members.ChangesAt spelling.wire (Json.ChangesItem changed) read other)
    (each : ∀ {value new}, changed value new →
      (check value).Alike Flow.spellings related (check new)) :
    (defaulted spelling [] (list check) read).Alike Flow.spellings related
      (defaulted spelling [] (list check) other) := by
  obtain ⟨value, new, found, foundToo, rel⟩ := find?_changesAt_self changes
  rw [defaulted, defaulted, found, foundToo]
  rcases rel with rfl | changes
  · exact .refl _
  · exact (Checked.Alike.list changes each).within rfl

end Fields

/-! ### Records that are checked alike -/

/-- A content that is written in another way is read alike. -/
theorem Content.Restates.alike {related : Json → Json → Prop}
    (restates : Content.Restates value new) :
    (Content.ofJsonOrNull value).Alike Flow.spellings related (Content.ofJsonOrNull new) := by
  obtain ⟨read, other, rfl, rfl, respells⟩ := restates
  have agrees := respells.agrees (by decide) (List.Subset.refl _)
  simp only [ofJsonOrNull, ofJson, record, ofMembers, Checked.functorMap_eq, Checked.seq_eq,
    Checked.pure_eq, agrees.further]
  refine .apply (.apply (.apply (.apply (.apply (.apply (.apply (.apply (.map _ ?_) ?_) ?_) ?_) ?_)
    ?_) ?_) ?_) (.refl _)
  -- Each of the eight fields may be `null`, so only its value counts.
  all_goals exact alike_nullable (agrees.value _ (by decide)) rfl (by decide)

namespace Node

theorem alike_ofMembers_of_respells
    (respells : Respells Field.all [Field.kind, Field.content] read other) :
    (ofMembers read).Alike Flow.spellings Flow.PartRestates (ofMembers other) := by
  have agrees := respells.agrees (by decide) (by decide)
  have restates : Node.Restates (.obj read) (.obj other) := ⟨_, _, rfl, rfl, .inl respells⟩
  simp only [ofMembers, Checked.functorMap_eq, Checked.seq_eq, Checked.pure_eq, agrees.further]
  refine .apply (.apply (.apply (.map _ ?_) ?_) ?_) (.refl _)
  · exact alike_required (agrees.given _ (by decide) (by decide)) (.single (.inl restates))
      (by decide)
  · exact alike_nullable (agrees.value _ (by decide)) rfl (by decide)
  · exact alike_nullable (agrees.value _ (by decide)) rfl (by decide)

theorem alike_ofMembers_of_changesAt
    (changes : Json.Members.ChangesAt Field.content.wire Content.Restates read other) :
    (ofMembers read).Alike Flow.spellings Flow.PartRestates (ofMembers other) := by
  obtain ⟨value, new, found, foundToo, rel⟩ := find?_changesAt_self changes
  have further : further Field.all read = further Field.all other :=
    further_changesAt (by decide) changes
  have restates : Node.Restates (.obj read) (.obj other) := ⟨_, _, rfl, rfl, .inr changes⟩
  simp only [ofMembers, Checked.functorMap_eq, Checked.seq_eq, Checked.pure_eq, further]
  refine .apply (.apply (.apply (.map _ ?_) ?_) ?_) (.refl _)
  · exact alike_required (given?_changesAt_of_notMem changes (by decide))
      (.single (.inl restates)) (by decide)
  · exact alike_defaulted (given?_changesAt_of_notMem changes (by decide)) (by decide)
  · rw [defaulted, defaulted, found, foundToo]
    rcases rel with rfl | restates
    · exact .refl _
    · exact restates.alike.within rfl

/-- A node that is written in another way is read alike. -/
theorem Restates.alike (restates : Restates value new) :
    (ofJson value).Alike Flow.spellings Flow.PartRestates (ofJson new) := by
  obtain ⟨read, other, rfl, rfl, respells | changes⟩ := restates
  · exact alike_ofMembers_of_respells respells
  · exact alike_ofMembers_of_changesAt changes

end Node

/-- An edge that is written in another way is read alike. -/
theorem Edge.Restates.alike (restates : Edge.Restates value new) :
    (Edge.ofJson value).Alike Flow.spellings Flow.PartRestates (Edge.ofJson new) := by
  have records : Relation.ReflTransGen Flow.PartRestates value new := .single (.inr restates)
  obtain ⟨read, other, rfl, rfl, respells⟩ := restates
  have agrees := respells.agrees (by decide) (by decide)
  simp only [ofJson, record, ofMembers, Checked.functorMap_eq, Checked.seq_eq, Checked.pure_eq,
    agrees.further]
  refine .apply (.apply (.apply (.apply (.map _ ?_) ?_) ?_) ?_) (.refl _)
  · exact alike_nullable (agrees.value _ (by decide)) rfl (by decide)
  · exact alike_required (agrees.given _ (by decide) (by decide)) records (by decide)
  · exact alike_required (agrees.given _ (by decide) (by decide)) records (by decide)
  · exact alike_nullable (agrees.value _ (by decide)) rfl (by decide)

/-! ### Documents that are checked alike -/

namespace Flow

/-- A document that is written in another way in one place is read alike. -/
theorem Restates.alike (restates : Restates value new) :
    (ofJson value).Alike spellings PartRestates (ofJson new) := by
  obtain ⟨read, other, rfl, rfl, respells | changes | changes⟩ := restates
  all_goals simp only [ofJson, record, ofMembers, Checked.functorMap_eq, Checked.seq_eq]
  · have agrees := respells.agrees (by decide) (by decide)
    refine .apply (.apply (.map _ ?_) ?_) ?_
    · exact alike_nullable (agrees.value _ (by decide)) rfl (by decide)
    · exact alike_defaulted (agrees.given _ (by decide) (by decide)) (by decide)
    · exact alike_defaulted (agrees.given _ (by decide) (by decide)) (by decide)
  · refine .apply (.apply (.map _ ?_) (alike_items changes Node.Restates.alike)) ?_
    · exact alike_defaulted (given?_changesAt_of_notMem changes (by decide)) (by decide)
    · exact alike_defaulted (given?_changesAt_of_notMem changes (by decide)) (by decide)
  · refine .apply (.apply (.map _ ?_) ?_) (alike_items changes Edge.Restates.alike)
    · exact alike_defaulted (given?_changesAt_of_notMem changes (by decide)) (by decide)
    · exact alike_defaulted (given?_changesAt_of_notMem changes (by decide)) (by decide)

/-- A document that is written in another way in any number of places is accepted as the same flow,
or rejected for the same faults but for the names of fields on the way to them. The faults of each
repeat what is in it. That is the same in both, but for a record that lacks a field, which may be
written in another way itself. -/
theorem alike_ofJson_of_restated (restated : Relation.ReflTransGen Restates value new) :
    (ofJson value).Alike spellings PartRestates (ofJson new) ∧
      (ofJson value).Sited value ∧ (ofJson new).Sited new := by
  refine ⟨?_, sited_ofJson value, sited_ofJson new⟩
  induction restated with
  | refl => exact .refl _
  | tail _ step ih => exact ih.trans step.alike

/-- A document of one step and one edge. -/
def sheet (subLabel : Json) : Json :=
  .obj [("flowId", .null),
    ("nodes", .arr [.obj [("id", .str "a"), ("type", .null),
      ("data", .obj [("sub_label", subLabel)])]]),
    ("edges", .arr [.obj [("source", .str "a"), ("target", .str "a"), ("branch_id", .str "A")]])]

/-- The same document with other names for two fields, and without two that are `null`. -/
def sheetAnew (subLabel : Json) : Json :=
  .obj [("nodes", .arr [.obj [("id", .str "a"), ("data", .obj [("subLabel", subLabel)])]]),
    ("edges", .arr [.obj [("source", .str "a"), ("target", .str "a"), ("branchId", .str "A")]])]

theorem restated_sheet (subLabel : Json) :
    Relation.ReflTransGen Restates (sheet subLabel) (sheetAnew subLabel) := by
  let link (key : String) : Json :=
    .obj [("source", .str "a"), ("target", .str "a"), (key, .str "A")]
  let step (kind : Json.Members) (key : String) : Json :=
    .obj (("id", .str "a") :: kind ++ [("data", .obj [(key, subLabel)])])
  let page (step edge : Json) : Json := .obj [("nodes", .arr [step]), ("edges", .arr [edge])]
  -- One change at each level of the document, from the outside in.
  have nameless : Restates (sheet subLabel)
      (page (step [("type", .null)] "sub_label") (link "branch_id")) :=
    ⟨_, _, rfl, rfl, .inl (.leave Field.flowId [] _ (by decide) (by decide) rfl)⟩
  have atStep : ∀ {old new : Json}, Node.Restates old new → ∀ edge,
      Restates (page old edge) (page new edge) := fun restates edge =>
    ⟨_, _, rfl, rfl, .inr (.inl ⟨[], _, _, _, rfl, rfl, [], [], _, _, rfl, rfl, restates⟩)⟩
  have kindless : Node.Restates (step [("type", .null)] "sub_label") (step [] "sub_label") :=
    ⟨_, _, rfl, rfl, .inl (.leave Node.Field.kind [_] _ (by decide) (by decide) rfl)⟩
  have renamed : Node.Restates (step [] "sub_label") (step [] "subLabel") :=
    ⟨_, _, rfl, rfl, .inr ⟨[_], [], _, _, rfl, rfl, _, _, rfl, rfl,
      .rename Content.Field.subLabel [] [] [] [] (by decide) (by decide) (by decide) rfl rfl⟩⟩
  have relinked : Edge.Restates (link "branch_id") (link "branchId") :=
    ⟨_, _, rfl, rfl, .rename Edge.Field.branch [_, _] [] [_, _] [] (by decide) (by decide)
      (by decide) rfl rfl⟩
  have atEdge : ∀ step, Restates (page step (link "branch_id")) (page step (link "branchId")) :=
    fun step =>
      ⟨_, _, rfl, rfl, .inr (.inr ⟨[_], [], _, _, rfl, rfl, [], [], _, _, rfl, rfl, relinked⟩)⟩
  exact .tail (.tail (.tail (.single nameless) (atStep kindless _)) (atStep renamed _)) (atEdge _)

/-- The document is accepted under both names as the same flow, and rejected for a fault on whose
way the field has the name that the document uses. -/
theorem alike_ofJson_of_restated_sheet :
    (∃ flow, ofJson (sheet (.str "A")) = .valid flow ∧
      ofJson (sheetAnew (.str "A")) = .valid flow) ∧
    ofJson (sheet (.bool true)) = .faulty
      [⟨[.field "nodes", .index 0, .field "data", .field "sub_label"], .notText, .bool true⟩] ∧
    ofJson (sheetAnew (.bool true)) = .faulty
      [⟨[.field "nodes", .index 0, .field "data", .field "subLabel"], .notText, .bool true⟩] ∧
    (ofJson (sheet (.bool true))).Alike spellings PartRestates
      (ofJson (sheetAnew (.bool true))) ∧
    (ofJson (sheetAnew (.bool true))).Sited (sheetAnew (.bool true)) := by
  obtain ⟨alike, -, sited⟩ := alike_ofJson_of_restated (restated_sheet (.bool true))
  refine ⟨?_, by decide +kernel, by decide +kernel, alike, sited⟩
  obtain ⟨flow, accepted⟩ : ∃ flow, ofJson (sheet (.str "A")) = .valid flow := ⟨_, rfl⟩
  exact ⟨flow, accepted, (alike_ofJson_of_restated (restated_sheet _)).1.eq_valid_iff.mp accepted⟩

/-- A node without an identity is repeated as it is written, so with its kind left out the fault is
another one. -/
theorem not_eq_ofJson_of_restated :
    ¬ ∀ value new found others, Relation.ReflTransGen Restates value new →
      ofJson value = .faulty found → ofJson new = .faulty others →
        found.map (Fault.inWire spellings) = others.map (Fault.inWire spellings) := by
  intro claim
  let page (node : Json.Members) : Json := .obj [("nodes", .arr [.obj node])]
  let fault (node : Json.Members) : Fault :=
    ⟨[.field "nodes", .index 0, .field "id"], .missing, .obj node⟩
  have restates : Restates (page [("type", .null)]) (page []) :=
    ⟨_, _, rfl, rfl, .inr (.inl ⟨[], [], _, _, rfl, rfl, [], [], _, _, rfl, rfl,
      _, _, rfl, rfl, .inl (.leave Node.Field.kind [] [] (by decide) (by decide) rfl)⟩)⟩
  have same := claim _ _ [fault [("type", .null)]] [fault []] (.single restates)
    (by decide +kernel) (by decide +kernel)
  exact absurd same (by decide +kernel)

end Flow

end Workflow
