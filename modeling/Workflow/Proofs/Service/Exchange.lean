import Workflow.Proofs.Editing.Session
import Workflow.Proofs.Service.Legibility
import Workflow.Service.Route

/-!
# Editing through the service

The service keeps no flow. A client that posts edits one after another, each with the flow of the
latest response that carried one, gets the responses that tell what a session with the same supply
comes to. Only a node or an edge that is not there is told as an error, and the client goes on with
the flow that it had.

## Main definitions

* `Posting`, `Posting.Asks` — what a client posts beside the flow, and the edit it asks for
* `Client.post`, `Client.postAll` — a client that goes on with the flow of the latest response
* `Response.made`, `Response.refused`, `Response.absent` — the responses to an edit
* `Response.ofOutcome` — the one that tells what an edit of a session came to
* `Session.trace` — what edits come to one after another, with the flows that they leave

## Main results

* `Posting.asks_ofEdit` — each edit can be asked for
* `Client.postAll_eq` — the responses to a client are those of a session
-/

namespace Workflow

open Schema

namespace Schema

variable {α : Type} {check : Check α} {spelling : Spelling} {members : Json.Members}
  {key : String} {value : Json} {a : α}

/-! ### Writing one member leaves the other fields -/

theorem find?_set (wire : spelling.wire ≠ key) (plain : spelling.plain ≠ key) :
    spelling.find? (members.set key value) = spelling.find? members := by
  rw [Spelling.find?, Spelling.find?, Json.Members.get?_set_of_ne _ _ wire,
    Json.Members.get?_set_of_ne _ _ plain]

/-- The fault of a record without the field repeats the record, so only what is valid is the
same. -/
theorem required_set_iff (wire : spelling.wire ≠ key) (plain : spelling.plain ≠ key) :
    required spelling check (members.set key value) = .valid a ↔
      required spelling check members = .valid a := by
  rw [required, required, find?_set wire plain]
  cases spelling.find? members with
  | none =>
    constructor
    · intro valid
      cases valid
    · intro valid
      cases valid
  | some found => rfl

theorem optional_set (wire : spelling.wire ≠ key) (plain : spelling.plain ≠ key) :
    optional spelling check (members.set key value) = optional spelling check members := by
  rw [optional, defaulted, defaulted, find?_set wire plain]

end Schema

theorem upper_post : Text.upper "POST" = "POST" := rfl

/-- A post to an address is answered there. -/
theorem Call.respond_post {call : Call} {endpoint : Endpoint} {limits : Limits} {supply : Supply}
    (post : Text.upper call.method = "POST")
    (there : Place.ofTarget? call.target = some (.endpoint endpoint)) :
    call.respond limits supply = endpoint.respond limits call.body supply := by
  delta Call.respond
  rw [there, post]
  dsimp only
  rw [if_pos rfl]

/-! ### What a client posts -/

/-- What a client posts beside the flow: the address, and the further members of the body. -/
structure Posting where
  endpoint : Endpoint
  members : Json.Members
  deriving DecidableEq, Repr

namespace Posting

/-- The members of the body, with a document as the flow. -/
def withFlow (posting : Posting) (document : Json) : Json.Members :=
  posting.members.set Request.Field.flow.wire document

/-- The call with which a client posts. -/
def call (posting : Posting) (document : Json) : Call :=
  { method := "POST"
    target := posting.endpoint.path
    body := some (.obj (posting.withFlow document)) }

/-- With the empty flow, the service reads the posting as a request for the edit. -/
def Asks (posting : Posting) (edit : Edit) : Prop :=
  posting.endpoint.shape.ofMembers (posting.withFlow ({} : Flow).toJson) = .valid (.change {} edit)

instance (posting : Posting) (edit : Edit) : Decidable (posting.Asks edit) :=
  inferInstanceAs (Decidable (_ = _))

/-- The address at which an edit is asked for. -/
def endpointFor : Edit → Endpoint
  | .delete .. => .deleteNode
  | .swap .. => .swapNode
  | .insert .. => .insertStep
  | .fill .. => .replacePlaceholder
  | .setBranches .. => .parallelBranches

/-- The posting in which an edit has the members of a request. -/
def ofEdit (edit : Edit) : Posting := ⟨endpointFor edit, Request.editMembers edit⟩

variable {posting : Posting} {edit : Edit} {document : Json} {flow : Flow} {limits : Limits}
  {supply : Supply}

/-- With another flow, a body is read as a request for the same edit. -/
theorem ofMembers_set {shape : RequestShape} {members : Json.Members} {other : Json} {base : Flow}
    (reads : Flow.ofJson document = .valid flow) (stands : Flow.ofJson other = .valid base)
    (asks : shape.ofMembers (members.set Request.Field.flow.wire other) =
      .valid (.change base edit)) :
    shape.ofMembers (members.set Request.Field.flow.wire document) =
      .valid (.change flow edit) := by
  have posted : ∀ {value : Json} {flow : Flow}, Flow.ofJson value = .valid flow →
      required Request.Field.flow Flow.ofJson (members.set Request.Field.flow.wire value) =
        .valid flow :=
    fun reads => required_of_get? (Json.Members.get?_set_self _ _ _) reads
  cases shape with
  | ask query =>
    simp [RequestShape.ofMembers, Request.aboutNode, Checked.apply_eq_valid_iff,
      Checked.map_eq_valid_iff] at asks
  | _ =>
    -- All fields but the flow are the same in both.
    simp (disch := decide) only [RequestShape.ofMembers, Request.aboutNode, Request.swap,
      Request.insert, Request.fill, Request.setBranches, Checked.functorMap_eq, Checked.seq_eq,
      Checked.apply_eq_valid_iff, Checked.map_eq_valid_iff, posted reads, posted stands,
      required_set_iff, optional_set] at asks ⊢
    simpa using asks

/-- The service answers a posting with what the edit of the flow comes to. -/
theorem Asks.respond (asks : posting.Asks edit) (reads : Flow.ofJson document = .valid flow) :
    (posting.call document).respond limits supply =
      (.ofAnswer (flow.answerEdit limits edit supply).1,
        (flow.answerEdit limits edit supply).2) := by
  have stands : Flow.ofJson ({} : Flow).toJson = .valid {} :=
    Flow.Legible.ofJson_toJson ⟨by simp, by simp⟩
  have request : posting.endpoint.request (some (.obj (posting.withFlow document))) =
      .valid (.change flow edit) := ofMembers_set reads stands asks
  have there : Place.ofTarget? (posting.call document).target = some (.endpoint posting.endpoint) :=
    Place.ofTarget?_path posting.endpoint
  have post : Text.upper (posting.call document).method = "POST" := upper_post
  rw [Call.respond_post post there, Endpoint.respond]
  dsimp only [call]
  rw [request]
  rfl

theorem list_ofTexts (names : List String) : list text (.ofTexts names) = .valid names :=
  list_map fun _ _ => rfl

theorem nullable_textsOrNull (names : Option (List String)) :
    nullable (list text) (Request.textsOrNull names) = .valid names := by
  cases names with
  | none => rfl
  | some names => exact Checked.map_eq_valid_iff.mpr ⟨names, list_ofTexts names, rfl⟩

/-- Each edit can be asked for. -/
theorem asks_ofEdit (edit : Edit) : (ofEdit edit).Asks edit := by
  have stands : Flow.ofJson ({} : Flow).toJson = .valid {} :=
    Flow.Legible.ofJson_toJson ⟨by simp, by simp⟩
  have flow : ∀ members : Json.Members, required Request.Field.flow Flow.ofJson
      (members.set Request.Field.flow.wire ({} : Flow).toJson) = .valid {} :=
    fun members => required_of_get? (Json.Members.get?_set_self _ _ _) stands
  have texts : ∀ name, text (.str name) = .valid name := fun _ => rfl
  rw [Asks, withFlow]
  cases edit with
  | _ =>
    -- The members of the edit are none of the flow, and each is read as it is written.
    simp (disch := decide) only [ofEdit, endpointFor, Endpoint.shape, RequestShape.ofMembers,
      Request.aboutNode, Request.swap, Request.insert, Request.fill, Request.setBranches,
      Checked.functorMap_eq, Checked.seq_eq, Checked.apply_eq_valid_iff, Checked.map_eq_valid_iff,
      flow, required_set_iff, optional_set]
    simp [Request.editMembers, required, Schema.optional, defaulted, Spelling.find?,
      Spelling.single, Json.Members.get?_cons, Request.Field.nodeId, Request.Field.source,
      Request.Field.target, Request.Field.kind, Request.Field.label, Request.Field.params,
      Request.Field.branches, texts, nullable_ofText?, nullable_ofTable?, list_ofTexts,
      nullable_textsOrNull]

end Posting

/-! ### What the service tells -/

/-- What an error says of a refusal, if that is for something that is not there. -/
def Refusal.absence? : Refusal → Option String
  | unknownNode id => some ("Node not found: " ++ id)
  | unknownEdge source target => some (unknownEdge source target).message
  | _ => none

namespace Response

/-- The response that an edit is made, with the flow that it left. -/
def made (change : Change) (flow : Flow) : Response :=
  { status := 200
    body := .obj [("flow", flow.toJson), ("applied", .bool true),
      ("removedNodeIds", .arr (change.removed.map .str)),
      ("addedNodeIds", .arr (change.added.map .str)), ("warning", .null)] }

/-- The response that an edit is refused, with the flow that it left. -/
def refused (refusal : Refusal) (flow : Flow) : Response :=
  { status := 200
    body := .obj [("flow", flow.toJson), ("applied", .bool false), ("removedNodeIds", .arr []),
      ("addedNodeIds", .arr []), ("warning", .str refusal.message)] }

/-- The response that something is not there. -/
def absent (message : String) : Response :=
  { status := 404, body := .obj [("detail", .str message)] }

/-- The response that tells what an edit came to, with the flow that it left. Only that something
is not there is an error. -/
def ofOutcome (outcome : Except Refusal Change) (flow : Flow) : Response :=
  match outcome with
  | .ok change => made change flow
  | .error refusal =>
    match refusal.absence? with
    | some message => absent message
    | none => refused refusal flow

/-- The document of the flow that a response carries, if it has the status of a success. -/
def flow? (response : Response) : Option Json :=
  if response.status = 200 then response.body.member? "flow" else none

variable {outcome : Except Refusal Change} {flow : Flow} {refusal : Refusal} {message : String}

theorem ofOutcome_of_absence (gone : refusal.absence? = some message) :
    ofOutcome (.error refusal) flow = absent message := by
  rw [ofOutcome, gone]

theorem ofOutcome_of_present (present : refusal.absence? = none) :
    ofOutcome (.error refusal) flow = refused refusal flow := by
  rw [ofOutcome, present]

/-- A response carries the flow that an edit left, unless the edit was refused since something is
not there. -/
theorem flow?_ofOutcome (outcome : Except Refusal Change) (flow : Flow) :
    (ofOutcome outcome flow).flow? = some flow.toJson ∨
      (∃ refusal, outcome = .error refusal) ∧ (ofOutcome outcome flow).flow? = none := by
  cases outcome with
  | ok change => exact .inl rfl
  | error refusal =>
    cases gone : refusal.absence? with
    | none =>
      rw [ofOutcome_of_present gone]
      exact .inl rfl
    | some message =>
      rw [ofOutcome_of_absence gone]
      exact .inr ⟨⟨refusal, rfl⟩, rfl⟩

end Response

namespace Edit

variable {edit : Edit} {flow : Flow} {limits : Limits} {supply : Supply} {id : NodeId}
  {refusal : Refusal}

/-- An edit about a node that is not there is refused for that reason. -/
theorem run_of_not_has (about : edit.node? = some id) (absent : flow.has id = false) :
    edit.run flow limits supply = .error (.unknownNode id) := by
  have found : flow.node? id = none := by simpa [Flow.has] using absent
  rw [run_eq_error_iff]
  cases edit with
  | insert source target kind label branches => cases about
  | _ =>
    cases about
    simp only [plan, Flow.delete, Flow.swap, Flow.fill, Flow.setBranches, found]
    rfl

theorem absence?_of_delete {node : Node} (found : flow.node? id = some node)
    (refused : flow.delete limits id = .error refusal) : refusal.absence? = none := by
  rw [Flow.delete, found] at refused
  dsimp only at refused
  split at refused
  · cases refused
  · split at refused
    · rw [Flow.deleteBlock] at refused
      split at refused
      · cases refused
        rfl
      · split at refused
        · cases refused
          rfl
        · cases refused
    · rw [Flow.deleteStep] at refused
      split at refused
      · cases refused
      · split at refused
        · cases refused
        · split at refused
          · cases refused
            rfl
          · cases refused

theorem absence?_of_fill {node : Node} {kind : String} {label : Option String}
    {params : Option Json.Members} {branches : Option (List String)}
    (found : flow.node? id = some node)
    (refused : flow.fill limits id kind label params branches = .error refusal) :
    refusal.absence? = none := by
  rw [Flow.fill, found] at refused
  dsimp only at refused
  split at refused
  · cases refused
    rfl
  · split at refused
    · cases refused
    · split at refused
      · cases refused
        rfl
      · cases refused

theorem absence?_of_setBranches {node : Node} {names : List String}
    (found : flow.node? id = some node)
    (refused : flow.setBranches limits id names = .error refusal) : refusal.absence? = none := by
  rw [Flow.setBranches, found] at refused
  dsimp only at refused
  split at refused
  · cases refused
    rfl
  · split at refused
    · cases refused
      rfl
    · split at refused
      · cases refused
        rfl
      · cases refused

/-- An edit about a node that is there is refused for other reasons only. -/
theorem absence?_of_has (about : edit.node? = some id) (there : flow.has id = true)
    (refused : edit.run flow limits supply = .error refusal) : refusal.absence? = none := by
  obtain ⟨node, found⟩ := Option.isSome_iff_exists.mp there
  rw [run_eq_error_iff] at refused
  cases edit with
  | insert source target kind label branches => cases about
  | delete other =>
    cases about
    exact absence?_of_delete found refused
  | swap other kind label params =>
    cases about
    rw [plan, Flow.swap, found] at refused
    dsimp only at refused
    split at refused
    · cases refused
      rfl
    · cases refused
  | fill other kind label params branches =>
    cases about
    exact absence?_of_fill found refused
  | setBranches other names =>
    cases about
    exact absence?_of_setBranches found refused

/-- An insertion is refused only if there is no edge. -/
theorem absence?_of_insert (about : edit.node? = none)
    (refused : edit.run flow limits supply = .error refusal) :
    refusal.absence? = some refusal.message := by
  rw [run_eq_error_iff] at refused
  cases edit with
  | insert source target kind label branches =>
    rw [plan, Flow.insert] at refused
    split at refused
    · cases refused
      rfl
    · cases refused
  | _ => cases about

end Edit

namespace Session

/-- What edits come to one after another, each with the flow that it left. -/
def trace (session : Session) : List Edit → List (Except Refusal Change × Flow)
  | [] => []
  | edit :: rest =>
    let (outcome, next) := session.perform edit
    (outcome, next.flow) :: next.trace rest

/-- An edit leaves the flow of a session legible. -/
theorem legible_perform {session : Session} (legible : session.flow.Legible) (edit : Edit) :
    (session.perform edit).2.flow.Legible := by
  cases done : edit.run session.flow session.limits session.supply with
  | ok made =>
    rw [perform_of_ok done]
    exact Edit.legible legible done
  | error refusal =>
    rw [perform_of_error done]
    exact legible

theorem perform_of_refused {session : Session} {edit : Edit} {refusal : Refusal}
    (refused : (session.perform edit).1 = .error refusal) : (session.perform edit).2 = session := by
  cases done : edit.run session.flow session.limits session.supply with
  | ok made =>
    rw [perform_of_ok done] at refused
    cases refused
  | error refusal => rw [perform_of_error done]

/-- The service tells what an edit of the flow of a session comes to there. -/
theorem ofAnswer_answerEdit (session : Session) (edit : Edit) :
    Response.ofAnswer (session.flow.answerEdit session.limits edit session.supply).1 =
      .ofOutcome (session.perform edit).1 (session.perform edit).2.flow ∧
    (session.flow.answerEdit session.limits edit session.supply).2 =
      (session.perform edit).2.supply := by
  cases done : edit.run session.flow session.limits session.supply with
  | ok made =>
    obtain ⟨change, rest⟩ := made
    rw [perform_of_ok done, Flow.answerEdit]
    cases about : edit.node? with
    | none =>
      dsimp only
      rw [done]
      exact ⟨rfl, rfl⟩
    | some id =>
      cases there : session.flow.has id with
      | true =>
        dsimp only
        rw [if_pos there, done]
        exact ⟨rfl, rfl⟩
      | false =>
        -- The edit would be refused.
        rw [Edit.run_of_not_has about there] at done
        cases done
  | error refusal =>
    rw [perform_of_error done, Flow.answerEdit]
    cases about : edit.node? with
    | none =>
      have gone : refusal.absence? = some refusal.message := Edit.absence?_of_insert about done
      dsimp only
      rw [done, Response.ofOutcome_of_absence gone]
      exact ⟨rfl, rfl⟩
    | some id =>
      cases there : session.flow.has id with
      | true =>
        have present : refusal.absence? = none := Edit.absence?_of_has about there done
        dsimp only
        rw [if_pos there, done, Response.ofOutcome_of_present present]
        exact ⟨rfl, rfl⟩
      | false =>
        rw [Edit.run_of_not_has about there, Except.error.injEq] at done
        dsimp only
        rw [if_neg (by simp [there]), ← done]
        exact ⟨rfl, rfl⟩

end Session

/-! ### A client -/

/-- A client that has the document of a flow. The identities for new nodes are those of the
service. -/
structure Client where
  current : Json
  supply : Supply

namespace Client

/-- Posts a request with the flow, and goes on with the flow of the response if that has the status
of a success. -/
def post (client : Client) (limits : Limits) (posting : Posting) : Response × Client :=
  let (response, supply) := (posting.call client.current).respond limits client.supply
  (response, { current := response.flow?.getD client.current, supply })

/-- Posts requests one after another. -/
def postAll (client : Client) (limits : Limits) : List Posting → List Response × Client
  | [] => ([], client)
  | posting :: rest =>
    let (response, next) := client.post limits posting
    let (responses, last) := next.postAll limits rest
    (response :: responses, last)

/-- A client has the flow of a session, and the service its supply. -/
structure Follows (client : Client) (session : Session) : Prop where
  reads : Flow.ofJson client.current = .valid session.flow
  supply : client.supply = session.supply

variable {client : Client} {session : Session} {posting : Posting} {edit : Edit}
  {postings : List Posting} {edits : List Edit}

/-- The response to a request tells what the edit comes to, and the client goes on to have the flow
of the session. -/
theorem Follows.post (follows : client.Follows session) (asks : posting.Asks edit) :
    (client.post session.limits posting).1 =
        .ofOutcome (session.perform edit).1 (session.perform edit).2.flow ∧
      (client.post session.limits posting).2.Follows (session.perform edit).2 := by
  have told := session.ofAnswer_answerEdit edit
  rw [Client.post, asks.respond follows.reads, follows.supply]
  dsimp only
  rw [told.1, told.2]
  refine ⟨rfl, ?_, rfl⟩
  rcases Response.flow?_ofOutcome (session.perform edit).1 (session.perform edit).2.flow with
    carried | ⟨⟨refusal, refused⟩, bare⟩
  · -- The flow of the response is written from a legible one.
    rw [carried]
    exact (Session.legible_perform (Flow.legible_of_ofJson follows.reads) edit).ofJson_toJson
  · rw [bare, Session.perform_of_refused refused]
    exact follows.reads

/-- The responses to requests tell what the edits come to one after another, each with the flow that
it left. -/
theorem postAll_eq (follows : client.Follows session)
    (asks : List.Forall₂ Posting.Asks postings edits) :
    (client.postAll session.limits postings).1 =
        (session.trace edits).map (fun step => .ofOutcome step.1 step.2) ∧
      (client.postAll session.limits postings).2.Follows (session.performAll edits).2 := by
  induction asks generalizing client session with
  | nil => exact ⟨rfl, follows⟩
  | @cons posting edit postings edits asked _ ih =>
    obtain ⟨response, onward⟩ := follows.post asked
    obtain ⟨responses, last⟩ := ih onward
    rw [Session.limits_perform] at responses last
    rw [postAll, Session.trace, Session.performAll, List.map_cons]
    exact ⟨congrArg₂ List.cons response responses, last⟩

/-- A flow as a client has it: with a plain name for a flag, a flag that is `null`, and members that
are no fields. -/
def errandDocument : Json :=
  .obj [("zoom", .ofNat 2),
    ("nodes", .arr [
      .obj [("id", .str "start"), ("type", .str "trigger"), ("icon", .str "bolt")],
      .obj [("id", .str "step"), ("type", .str "action"),
        ("data", .obj [("is_placeholder", .null), ("mergeNodeId", .null),
          ("merge_node_id", .str "end")])],
      .obj [("id", .str "end")]]),
    ("edges", .arr [
      .obj [("source", .str "start"), ("target", .str "step"), ("branch_id", .str "A")],
      .obj [("source", .str "step"), ("target", .str "end")]])]

/-- The session with the flow of the sample. -/
def errandSession : Session where
  flow := {
    nodes := [{ id := "start", kind := some "trigger", extras := [("icon", .str "bolt")] },
      { id := "step", kind := some "action",
        content := { extras := [("merge_node_id", .str "end")] } }, { id := "end" }]
    edges := [{ source := "start", target := "step", branch := some "A" },
      { source := "step", target := "end" }] }
  supply := .numbered

/-- The client with the document of the sample. -/
def errand : Client := ⟨errandDocument, .numbered⟩

/-- An insertion on an edge that is not there, one of a block on an edge that is, the deletion of a
node that is not there, a swap that is refused, and the deletion of the block. -/
def errandEdits : List Edit :=
  [.insert "start" "end" "loop" none none, .insert "start" "step" "condition" none none,
    .delete "gone", .swap "step" "loop" none none, .delete "000000000001"]

/-- The requests for the edits, the first deletion with a plain name. -/
def errandPostings : List Posting :=
  [.ofEdit (.insert "start" "end" "loop" none none),
    .ofEdit (.insert "start" "step" "condition" none none),
    ⟨.deleteNode, [("node_id", .str "gone")]⟩, .ofEdit (.swap "step" "loop" none none),
    .ofEdit (.delete "000000000001")]

/-- The new nodes of the block of the sample, in the order in which they are told. -/
def errandBlock : Json :=
  .arr [.str "000000000001", .str "000000000003", .str "000000000004", .str "000000000002"]

/-- The client of the sample is told twice that something is not there, and otherwise whether the
edit is made, what it removed and added, and the warning. The flow of the last response is the
one of the start, but for the edge that the insertion cut. -/
theorem postAll_eq_errand :
    (errand.postAll {} errandPostings).1.map (fun response => (response.status,
        ["detail", "applied", "removedNodeIds", "addedNodeIds", "warning"].map
          response.body.member?)) =
      [(404, [some (.str "edge not found: start -> end"), none, none, none, none]),
        (200, [none, some (.bool true), some (.arr []), some errandBlock, some .null]),
        (404, [some (.str "Node not found: gone"), none, none, none, none]),
        (200, [none, some (.bool false), some (.arr []), some (.arr []),
          some (.str ("cannot swap step from action to loop; " ++
            "insert or delete the block instead"))]),
        (200, [none, some (.bool true), some errandBlock, some (.arr []), some .null])] ∧
      ((errand.postAll {} errandPostings).1.getLast?.bind Response.flow?) =
        some { errandSession.flow with edges := [{ source := "step", target := "end" },
          { id := some "e-start-step", source := "start", target := "step",
            branch := some "A" }] }.toJson ∧
      (errand.postAll {} errandPostings).2.Follows (errandSession.performAll errandEdits).2 := by
  have follows : errand.Follows errandSession := ⟨by decide +kernel, rfl⟩
  have asks : List.Forall₂ Posting.Asks errandPostings errandEdits :=
    .cons (Posting.asks_ofEdit _) (.cons (Posting.asks_ofEdit _) (.cons (by decide +kernel)
      (.cons (Posting.asks_ofEdit _) (.cons (Posting.asks_ofEdit _) .nil))))
  obtain ⟨responses, last⟩ := postAll_eq follows asks
  have limits : errandSession.limits = {} := rfl
  rw [limits] at responses last
  rw [responses]
  exact ⟨by decide +kernel, by decide +kernel, last⟩

end Client

end Workflow
