import Workflow.Edit.Branches
import Workflow.Edit.Fill
import Workflow.Edit.Insert
import Workflow.Edit.Swap

/-!
# Edits

An edit is a request to change a flow. Planning it either refuses it, with the
flow as it was and no identity drawn, or yields a change. A session performs edits
one after another on the flow that the last one left.

## Main definitions

* `Edit`, `Edit.plan`, `Edit.run` — a request, what it comes to, and its result
* `Session`, `Session.perform` — edits one after another
-/

namespace Workflow

/-- A request to change a flow. -/
inductive Edit where
  | delete (id : NodeId)
  | swap (id : NodeId) (kind : String) (label : Option String) (params : Option Json.Members)
  | insert (source target : NodeId) (kind : String) (label : Option String)
      (branches : Option (List String))
  | fill (id : NodeId) (kind : String) (label : Option String) (params : Option Json.Members)
      (branches : Option (List String))
  | setBranches (id : NodeId) (names : List String)
  deriving DecidableEq, Repr

namespace Edit

/-- What an edit of a flow comes to. -/
def plan (edit : Edit) (flow : Flow) (limits : Limits) : Plan :=
  match edit with
  | delete id => flow.delete limits id
  | swap id kind label params => flow.swap limits id kind label params
  | insert source target kind label branches => flow.insert source target kind label branches
  | fill id kind label params branches => flow.fill limits id kind label params branches
  | setBranches id names => flow.setBranches limits id names

/-- The change that an edit makes, and the supply that it leaves. -/
def run (edit : Edit) (flow : Flow) (limits : Limits) (supply : Supply) :
    Except Refusal (Change × Supply) :=
  (edit.plan flow limits).map fun change => StateT.run change supply

variable {edit : Edit} {flow : Flow} {limits : Limits} {supply rest : Supply} {change : Change}

/-- An edit makes a change exactly when its plan draws that change. -/
theorem run_eq_ok_iff : edit.run flow limits supply = .ok (change, rest) ↔
    ∃ draw, edit.plan flow limits = .ok draw ∧ StateT.run draw supply = (change, rest) := by
  unfold run
  cases edit.plan flow limits <;> simp [Except.map]

/-- An edit is refused exactly when its plan is. -/
theorem run_eq_error_iff {refusal : Refusal} :
    edit.run flow limits supply = .error refusal ↔ edit.plan flow limits = .error refusal := by
  unfold run
  cases edit.plan flow limits <;> simp [Except.map]

end Edit

/-- A flow that is being edited, and the identities for its new nodes. -/
structure Session where
  flow : Flow
  supply : Supply
  limits : Limits := {}

namespace Session

/-- Performs an edit. A refused edit leaves the session as it was. -/
def perform (session : Session) (edit : Edit) : Except Refusal Change × Session :=
  match edit.run session.flow session.limits session.supply with
  | .error refusal => (.error refusal, session)
  | .ok (change, supply) => (.ok change, { session with flow := change.flow, supply })

variable {session : Session} {edit : Edit}

/-- A refused edit leaves the session as it was. -/
theorem perform_of_error {refusal : Refusal}
    (h : edit.run session.flow session.limits session.supply = .error refusal) :
    session.perform edit = (.error refusal, session) := by
  simp [perform, h]

/-- An edit that is made leaves its flow and what it did not draw. -/
theorem perform_of_ok {change : Change} {supply : Supply}
    (h : edit.run session.flow session.limits session.supply = .ok (change, supply)) :
    session.perform edit = (.ok change, { session with flow := change.flow, supply }) := by
  simp [perform, h]

/-- Performs edits one after another, and tells what each of them came to. -/
def performAll (session : Session) : List Edit → List (Except Refusal Change) × Session
  | [] => ([], session)
  | edit :: rest =>
    let (outcome, next) := session.perform edit
    let (outcomes, last) := next.performAll rest
    (outcome :: outcomes, last)

end Session

end Workflow
