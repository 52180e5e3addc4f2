import Workflow.Schema.Fault

/-!
# Checking with every fault

A check either yields a value or every fault it met, in the order of the parts.
Two checks side by side therefore report the faults of both; a chain that stops
at the first would not.

## Main definitions

* `Schema.Checked` — the outcome of a check, an applicative functor
* `Schema.Checked.within` — moves an outcome one step away
* `Schema.Checked.all` — checks each item of a list
-/

namespace Workflow.Schema

/-- The outcome of a check. -/
inductive Checked (α : Type) where
  | valid (value : α)
  | faulty (faults : List Fault)
  deriving DecidableEq, Repr

namespace Checked

variable {α β : Type}

/-- A single fault at the value itself. -/
def fault (cause : Cause) (input : Json) : Checked α := .faulty [⟨[], cause, input⟩]

/-- The faults met, if any. -/
def faults : Checked α → List Fault
  | valid _ => []
  | faulty found => found

/-- The value, if there was no fault. -/
def value? : Checked α → Option α
  | valid value => some value
  | faulty _ => none

/-- Applies a checked function to a checked value and keeps the faults of both. -/
def apply (function : Checked (α → β)) (argument : Checked α) : Checked β :=
  match function, argument with
  | valid f, valid a => valid (f a)
  | valid _, faulty found => faulty found
  | faulty found, valid _ => faulty found
  | faulty found, faulty further => faulty (found ++ further)

/-- The outcome with its value changed. -/
def map (f : α → β) : Checked α → Checked β
  | valid a => valid (f a)
  | faulty found => faulty found

instance : Functor Checked where
  map := map

instance : Applicative Checked where
  pure := valid
  seq function argument := apply function (argument ())

/-- The outcome for a part, told from the whole. -/
def within (key : Key) : Checked α → Checked α
  | valid a => valid a
  | faulty found => faulty (found.map (Fault.within key))

/-- Checks the items of a list, the first of which is at `position`. -/
def allFrom (check : β → Checked α) (position : Nat) : List β → Checked (List α)
  | [] => valid []
  | item :: rest =>
    apply (map List.cons ((check item).within (.index position)))
      (allFrom check (position + 1) rest)

/-- Checks the items of a list. -/
def all (check : β → Checked α) (items : List β) : Checked (List α) := allFrom check 0 items

@[simp] theorem map_valid (f : α → β) (a : α) : map f (valid a) = valid (f a) := rfl

@[simp] theorem apply_valid_valid (f : α → β) (a : α) :
    apply (valid f) (valid a) = valid (f a) := rfl

@[simp] theorem within_valid (key : Key) (a : α) : within key (valid a) = valid a := rfl

@[simp] theorem functorMap_eq (f : α → β) (outcome : Checked α) : f <$> outcome = map f outcome :=
  rfl

@[simp] theorem seq_eq (function : Checked (α → β)) (argument : Checked α) :
    function <*> argument = apply function argument := rfl

@[simp] theorem pure_eq (a : α) : (pure a : Checked α) = valid a := rfl

end Checked

end Workflow.Schema
