import Mathlib.Tactic.SplitIfs
import Workflow.Flow.Document

/-!
# Where a fault lies

A fault repeats the value to which its way leads. A field that is missing is told at the end of the
way on which it would lie, and the record that lacks it is repeated.

## Main definitions

* `Schema.lead?` — the value to which a way leads
* `Schema.Fault.Sited` — a fault repeats what is in the document where it lies
* `Schema.Checked.Sited` — all faults of an outcome do

## Main results

* `Schema.Checked.Sited.within`, `Schema.sited_required`, `Schema.sited_list` — parts of a record or
  of a list
* `Flow.sited_ofJson` — the faults of a document repeat what is in it
-/

namespace Workflow

namespace Schema

/-- The part of a value to which one step leads. -/
def Key.part? : Key → Json → Option Json
  | .field name, value => value.member? name
  | .index position, .arr items => items[position]?
  | .index _, _ => none

/-- The value to which a way leads. -/
def lead? : List Key → Json → Option Json
  | [], value => some value
  | key :: rest, value => (key.part? value).bind (lead? rest)

/-- A fault repeats the value to which its way leads, or the record that lacks its field. -/
inductive Fault.Sited (value : Json) : Fault → Prop
  | found {path : List Key} {cause : Cause} {input : Json} (there : lead? path value = some input)
      (other : cause ≠ .missing) : Sited value ⟨path, cause, input⟩
  | lacking {path : List Key} {members : Json.Members} {name : String}
      (there : lead? path value = some (.obj members)) (absent : members.get? name = none) :
      Sited value ⟨path ++ [.field name], .missing, .obj members⟩

/-- All faults of an outcome repeat what is in the value where they lie. -/
def Checked.Sited {α : Type} (value : Json) (outcome : Checked α) : Prop :=
  ∀ fault ∈ outcome.faults, fault.Sited value

variable {α β : Type} {value part : Json} {members : Json.Members} {outcome : Checked α}
  {function : Checked (α → β)} {key : Key} {check : Check α} {spelling : Spelling}

/-- A fault of a part lies in the whole, one step further away. -/
theorem Fault.Sited.within {fault : Fault} (sited : fault.Sited part)
    (leads : key.part? value = some part) : (fault.within key).Sited value := by
  have further : ∀ path, lead? (key :: path) value = lead? path part := fun path => by
    rw [lead?, leads, Option.bind_some]
  cases sited with
  | @found path _ _ there other => exact .found ((further path).trans there) other
  | @lacking path _ _ there absent => exact .lacking ((further path).trans there) absent

namespace Checked.Sited

theorem valid (a : α) : (Checked.valid a).Sited value := fun _ none => absurd none List.not_mem_nil

theorem fault {cause : Cause} (other : cause ≠ .missing) (value : Json) :
    (Checked.fault cause value : Checked α).Sited value := by
  intro fault member
  obtain rfl := List.mem_singleton.mp member
  exact .found rfl other

theorem map (f : α → β) (sited : outcome.Sited value) : (outcome.map f).Sited value := by
  cases outcome with
  | valid a => exact .valid (f a)
  | faulty found => exact sited

theorem apply (functions : function.Sited value) (sited : outcome.Sited value) :
    (function.apply outcome).Sited value := by
  cases function with
  | valid f =>
    cases outcome with
    | valid a => exact .valid (f a)
    | faulty found => exact sited
  | faulty found =>
    cases outcome with
    | valid a => exact functions
    | faulty others =>
      exact fun fault member => (List.mem_append.mp member).elim (functions fault) (sited fault)

theorem within (sited : outcome.Sited part) (leads : key.part? value = some part) :
    (outcome.within key).Sited value := by
  cases outcome with
  | valid a => exact .valid a
  | faulty found =>
    intro fault member
    obtain ⟨inner, inside, rfl⟩ := List.mem_map.mp member
    exact (sited inner inside).within leads

end Checked.Sited

/-! ### Single values -/

theorem sited_text (value : Json) : (text value).Sited value := by
  cases value with
  | str name => exact .valid name
  | _ => exact .fault (by decide) _

theorem flagOfInt_ne {n : Int} : flagOfInt n ≠ .error .missing := by
  simp only [flagOfInt]
  split_ifs <;> simp

/-- Where a value stands for no flag, it is there. -/
theorem flagOf_ne (value : Json) : flagOf value ≠ .error .missing := by
  cases value with
  | num number =>
    cases number with
    | int n => exact flagOfInt_ne
    | decimal negative digits places =>
      simp only [flagOf, flagOfNumber]
      split
      · split_ifs
        · exact flagOfInt_ne
        · exact flagOfInt_ne
        · simp
      · simp
    | _ => simp [flagOf, flagOfNumber]
  | str word =>
    simp only [flagOf, flagOfWord]
    split_ifs <;> simp
  | _ => simp [flagOf]

theorem sited_flag (value : Json) : (flag value).Sited value := by
  rw [flag]
  cases stands : flagOf value with
  | ok holds => exact .valid holds
  | error cause => exact .fault (fun same => flagOf_ne value (same ▸ stands)) value

theorem sited_table (value : Json) : (table value).Sited value := by
  cases value with
  | obj members => exact .valid members
  | _ => exact .fault (by decide) _

section Parts

variable (each : ∀ value, (check value).Sited value)
include each

theorem sited_nullable (value : Json) : (nullable check value).Sited value := by
  cases value with
  | null => exact .valid none
  | _ => exact (each _).map some

theorem sited_list (value : Json) : (list check value).Sited value := by
  cases value with
  | arr items =>
    -- The items from a position on are those behind the ones before it.
    have from' : ∀ (before rest : List Json), before ++ rest = items →
        (Checked.allFrom check before.length rest).Sited (.arr items) := by
      intro before rest
      induction rest generalizing before with
      | nil => exact fun _ => .valid []
      | cons item rest ih =>
        intro split
        refine .apply (.map _ ((each item).within ?_)) ?_
        · rw [← split, Key.part?, List.getElem?_append_right (Nat.le_refl _), Nat.sub_self]
          rfl
        · have more := ih (before ++ [item]) (by rw [← split, List.append_assoc]; rfl)
          rwa [List.length_append, List.length_singleton] at more
    exact from' [] items rfl
  | _ => exact .fault (by decide) _

/-! ### Fields -/

theorem sited_field {name : String} (found : spelling.find? members = some (name, value)) :
    ((check value).within (.field name)).Sited (.obj members) := by
  refine (each value).within ?_
  rw [Spelling.find?] at found
  split at found
  · cases found
    assumption
  · obtain ⟨_, there, same⟩ := Option.map_eq_some_iff.mp found
    cases same
    exact there

theorem sited_required (spelling : Spelling) (members : Json.Members) :
    (required spelling check members).Sited (.obj members) := by
  rw [required]
  rcases found : spelling.find? members with _ | ⟨name, value⟩
  · intro fault member
    obtain rfl := List.mem_singleton.mp member
    rw [Spelling.find?] at found
    split at found
    · cases found
    · rename_i missing
      exact @Fault.Sited.lacking _ [] _ _ rfl missing
  · exact sited_field each found

theorem sited_defaulted (spelling : Spelling) (absent : α) (members : Json.Members) :
    (defaulted spelling absent check members).Sited (.obj members) := by
  rw [defaulted]
  rcases found : spelling.find? members with _ | ⟨name, value⟩
  · exact .valid absent
  · exact sited_field each found

end Parts

theorem sited_record {check : Json.Members → Checked α}
    (each : ∀ members, (check members).Sited (.obj members)) (model : String) (value : Json) :
    (record model check value).Sited value := by
  cases value with
  | obj members => exact each members
  | _ => exact .fault (by simp) _

theorem sited_optional_text (spelling : Spelling) (members : Json.Members) :
    (Schema.optional spelling text members).Sited (.obj members) :=
  sited_defaulted (sited_nullable sited_text) spelling none members

end Schema

open Schema

/-! ### Documents -/

theorem Content.sited_ofJson : (value : Json) → (Content.ofJson value).Sited value := by
  refine sited_record (fun members => ?_) _
  simp only [ofMembers, Checked.functorMap_eq, Checked.seq_eq, Checked.pure_eq]
  have flagged : ∀ spelling, (flagged spelling members).Sited (.obj members) :=
    fun spelling => sited_defaulted sited_flag spelling false members
  refine .apply (.apply (.apply (.apply (.apply (.apply (.apply (.apply (.map _ ?_) ?_) ?_)
    (flagged _)) (flagged _)) (flagged _)) (flagged _)) ?_) (.valid _)
  · exact sited_optional_text _ members
  · exact sited_optional_text _ members
  · exact sited_defaulted (sited_nullable sited_table) _ none members
  · exact sited_optional_text _ members

theorem Node.sited_ofJson : (value : Json) → (Node.ofJson value).Sited value := by
  refine sited_record (fun members => ?_) _
  simp only [ofMembers, Checked.functorMap_eq, Checked.seq_eq, Checked.pure_eq]
  have content : ∀ value, (Content.ofJsonOrNull value).Sited value := fun value => by
    cases value with
    | null => exact .valid ({} : Content)
    | _ => exact Content.sited_ofJson _
  exact .apply (.apply (.apply (.map _ (sited_required sited_text _ members))
    (sited_optional_text _ members)) (sited_defaulted content _ {} members)) (.valid _)

theorem Edge.sited_ofJson : (value : Json) → (Edge.ofJson value).Sited value := by
  refine sited_record (fun members => ?_) _
  simp only [ofMembers, Checked.functorMap_eq, Checked.seq_eq, Checked.pure_eq]
  exact .apply (.apply (.apply (.apply (.map _ (sited_optional_text _ members))
    (sited_required sited_text _ members)) (sited_required sited_text _ members))
    (sited_optional_text _ members)) (.valid _)

/-- Each fault of a document repeats what is in it: the value to which the way of the fault leads,
or the record that lacks the field at its end. -/
theorem Flow.sited_ofJson : (value : Json) → (Flow.ofJson value).Sited value := by
  refine sited_record (fun members => ?_) _
  simp only [ofMembers, Checked.functorMap_eq, Checked.seq_eq]
  exact .apply (.apply (.map _ (sited_optional_text _ members))
    (sited_defaulted (sited_list Node.sited_ofJson) _ [] members))
    (sited_defaulted (sited_list Edge.sited_ofJson) _ [] members)

end Workflow
