/-!
# JSON values

The values a flow document is made of. An object is the list of its members in
the order they were written, so a document read and written again keeps that
order. A number is an integer of any size, an exact decimal, or one of the three
words that stand for no finite number.

## Main definitions

* `Json.Number` — an exact number
* `Json` — a value
* `Json.Members.get?`, `Json.Members.set` — look up and write one member
* `Json.member?` — look up one member of a value
-/

namespace Workflow

/-- A number as a document writes it. A decimal is `digits / 10 ^ places` with a sign,
which also zero may have. -/
inductive Json.Number where
  | int (value : Int)
  | decimal (negative : Bool) (digits places : Nat)
  | notANumber
  | infinity (negative : Bool)
  deriving DecidableEq, Inhabited, Repr

/-- A JSON value. -/
inductive Json where
  | null
  | bool (value : Bool)
  | num (value : Json.Number)
  | str (value : String)
  | arr (items : List Json)
  | obj (members : List (String × Json))
  deriving Inhabited, Repr

namespace Json

mutual

/-- Equality of values is decidable. -/
def decideEq : (a b : Json) → Decidable (a = b)
  | .null, .null => isTrue rfl
  | .bool a, .bool b => decidable_of_iff (a = b) (by simp)
  | .num a, .num b => decidable_of_iff (a = b) (by simp)
  | .str a, .str b => decidable_of_iff (a = b) (by simp)
  | .arr a, .arr b =>
    match decideItemsEq a b with
    | isTrue h => isTrue (by rw [h])
    | isFalse h => isFalse (by simpa using h)
  | .obj a, .obj b =>
    match decideMembersEq a b with
    | isTrue h => isTrue (by rw [h])
    | isFalse h => isFalse (by simpa using h)
  | .null, .bool _ | .null, .num _ | .null, .str _ | .null, .arr _ | .null, .obj _
  | .bool _, .null | .bool _, .num _ | .bool _, .str _ | .bool _, .arr _ | .bool _, .obj _
  | .num _, .null | .num _, .bool _ | .num _, .str _ | .num _, .arr _ | .num _, .obj _
  | .str _, .null | .str _, .bool _ | .str _, .num _ | .str _, .arr _ | .str _, .obj _
  | .arr _, .null | .arr _, .bool _ | .arr _, .num _ | .arr _, .str _ | .arr _, .obj _
  | .obj _, .null | .obj _, .bool _ | .obj _, .num _ | .obj _, .str _ | .obj _, .arr _ =>
    isFalse (by simp)

/-- Equality of item lists is decidable. -/
def decideItemsEq : (a b : List Json) → Decidable (a = b)
  | [], [] => isTrue rfl
  | a :: as, b :: bs =>
    match decideEq a b, decideItemsEq as bs with
    | isTrue h, isTrue k => isTrue (by rw [h, k])
    | isFalse h, _ => isFalse (by simp [h])
    | _, isFalse h => isFalse (by simp [h])
  | [], _ :: _ | _ :: _, [] => isFalse (by simp)

/-- Equality of member lists is decidable. -/
def decideMembersEq : (a b : List (String × Json)) → Decidable (a = b)
  | [], [] => isTrue rfl
  | (m, a) :: as, (n, b) :: bs =>
    match decEq m n, decideEq a b, decideMembersEq as bs with
    | isTrue g, isTrue h, isTrue k => isTrue (by rw [g, h, k])
    | isFalse g, _, _ => isFalse (by simp [g])
    | _, isFalse h, _ => isFalse (by simp [h])
    | _, _, isFalse h => isFalse (by simp [h])
  | [], _ :: _ | _ :: _, [] => isFalse (by simp)

end

instance : DecidableEq Json := decideEq

/-- The members of an object, in the order they were written. -/
abbrev Members := List (String × Json)

/-- An integer as a value. -/
def ofInt (n : Int) : Json := .num (.int n)

/-- A count as a value. -/
def ofNat (n : Nat) : Json := ofInt n

/-- A text, or `null` for none. -/
def ofText? : Option String → Json
  | none => .null
  | some text => .str text

/-- A list of texts as a value. -/
def ofTexts (texts : List String) : Json := .arr (texts.map .str)

namespace Members

variable {key other : String} {value : Json} {members : Members}

/-- The value of the first member called `key`. -/
def get? (members : Members) (key : String) : Option Json :=
  (members.find? (·.1 = key)).map (·.2)

/-- Whether some member is called `key`. -/
def has (members : Members) (key : String) : Bool := (members.get? key).isSome

/-- Writes a member: in its place when the name is there already, at the end when
it is new. -/
def set (members : Members) (key : String) (value : Json) : Members :=
  if members.has key then
    members.map fun member => if member.1 = key then (key, value) else member
  else members ++ [(key, value)]

@[simp] theorem get?_nil : get? [] key = none := rfl

theorem get?_cons : get? ((other, value) :: members) key =
    if other = key then some value else get? members key := by
  by_cases h : other = key <;> simp [get?, h]

private theorem get?_append_of_not_has (h : members.has key = false) :
    get? (members ++ [(key, value)]) key = some value := by
  simp only [has, get?, Option.isSome_map] at h
  rw [Option.isSome_eq_false_iff, Option.isNone_iff_eq_none] at h
  simp [get?, h]

private theorem get?_map_of_has (h : members.has key = true) :
    get? (members.map fun member => if member.1 = key then (key, value) else member) key =
      some value := by
  induction members with
  | nil => simp [has] at h
  | cons member rest ih =>
    obtain ⟨name, old⟩ := member
    by_cases hn : name = key
    · simp [get?_cons, hn]
    · have hr : has rest key = true := by simpa [has, get?_cons, hn] using h
      simpa [get?_cons, hn] using ih hr

/-- A member that was written is read back. -/
@[simp] theorem get?_set_self (members : Members) (key : String) (value : Json) :
    (members.set key value).get? key = some value := by
  unfold set
  split
  next h => exact get?_map_of_has h
  next h => exact get?_append_of_not_has (by simpa using h)

private theorem get?_map_of_ne (h : other ≠ key) :
    get? (members.map fun member => if member.1 = key then (key, value) else member) other =
      get? members other := by
  induction members with
  | nil => rfl
  | cons member rest ih =>
    obtain ⟨name, old⟩ := member
    by_cases hn : name = key
    · simp [get?_cons, hn, Ne.symm h, ih]
    · simp [get?_cons, hn, ih]

/-- Writing one member leaves every other one alone. -/
theorem get?_set_of_ne (members : Members) (value : Json) (h : other ≠ key) :
    (members.set key value).get? other = members.get? other := by
  unfold set
  split
  · exact get?_map_of_ne h
  · simp [get?, List.find?_append, Ne.symm h]

end Members

/-- The value of the first member called `key`, if this is an object that has one. -/
def member? (value : Json) (key : String) : Option Json :=
  match value with
  | .obj members => Members.get? members key
  | _ => none

end Json

end Workflow
