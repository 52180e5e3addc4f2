import Mathlib.Data.List.Forall2
import Mathlib.Logic.Relation
import Workflow.Proofs.Service.Passage

/-!
# Records that say the same

A field that may be `null` can as well be left out, and a field with two names can be given under
either, as long as no other member has a name of it. A record in which this was done has the same
values and the same further members, so its fields are checked alike: they have the same value, or
the same faults but for the names of fields on the way to them, and for a record that is repeated
since it lacks a field.

## Main definitions

* `Schema.Respells` — a record with one field left out, put in as `null`, or under its other name
* `Schema.Agrees` — two records have the same values and further members
* `Schema.Fault.Alike` — two faults are the same but for the names of fields and repeated records
* `Schema.Checked.Alike` — two outcomes are the same value, or have faults that are alike

## Main results

* `Schema.Respells.agrees` — a record that was respelled agrees with what it was
* `Checked.Alike.apply`, `Checked.Alike.within`, `Checked.Alike.list` — checks put together of such
  that are alike are alike
* `Checked.Alike.defaulted_of_value` — a field that may be `null` is checked alike
-/

namespace Workflow

open Schema

namespace Json

/-- One member of a record is changed in its place. -/
def Members.ChangesAt (key : String) (related : Json → Json → Prop) (read other : Members) : Prop :=
  ∃ before after value new, read = before ++ (key, value) :: after ∧
    other = before ++ (key, new) :: after ∧ related value new

/-- One item of a list is changed in its place. -/
def ChangesItem (related : Json → Json → Prop) (value other : Json) : Prop :=
  ∃ front back item new, value = .arr (front ++ item :: back) ∧
    other = .arr (front ++ new :: back) ∧ related item new

namespace Members

variable {members before after read other : Members} {key name : String} {value : Json}
  {related : Json → Json → Prop}

theorem get?_eq_none_iff : members.get? key = none ↔ ∀ member ∈ members, member.1 ≠ key := by
  simp [get?]

theorem get?_insert_of_ne (apart : name ≠ key) :
    get? (before ++ (name, value) :: after) key = get? (before ++ after) key := by
  simp [get?, List.find?_append, apart]

theorem get?_insert_self (value : Json) (alone : get? (before ++ after) key = none) :
    get? (before ++ (key, value) :: after) key = some value := by
  rw [get?, List.find?_append, List.find?_eq_none.mpr fun member inside same =>
    get?_eq_none_iff.mp alone member (List.mem_append_left _ inside) (of_decide_eq_true same)]
  simp

/-- Whether a name is there depends on the names only. -/
theorem has_congr (same : read.map (·.1) = other.map (·.1)) (key : String) :
    read.has key = other.has key := by
  have names : ∀ members : Members, members.has key = (members.map (·.1)).any (· = key) :=
    fun members => by
      rw [has, get?, Option.isSome_map, List.any_map, List.isSome_find?]
      rfl
  rw [names, names, same]

theorem ChangesAt.map_fst (changes : ChangesAt key related read other) :
    read.map (·.1) = other.map (·.1) := by
  obtain ⟨before, after, value, new, rfl, rfl, -⟩ := changes
  simp

theorem ChangesAt.get?_of_ne (changes : ChangesAt key related read other) (apart : key ≠ name) :
    read.get? name = other.get? name := by
  obtain ⟨before, after, value, new, rfl, rfl, -⟩ := changes
  rw [get?_insert_of_ne apart, get?_insert_of_ne apart]

/-- The first member of the changed name is the one that was changed, or stands before it. -/
theorem ChangesAt.get?_self (changes : ChangesAt key related read other) :
    ∃ value new, read.get? key = some value ∧ other.get? key = some new ∧
      (value = new ∨ related value new) := by
  obtain ⟨before, after, value, new, rfl, rfl, rel⟩ := changes
  cases first : before.find? (·.1 = key) with
  | none => exact ⟨value, new, by simp [get?, List.find?_append, first],
      by simp [get?, List.find?_append, first], .inr rel⟩
  | some member => exact ⟨member.2, member.2, by simp [get?, List.find?_append, first],
      by simp [get?, List.find?_append, first], .inl rfl⟩

end Members

end Json

namespace Schema

/-! ### Records that are spelled in another way -/

/-- The names of a field. -/
def Spelling.names (spelling : Spelling) : List String := [spelling.wire, spelling.plain]

/-- The value that a record has for a field, if it has one. -/
def Spelling.given? (spelling : Spelling) (members : Json.Members) : Option Json :=
  (spelling.find? members).map (·.2)

/-- No name belongs to two fields. -/
def Unshared (fields : List Spelling) : Prop :=
  ∀ spelling ∈ fields, ∀ other ∈ fields, spelling ≠ other →
    ∀ key ∈ spelling.names, key ∉ other.names

instance (fields : List Spelling) : Decidable (Unshared fields) :=
  inferInstanceAs (Decidable (∀ spelling ∈ fields, _))

/-- A record is written in another way: one of the fields that may be `null` is left out, or put in
as such, or a field is given under another name of it. No other member has a name of the field. -/
inductive Respells (fields nullable : List Spelling) : Json.Members → Json.Members → Prop
  | leave (spelling : Spelling) {key : String} (before after : Json.Members)
      (known : spelling ∈ nullable) (named : key ∈ spelling.names)
      (alone : spelling.find? (before ++ after) = none) :
      Respells fields nullable (before ++ (key, .null) :: after) (before ++ after)
  | put (spelling : Spelling) {key : String} (before after : Json.Members)
      (known : spelling ∈ nullable) (named : key ∈ spelling.names)
      (alone : spelling.find? (before ++ after) = none) :
      Respells fields nullable (before ++ after) (before ++ (key, .null) :: after)
  | rename (spelling : Spelling) {key name : String} {value : Json}
      (before after front back : Json.Members)
      (known : spelling ∈ fields) (named : key ∈ spelling.names) (renamed : name ∈ spelling.names)
      (alone : spelling.find? (before ++ after) = none) (rest : front ++ back = before ++ after) :
      Respells fields nullable (before ++ (key, value) :: after) (front ++ (name, value) :: back)

/-- Two records have the same value for each field, where one that may be `null` may be missing, and
the same further members. -/
structure Agrees (fields nullable : List Spelling) (read other : Json.Members) : Prop where
  given : ∀ spelling ∈ fields, spelling ∉ nullable → spelling.given? read = spelling.given? other
  value : ∀ spelling ∈ fields, spelling.value read = spelling.value other
  further : further fields read = further fields other

variable {fields nullable : List Spelling} {spelling field : Spelling} {key : String} {value : Json}
  {members before after read other : Json.Members} {related : Json → Json → Prop}

theorem value_eq_given? : spelling.value members = (spelling.given? members).getD .null := rfl

theorem find?_eq_none_iff : spelling.find? members = none ↔
    ∀ member ∈ members, member.1 ∉ spelling.names := by
  have both : spelling.find? members = none ↔
      members.get? spelling.wire = none ∧ members.get? spelling.plain = none := by
    rw [Spelling.find?]
    cases members.get? spelling.wire <;> simp
  rw [both, Json.Members.get?_eq_none_iff, Json.Members.get?_eq_none_iff, ← forall₂_and]
  simp [Spelling.names]

/-- A field that is given alike is missing in both records, or has the same value under a name in
each. -/
theorem find?_of_given (given : spelling.given? read = spelling.given? other) :
    (spelling.find? read = none ∧ spelling.find? other = none) ∨
      ∃ key name value, spelling.find? read = some (key, value) ∧
        spelling.find? other = some (name, value) := by
  rw [Spelling.given?, Spelling.given?] at given
  cases found : spelling.find? read with
  | none =>
    rw [found, Option.map_none, eq_comm, Option.map_eq_none_iff] at given
    exact .inl ⟨rfl, given⟩
  | some member =>
    rw [found, Option.map_some, eq_comm, Option.map_eq_some_iff] at given
    obtain ⟨memberToo, foundToo, same⟩ := given
    exact .inr ⟨member.1, memberToo.1, member.2, rfl, same ▸ foundToo⟩

theorem mem_names_of_find? (found : spelling.find? members = some (key, value)) :
    key ∈ spelling.names := by
  rw [Spelling.find?] at found
  split at found
  · cases found
    exact List.mem_cons_self
  · obtain ⟨_, -, same⟩ := Option.map_eq_some_iff.mp found
    cases same
    exact List.mem_cons_of_mem _ List.mem_cons_self

/-! ### One member put in -/

section Insert

variable (alone : spelling.find? (before ++ after) = none) (named : key ∈ spelling.names)
include alone named

theorem find?_insert_self (value : Json) :
    spelling.find? (before ++ (key, value) :: after) = some (key, value) := by
  have absent : ∀ name ∈ spelling.names, Json.Members.get? (before ++ after) name = none :=
    fun name known => Json.Members.get?_eq_none_iff.mpr fun member inside same =>
      find?_eq_none_iff.mp alone member inside (same ▸ known)
  have here := Json.Members.get?_insert_self value (absent key named)
  rw [Spelling.find?]
  by_cases wired : key = spelling.wire
  · rw [← wired, here]
  · obtain rfl : key = spelling.plain := by simpa [Spelling.names, wired] using named
    rw [Json.Members.get?_insert_of_ne wired, absent _ List.mem_cons_self, here]
    rfl

omit alone named in
theorem find?_insert_of_notMem (apart : key ∉ field.names) :
    field.find? (before ++ (key, value) :: after) = field.find? (before ++ after) := by
  simp only [Spelling.names, List.mem_cons, List.not_mem_nil, or_false, not_or] at apart
  rw [Spelling.find?, Spelling.find?, Json.Members.get?_insert_of_ne apart.1,
    Json.Members.get?_insert_of_ne apart.2]

/-- A member that a field takes is no further one, and the others are taken as they were. -/
theorem further_insert (unshared : Unshared fields) (known : spelling ∈ fields) :
    further fields (before ++ (key, value) :: after) = further fields (before ++ after) := by
  have taken : fields.any (·.takes (before ++ (key, value) :: after) key) = true := by
    refine List.any_eq_true.mpr ⟨spelling, known, ?_⟩
    have found := find?_insert_self alone named value
    rw [Spelling.find?] at found
    split at found
    · cases found
      simp [Spelling.takes]
    · rename_i missing
      obtain ⟨_, -, same⟩ := Option.map_eq_some_iff.mp found
      cases same
      simp [Spelling.takes, Json.Members.has, missing]
  have others : ∀ member ∈ before ++ after,
      fields.any (·.takes (before ++ (key, value) :: after) member.1) =
        fields.any (·.takes (before ++ after) member.1) := by
    intro member inside
    have agree : ∀ field ∈ fields, field.takes (before ++ (key, value) :: after) member.1 =
        field.takes (before ++ after) member.1 := by
      intro field there
      by_cases own : spelling = field
      · -- No other member has a name of the field.
        subst own
        have apart := find?_eq_none_iff.mp alone member inside
        simp only [Spelling.names, List.mem_cons, List.not_mem_nil, or_false, not_or] at apart
        simp [Spelling.takes, apart]
      · have apart : key ≠ field.wire := fun same =>
          unshared spelling known field there own key named (same ▸ List.mem_cons_self)
        simp only [Spelling.takes, Json.Members.has, Json.Members.get?_insert_of_ne apart]
    rw [Bool.eq_iff_iff, List.any_eq_true, List.any_eq_true]
    exact exists_congr fun field => and_congr_right fun there => by rw [agree field there]
  rw [further, further, List.filter_append, List.filter_cons_of_neg (by simp [taken]),
    ← List.filter_append]
  exact List.filter_congr fun member inside => by rw [others member inside]

end Insert

/-- A record that was respelled says the same. -/
theorem Respells.agrees (unshared : Unshared fields) (part : nullable ⊆ fields)
    (respells : Respells fields nullable read other) : Agrees fields nullable read other := by
  -- What holds of a field other than the one that was put in.
  have apart : ∀ {spelling field key value before after}, spelling ∈ fields →
      key ∈ spelling.names → field ∈ fields → spelling ≠ field →
      field.find? (before ++ (key, value) :: after) = field.find? (before ++ after) :=
    fun known named there differs =>
      find?_insert_of_notMem (unshared _ known _ there differs _ named)
  have dropped : ∀ {spelling key before after}, spelling ∈ nullable → key ∈ spelling.names →
      spelling.find? (before ++ after) = none →
      Agrees fields nullable (before ++ (key, .null) :: after) (before ++ after) := by
    intro spelling key before after known named alone
    refine ⟨fun field there firm => ?_, fun field there => ?_,
      further_insert alone named unshared (part known)⟩
    · rw [Spelling.given?, Spelling.given?,
        apart (part known) named there fun same => firm (same ▸ known)]
    · by_cases own : spelling = field
      · subst own
        rw [Spelling.value, Spelling.value, find?_insert_self alone named _, alone]
        rfl
      · rw [Spelling.value, Spelling.value, apart (part known) named there own]
  cases respells with
  | leave spelling before after known named alone => exact dropped known named alone
  | put spelling before after known named alone =>
    have back := dropped known named alone
    exact ⟨fun field there firm => (back.given field there firm).symm,
      fun field there => (back.value field there).symm, back.further.symm⟩
  | @rename spelling key name value before after front last known named renamed alone rest =>
    have aloneToo : spelling.find? (front ++ last) = none := rest ▸ alone
    have same : ∀ field ∈ fields, field.given? (before ++ (key, value) :: after) =
        field.given? (front ++ (name, value) :: last) := by
      intro field there
      by_cases own : spelling = field
      · subst own
        rw [Spelling.given?, Spelling.given?, find?_insert_self alone named _,
          find?_insert_self aloneToo renamed _]
        rfl
      · rw [Spelling.given?, Spelling.given?, apart known named there own,
          apart known renamed there own, rest]
    refine ⟨fun field there _ => same field there, fun field there => ?_, ?_⟩
    · rw [value_eq_given?, value_eq_given?, same field there]
    · rw [further_insert alone named unshared known, further_insert aloneToo renamed unshared known,
        rest]

/-! ### One member changed in its place -/

theorem given?_changesAt_of_notMem (changes : Json.Members.ChangesAt key related read other)
    (apart : key ∉ field.names) : field.given? read = field.given? other := by
  simp only [Spelling.names, List.mem_cons, List.not_mem_nil, or_false, not_or] at apart
  rw [Spelling.given?, Spelling.given?, Spelling.find?, Spelling.find?,
    changes.get?_of_ne apart.1, changes.get?_of_ne apart.2]

theorem find?_changesAt_self (changes : Json.Members.ChangesAt field.wire related read other) :
    ∃ value new, field.find? read = some (field.wire, value) ∧
      field.find? other = some (field.wire, new) ∧ (value = new ∨ related value new) := by
  obtain ⟨value, new, found, foundToo, same⟩ := changes.get?_self
  exact ⟨value, new, find?_of_get? found, find?_of_get? foundToo, same⟩

theorem further_changesAt (known : field ∈ fields)
    (changes : Json.Members.ChangesAt field.wire related read other) :
    further fields read = further fields other := by
  have takes : ∀ spelling : Spelling, spelling.takes read = spelling.takes other := fun spelling =>
    funext fun key => by
      rw [Spelling.takes, Spelling.takes, Json.Members.has_congr changes.map_fst]
  have taken : fields.any (·.takes other field.wire) = true :=
    List.any_eq_true.mpr ⟨field, known, by simp [Spelling.takes]⟩
  rw [further, further]
  simp only [takes]
  obtain ⟨before, after, value, new, rfl, rfl, -⟩ := changes
  rw [List.filter_append, List.filter_append, List.filter_cons_of_neg (by simp [taken]),
    List.filter_cons_of_neg (by simp [taken])]

/-! ### Outcomes that are alike -/

/-- A step of the way with the wire name of the field in a table that it names. -/
def Key.inWire (spellings : List Spelling) : Key → Key
  | .field name => .field (((spellings.find? (·.plain = name)).map (·.wire)).getD name)
  | .index position => .index position

/-- A fault with the wire names of the fields on the way to it. -/
def Fault.inWire (spellings : List Spelling) (fault : Fault) : Fault :=
  { fault with path := fault.path.map (Key.inWire spellings) }

/-- Two faults have the same cause, and lie at the same place but for the names of fields. They
repeat the same value, or the record that lacks a field, which may be written in another way. -/
structure Fault.Alike (spellings : List Spelling) (related : Json → Json → Prop)
    (fault other : Fault) : Prop where
  path : fault.path.map (Key.inWire spellings) = other.path.map (Key.inWire spellings)
  cause : fault.cause = other.cause
  input : fault.cause ≠ .missing → fault.input = other.input
  record : Relation.ReflTransGen related fault.input other.input

/-- Two outcomes are the same value, or faults that are alike one by one. -/
inductive Checked.Alike (spellings : List Spelling) (related : Json → Json → Prop) {α : Type} :
    Checked α → Checked α → Prop
  | valid (a : α) : Alike spellings related (.valid a) (.valid a)
  | faulty {found others : List Fault}
      (each : List.Forall₂ (Fault.Alike spellings related) found others) :
      Alike spellings related (.faulty found) (.faulty others)

/-- Each name of a field is known in a table to be one of the field. -/
def Spelling.WiredIn (spelling : Spelling) (spellings : List Spelling) : Prop :=
  ∀ key ∈ spelling.names, Key.inWire spellings (.field key) = .field spelling.wire

instance (spelling : Spelling) (spellings : List Spelling) :
    Decidable (spelling.WiredIn spellings) :=
  inferInstanceAs (Decidable (∀ key ∈ spelling.names, _))

namespace Fault.Alike

variable {spellings : List Spelling} {one two three : Fault} {step stepToo : Key}

theorem refl (fault : Fault) : Alike spellings related fault fault :=
  ⟨rfl, rfl, fun _ => rfl, .refl⟩

theorem trans (first : Alike spellings related one two)
    (second : Alike spellings related two three) : Alike spellings related one three where
  path := first.path.trans second.path
  cause := first.cause.trans second.cause
  input there := (first.input there).trans (second.input (first.cause ▸ there))
  record := first.record.trans second.record

theorem within (same : step.inWire spellings = stepToo.inWire spellings)
    (alike : Alike spellings related one two) :
    Alike spellings related (one.within step) (two.within stepToo) where
  path := by
    rw [Fault.within, Fault.within, List.map_cons, List.map_cons, same, alike.path]
  cause := alike.cause
  input := alike.input
  record := alike.record

end Fault.Alike

namespace Checked.Alike

variable {α β : Type} {spellings : List Spelling} {one two three : Checked α}
  {function functionToo : Checked (α → β)} {step stepToo : Key}

theorem refl (outcome : Checked α) : Alike spellings related outcome outcome := by
  cases outcome with
  | valid a => exact .valid a
  | faulty found => exact .faulty (List.forall₂_same.mpr fun fault _ => .refl fault)

private theorem forall₂_trans {one two three : List Fault} :
    List.Forall₂ (Fault.Alike spellings related) one two →
    List.Forall₂ (Fault.Alike spellings related) two three →
    List.Forall₂ (Fault.Alike spellings related) one three
  | .nil, .nil => .nil
  | .cons first firsts, .cons second seconds =>
    .cons (first.trans second) (forall₂_trans firsts seconds)

theorem trans (first : Alike spellings related one two)
    (second : Alike spellings related two three) : Alike spellings related one three := by
  cases first with
  | valid a => exact second
  | faulty each =>
    cases second with
    | faulty eachToo => exact .faulty (forall₂_trans each eachToo)

/-- Of two outcomes that are alike, one is a value if and only if the other is that value. -/
theorem eq_valid_iff {a : α} (alike : Alike spellings related one two) :
    one = .valid a ↔ two = .valid a := by
  cases alike with
  | valid b => rfl
  | faulty each => simp

theorem map (f : α → β) (alike : Alike spellings related one two) :
    Alike spellings related (one.map f) (two.map f) := by
  cases alike with
  | valid a => exact .valid (f a)
  | faulty each => exact .faulty each

theorem apply (functions : Alike spellings related function functionToo)
    (alike : Alike spellings related one two) :
    Alike spellings related (function.apply one) (functionToo.apply two) := by
  cases functions with
  | valid f =>
    cases alike with
    | valid a => exact .valid (f a)
    | faulty each => exact .faulty each
  | faulty each =>
    cases alike with
    | valid a => exact .faulty each
    | faulty eachToo => exact .faulty (List.rel_append each eachToo)

theorem within (same : step.inWire spellings = stepToo.inWire spellings)
    (alike : Alike spellings related one two) :
    Alike spellings related (one.within step) (two.within stepToo) := by
  cases alike with
  | valid a => exact .valid a
  | faulty each =>
    refine .faulty ?_
    rw [List.forall₂_map_left_iff, List.forall₂_map_right_iff]
    exact each.imp fun _ _ alike => alike.within same

/-- A list in which an item is changed for one that is checked alike is checked alike. -/
theorem list {check : Check α} {changed : Json → Json → Prop} {value other : Json}
    (changes : Json.ChangesItem changed value other)
    (each : ∀ {item new}, changed item new → Alike spellings related (check item) (check new)) :
    Alike spellings related (Schema.list check value) (Schema.list check other) := by
  obtain ⟨front, back, item, new, rfl, rfl, rel⟩ := changes
  have from' : ∀ position, Alike spellings related
      (Checked.allFrom check position (front ++ item :: back))
      (Checked.allFrom check position (front ++ new :: back)) := by
    induction front with
    | nil => exact fun position => (((each rel).within rfl).map _).apply (.refl _)
    | cons first front ih => exact fun position => (Alike.refl _).apply (ih (position + 1))
  exact from' 0

/-! ### Fields that are checked alike -/

section Fields

variable {check : Check α} {absent : α} (wired : spelling.WiredIn spellings)
include wired

/-- A value is checked alike under each name of its field. -/
theorem within_names {name : String} (found : spelling.find? read = some (key, value))
    (foundToo : spelling.find? other = some (name, value)) :
    Alike spellings related ((check value).within (.field key))
      ((check value).within (.field name)) :=
  (Alike.refl _).within ((wired _ (mem_names_of_find? found)).trans
    (wired _ (mem_names_of_find? foundToo)).symm)

/-- A field that has to be there is checked alike where it is given alike. Where it is missing, the
records are repeated. -/
theorem required_of_given (given : spelling.given? read = spelling.given? other)
    (records : Relation.ReflTransGen related (.obj read) (.obj other)) :
    Alike spellings related (Schema.required spelling check read)
      (Schema.required spelling check other) := by
  rw [Schema.required, Schema.required]
  rcases find?_of_given given with ⟨missing, missingToo⟩ | ⟨key, name, value, found, foundToo⟩
  · rw [missing, missingToo]
    exact .faulty (.cons ⟨rfl, rfl, fun there => absurd rfl there, records⟩ .nil)
  · rw [found, foundToo]
    exact within_names wired found foundToo

/-- A field that may be missing is checked alike where it is given alike. -/
theorem defaulted_of_given (given : spelling.given? read = spelling.given? other) :
    Alike spellings related (Schema.defaulted spelling absent check read)
      (Schema.defaulted spelling absent check other) := by
  rw [Schema.defaulted, Schema.defaulted]
  rcases find?_of_given given with ⟨missing, missingToo⟩ | ⟨key, name, value, found, foundToo⟩
  · rw [missing, missingToo]
    exact .refl _
  · rw [found, foundToo]
    exact within_names wired found foundToo

/-- A field that counts as missing when it is `null` is checked alike where it has the same
value. -/
theorem defaulted_of_value (null : check .null = .valid absent)
    (same : spelling.value read = spelling.value other) :
    Alike spellings related (Schema.defaulted spelling absent check read)
      (Schema.defaulted spelling absent check other) := by
  rw [Schema.defaulted, Schema.defaulted]
  rw [Spelling.value, Spelling.value] at same
  rcases found : spelling.find? read with _ | ⟨key, value⟩ <;>
    rcases foundToo : spelling.find? other with _ | ⟨name, new⟩ <;>
    simp only [found, foundToo, Option.map_none, Option.map_some, Option.getD_none,
      Option.getD_some] at same
  · exact .refl _
  · simp only [← same, null]
    exact .refl _
  · simp only [same, null]
    exact .refl _
  · subst same
    exact within_names wired found foundToo

end Fields

end Checked.Alike

end Schema

end Workflow
