import FilterQuery.Json.Decode

/-!
Reading records out of JSON. A record is an object with its members in any order; members that it
does not have are skipped. It may also be written as the array of all its members, in their own
order. Of several faults in a record the one that stands first is reported.
-/

namespace FilterQuery

abbrev Members := List (String × Json)

/-- The members of a record in the order in which they stand, and how their names are spelled. -/
structure Record where
  spelling : Spelling
  members : Members

/-- A part of a record: its value, or its first fault, with the place of the member at fault. -/
inductive Part (α : Type) where
  | read (value : α)
  | fault (place : Nat) (error : DecodeError)

namespace Part

variable {α β : Type}

def map (f : α → β) : Part α → Part β
  | read a => read (f a)
  | fault place e => fault place e

/-- Two parts together. If both have a fault, the one that stands first counts. -/
def seq : Part (α → β) → Part α → Part β
  | read f, a => a.map f
  | fault place e, read _ => fault place e
  | fault place e, fault place' e' => if place ≤ place' then fault place e else fault place' e'

instance : Applicative Part where
  pure := read
  map := map
  seq f a := f.seq (a ())

/-- A part that tells how another is read; its own fault counts first. -/
def andThen : Part α → (α → Part β) → Part β
  | read a, f => f a
  | fault place e, _ => fault place e

def toExcept : Part α → Except DecodeError α
  | read a => .ok a
  | fault _ e => .error e

end Part

namespace Record

variable {α : Type}

/-- The member of this name, if the record has one. -/
def part? (r : Record) (name : String) (value : Decoder α) : Part (Option α) :=
  match r.members.lookup name with
  | none => .read none
  | some j =>
    match value r.spelling j with
    | .ok a => .read (some a)
    | .error e => .fault (r.members.findIdx (·.1 == name)) e

/-- The member of this name. That there is none is found after the last member. -/
def part (r : Record) (name : String) (value : Decoder α) : Part α :=
  (r.part? name value).andThen fun
    | some a => .read a
    | none => .fault r.members.length .malformed

/-- A member that may be null, and that an object may lack. -/
def nullable (r : Record) (name : String) (value : Decoder α) : Part (Option α) :=
  Option.join <$> r.part? name (.nullable value)

end Record

namespace Decoder

variable {α : Type}

/-- A record that has these members. An array of any other number of members is at fault after
those that it has. -/
def record (names : List String) (parts : Record → Part α) : Decoder α
  | s, .obj members => (parts ⟨s, members⟩).toExcept
  | s, .arr items => do
    let a ← (parts ⟨s, names.zip items⟩).toExcept
    if items.length = names.length then return a else throw .malformed
  | _, _ => .error .malformed

/-- The name of a form, or in lenient spelling its number, counted from zero. -/
def form (forms : List (String × Decoder α)) : Decoder (Decoder α)
  | _, .str name => need (forms.lookup name)
  | .lenient, .int (.ofNat i) => need (forms[i]?.map (·.2))
  | _, _ => .error .malformed

/-- A record that has one of several forms. An object tells in the member `tag` which, as `named`
reads it; in an array the form comes before the members. -/
def variantBy (named : List (String × Decoder α) → Decoder (Decoder α)) (tag : String)
    (forms : List (String × Decoder α)) : Decoder α
  | s, .obj members => do
    let value ← named forms s (← need (members.lookup tag))
    value s (.obj members)
  | s, .arr (name :: items) => do
    let value ← form forms s name
    value s (.arr items)
  | _, _ => .error .malformed

/-- A record whose form says which members it has. -/
def variant (tag : String) (forms : List (String × Decoder α)) : Decoder α :=
  variantBy form tag forms

/-- A record of a name, in the member `tag`, and a value that is read as the name says. An object
may spell the name as any other name, an array only as a form. -/
def tagged (tag : String) (values : List (String × Decoder α)) : Decoder α :=
  variantBy oneOf tag
    (values.map fun (name, value) => (name, record ["value"] (·.part "value" value)))

end Decoder

end FilterQuery
