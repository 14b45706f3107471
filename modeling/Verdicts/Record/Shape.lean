/-
Reading JSON values into domain types. A shape lists the fields of a structure. An object gives them
by name, in any order and with any others in between; an array gives them by position, in the order
of the shape. The first thing wrong, in the order of the text, is the error; what is absent is
looked for at the end.
-/
import Verdicts.Record.DataError
import Verdicts.Text.Blank
import Verdicts.Text.Decimal

namespace Verdicts

/-- Reads a value of type `α`. -/
abbrev Read (α : Type) := Json → Except DataError α

namespace Read

/-- A text. -/
def string : Read String
  | .string text => .ok text
  | value => .error (.wrongType value "a string")

/-- A truth value. -/
def bool : Read Bool
  | .bool value => .ok value
  | value => .error (.wrongType value "a boolean")

/-- A natural number of 64 bits. -/
def natural : Read Nat
  | .number (.int (.ofNat n)) => .ok n
  | .number (.int n) => .error (.invalidValue (DataError.describe (.number (.int n))) "u64")
  | value => .error (.wrongType value "u64")

/-- A double; an integer counts as the double nearest to it. -/
def double : Read Binary64
  | .number (.int n) => .ok (.ofInt n)
  | .number (.float x) => .ok x
  | value => .error (.wrongType value "f64")

/-- Any value, kept whole. -/
def whole : Read Json := fun value => .ok value.canonical

/-- A value that may be absent; `null` says that it is. -/
def option {α : Type} (read : Read α) : Read (Option α)
  | .null => .ok none
  | value => (read value).map some

/-- Values one after the other, up to the first that cannot be read. -/
def items {α : Type} (read : Read α) : List Json → Except DataError (List α)
  | [] => .ok []
  | value :: rest => do
    let first ← read value
    let others ← items read rest
    return first :: others

/-- A list. -/
def list {α : Type} (read : Read α) : Read (List α)
  | .array values => items read values
  | value => .error (.wrongType value "a sequence")

/-- A pair, written as a list of two. -/
def pair {α β : Type} (first : Read α) (second : Read β) : Read (α × β)
  | .array [] => .error (.invalidLength 0 "a tuple of size 2")
  | .array (a :: rest) => do
    let a ← first a
    match rest with
    | [] => .error (.invalidLength 1 "a tuple of size 2")
    | b :: rest =>
      let b ← second b
      if rest.isEmpty then return (a, b)
      else .error (.invalidLength (rest.length + 2) "2 elements in sequence")
  | value => .error (.wrongType value "a tuple of size 2")

/-- A natural number of 64 bits that may be written as a text, and may be absent. Blanks around the
digits and a plus sign in front of them do not count. -/
def lenient64 : Read (Option Nat)
  | .null => .ok none
  | .number (.int (.ofNat n)) => .ok (some n)
  | .string text =>
    match Decimal.unsigned? Decimal.limit64 (Text.trim text.toList) with
    | some n => .ok (some n)
    | none => .error (.notANumber text)
  | _ => .error .neitherNumberNorText

/-- The same with 32 bits. -/
def lenient32 : Read (Option Nat) := fun value => do
  match ← lenient64 value with
  | none => return none
  | some n => if n < Decimal.limit32 then return some n else .error (.tooWide n)

end Read

/-- A field of a structure `σ`: how its value is read and put in place. -/
structure Field (σ : Type) where
  name : String
  required : Bool
  read : Json → Except DataError (σ → σ)

/-- The fields of a structure, and the structure without any of them. -/
structure Shape (σ : Type) where
  name : String
  fields : List (Field σ)
  blank : σ

namespace Field

variable {σ α : Type}

/-- A field that has to be there. -/
def needed (name : String) (read : Read α) (put : α → σ → σ) : Field σ :=
  ⟨name, true, fun value => (read value).map put⟩

/-- A field that may be left out. -/
def optional (name : String) (read : Read α) (put : α → σ → σ) : Field σ :=
  ⟨name, false, fun value => (read value).map put⟩

end Field

namespace Shape

variable {σ : Type}

/-- Take the members of an object in order. `seen` are the names of the fields taken before. -/
def takeMembers (fields : List (Field σ)) (seen : List String) (s : σ) :
    List (String × Json) → Except DataError (σ × List String)
  | [] => .ok (s, seen)
  | (key, value) :: rest =>
    match fields.find? (·.name == key) with
    | none => takeMembers fields seen s rest
    | some field =>
      if key ∈ seen then .error (.duplicateField key)
      else
        match field.read value with
        | .ok put => takeMembers fields (key :: seen) (put s) rest
        | .error e => .error e

/-- The structure that the members of an object give. -/
def ofMembers (shape : Shape σ) (members : List (String × Json)) : Except DataError σ :=
  match takeMembers shape.fields [] shape.blank members with
  | .error e => .error e
  | .ok (s, seen) =>
    match shape.fields.find? fun field => field.required && !seen.contains field.name with
    | some field => .error (.missingField field.name)
    | none => .ok s

/-- Take the items of an array in order; `index` is the position of the next. -/
def takeItems (shape : Shape σ) (total index : Nat) (s : σ) :
    List (Field σ) → List Json → Except DataError σ
  | [], [] => .ok s
  | [], _ :: _ =>
    .error (.invalidLength total s!"{shape.fields.length} elements in sequence")
  | field :: fields, [] =>
    if field.required then
      .error (.invalidLength index s!"struct {shape.name} with {shape.fields.length} elements")
    else takeItems shape total (index + 1) s fields []
  | field :: fields, value :: rest =>
    match field.read value with
    | .ok put => takeItems shape total (index + 1) (put s) fields rest
    | .error e => .error e

/-- The structure that a value gives. -/
def read (shape : Shape σ) : Read σ
  | .object members => shape.ofMembers members
  | .array items => shape.takeItems items.length 0 shape.blank shape.fields items
  | value => .error (.wrongType value s!"struct {shape.name}")

end Shape

end Verdicts
