import DialogueBox.Json.Printer
import DialogueBox.Json.Reader

/-!
# JSON forms

The form of a type says how its values are written as JSON trees and which trees are read as
values. Reading is strict about kinds: a whole number must be written as one, a truth value is no
number, a character is a string of one character.

* A **record** is written as an object with its fields in order. It is read from an object with
  the fields in any order, where unknown fields are passed over and a known field that stands
  twice is refused; or from an array with the fields by position, where nothing may follow.
* A **variant** without a payload is written as its name, one with a payload as an object with the
  name as its only field. A variant without a payload may also be read from such an object whose
  value is `null`.

A field may be left out if it has a default. A field whose value may be missing may be left out
of an object, but not of an array.
-/

namespace DialogueBox.Json

open Number

/-- How the values of a type are written and read. -/
structure Form (α : Type) where
  write : α → Json
  read : Json → Option α

namespace Form

variable {α β : Type}

/-- The text of a value. -/
def text (f : Form α) (a : α) : String := String.ofList (f.write a).print

/-- The value that a text denotes. -/
def ofText? (f : Form α) (s : List Char) : Option α := (Json.read s).bind f.read

/-! ## Simple values -/

/-- Truth values. -/
def bool : Form Bool where
  write := .bool
  read
    | .bool b => some b
    | _ => none

/-- Whole numbers of a range. -/
def integer (range : IntegerRange) : Form Int where
  write n := .number (.ofInt n)
  read
    | .number n => n.integer?.filter range.contains
    | _ => none

/-- Natural numbers of a range. -/
def natural (range : IntegerRange) : Form Nat where
  write n := (integer range).write n
  read v := ((integer range).read v).map Int.toNat

/-- Durations in milliseconds, and other numbers of 32 bits. -/
def word32 : Form Nat := natural unsigned32

/-- Clocks, and other numbers of 64 bits. -/
def word64 : Form Nat := natural unsigned64

/-- Numbers in single precision; one that is not finite is written as `null`. -/
def single : Form Float32 where
  write x := if x.isFinite then .number (.ofSingle x) else .null
  read
    | .number n => n.single?
    | _ => none

/-- Texts. -/
def string : Form String where
  write s := .string (some s)
  read
    | .string s => s
    | _ => none

/-- Characters. -/
def char : Form Char where
  write c := .string (some (String.singleton c))
  read
    | .string (some s) =>
      match s.toList with
      | [c] => some c
      | _ => none
    | _ => none

/-- Lists. -/
def list (f : Form α) : Form (List α) where
  write as := .array (as.map f.write)
  read
    | .array items => items.mapM f.read
    | _ => none

/-- Values that may be missing. -/
def nullable (f : Form α) : Form (Option α) where
  write
    | none => .null
    | some a => f.write a
  read
    | .null => some none
    | v => (f.read v).map some

end Form

/-! ## Records -/

/-- The values of the fields of a record, as far as they are given. -/
structure Fields where
  /-- The names of the fields, in order. -/
  names : List String
  /-- The given value of each field. -/
  values : List (Option Json)
  /-- Whether they were given by position. -/
  positional : Bool

/-- Writes a record. -/
def record (fields : List (String × Json)) : Json :=
  .object (fields.map fun f => (some f.1, f.2))

/-- The value of a field in an object, if it stands there. -/
def fieldValue? (name : String) (fields : List (Option String × Json)) : Option Json :=
  (fields.find? fun f => f.1 == some name).map Prod.snd

/-- Whether the names of an object are texts and no known one among them repeats. -/
def wellNamed (names : List String) (fields : List (Option String × Json)) : Bool :=
  fields.all (fun f => f.1.isSome)
    && names.all fun n => fields.countP (fun f => f.1 == some n) ≤ 1

/-- Reads the fields of a record. -/
def fields? (names : List String) : Json → Option Fields
  | .object fields =>
    if wellNamed names fields then some ⟨names, names.map (fieldValue? · fields), false⟩ else none
  | .array items =>
    if items.length ≤ names.length then
      some ⟨names, items.map some ++ List.replicate (names.length - items.length) none, true⟩
    else none
  | _ => none

namespace Fields

variable {α : Type}

/-- The given value of a field. -/
def given? (r : Fields) (name : String) : Option Json :=
  ((r.names.zip r.values).find? fun p => p.1 == name).bind Prod.snd

/-- Reads a field that must be given. -/
def required (r : Fields) (name : String) (f : Json.Form α) : Option α :=
  (r.given? name).bind f.read

/-- Reads a field with a default. -/
def withDefault (r : Fields) (name : String) (f : Json.Form α) (a : α) : Option α :=
  match r.given? name with
  | some v => f.read v
  | none => some a

/-- Reads a field whose value may be missing. -/
def optional (r : Fields) (name : String) (f : Json.Form α) : Option (Option α) :=
  match r.given? name with
  | some v => f.nullable.read v
  | none => if r.positional then none else some none

end Fields

/-! ## Variants -/

/-- The name of a variant, and its payload if it is written with one. -/
def variant? : Json → Option (String × Option Json)
  | .string name => name.map fun n => (n, none)
  | .object [(some name, v)] => some (name, some v)
  | _ => none

/-- Writes a variant without a payload. -/
def bareVariant (name : String) : Json := .string (some name)

/-- Writes a variant with a payload. -/
def variant (name : String) (payload : Json) : Json := .object [(some name, payload)]

/-- Reads a variant without a payload. -/
def bare {α : Type} (payload : Option Json) (a : α) : Option α :=
  match payload with
  | none => some a
  | some .null => some a
  | some _ => none

/-- Reads a variant with a payload. -/
def carried {α β : Type} (payload : Option Json) (f : Form α) (make : α → β) : Option β :=
  (payload.bind f.read).map make

end DialogueBox.Json
