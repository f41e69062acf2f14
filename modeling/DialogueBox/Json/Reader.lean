import DialogueBox.Json.Token

/-!
# Reading JSON trees

A tree is built from the tokens of its text in one pass. The arrays and objects that are not yet
closed wait on a stack, innermost first.

## Termination

`value` and `resume` recurse on the tokens: each step takes at least one.
-/

namespace DialogueBox.Json

/-- An array or object that is not yet closed, with what it holds so far, last first. -/
inductive Frame
  /-- An array that waits for an item. -/
  | array (items : List Json)
  /-- An object that waits for the value of a field. -/
  | object (fields : List (Option String × Json)) (name : Option String)

mutual

/-- Reads a value. -/
def value : List Token → List Frame → Option Json
  | .null :: ts, st => resume .null ts st
  | .bool b :: ts, st => resume (.bool b) ts st
  | .number n :: ts, st => resume (.number n) ts st
  | .string s :: ts, st => resume (.string s) ts st
  | .openBracket :: .closeBracket :: ts, st => resume (.array []) ts st
  | .openBracket :: ts, st => value ts (.array [] :: st)
  | .openBrace :: .closeBrace :: ts, st => resume (.object []) ts st
  | .openBrace :: .string name :: .colon :: ts, st => value ts (.object [] name :: st)
  | _, _ => none

/-- Goes on behind a value that is complete. -/
def resume (v : Json) : List Token → List Frame → Option Json
  | [], [] => some v
  | .comma :: ts, .array items :: st => value ts (.array (v :: items) :: st)
  | .closeBracket :: ts, .array items :: st => resume (.array (v :: items).reverse) ts st
  | .comma :: .string name :: .colon :: ts, .object fields name' :: st =>
    value ts (.object ((name', v) :: fields) name :: st)
  | .closeBrace :: ts, .object fields name :: st =>
    resume (.object ((name, v) :: fields).reverse) ts st
  | _, _ => none

end

/-- Reads the tree that a text denotes. -/
def read (s : List Char) : Option Json := (tokens s).bind fun ts => value ts []

end DialogueBox.Json
