/-!
# Outcomes

What a command leaves behind for its caller: a status, the text it has written, and a complaint if
it did not succeed.
-/

namespace DialogueBox.Commandline

/-- How a command ended. -/
inductive Status
  | success
  /-- The command did its work and failed. -/
  | failure
  /-- The command did not understand its arguments. -/
  | misuse
  deriving DecidableEq, Repr

/-- The number by which a caller knows a status. -/
def Status.code : Status → Nat
  | success => 0
  | failure => 1
  | misuse => 2

/-- What a command leaves behind. -/
structure Outcome where
  status : Status := .success
  /-- What the command has written. -/
  output : String := ""
  /-- What the command has to say about its failure. -/
  complaint : String := ""
  deriving DecidableEq, Repr

end DialogueBox.Commandline
