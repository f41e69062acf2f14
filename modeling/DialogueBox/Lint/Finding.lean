/-!
# Findings

What checking a script tells its author. A finding has a severity, names its script, and may name
a line and quote what it is about.
-/

namespace DialogueBox.Lint

/-- How grave a finding is. -/
inductive Severity
  /-- For information. -/
  | info
  /-- Should be mended. -/
  | warning
  /-- Must be mended. -/
  | error
  deriving DecidableEq, Repr

namespace Severity

/-- The rank of a severity; a graver one has a higher rank. -/
def rank : Severity → Nat
  | info => 0
  | warning => 1
  | error => 2

/-- The name under which a severity is shown. -/
def name : Severity → String
  | info => "INFO"
  | warning => "WARN"
  | error => "ERROR"

end Severity

/-- A note to the author of a script. -/
structure Finding where
  severity : Severity
  /-- The name of the script. -/
  script : String
  /-- The line, counted from 1, if the finding belongs to one. -/
  line : Option Nat
  message : String
  /-- What the finding is about, quoted from the script. -/
  quoted : Option String
  deriving DecidableEq, Repr

namespace Finding

/-- The text of a finding; the quotation stands on a line of its own. -/
def text (f : Finding) : String :=
  "[" ++ f.severity.name ++ "] " ++ f.script
    ++ (match f.line with
      | some n => ":" ++ n.repr
      | none => "")
    ++ ": " ++ f.message
    ++ (match f.quoted with
      | some q => "\n  | " ++ q
      | none => "")

end Finding

/-! ## Lists of findings -/

/-- The number of findings of a severity. -/
def count (severity : Severity) (fs : List Finding) : Nat :=
  fs.countP fun f => f.severity == severity

/-- The findings that are at least as grave as a severity. -/
def atLeast (severity : Severity) (fs : List Finding) : List Finding :=
  fs.filter fun f => severity.rank ≤ f.severity.rank

/-- Whether something must be mended. -/
def hasErrors (fs : List Finding) : Bool := 0 < count .error fs

end DialogueBox.Lint
