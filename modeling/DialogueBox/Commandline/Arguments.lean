import DialogueBox.Text.Lines

/-!
# Arguments

The arguments of a command are options and operands, in any order.

* An option has a long name, written after two dashes, and may have a letter, written after one
  dash. Letters may be joined behind one dash.
* The value of an option stands behind an equals sign, or directly behind its letter, or in the
  next argument. A next argument that looks like an option is no value.
* Behind two dashes alone, every argument is an operand. One dash alone is an operand or a value.

No option may stand twice.

## Termination

`read` recurses on the arguments, and `readLetters` on the characters of one.
-/

namespace DialogueBox.Commandline

/-- An option that a command knows. -/
structure Switch where
  /-- The long name, without dashes. -/
  name : String
  letter : Option Char := none
  takesValue : Bool := false
  deriving DecidableEq, Repr

/-- An argument as a command understands it. -/
inductive Argument
  | option (name : String) (value : Option String)
  | operand (text : String)
  deriving DecidableEq, Repr

/-- Why a command does not understand its arguments. -/
inductive UsageFault
  /-- The command does not know the option. -/
  | unknown (name : String)
  /-- The option has no value but needs one. -/
  | missingValue (name : String)
  /-- The option has a value but takes none. -/
  | surplusValue (name : String)
  /-- The option takes no such value. -/
  | badValue (name : String)
  /-- The option stands twice. -/
  | repeated (name : String)
  /-- An operand is missing. -/
  | missingOperand (name : String)
  /-- An operand is not what it should be. -/
  | badOperand (name : String)
  /-- There are too many operands. -/
  | surplusOperand (text : String)
  deriving DecidableEq, Repr

/-- The wording of a fault. -/
def UsageFault.message : UsageFault → String
  | unknown name => "unknown option '" ++ name ++ "'"
  | missingValue name => "option '" ++ name ++ "' needs a value"
  | surplusValue name => "option '" ++ name ++ "' takes no value"
  | badValue name => "invalid value for option '" ++ name ++ "'"
  | repeated name => "option '" ++ name ++ "' stands more than once"
  | missingOperand name => "missing argument '" ++ name ++ "'"
  | badOperand name => "invalid argument '" ++ name ++ "'"
  | surplusOperand text => "unexpected argument '" ++ text ++ "'"

/-! ## Reading -/

/-- What one argument contributes: whole arguments, and an option whose value is still to come. -/
structure Piece where
  arguments : List Argument
  awaiting : Option Switch := none

/-- Reads an option by its long name; the two dashes are taken off. -/
def readLong (known : List Switch) (s : List Char) : Except UsageFault Piece :=
  let (name, value) : List Char × Option (List Char) :=
    match Text.splitAt? '=' s with
    | some (name, value) => (name, some value)
    | none => (s, none)
  match known.find? fun o => o.name == String.ofList name with
  | none => .error (.unknown (String.ofList name))
  | some o =>
    match o.takesValue, value with
    | true, some v => .ok ⟨[.option o.name (some (String.ofList v))], none⟩
    | true, none => .ok ⟨[], some o⟩
    | false, some _ => .error (.surplusValue o.name)
    | false, none => .ok ⟨[.option o.name none], none⟩

/-- The value that stands directly behind a letter, with or without an equals sign. -/
def attachedValue : List Char → List Char
  | '=' :: v => v
  | v => v

/-- Reads joined letters; the dash is taken off. -/
def readLetters (known : List Switch) : List Char → Except UsageFault Piece
  | [] => .ok ⟨[], none⟩
  | c :: r =>
    match known.find? fun o => o.letter == some c with
    | none => .error (.unknown (String.singleton c))
    | some o =>
      if o.takesValue then
        if r.isEmpty then .ok ⟨[], some o⟩
        else .ok ⟨[.option o.name (some (String.ofList (attachedValue r)))], none⟩
      else
        (readLetters known r).map fun p =>
          { p with arguments := .option o.name none :: p.arguments }

/-- Whether an argument looks like an option. -/
def looksLikeOption (s : String) : Bool :=
  match s.toList with
  | '-' :: _ :: _ => true
  | _ => false

/-- Reads one argument. -/
def readPiece (known : List Switch) (s : String) : Except UsageFault Piece :=
  match s.toList with
  | '-' :: '-' :: r => readLong known r
  | '-' :: c :: r => readLetters known (c :: r)
  | _ => .ok ⟨[.operand s], none⟩

/-- Reads the arguments of a command. -/
def read (known : List Switch) : List String → Except UsageFault (List Argument)
  | [] => .ok []
  | s :: rest =>
    if s = "--" then .ok (rest.map .operand)
    else
      match readPiece known s with
      | .error f => .error f
      | .ok ⟨found, none⟩ => (read known rest).map (found ++ ·)
      | .ok ⟨found, some o⟩ =>
        match rest with
        | [] => .error (.missingValue o.name)
        | v :: rest =>
          if looksLikeOption v then .error (.missingValue o.name)
          else (read known rest).map (found ++ .option o.name (some v) :: ·)

/-! ## Understood arguments -/

/-- The options and operands of a command. -/
structure Arguments where
  items : List Argument

namespace Arguments

/-- Whether an argument is the option with a name. -/
def isOption (name : String) : Argument → Bool
  | .option n _ => n == name
  | .operand _ => false

/-- Whether an option is given. -/
def has (a : Arguments) (name : String) : Bool := a.items.any (isOption name)

/-- The value of an option, if it is given with one. -/
def value? (a : Arguments) (name : String) : Option String :=
  a.items.findSome? fun
    | .option n v => if n = name then v else none
    | .operand _ => none

/-- The operands in order. -/
def operands (a : Arguments) : List String :=
  a.items.filterMap fun
    | .operand s => some s
    | .option _ _ => none

/-- Reads the value of an option that has a default. -/
def valueWith {α : Type} (a : Arguments) (name : String) (read : String → Option α) (default : α) :
    Except UsageFault α :=
  match a.value? name with
  | none => .ok default
  | some v =>
    match read v with
    | some x => .ok x
    | none => .error (.badValue name)

/-- Reads the value of an option that may be left out. -/
def valueIf (a : Arguments) (name : String) (accept : String → Bool) :
    Except UsageFault (Option String) :=
  a.valueWith name (fun v => if accept v then some (some v) else none) none

/-- Reads the arguments of a command, none of which may repeat an option. -/
def ofList (known : List Switch) (args : List String) : Except UsageFault Arguments :=
  match read known args with
  | .error f => .error f
  | .ok items =>
    match known.find? fun o => 1 < items.countP (isOption o.name) with
    | some o => .error (.repeated o.name)
    | none => .ok ⟨items⟩

end Arguments

end DialogueBox.Commandline
