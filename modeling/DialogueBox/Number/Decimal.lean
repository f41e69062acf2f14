import DialogueBox.Number.Integer

/-!
# Decimal fractions and single precision

A decimal is `± digits · 10 ^ exponent` with a whole number of digits. The text of one is an
optional sign, digits around an optional point, and an optional exponent; at least one digit
stands before the exponent, and on which side of the point it stands does not matter.

A text that stands for a number in single precision is either a decimal, which is rounded once,
to nearest with ties to even, or one of the words for infinity and for no number.
-/

namespace DialogueBox.Number

/-- The number `digits · 10 ^ exponent`, with a sign. -/
structure Decimal where
  negative : Bool
  digits : Nat
  exponent : Int
  deriving DecidableEq, Repr

/-- The single-precision number nearest to a decimal; overflow gives infinity, and the sign of
zero is kept. -/
def Decimal.toSingle (d : Decimal) : Float32 :=
  let x := Float32.ofScientific d.digits (d.exponent < 0) d.exponent.natAbs
  if d.negative then -x else x

/-- Takes an optional sign off a text; the flag tells a minus. -/
def takeSign : List Char → Bool × List Char
  | '+' :: r => (false, r)
  | '-' :: r => (true, r)
  | s => (false, s)

/-- The digits at the beginning of a text. -/
def leadingDigits (s : List Char) : List Char := s.takeWhile Char.isDigit

/-- What follows the digits at the beginning of a text. -/
def afterDigits (s : List Char) : List Char := s.dropWhile Char.isDigit

/-- The number that digits denote. -/
def valueOfDigits (s : List Char) : Nat := Nat.ofDigitChars 10 s 0

/-- Reads an exponent that fills the text: an optional sign and at least one digit. -/
def readExponent (s : List Char) : Option Int :=
  let (negative, ds) := takeSign s
  if ds.isEmpty || !ds.all Char.isDigit then none
  else some (if negative then -(valueOfDigits ds : Int) else valueOfDigits ds)

/-- Takes the fraction, a point and digits that may be missing, off a text. -/
def takeFraction : List Char → List Char × List Char
  | '.' :: r => (leadingDigits r, afterDigits r)
  | s => ([], s)

/-- Reads a decimal that fills the text. -/
def readDecimal (s : List Char) : Option Decimal :=
  let (negative, body) := takeSign s
  let whole := leadingDigits body
  let (fraction, rest) := takeFraction (afterDigits body)
  if whole.isEmpty && fraction.isEmpty then none
  else
    let digits := valueOfDigits (whole ++ fraction)
    match rest with
    | [] => some ⟨negative, digits, -fraction.length⟩
    | c :: r =>
      if c = 'e' ∨ c = 'E' then
        (readExponent r).map fun e => ⟨negative, digits, e - fraction.length⟩
      else none

/-! ## Single precision -/

/-- Positive infinity. -/
def infinity : Float32 := Float32.ofBits 0x7F800000

/-- The value that is no number. -/
def notANumber : Float32 := Float32.ofBits 0x7FC00000

/-- Why a text is not a number in single precision. -/
inductive SingleFault
  /-- The text is empty. -/
  | empty
  /-- The text is neither a decimal nor a word for a special value. -/
  | invalid
  deriving DecidableEq, Repr

/-- The wording of a fault. -/
def SingleFault.message : SingleFault → String
  | empty => "cannot parse float from empty string"
  | invalid => "invalid float literal"

/-- Reads a word for infinity or for no number, in any letter case and with an optional sign. -/
def readSpecial (s : List Char) : Option Float32 :=
  let (negative, word) := takeSign s
  let word := String.ofList (word.map Char.toLower)
  if word = "inf" ∨ word = "infinity" then some (if negative then -infinity else infinity)
  else if word = "nan" then some notANumber
  else none

/-- Reads a number in single precision. -/
def readSingle (s : List Char) : Except SingleFault Float32 :=
  if s.isEmpty then .error .empty
  else
    match readDecimal s with
    | some d => .ok d.toSingle
    | none =>
      match readSpecial s with
      | some x => .ok x
      | none => .error .invalid

/-- A whole number of milliseconds as a number in single precision. -/
def singleOfNat (n : Nat) : Float32 := n.toUInt64.toFloat32

end DialogueBox.Number
