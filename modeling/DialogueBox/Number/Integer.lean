/-!
# Reading whole numbers

A whole number is written as an optional sign and decimal digits. It is read against the bounds
of the integer type that receives it, digit by digit, so the first fault met from the left is the
one reported: a digit that leaves the range is an overflow even when a stray letter follows it,
and a stray letter before the range is left is an invalid digit.

A text that is a sign alone has no digit, and counts as one with an invalid digit. Types without
negative values know no minus sign.
-/

namespace DialogueBox.Number

/-- Why a text is not a whole number of the wanted range. -/
inductive IntegerFault
  /-- The text is empty. -/
  | empty
  /-- A character is not a decimal digit, or there is no digit at all. -/
  | invalidDigit
  /-- The number lies above the range. -/
  | tooLarge
  /-- The number lies below the range. -/
  | tooSmall
  deriving DecidableEq, Repr

/-- The wording of a fault. -/
def IntegerFault.message : IntegerFault → String
  | empty => "cannot parse integer from empty string"
  | invalidDigit => "invalid digit found in string"
  | tooLarge => "number too large to fit in target type"
  | tooSmall => "number too small to fit in target type"

/-- The bounds of an integer type, both included. -/
structure IntegerRange where
  least : Int
  greatest : Int

/-- Whether a number lies in a range. -/
def IntegerRange.contains (b : IntegerRange) (n : Int) : Bool := b.least ≤ n && n ≤ b.greatest

/-- The signed range of 32 bits. -/
def signed32 : IntegerRange := ⟨-0x80000000, 0x7FFFFFFF⟩

/-- The signed range of 64 bits. -/
def signed64 : IntegerRange := ⟨-0x8000000000000000, 0x7FFFFFFFFFFFFFFF⟩

/-- The unsigned range of 32 bits. -/
def unsigned32 : IntegerRange := ⟨0, 0xFFFFFFFF⟩

/-- The unsigned range of 64 bits. -/
def unsigned64 : IntegerRange := ⟨0, 0xFFFFFFFFFFFFFFFF⟩

/-- The value of a decimal digit. -/
def digit? (c : Char) : Option Nat := if c.isDigit then some (c.toNat - 48) else none

/-- Writes one more digit behind a number; `negative` tells on which side of zero it counts. -/
def appendDigit (negative : Bool) (n : Int) (d : Nat) : Int :=
  if negative then 10 * n - d else 10 * n + d

/-- Extends the number read so far by the digits that follow. -/
def readDigits (b : IntegerRange) (negative : Bool) : List Char → Int → Except IntegerFault Int
  | [], n => .ok n
  | c :: r, n =>
    match digit? c with
    | none => .error .invalidDigit
    | some d =>
      if b.greatest < appendDigit negative n d then .error .tooLarge
      else if appendDigit negative n d < b.least then .error .tooSmall
      else readDigits b negative r (appendDigit negative n d)

/-- Reads a whole number of a range. -/
def readInteger (b : IntegerRange) : List Char → Except IntegerFault Int
  | [] => .error .empty
  | c :: r =>
    if c = '+' then if r.isEmpty then .error .invalidDigit else readDigits b false r 0
    else if c = '-' ∧ (r.isEmpty ∨ b.least < 0) then
      if r.isEmpty then .error .invalidDigit else readDigits b true r 0
    else readDigits b false (c :: r) 0

/-- The nearest number of a range. -/
def IntegerRange.clamp (b : IntegerRange) (n : Int) : Int := max b.least (min n b.greatest)

end DialogueBox.Number
