import DialogueBox.Number.Decimal
import DialogueBox.Number.Double

/-!
# JSON trees

A JSON text denotes a tree. Numbers and strings stay close to the text, because what is right
depends on the place where they stand:

* a number is kept as the digits it is written with. Read as a whole number it must have neither
  fraction nor exponent, and it must fit 64 bits; read as a fraction it may lie out of range;
* a string may contain an escape for half of a surrogate pair. Then it denotes no text. Such a
  string is refused where its text is wanted, and passed over where it is not.
-/

namespace DialogueBox

/-- A number as it is written. -/
structure Numeral where
  negative : Bool
  /-- The digits before the point. -/
  whole : List Char
  /-- The digits behind the point; empty where there is no point. -/
  fraction : List Char
  exponent : Option Int
  deriving DecidableEq, Repr

/-- A JSON tree. -/
inductive Json
  | null
  | bool (b : Bool)
  | number (n : Numeral)
  /-- A string and the text it denotes, if it denotes one. -/
  | string (text : Option String)
  | array (items : List Json)
  /-- An object and its fields in their order; names may repeat. -/
  | object (fields : List (Option String × Json))
  deriving Inhabited

namespace Numeral

open Number

/-! ## Values -/

/-- The numeral of a whole number. -/
def ofInt (n : Int) : Numeral := ⟨n < 0, Nat.toDigits 10 n.natAbs, [], none⟩

/-- The value as a whole number, if the numeral is written as one and fits 64 bits. Minus zero is
no whole number. -/
def integer? (n : Numeral) : Option Int :=
  if n.fraction.isEmpty && n.exponent.isNone then
    let v := valueOfDigits n.whole
    if n.negative then
      if v = 0 ∨ signed64.contains (-v) = false then none else some (-v)
    else if unsigned64.contains v then some v
    else none
  else none

/-- Extends a number by digits as long as it fits 64 bits, and returns the digits left over. -/
def absorb : List Char → Nat → Nat × List Char
  | [], n => (n, [])
  | c :: r, n =>
    let m := 10 * n + (c.toNat - 48)
    if m < UInt64.size then absorb r m else (n, c :: r)

/-- The value in double precision, or none beyond its range. Digits that do not fit a word of 64
bits do not count, apart from the place they take. -/
def double? (n : Numeral) : Option Float :=
  let (w, wholeLeft) := absorb n.whole 0
  let (w, fractionLeft) := absorb n.fraction w
  let e : Int := n.exponent.getD 0 + wholeLeft.length
    - (n.fraction.length - fractionLeft.length : Nat)
  (scaleDouble (doubleOfWord w) e).map fun x => if n.negative then -x else x

/-- The value in single precision. A whole number is rounded once; any other number is rounded to
double precision before. -/
def single? (n : Numeral) : Option Float32 :=
  match n.integer? with
  | some i => some (Float32.ofInt i)
  | none => n.double?.map singleOfDouble

end Numeral

end DialogueBox
