import DialogueBox.Json.Basic
import DialogueBox.Number.Shortest

/-!
# Writing JSON trees

A tree is written without blanks, the fields of an object in their order. In a string the quote,
the backslash and the control characters are escaped, those with a letter by their letter; all
other characters stand for themselves.

A number in single precision is written as its shortest decimal, with at least one digit on each
side of the point. Magnitudes from `10 ^ -6` up to `10 ^ 13` are positional, others have an
exponent. Infinities and the undefined value have no number and are written as `null`.
-/

namespace DialogueBox

namespace Numeral

open Number

/-- The text of a numeral. -/
def print (n : Numeral) : List Char :=
  (if n.negative then ['-'] else []) ++ n.whole
    ++ (if n.fraction.isEmpty then [] else '.' :: n.fraction)
    ++ match n.exponent with
      | none => []
      | some e => 'e' :: ((if e < 0 then ['-'] else []) ++ Nat.toDigits 10 e.natAbs)

/-- The least power of ten that is written with an exponent. -/
def positionalLimit : Int := 13

/-- The power of ten below which a fraction is written with an exponent. -/
def fractionLimit : Int := -6

/-- The numeral of a decimal given by its digits, without zeros at their end, and an exponent. -/
def ofDigits (negative : Bool) (ds : List Char) (k : Int) : Numeral :=
  let point : Int := ds.length + k
  if 0 ≤ k ∧ point ≤ positionalLimit then
    ⟨negative, ds ++ List.replicate k.toNat '0', ['0'], none⟩
  else if 0 < point ∧ point ≤ positionalLimit then
    ⟨negative, ds.take point.toNat, ds.drop point.toNat, none⟩
  else if fractionLimit < point ∧ point ≤ 0 then
    ⟨negative, ['0'], List.replicate (-point).toNat '0' ++ ds, none⟩
  else ⟨negative, ds.take 1, ds.drop 1, some (point - 1)⟩

/-- The digits of a decimal without the zeros at their end, and the exponent that goes with
them. -/
def stripZeros (ds : List Char) (k : Int) : List Char × Int :=
  let zeros := (ds.reverse.takeWhile (· == '0')).length
  (ds.take (ds.length - zeros), k + zeros)

/-- The numeral of a finite number in single precision. -/
def ofSingle (x : Float32) : Numeral :=
  let negative := x.toBits.toNat / 0x80000000 = 1
  let b := Binary.ofSingle x
  if b.significand = 0 then ⟨negative, ['0'], ['0'], none⟩
  else
    let (digits, k) := b.shortest
    let (ds, k) := stripZeros (Nat.toDigits 10 digits) k
    ofDigits negative ds k

end Numeral

namespace Json

/-- A hexadecimal digit in lower case. -/
def hexDigit (n : Nat) : Char := Nat.digitChar n

/-- How a character is written in a string. -/
def escape (c : Char) : List Char :=
  match c with
  | '"' => ['\\', '"']
  | '\\' => ['\\', '\\']
  | '\x08' => ['\\', 'b']
  | '\x0c' => ['\\', 'f']
  | '\n' => ['\\', 'n']
  | '\r' => ['\\', 'r']
  | '\t' => ['\\', 't']
  | c =>
    if c.toNat < 0x20 then
      ['\\', 'u', '0', '0', hexDigit (c.toNat / 16), hexDigit (c.toNat % 16)]
    else [c]

/-- How a text is written. -/
def quote (s : List Char) : List Char := '"' :: (s.flatMap escape ++ ['"'])

/-- How a string is written; one that denotes no text is written as half of a surrogate pair. -/
def quote? : Option String → List Char
  | some s => quote s.toList
  | none => "\"\\ud800\"".toList

mutual

/-- The text of a tree. -/
def print : Json → List Char
  | null => "null".toList
  | bool true => "true".toList
  | bool false => "false".toList
  | number n => n.print
  | string s => quote? s
  | array items => '[' :: (printItems items ++ [']'])
  | object fields => '\x7b' :: (printFields fields ++ ['\x7d'])

/-- The texts of the items of an array, with commas between them. -/
def printItems : List Json → List Char
  | [] => []
  | [v] => v.print
  | v :: r => v.print ++ ',' :: printItems r

/-- The texts of the fields of an object, with commas between them. -/
def printFields : List (Option String × Json) → List Char
  | [] => []
  | [(name, v)] => quote? name ++ ':' :: v.print
  | (name, v) :: r => quote? name ++ ':' :: (v.print ++ ',' :: printFields r)

end

end Json

end DialogueBox
