/-!
# Double precision

A decimal whose digits fit a word of 64 bits becomes a double by one multiplication with, or
division by, a power of ten. Both operands are rounded first, so the result may differ from the
nearest double in its last place. A decimal beyond the largest double has no value; one below the
smallest is zero.

A double is narrowed to single precision by rounding to nearest, with ties to even; a double
beyond the largest single becomes infinite.

## Termination

`scaleDouble` divides by `10 ^ 308` while the exponent lies below the powers at hand; the exponent
rises with every division.
-/

namespace DialogueBox.Number

/-- The greatest exponent of a power of ten that a double holds. -/
def greatestPower : Nat := 308

/-- The double nearest to a power of ten. -/
def powerOfTen (e : Nat) : Float := Float.ofScientific 1 false e

/-- The value `f · 10 ^ e`, or none beyond the range of doubles. -/
def scaleDouble (f : Float) (e : Int) : Option Float :=
  if 0 ≤ e then
    if e ≤ greatestPower then
      let g := f * powerOfTen e.toNat
      if g.isInf then none else some g
    else if f == 0 then some f
    else none
  else if -e ≤ greatestPower then some (f / powerOfTen (-e).toNat)
  else if f == 0 then some f
  else scaleDouble (f / powerOfTen greatestPower) (e + greatestPower)
termination_by (-e).toNat
decreasing_by
  simp only [greatestPower] at *
  omega

/-- The double nearest to a word. -/
def doubleOfWord (n : Nat) : Float := n.toUInt64.toFloat

open Float.Model in
/-- The single-precision number nearest to a double. -/
def singleOfDouble (x : Float) : Float32 :=
  match x.toModel.unpack with
  | .finite sign significand scale _ =>
    .ofModel (.pack (.round .binary32 sign significand scale))
  | other => .ofModel (.pack other)

end DialogueBox.Number
