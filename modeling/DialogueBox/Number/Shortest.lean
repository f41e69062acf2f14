/-!
# The shortest decimal of a single-precision number

A finite number in single precision stands for all reals that round to it. Of the decimals in
that interval the one with the fewest digits is written, and of two such decimals the nearer one.
Two that are equally near differ in their last digit by one, and the one whose last digit is even
is written.

## How it works

The number is `significand · 2 ^ scale`. Its interval reaches half a step up and half a step down,
or a quarter of a step down where the number is the least of its binade; the ends belong to it
when the significand is even. All three points are put over the common factor `2 ^ (scale - 2)`.

A coarser decimal grid has fewer digits. The grids `10 ^ k` are tried from the coarsest to the
finest, and on each of them only the two neighbours of the number, because a grid that has a point
in the interval has one of these in it. Comparison is exact, in whole numbers.
-/

namespace DialogueBox.Number

/-- A finite positive number `significand · 2 ^ scale` in single precision. -/
structure Binary where
  significand : Nat
  scale : Int
  /-- Whether the step below is half as wide as the step above. -/
  leastOfBinade : Bool
  deriving DecidableEq, Repr

/-- The magnitude of a finite number. -/
def Binary.ofSingle (x : Float32) : Binary :=
  let bits : Nat := x.toBits.toNat
  let exponentField : Nat := bits / 0x800000 % 0x100
  let fraction : Nat := bits % 0x800000
  if exponentField = 0 then ⟨fraction, -149, false⟩
  else ⟨0x800000 + fraction, (exponentField : Int) - 150, fraction = 0 && 1 < exponentField⟩

/-- Four times the significand, so that the ends of the interval are whole, too. -/
def Binary.middle (b : Binary) : Nat := 4 * b.significand

/-- The upper end of the interval. -/
def Binary.upper (b : Binary) : Nat := 4 * b.significand + 2

/-- The lower end of the interval. -/
def Binary.lower (b : Binary) : Nat := 4 * b.significand - if b.leastOfBinade then 1 else 2

/-- A point of the interval's scale as a whole number, in units common with the grid `10 ^ k`. -/
def Binary.units (b : Binary) (k : Int) (point : Nat) : Nat :=
  point * Nat.pow 2 (b.scale - 2).toNat * Nat.pow 10 (-k).toNat

/-- The width of one step of the grid `10 ^ k`, in the same units. -/
def Binary.step (b : Binary) (k : Int) : Nat :=
  Nat.pow 10 k.toNat * Nat.pow 2 (2 - b.scale).toNat

/-- Whether `d` steps of the grid `10 ^ k` lie in the interval. -/
def Binary.covers (b : Binary) (k : Int) (d : Nat) : Bool :=
  let p := d * b.step k
  let low := b.units k b.lower
  let high := b.units k b.upper
  if b.significand % 2 = 0 then low ≤ p && p ≤ high else low < p && p < high

/-- Whether a value between `d` and `d + 1` steps goes to the lower one: if it is nearer, or if it
is equally near and even. -/
def goesDown (value step d : Nat) : Bool :=
  let doubled := 2 * (value - d * step)
  doubled < step || (doubled == step && d % 2 == 0)

/-- The number of steps of the grid `10 ^ k` to its point nearest to the number, if one of the
number's two neighbours on the grid lies in the interval. -/
def Binary.onGrid? (b : Binary) (k : Int) : Option Nat :=
  let v := b.units k b.middle
  let d := v / b.step k
  let below := b.covers k d
  let above := b.covers k (d + 1)
  if below && above then
    some (if goesDown v (b.step k) d then d else d + 1)
  else if below then some d
  else if above then some (d + 1)
  else none

/-- The exponents of the grids, from the coarsest to the finest that a number can need. -/
def gridExponents : List Int := (List.range 86).map fun (i : Nat) => (39 : Int) - i

/-- The shortest decimal in the interval: its digits as a whole number, and its exponent. -/
def Binary.shortest (b : Binary) : Nat × Int :=
  match gridExponents.findSome? fun k => (b.onGrid? k).bind fun d =>
      if d = 0 then none else some (d, k) with
  | some r => r
  | none => (0, 0)

end DialogueBox.Number
