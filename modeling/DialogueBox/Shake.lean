import DialogueBox.Number.Decimal

/-!
# Shaking

A shaken glyph swings around its place: sideways as a sine and upright as a cosine of the playing
time. The two swings have slightly different periods, and glyphs of a page are out of phase with
each other, so that a word does not move as a block.

The offset depends on the playing time and on the place of the glyph on its page alone.
-/

namespace DialogueBox

/-- How far and how fast glyphs are shaken. -/
structure Shake where
  /-- The sideways amplitude. -/
  x : Float32
  /-- The upright amplitude. -/
  y : Float32
  /-- The angular speed, in radians per second. -/
  speed : Float32
  deriving DecidableEq

namespace Shake

/-- The speed where a script gives none. -/
def defaultSpeed : Float32 := 20

/-- No shaking. -/
def still : Shake := ⟨0, 0, defaultSpeed⟩

/-- Whether an amplitude differs from zero. -/
def isActive (s : Shake) : Bool := s.x != 0 || s.y != 0

/-- The offset at a playing time in milliseconds of the glyph with an index on its page. -/
def offset (s : Shake) (clock index : Nat) : Float32 × Float32 :=
  if s.isActive then
    let t := Number.singleOfNat clock / 1000 * s.speed
    let phase := Number.singleOfNat index * 1.7
    ((t + phase).sin * s.x, (t * 1.3 + phase).cos * s.y)
  else (0, 0)

end Shake

end DialogueBox
