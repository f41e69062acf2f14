import DialogueBox.Color
import DialogueBox.Shake

/-!
# Text style

The style in force where the next glyph is set. A script changes it piece by piece, and goes back
to the initial one with a reset. A glyph keeps the style it was set with.
-/

namespace DialogueBox

/-- How glyphs look, and how fast they appear. -/
structure Style where
  /-- The enlargement of glyphs. -/
  scale : Float32
  color : Color
  /-- The angle of each glyph, in degrees. -/
  rotation : Float32
  /-- The font, or the default one. -/
  font : Option String
  shake : Shake
  /-- The time between two characters, in milliseconds. -/
  speed : Nat
  deriving DecidableEq

namespace Style

/-- The point size at which glyphs have their natural size. -/
def naturalSize : Float32 := 24

/-- The time between two characters where nothing sets it. -/
def defaultSpeed : Nat := 30

/-- The initial style for a time between characters. -/
def initial (speed : Nat) : Style where
  scale := 1
  color := .white
  rotation := 0
  font := none
  shake := .still
  speed := max 1 speed

/-- The style with a point size. -/
def withSize (s : Style) (points : Int) : Style :=
  { s with scale := Float32.ofInt points / naturalSize }

/-- The style with a time between characters, which is at least 1. -/
def withSpeed (s : Style) (speed : Nat) : Style := { s with speed := max 1 speed }

end Style

end DialogueBox
