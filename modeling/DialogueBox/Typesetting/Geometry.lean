/-!
# Geometry

Places and sizes on the screen, in pixels and in single precision. The vertical axis points down.
-/

namespace DialogueBox

/-- A place on the screen. -/
structure Point where
  x : Float32
  y : Float32
  deriving DecidableEq

/-- The extent of a glyph. -/
structure Size where
  width : Float32
  height : Float32
  deriving DecidableEq

/-- A rectangle, given by its upper left corner and its extent. -/
structure Rect where
  x : Float32
  y : Float32
  width : Float32
  height : Float32
  deriving DecidableEq

namespace Rect

/-- The upper left corner. -/
def origin (r : Rect) : Point := ⟨r.x, r.y⟩

/-- The right edge. -/
def right (r : Rect) : Float32 := r.x + r.width

end Rect

/-- A size enlarged by a factor. -/
def Size.scaled (s : Size) (factor : Float32) : Size := ⟨s.width * factor, s.height * factor⟩

end DialogueBox
