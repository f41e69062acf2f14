import DialogueBox.Settings

/-!
# Setting lines

A typesetter places glyphs side by side in a window. A glyph advances the cursor by its width and
the kerning. A line is as high as the highest glyph on it; breaking it moves the cursor down by
that height and the line spacing. A line without height is as high as the breaker says.

With wrapping on, a glyph that would pass the right edge goes to a new line, unless it is the
first glyph of its line: a glyph wider than the window stands alone on its line.
-/

namespace DialogueBox

/-- The state of setting lines in a window. -/
structure Typesetter where
  window : Rect
  lineSpacing : Float32
  kerning : Float32
  wrap : Bool
  /-- Where the next glyph goes. -/
  cursor : Point
  /-- The greatest height on the current line. -/
  lineHeight : Float32
  /-- Whether the current line has a glyph. -/
  lineStarted : Bool
  deriving DecidableEq

namespace Typesetter

/-- The place of the first glyph. -/
def origin (t : Typesetter) : Point := t.window.origin

/-- A typesetter with an empty window. -/
def ofSettings (s : Settings) : Typesetter where
  window := s.window
  lineSpacing := s.lineSpacing
  kerning := s.kerning
  wrap := s.wrap
  cursor := s.window.origin
  lineHeight := 0
  lineStarted := false

/-- Empties the window. -/
def reset (t : Typesetter) : Typesetter :=
  { t with cursor := t.origin, lineHeight := 0, lineStarted := false }

/-- The height by which breaking the line moves down, without the line spacing. -/
def breakHeight (t : Typesetter) (fallback : Float32) : Float32 :=
  if 0 < t.lineHeight then t.lineHeight else fallback

/-- Breaks the line; `fallback` is the height of a line that has none. -/
def breakLine (t : Typesetter) (fallback : Float32) : Typesetter :=
  { t with
    cursor := ⟨t.window.x, t.cursor.y + (t.breakHeight fallback + t.lineSpacing)⟩
    lineHeight := 0
    lineStarted := false }

/-- Whether a glyph would pass the right edge although it is not the first of its line. -/
def overflows (t : Typesetter) (width : Float32) : Bool :=
  t.wrap && t.lineStarted && decide (t.window.right < t.cursor.x + width)

/-- The greater of two heights; one that is no number does not count. -/
def higher (a b : Float32) : Float32 := if a < b then b else a

/-- Sets a glyph at the cursor. -/
def set (t : Typesetter) (size : Size) : Typesetter :=
  { t with
    cursor := { t.cursor with x := t.cursor.x + (size.width + t.kerning) }
    lineHeight := higher t.lineHeight size.height
    lineStarted := true }

/-- Places a glyph: first breaks the line if it would overflow. The place is the cursor before the
glyph is set. -/
def place (t : Typesetter) (size : Size) (fallback : Float32) : Point × Typesetter :=
  let t := if t.overflows size.width then t.breakLine fallback else t
  (t.cursor, t.set size)

end Typesetter

end DialogueBox
