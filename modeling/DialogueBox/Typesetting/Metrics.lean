import DialogueBox.Typesetting.Geometry

/-!
# Metrics

What the drawing side tells about sizes and about the icons and fonts that exist. Metrics come
from outside; a table gives them for text on a grid of equal cells, with exceptions for single
characters and fonts.
-/

namespace DialogueBox

/-- The sizes of glyphs and icons, and the fonts that exist. -/
structure Metrics where
  /-- The size of a character in a font, enlarged by a factor. -/
  glyph : Char → Option String → Float32 → Size
  /-- The size of an icon, if it exists. -/
  icon? : String → Option Size
  hasFont : String → Bool

/-- Metrics in the form of a table. -/
structure MetricTable where
  /-- The size of a cell. -/
  cell : Size
  icons : List (String × Size) := []
  fonts : List String := []
  /-- The characters whose width is not that of a cell. -/
  widths : List (Char × Float32) := []
  /-- The fonts whose height is not that of a cell. -/
  fontHeights : List (String × Float32) := []

namespace MetricTable

/-- The size of a character in a font. -/
def natural (t : MetricTable) (c : Char) (font : Option String) : Size where
  width := (t.widths.lookup c).getD t.cell.width
  height := (font.bind fun id => t.fontHeights.lookup id).getD t.cell.height

/-- The metrics of a table. Characters are enlarged with their style, icons are not. -/
def toMetrics (t : MetricTable) : Metrics where
  glyph c font factor := (t.natural c font).scaled factor
  icon? id := t.icons.lookup id
  hasFont id := t.fonts.contains id

/-- The table with one more icon, which takes the place of one with the same name. -/
def addIcon (t : MetricTable) (id : String) (size : Size) : MetricTable :=
  { t with icons := (id, size) :: t.icons }

/-- The table with one more font. -/
def addFont (t : MetricTable) (id : String) : MetricTable := { t with fonts := id :: t.fonts }

end MetricTable

end DialogueBox
