import DialogueBox.Style
import DialogueBox.Typesetting.Typesetter

/-!
# Pages

What a dialogue box shows at a time: the glyphs set so far and their plain text. A glyph is a
snapshot; its place, size and style never change once it is set. Icons are set like characters,
but have no text.
-/

namespace DialogueBox

/-- What a glyph shows. -/
inductive GlyphKind
  | char (c : Char)
  | icon (id : String)
  deriving DecidableEq

/-- A glyph in its place. -/
structure Glyph where
  kind : GlyphKind
  /-- The upper left corner. -/
  position : Point
  size : Size
  /-- The style in force when the glyph was set. -/
  style : Style
  deriving DecidableEq

/-- The character that a glyph shows. -/
def Glyph.char? (g : Glyph) : Option Char :=
  match g.kind with
  | .char c => some c
  | .icon _ => none

/-- How far a glyph is shaken off its place, by the playing time and its index on the page. -/
def Glyph.offset (g : Glyph) (clock index : Nat) : Float32 × Float32 :=
  g.style.shake.offset clock index

/-- The glyphs of a page, their plain text, and the place of the next one. -/
structure Page where
  typesetter : Typesetter
  glyphs : Array Glyph
  text : String

namespace Page

/-- An empty page. -/
def ofSettings (s : Settings) : Page := ⟨.ofSettings s, #[], ""⟩

/-- Empties a page. -/
def clear (p : Page) : Page := ⟨p.typesetter.reset, #[], ""⟩

/-- Adds a glyph. -/
def place (p : Page) (kind : GlyphKind) (size : Size) (style : Style) (fallback : Float32) : Page :=
  let (position, typesetter) := p.typesetter.place size fallback
  { p with typesetter := typesetter, glyphs := p.glyphs.push ⟨kind, position, size, style⟩ }

/-- Adds a character and its text. -/
def placeChar (p : Page) (c : Char) (size : Size) (style : Style) (fallback : Float32) : Page :=
  let q := p.place (.char c) size style fallback
  { q with text := q.text.push c }

/-- Begins a new line. -/
def breakLine (p : Page) (fallback : Float32) : Page :=
  { p with typesetter := p.typesetter.breakLine fallback, text := p.text.push '\n' }

end Page

end DialogueBox
