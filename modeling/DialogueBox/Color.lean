import DialogueBox.Text.Blank
import DialogueBox.Text.Case

/-!
# Text colours

A closed palette of named colours. A script names a colour in any letter case, with blanks around
the name, and with either spelling of grey; a name that is not in the palette means white, so a
misspelt colour never hides text.
-/

namespace DialogueBox

/-- The colours that text can have. -/
inductive Color
  | white | black | red | green | blue | yellow | cyan | magenta | gray | darkGray | lightGray
  | orange | purple | pink | brown | gold | silver | skyBlue | lime | transparent
  deriving DecidableEq, Repr, Inhabited

/-- The components of a colour, from 0 to 255. -/
structure Rgba where
  red : Nat
  green : Nat
  blue : Nat
  alpha : Nat
  deriving DecidableEq, Repr

namespace Color

/-- The palette, in its order. -/
def all : List Color :=
  [white, black, red, green, blue, yellow, cyan, magenta, gray, darkGray, lightGray, orange,
    purple, pink, brown, gold, silver, skyBlue, lime, transparent]

/-- The name under which a colour is shown and stored. -/
def name : Color → String
  | white => "White"
  | black => "Black"
  | red => "Red"
  | green => "Green"
  | blue => "Blue"
  | yellow => "Yellow"
  | cyan => "Cyan"
  | magenta => "Magenta"
  | gray => "Gray"
  | darkGray => "DarkGray"
  | lightGray => "LightGray"
  | orange => "Orange"
  | purple => "Purple"
  | pink => "Pink"
  | brown => "Brown"
  | gold => "Gold"
  | silver => "Silver"
  | skyBlue => "SkyBlue"
  | lime => "Lime"
  | transparent => "Transparent"

/-- The components of a colour. -/
def rgba : Color → Rgba
  | white => ⟨255, 255, 255, 255⟩
  | black => ⟨0, 0, 0, 255⟩
  | red => ⟨255, 0, 0, 255⟩
  | green => ⟨0, 128, 0, 255⟩
  | blue => ⟨0, 0, 255, 255⟩
  | yellow => ⟨255, 255, 0, 255⟩
  | cyan => ⟨0, 255, 255, 255⟩
  | magenta => ⟨255, 0, 255, 255⟩
  | gray => ⟨128, 128, 128, 255⟩
  | darkGray => ⟨169, 169, 169, 255⟩
  | lightGray => ⟨211, 211, 211, 255⟩
  | orange => ⟨255, 165, 0, 255⟩
  | purple => ⟨128, 0, 128, 255⟩
  | pink => ⟨255, 192, 203, 255⟩
  | brown => ⟨165, 42, 42, 255⟩
  | gold => ⟨255, 215, 0, 255⟩
  | silver => ⟨192, 192, 192, 255⟩
  | skyBlue => ⟨135, 206, 235, 255⟩
  | lime => ⟨0, 255, 0, 255⟩
  | transparent => ⟨0, 0, 0, 0⟩

/-- The spellings under which a script may name a colour, in lower case. -/
def spellings : List (String × Color) :=
  [("white", white), ("black", black), ("red", red), ("green", green), ("blue", blue),
    ("yellow", yellow), ("cyan", cyan), ("magenta", magenta), ("gray", gray), ("grey", gray),
    ("darkgray", darkGray), ("darkgrey", darkGray), ("lightgray", lightGray),
    ("lightgrey", lightGray), ("orange", orange), ("purple", purple), ("pink", pink),
    ("brown", brown), ("gold", gold), ("silver", silver), ("skyblue", skyBlue), ("lime", lime),
    ("transparent", transparent)]

/-- The colour that a text names. -/
def ofText? (s : List Char) : Option Color :=
  spellings.lookup (String.ofList ((Text.trim s).map Text.lowerForName))

/-- The colour that a text names, or white. -/
def ofText (s : List Char) : Color := (ofText? s).getD white

/-- Each spelling stands for one colour. -/
theorem lookup_spellings : ∀ p ∈ spellings, spellings.lookup p.1 = some p.2 := by decide

end Color

end DialogueBox
