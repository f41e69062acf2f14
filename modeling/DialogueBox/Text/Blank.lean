/-!
# Blank characters

Which characters count as blank, and how blanks are cut from the two ends of a text.

A character is blank when Unicode gives it the property `White_Space`. That class is larger than
the ASCII blanks: it holds the next-line control, the no-break spaces, the typographic spaces and
the ideographic space, which scripts written with an East Asian keyboard contain by accident.

Texts that are scanned are lists of characters; what is kept of them is stored as `String`.
-/

namespace DialogueBox.Text

/-! ## The class -/

/-- The code points with the property `White_Space`, as closed ranges in ascending order. -/
def blankRanges : List (Nat × Nat) :=
  [(0x09, 0x0D), (0x20, 0x20), (0x85, 0x85), (0xA0, 0xA0), (0x1680, 0x1680), (0x2000, 0x200A),
    (0x2028, 0x2029), (0x202F, 0x202F), (0x205F, 0x205F), (0x3000, 0x3000)]

/-- Whether a character is blank. -/
def isBlank (c : Char) : Bool :=
  blankRanges.any fun r => r.1 ≤ c.toNat && c.toNat ≤ r.2

/-! ## Cutting -/

/-- The text without the blanks at its beginning. -/
def trimStart (s : List Char) : List Char := s.dropWhile isBlank

/-- The text without the blanks at its end. -/
def trimEnd (s : List Char) : List Char := (s.reverse.dropWhile isBlank).reverse

/-- The text without the blanks at its two ends. -/
def trim (s : List Char) : List Char := trimEnd (trimStart s)

/-- The trimmed text, if anything of it is left. -/
def content? (s : List Char) : Option (List Char) :=
  match trim s with
  | [] => none
  | c :: r => some (c :: r)

end DialogueBox.Text
