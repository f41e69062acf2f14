/-!
# Letter case

Names in a script are compared without regard to letter case. Names of tags, of file extensions
and of the word `disable` are compared by ASCII letters alone. Names of colours are compared by
the lower-case mapping of Unicode: beside the ASCII letters exactly one character, the Kelvin
sign, has a lower-case form that is a single ASCII letter, so only that one matters for names
that are written in ASCII.
-/

namespace DialogueBox.Text

/-- Whether two texts are equal up to the case of ASCII letters. -/
def sameIgnoringCase (a b : List Char) : Bool := a.map Char.toLower == b.map Char.toLower

/-- The Kelvin sign, whose lower-case form is the letter `k`. -/
def kelvinSign : Char := '\u212a'

/-- The lower-case form of a character, exact for every character whose form is in ASCII. -/
def lowerForName (c : Char) : Char := if c = kelvinSign then 'k' else c.toLower

end DialogueBox.Text
