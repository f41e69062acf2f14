import DialogueBox.Text.Blank
import DialogueBox.Text.Lines

/-!
# Sections

A source text may hold several sections. A line that begins with a number sign is a marker; the
rest of the line, trimmed, is its label. A section runs from the line after its marker to the next
marker or to the end of the text, and is taken without the blanks at its two ends. Of several
markers with one label the first one counts.
-/

namespace DialogueBox.Markup

open Text

/-- The label of a line, if the line is a marker. -/
def markerLabel? : List Char → Option (List Char)
  | [] => none
  | c :: r => if c = '#' then some (trim r) else none

/-- Whether a line is a marker. -/
def isMarker (line : List Char) : Bool := line.head? == some '#'

/-- A label that no marker has. -/
structure MissingLabel where
  label : String
  deriving DecidableEq, Repr

/-- The wording of the fault. -/
def MissingLabel.message (e : MissingLabel) : String := "标签 '#" ++ e.label ++ "' 未找到"

/-- The wording of the fault where a player reports it. -/
def MissingLabel.loadMessage (e : MissingLabel) : String := "加载错误: " ++ e.message

/-- The lines from the first marker with a label on, without the marker. -/
def linesAfterMarker? (label : List Char) : List (List Char) → Option (List (List Char))
  | [] => none
  | l :: ls => if markerLabel? l = some label then some ls else linesAfterMarker? label ls

/-- The section with a label, or the whole text if no label is given. -/
def section? (source : List Char) (label : Option String) : Except MissingLabel (List Char) :=
  match label with
  | none => .ok source
  | some label =>
    match linesAfterMarker? label.toList (lines source) with
    | none => .error ⟨label⟩
    | some ls => .ok (trim (ls.takeWhile fun l => !isMarker l).flatten)

/-- The labels of a source text in the order of their markers, without empty ones. -/
def labels (source : List Char) : List (List Char) :=
  ((lines source).filterMap markerLabel?).filter fun l => !l.isEmpty

/-- The source of a page that shows a fault in red. Brackets in the wording are shown as round
ones, so that nothing in it is read as a tag. -/
def errorPage (e : MissingLabel) : List Char :=
  "[color:red]".toList
    ++ e.message.toList.map (fun c => if c = '[' then '(' else if c = ']' then ')' else c)
    ++ "[reset][next]".toList

end DialogueBox.Markup
