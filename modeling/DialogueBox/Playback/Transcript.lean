import DialogueBox.Json.Form
import DialogueBox.Playback.Session
import DialogueBox.Text.Lines

/-!
# Printing transcripts

A transcript is printed line by line. In plain print a page has a heading with its number, and its
events stand before it; in JSON print each page is one object. Events after the last page follow,
one to a line.
-/

namespace DialogueBox

/-- The kinds of print. -/
inductive Print
  | plain | json
  deriving DecidableEq, Repr

namespace PageRecord

open Json

/-- A page in plain print. -/
def plainLines (r : PageRecord) : List String :=
  r.events.map ("[event] " ++ ·) ++ ["── " ++ r.number.repr ++ " ──", r.text]
    ++ if r.ended then ["[end]"] else []

/-- A page as a JSON tree. -/
def toJson (r : PageRecord) : Json :=
  record [("page", Form.word64.write r.number), ("text", Form.string.write r.text),
    ("events", Form.string.list.write r.events), ("clock_ms", Form.word64.write r.clock),
    ("ended", Form.bool.write r.ended)]

/-- The lines of a page. -/
def lines (r : PageRecord) : Print → List String
  | .plain => r.plainLines
  | .json => [String.ofList r.toJson.print]

end PageRecord

/-- The line of an event after the last page. -/
def eventLine (name : String) : Print → String
  | .plain => "[event] " ++ name
  | .json => String.ofList (Json.record [("event", Json.Form.string.write name)]).print

/-- The lines of a transcript. -/
def Transcript.lines (t : Transcript) (print : Print) : List String :=
  t.pages.flatMap (fun r => r.lines print) ++ t.events.map (eventLine · print)

/-- The text of a transcript. -/
def Transcript.text (t : Transcript) (print : Print) : String := Text.ofLines (t.lines print)

end DialogueBox
