import DialogueBox.Markup.Segment
import DialogueBox.Markup.Tag
import DialogueBox.Script

/-!
# Compiling a source text

Each segment is turned into instructions by itself: plain text into one instruction for each of
its characters, without carriage returns and with a line break for a line feed; a tag into the one
instruction it stands for. A tag that cannot be read is dropped and noted, and compiling goes on,
so every text compiles.
-/

namespace DialogueBox.Markup

/-! ## Dropped tags -/

/-- A tag that compiling dropped. -/
structure DroppedTag where
  /-- The line of the tag, counted from 1. -/
  line : Nat
  /-- The tag with its brackets. -/
  tag : String
  /-- Why it was dropped. -/
  fault : TagFault
  deriving DecidableEq, Repr

/-- The wording of a note about a dropped tag. -/
def DroppedTag.message (d : DroppedTag) : String :=
  "第 " ++ d.line.repr ++ " 行：" ++ d.tag ++ " 已忽略 - " ++ d.fault.message

/-! ## Segments -/

/-- The instruction for a character of plain text; a carriage return has none. -/
def charInstruction? (c : Char) : Option Instruction :=
  if c = '\r' then none else if c = '\n' then some .lineBreak else some (.char c)

/-- The instructions of a segment. -/
def Segment.instructions : Segment → List Instruction
  | text cs _ => cs.filterMap charInstruction?
  | tag inner _ => (readTag inner).toOption.toList

/-- The note about a segment, if it is a tag that cannot be read. -/
def Segment.dropped? : Segment → Option DroppedTag
  | text _ _ => none
  | tag inner line =>
    match readTag inner with
    | .ok _ => none
    | .error fault => some ⟨line, String.ofList (bracketed inner), fault⟩

/-! ## Sources -/

/-- A compiled source text. -/
structure Compiled where
  script : Script
  /-- The dropped tags, in the order of the source. -/
  dropped : List DroppedTag
  deriving DecidableEq

/-- Compiles segments. -/
def compileSegments (segs : List Segment) : Compiled where
  script := .ofLines (segs.flatMap Segment.instructions)
    (segs.flatMap fun s => s.instructions.map fun _ => s.line)
  dropped := segs.filterMap Segment.dropped?

/-- Compiles a source text. -/
def compile (source : List Char) : Compiled := compileSegments (segments source)

end DialogueBox.Markup
