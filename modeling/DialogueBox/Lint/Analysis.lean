import DialogueBox.Lint.Finding
import DialogueBox.Markup.Compile
import DialogueBox.Markup.Section

/-!
# Checking a source text

Compiling never fails: it drops what it cannot read. Checking tells the author what would be lost.
It looks at the same segments and reads the same tags as compiling does.

* A tag that cannot be read is a warning if its name is unknown, and an error if its value is
  missing or refused.
* A colour tag whose colour is unknown is a warning; it will be white.
* An opening bracket that is plain text is worth a note, except on a marker line.
* An empty label, a label that occurred before, and a section without content are warnings.

The findings about segments come first, in the order of the source; those about sections follow.
-/

namespace DialogueBox.Lint

open Markup Text

/-! ## Segments -/

/-- What a tag gives cause to say. -/
def checkTag (script : String) (inner : List Char) (line : Nat) : Option Finding :=
  let quoted := String.ofList (bracketed inner)
  match readTag inner with
  | .ok (.color .white) =>
    let name := (splitTag inner).2.getD []
    if (Color.ofText? name).isSome then none
    else
      some ⟨.warning, script, some line,
        "未识别的颜色 '" ++ String.ofList name ++ "'，将使用白色", some quoted⟩
  | .ok _ => none
  | .error fault =>
    some ⟨if fault.isOfValue then .error else .warning, script, some line,
      fault.message ++ "，标签将被忽略", some quoted⟩

/-- What plain text gives cause to say. -/
def checkText (script : String) (markers : List Nat) (cs : List Char) (line : Nat) :
    Option Finding :=
  if cs.contains '[' && !markers.contains line then
    some ⟨.info, script, some line, "未闭合的 '['，将按普通文本显示",
      some (String.ofList (trimEnd cs))⟩
  else none

/-- The numbers of the marker lines. -/
def markerLines (source : List Char) : List Nat :=
  ((numberedLines source).filter fun l => isMarker l.1).map Prod.snd

/-- What a segment gives cause to say. -/
def checkSegment (script : String) (markers : List Nat) : Segment → Option Finding
  | .tag inner line => checkTag script inner line
  | .text cs line => checkText script markers cs line

/-! ## Sections -/

/-- Whether the section with a label has no content. -/
def isEmptySection (source : List Char) (label : List Char) : Bool :=
  match section? source (some (String.ofList label)) with
  | .ok s => s.isEmpty
  | .error _ => false

/-- What a marker gives cause to say, if the labels `seen` occurred before it. -/
def checkMarker (script : String) (source : List Char) (seen : List (List Char))
    (label : List Char) (line : Nat) : Option Finding :=
  if label.isEmpty then some ⟨.warning, script, some line, "空的分节标签", none⟩
  else if seen.contains label then
    some ⟨.warning, script, some line,
      "重复的分节标签 '#" ++ String.ofList label ++ "'，只有第一个会被加载", none⟩
  else if isEmptySection source label then
    some ⟨.warning, script, some line, "分节 '#" ++ String.ofList label ++ "' 没有内容", none⟩
  else none

/-- The labels of the marker lines, with their line numbers. -/
def markers (source : List Char) : List (List Char × Nat) :=
  (numberedLines source).filterMap fun l => (markerLabel? l.1).map fun label => (label, l.2)

/-- What the markers from some place on give cause to say. -/
def checkMarkers (script : String) (source : List Char) (seen : List (List Char)) :
    List (List Char × Nat) → List Finding
  | [] => []
  | (label, line) :: r =>
    (checkMarker script source seen label line).toList
      ++ checkMarkers script source (label :: seen) r

/-! ## Sources -/

/-- Checks a source text. -/
def check (script : String) (source : List Char) : List Finding :=
  (segments source).filterMap (checkSegment script (markerLines source))
    ++ checkMarkers script source [] (markers source)

/-! ## Resources -/

/-- The kinds of resources that a script asks for. -/
inductive ResourceKind
  | icon | font
  deriving DecidableEq, Repr

/-- The name under which a kind of resource is shown. -/
def ResourceKind.name : ResourceKind → String
  | icon => "图标"
  | font => "字体"

/-- A place where a script asks for a resource. -/
structure ResourceUse where
  kind : ResourceKind
  id : String
  line : Nat
  deriving DecidableEq, Repr

/-- The resource that an instruction asks for. -/
def resource? : Instruction → Option (ResourceKind × String)
  | .icon id => some (.icon, id)
  | .font (some id) => some (.font, id)
  | _ => none

/-- The resources that a segment asks for. -/
def segmentUses (s : Segment) : List ResourceUse :=
  s.instructions.filterMap fun i => (resource? i).map fun r => ⟨r.1, r.2, s.line⟩

/-- The resources that a source text asks for, in its order. -/
def resourceUses (source : List Char) : List ResourceUse := (segments source).flatMap segmentUses

end DialogueBox.Lint
