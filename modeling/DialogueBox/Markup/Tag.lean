import DialogueBox.Instruction
import DialogueBox.Text.Lines

/-!
# Tags

A tag stands in square brackets in the text of a script. What is inside is cut at its first colon
into a name and a value; blanks around either do not count, and the name may be in any letter
case. The vocabulary is closed.

| name | value | effect |
|---|---|---|
| `size` | a positive whole number | point size |
| `color` | a colour name | text colour, white if unknown |
| `speed` | a whole number | time between characters, at least 1 |
| `rotate` | a finite number | angle |
| `shake` | one to three finite numbers between commas | shaking |
| `reset` | ignored | initial style |
| `wait` | a whole number | pause; negative counts as 0 |
| `icon` | an icon | icon |
| `next` | a whole number or nothing | end of page; negative counts as 0 |
| `event` | a name | event |
| `font` | a font or nothing | font |
| `input` | `disable` or anything else | input off or on |
| `end` | ignored | end of script |

A tag that cannot be read has a fault, and a fault says all that its wording needs.
-/

namespace DialogueBox.Markup

open Number Text

/-! ## Vocabulary -/

/-- The tags of the markup. -/
inductive Tag
  | size | color | speed | rotate | shake | reset | wait | icon | next | event | font | input
  | finish
  deriving DecidableEq, Repr

namespace Tag

/-- All tags, in the order of the table. -/
def all : List Tag :=
  [size, color, speed, rotate, shake, reset, wait, icon, next, event, font, input, finish]

/-- The name of a tag. -/
def key : Tag → String
  | size => "size"
  | color => "color"
  | speed => "speed"
  | rotate => "rotate"
  | shake => "shake"
  | reset => "reset"
  | wait => "wait"
  | icon => "icon"
  | next => "next"
  | event => "event"
  | font => "font"
  | input => "input"
  | finish => "end"

/-- The tag that a text names. -/
def ofText? (s : List Char) : Option Tag :=
  all.find? fun t => sameIgnoringCase t.key.toList (trim s)

end Tag

/-! ## Faults -/

/-- Why the value of a tag is refused. -/
inductive ValueFault
  /-- It is no whole number of 64 bits. -/
  | integer (fault : IntegerFault)
  /-- It is no number. -/
  | single (fault : SingleFault)
  /-- It is a number, but infinite or undefined. -/
  | notFinite
  /-- A point size is zero or negative. -/
  | sizeNotPositive
  /-- A point size does not fit 31 bits. -/
  | sizeTooLarge
  /-- A shake has more than three parts. -/
  | shakeParts
  deriving DecidableEq, Repr

/-- The wording of a refusal. -/
def ValueFault.message : ValueFault → String
  | integer f => f.message
  | single f => f.message
  | notFinite => "需要有限数值"
  | sizeNotPositive => "字号必须为正数"
  | sizeTooLarge => "字号超出范围"
  | shakeParts => "需要 1 到 3 个数值"

/-- Why a tag cannot be read. -/
inductive TagFault
  /-- No tag has the name. -/
  | unknown (key : String)
  /-- The tag needs a value and has none. -/
  | missingValue (tag : Tag)
  /-- The value is refused. -/
  | invalidValue (tag : Tag) (value : String) (fault : ValueFault)
  deriving DecidableEq, Repr

/-- The wording of a fault. -/
def TagFault.message : TagFault → String
  | unknown key => "未知标签 '" ++ key ++ "'"
  | missingValue tag => "标签 '" ++ tag.key ++ "' 缺少参数值"
  | invalidValue tag value fault =>
    "标签 '" ++ tag.key ++ "' 的值 '" ++ value ++ "' 无效 - " ++ fault.message

/-- Whether a fault is one of the value and not of the name. -/
def TagFault.isOfValue : TagFault → Bool
  | unknown _ => false
  | _ => true

/-! ## Values -/

namespace Tag

/-- The value of a tag that needs one: trimmed, and not empty. -/
def required (t : Tag) (value : Option (List Char)) : Except TagFault (List Char) :=
  match value.bind content? with
  | some v => .ok v
  | none => .error (.missingValue t)

/-- Reads a whole number. -/
def readWhole (t : Tag) (v : List Char) : Except TagFault Int :=
  match readInteger signed64 (trim v) with
  | .ok n => .ok n
  | .error f => .error (.invalidValue t (String.ofList v) (.integer f))

/-- Reads a duration: a whole number, brought into the range of durations. -/
def readDuration (t : Tag) (v : List Char) : Except TagFault Nat :=
  (t.readWhole v).map fun n => (unsigned32.clamp n).toNat

/-- Reads a finite number. -/
def readFinite (t : Tag) (v : List Char) : Except TagFault Float32 :=
  match readSingle (trim v) with
  | .error f => .error (.invalidValue t (String.ofList v) (.single f))
  | .ok x => if x.isFinite then .ok x else .error (.invalidValue t (String.ofList v) .notFinite)

/-- Reads a shake: one amplitude for both directions, or two, or two and a speed. The leftmost
part that is no finite number is reported before a wrong count. -/
def readShake (t : Tag) (v : List Char) : Except TagFault Shake := do
  match ← (splitAll ',' v).mapM t.readFinite with
  | [a] => return ⟨a, a, Shake.defaultSpeed⟩
  | [x, y] => return ⟨x, y, Shake.defaultSpeed⟩
  | [x, y, rate] => return ⟨x, y, rate⟩
  | _ => throw (.invalidValue t (String.ofList v) .shakeParts)

/-- Reads a point size. -/
def readSize (t : Tag) (value : Option (List Char)) : Except TagFault Int := do
  let v ← t.required value
  let n ← t.readWhole v
  if n ≤ 0 then throw (.invalidValue t (String.ofList v) .sizeNotPositive)
  else if signed32.greatest < n then
    throw (.invalidValue t (String.ofList (value.getD [])) .sizeTooLarge)
  else return n

/-- The instruction that a tag with a value stands for. -/
def instruction (t : Tag) (value : Option (List Char)) : Except TagFault Instruction :=
  match t with
  | size => (t.readSize value).map .size
  | color => .ok (.color (Color.ofText (value.getD [])))
  | speed => do return .speedOf (← t.readWhole (← t.required value))
  | rotate => do return .rotation (← t.readFinite (← t.required value))
  | shake => do return .shake (← t.readShake (← t.required value))
  | reset => .ok .reset
  | wait => do return .wait (← t.readDuration (← t.required value))
  | icon => (t.required value).map fun v => .icon (String.ofList v)
  | next =>
    match value.bind content? with
    | some v => (t.readDuration v).map .next
    | none => .ok (.next 0)
  | event => (t.required value).map fun v => .event (String.ofList v)
  | font => .ok (.font ((value.bind content?).map String.ofList))
  | input =>
    .ok (.input !(value.any fun v => sameIgnoringCase v "disable".toList))
  | finish => .ok .finish

end Tag

/-! ## Whole tags -/

/-- The name and the value inside a tag, trimmed. -/
def splitTag (inner : List Char) : List Char × Option (List Char) :=
  match splitAt? ':' inner with
  | some (name, value) => (trim name, some (trim value))
  | none => (trim inner, none)

/-- The instruction that the inside of a tag stands for. -/
def readTag (inner : List Char) : Except TagFault Instruction :=
  match Tag.ofText? (splitTag inner).1 with
  | some t => t.instruction (splitTag inner).2
  | none => .error (.unknown (String.ofList (splitTag inner).1))

end DialogueBox.Markup
