import DialogueBox.Json.Form
import DialogueBox.Script

/-!
# Stored scripts

The JSON forms of colours, shakes, instructions and scripts. A stored script has its instructions
alone: the source lines are neither written nor read, and no `next` is added on reading.
-/

namespace DialogueBox.Saved

open Json Number

/-- Colours, stored by name. -/
def color : Form Color where
  write c := bareVariant c.name
  read v := do
    let (name, payload) ← variant? v
    bare payload (← Color.all.find? fun c => c.name == name)

/-- Shakes. -/
def shake : Form Shake where
  write s :=
    record [("x", Form.single.write s.x), ("y", Form.single.write s.y),
      ("speed", Form.single.write s.speed)]
  read v := do
    let r ← fields? ["x", "y", "speed"] v
    return ⟨← r.required "x" Form.single, ← r.required "y" Form.single,
      ← r.required "speed" Form.single⟩

/-- Point sizes. -/
def points : Form Int := Form.integer signed32

/-- Instructions. -/
def instruction : Form Instruction where
  write
    | .char c => variant "Text" (Form.char.write c)
    | .lineBreak => bareVariant "NewLine"
    | .size n => variant "SetSize" (points.write n)
    | .color c => variant "SetColor" (color.write c)
    | .speed ms => variant "SetSpeed" (Form.word32.write ms)
    | .rotation x => variant "SetRotation" (Form.single.write x)
    | .font id => variant "SetFont" (Form.string.nullable.write id)
    | .shake s => variant "SetShake" (shake.write s)
    | .reset => bareVariant "Reset"
    | .wait ms => variant "Wait" (Form.word32.write ms)
    | .icon id => variant "Icon" (Form.string.write id)
    | .next ms => variant "Next" (Form.word32.write ms)
    | .event name => variant "Event" (Form.string.write name)
    | .finish => bareVariant "End"
    | .input enabled => variant "SetInputEnabled" (Form.bool.write enabled)
  read v := do
    let (name, payload) ← variant? v
    match name with
    | "Text" => carried payload Form.char .char
    | "NewLine" => bare payload .lineBreak
    | "SetSize" => carried payload points .size
    | "SetColor" => carried payload color .color
    | "SetSpeed" => carried payload Form.word32 .speed
    | "SetRotation" => carried payload Form.single .rotation
    | "SetFont" => carried payload Form.string.nullable .font
    | "SetShake" => carried payload shake .shake
    | "Reset" => bare payload .reset
    | "Wait" => carried payload Form.word32 .wait
    | "Icon" => carried payload Form.string .icon
    | "Next" => carried payload Form.word32 .next
    | "Event" => carried payload Form.string .event
    | "End" => bare payload .finish
    | "SetInputEnabled" => carried payload Form.bool .input
    | _ => none

/-- Sequences of instructions. -/
def instructions : Form (List Instruction) := Form.list instruction

/-- Scripts. -/
def script : Form Script where
  write s := record [("commands", instructions.write s.instructions)]
  read v := do
    let r ← fields? ["commands"] v
    return ⟨← r.required "commands" instructions, []⟩

end DialogueBox.Saved
