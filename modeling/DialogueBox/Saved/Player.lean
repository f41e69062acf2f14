import DialogueBox.Playback.Backlog
import DialogueBox.Playback.Playhead
import DialogueBox.Saved.Script
import DialogueBox.Typesetting.Page

/-!
# Stored play

The JSON forms of what a player shows and remembers: styles, playheads and phases, backlogs, and
glyphs.
-/

namespace DialogueBox.Saved

open Json

/-- Styles. -/
def style : Form Style where
  write s :=
    record [("scale", Form.single.write s.scale), ("color", color.write s.color),
      ("rotation", Form.single.write s.rotation), ("font", Form.string.nullable.write s.font),
      ("shake", shake.write s.shake), ("speed_ms", Form.word32.write s.speed)]
  read v := do
    let r ← fields? ["scale", "color", "rotation", "font", "shake", "speed_ms"] v
    return {
      scale := ← r.required "scale" Form.single
      color := ← r.required "color" color
      rotation := ← r.required "rotation" Form.single
      font := ← r.optional "font" Form.string
      shake := ← r.required "shake" shake
      speed := ← r.required "speed_ms" Form.word32 }

/-- Playheads. -/
def playhead : Form Playhead where
  write h :=
    record [("active", Form.bool.write h.active), ("busy", Form.bool.write h.busy),
      ("wait_input", Form.bool.write h.waiting), ("script_ended", Form.bool.write h.ended),
      ("input_enabled", Form.bool.write h.inputEnabled),
      ("position", Form.word64.write h.position),
      ("char_timer_ms", Form.word32.write h.charTimer), ("pause_ms", Form.word32.write h.pause),
      ("forced_wait_ms", Form.word32.write h.timedWait)]
  read v := do
    let r ← fields?
      ["active", "busy", "wait_input", "script_ended", "input_enabled", "position",
        "char_timer_ms", "pause_ms", "forced_wait_ms"] v
    return {
      active := ← r.required "active" Form.bool
      busy := ← r.required "busy" Form.bool
      waiting := ← r.required "wait_input" Form.bool
      ended := ← r.required "script_ended" Form.bool
      inputEnabled := ← r.required "input_enabled" Form.bool
      position := ← r.required "position" Form.word64
      charTimer := ← r.required "char_timer_ms" Form.word32
      pause := ← r.required "pause_ms" Form.word32
      timedWait := ← r.required "forced_wait_ms" Form.word32 }

/-- The payload of a timed wait. -/
def remaining : Form Nat where
  write ms := record [("remaining_ms", Form.word32.write ms)]
  read v := do (← fields? ["remaining_ms"] v).required "remaining_ms" Form.word32

/-- Phases. -/
def phase : Form Phase where
  write
    | .idle => bareVariant "Idle"
    | .playing => bareVariant "Playing"
    | .waiting => bareVariant "Waiting"
    | .timedWait ms => variant "ForcedWait" (remaining.write ms)
  read v := do
    let (name, payload) ← variant? v
    match name with
    | "Idle" => bare payload .idle
    | "Playing" => bare payload .playing
    | "Waiting" => bare payload .waiting
    | "ForcedWait" => carried payload remaining .timedWait
    | _ => none

/-- The payload of an entry: a text under a name of its own, and the playing time. -/
def timed (textName : String) : Form (String × Nat) where
  write p := record [(textName, Form.string.write p.1), ("clock_ms", Form.word64.write p.2)]
  read v := do
    let r ← fields? [textName, "clock_ms"] v
    return (← r.required textName Form.string, ← r.required "clock_ms" Form.word64)

/-- Entries of a backlog. -/
def entry : Form Entry where
  write
    | .page text clock => variant "Page" ((timed "text").write (text, clock))
    | .event name clock => variant "Event" ((timed "name").write (name, clock))
  read v := do
    let (name, payload) ← variant? v
    match name with
    | "Page" => carried payload (timed "text") fun p => .page p.1 p.2
    | "Event" => carried payload (timed "name") fun p => .event p.1 p.2
    | _ => none

/-- Backlogs. -/
def backlog : Form Backlog where
  write b :=
    record [("events", (Form.list entry).write b.entries),
      ("max_events", Form.word64.write b.limit)]
  read v := do
    let r ← fields? ["events", "max_events"] v
    return ⟨← r.required "events" (Form.list entry), ← r.required "max_events" Form.word64⟩

/-- Places. -/
def point : Form Point where
  write p := record [("x", Form.single.write p.x), ("y", Form.single.write p.y)]
  read v := do
    let r ← fields? ["x", "y"] v
    return ⟨← r.required "x" Form.single, ← r.required "y" Form.single⟩

/-- Sizes. -/
def size : Form Size where
  write s := record [("width", Form.single.write s.width), ("height", Form.single.write s.height)]
  read v := do
    let r ← fields? ["width", "height"] v
    return ⟨← r.required "width" Form.single, ← r.required "height" Form.single⟩

/-- What a glyph shows. -/
def glyphKind : Form GlyphKind where
  write
    | .char c => variant "Char" (Form.char.write c)
    | .icon id => variant "Icon" (Form.string.write id)
  read v := do
    let (name, payload) ← variant? v
    match name with
    | "Char" => carried payload Form.char .char
    | "Icon" => carried payload Form.string .icon
    | _ => none

/-- Glyphs. -/
def glyph : Form Glyph where
  write g :=
    record [("kind", glyphKind.write g.kind), ("position", point.write g.position),
      ("size", size.write g.size), ("style", style.write g.style)]
  read v := do
    let r ← fields? ["kind", "position", "size", "style"] v
    return ⟨← r.required "kind" glyphKind, ← r.required "position" point,
      ← r.required "size" size, ← r.required "style" style⟩

end DialogueBox.Saved
