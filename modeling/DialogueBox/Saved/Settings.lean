import DialogueBox.Json.Form
import DialogueBox.Settings

/-!
# Stored settings

The JSON forms of rectangles and settings. Each setting may be left out, also at the end of an
array, and then has its default. A rectangle must be complete.
-/

namespace DialogueBox

namespace Saved

open Json

/-- Rectangles. -/
def rect : Form Rect where
  write r :=
    record [("x", Form.single.write r.x), ("y", Form.single.write r.y),
      ("width", Form.single.write r.width), ("height", Form.single.write r.height)]
  read v := do
    let r ← fields? ["x", "y", "width", "height"] v
    return ⟨← r.required "x" Form.single, ← r.required "y" Form.single,
      ← r.required "width" Form.single, ← r.required "height" Form.single⟩

/-- Settings. -/
def settings : Form Settings where
  write s :=
    record [("window", rect.write s.window), ("line_spacing", Form.single.write s.lineSpacing),
      ("kerning", Form.single.write s.kerning), ("default_speed_ms", Form.word32.write s.speed),
      ("wrap", Form.bool.write s.wrap), ("history_limit", Form.word64.write s.backlogLimit),
      ("blink_period_ms", Form.word64.write s.blinkPeriod)]
  read v := do
    let r ← fields?
      ["window", "line_spacing", "kerning", "default_speed_ms", "wrap", "history_limit",
        "blink_period_ms"] v
    let d : Settings := {}
    return {
      window := ← r.withDefault "window" rect d.window
      lineSpacing := ← r.withDefault "line_spacing" Form.single d.lineSpacing
      kerning := ← r.withDefault "kerning" Form.single d.kerning
      speed := ← r.withDefault "default_speed_ms" Form.word32 d.speed
      wrap := ← r.withDefault "wrap" Form.bool d.wrap
      backlogLimit := ← r.withDefault "history_limit" Form.word64 d.backlogLimit
      blinkPeriod := ← r.withDefault "blink_period_ms" Form.word64 d.blinkPeriod }

end Saved

/-- Reads settings and checks them. -/
def Settings.ofText (s : List Char) : Except SettingsFault Settings :=
  match Saved.settings.ofText? s with
  | none => .error .unreadable
  | some c =>
    match c.fault? with
    | some f => .error f
    | none => .ok c

end DialogueBox
