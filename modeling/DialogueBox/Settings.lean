import DialogueBox.Typesetting.Geometry

/-!
# Settings

How a dialogue box is laid out and played. Every setting has a default; a set of settings is
accepted if the window has an extent, characters take time, and lines do not overlap.
-/

namespace DialogueBox

/-- The layout and the pace of a dialogue box. -/
structure Settings where
  /-- The part of the screen that text fills, from its upper left corner. -/
  window : Rect := ⟨40, 520, 1200, 160⟩
  /-- The space between two lines. -/
  lineSpacing : Float32 := 4
  /-- The space between two glyphs of a line. -/
  kerning : Float32 := 0
  /-- The time between two characters where a script sets none, in milliseconds. -/
  speed : Nat := 30
  /-- Whether a glyph that does not fit its line begins a new one. -/
  wrap : Bool := true
  /-- The number of entries that the backlog keeps; with 0 it keeps none. -/
  backlogLimit : Nat := 200
  /-- The time for which the advance indicator is shown, and then hidden; with 0 it is always
  shown. -/
  blinkPeriod : Nat := 500
  deriving DecidableEq

/-- Why settings are refused. -/
inductive SettingsFault
  /-- Their text is not the JSON form of settings. -/
  | unreadable
  /-- The window is not wide or not high. -/
  | emptyWindow
  /-- Characters take no time. -/
  | noSpeed
  /-- Lines overlap. -/
  | negativeSpacing
  deriving DecidableEq, Repr

/-- The wording of a refusal. -/
def SettingsFault.message : SettingsFault → String
  | unreadable => "配置解析失败"
  | emptyWindow => "配置验证失败: 窗口宽高必须大于 0"
  | noSpeed => "配置验证失败: default_speed_ms 必须至少为 1"
  | negativeSpacing => "配置验证失败: line_spacing 不能为负数"

/-- The wording of a refusal where a player reports it. -/
def SettingsFault.loadMessage (f : SettingsFault) : String := "配置错误: " ++ f.message

/-- The first fault of settings, if they have one. -/
def Settings.fault? (s : Settings) : Option SettingsFault :=
  if s.window.width ≤ 0 ∨ s.window.height ≤ 0 then some .emptyWindow
  else if s.speed = 0 then some .noSpeed
  else if s.lineSpacing < 0 then some .negativeSpacing
  else none

end DialogueBox
