import DialogueBox.Proofs.Json.Objects
import DialogueBox.Proofs.Json.Texts
import DialogueBox.Saved.Settings

/-!
# Settings that are given in part

A file with settings is a JSON object that gives some of them, in any order and among other fields.
Those that it does not give have their defaults, and the settings that come out are checked as a
whole (`Settings.ofText_of_partial`). A window is different: if a file gives one, then it must give
all of it. A window of which a side is missing makes the file unreadable, although its sides have
defaults like everything else (`Settings.partial_window_refused`).

What a file gives is a value of its own (`PartialSettings`), so that "given", "missing" and
"completed" can be said of it without a reader.
-/

namespace DialogueBox

open Json Number

/-! ## What is given -/

/-- The sides of a rectangle that are given. -/
structure PartialRect where
  x : Option Float32 := none
  y : Option Float32 := none
  width : Option Float32 := none
  height : Option Float32 := none

/-- The settings that are given. -/
structure PartialSettings where
  window : Option PartialRect := none
  lineSpacing : Option Float32 := none
  kerning : Option Float32 := none
  speed : Option Nat := none
  wrap : Option Bool := none
  backlogLimit : Option Nat := none
  blinkPeriod : Option Nat := none

namespace PartialRect

/-- Whether all sides are given. -/
def IsWhole (w : PartialRect) : Prop :=
  w.x.isSome ∧ w.y.isSome ∧ w.width.isSome ∧ w.height.isSome

/-- The rectangle with the given sides and those of another one. -/
def completed (w : PartialRect) (d : Rect) : Rect :=
  ⟨w.x.getD d.x, w.y.getD d.y, w.width.getD d.width, w.height.getD d.height⟩

/-- The rectangle, if all its sides are given. -/
def rect? (w : PartialRect) : Option Rect := do
  return ⟨← w.x, ← w.y, ← w.width, ← w.height⟩

theorem rect?_of_isWhole {w : PartialRect} (h : w.IsWhole) (d : Rect) :
    w.rect? = some (w.completed d) := by
  obtain ⟨x, y, width, height⟩ := w
  obtain ⟨hx, hy, hwidth, hheight⟩ := h
  obtain ⟨x, rfl⟩ := Option.isSome_iff_exists.mp hx
  obtain ⟨y, rfl⟩ := Option.isSome_iff_exists.mp hy
  obtain ⟨width, rfl⟩ := Option.isSome_iff_exists.mp hwidth
  obtain ⟨height, rfl⟩ := Option.isSome_iff_exists.mp hheight
  rfl

theorem rect?_of_not_isWhole {w : PartialRect} (h : ¬w.IsWhole) : w.rect? = none := by
  obtain ⟨x, y, width, height⟩ := w
  cases x <;> cases y <;> cases width <;> cases height <;>
    first | rfl | exact absurd ⟨rfl, rfl, rfl, rfl⟩ h

end PartialRect

namespace PartialSettings

/-- Whether a window that is given has all its sides. -/
def HasWholeWindow (g : PartialSettings) : Prop := ∀ w ∈ g.window, w.IsWhole

/-- The settings with the given values and otherwise the defaults. -/
def completed (g : PartialSettings) : Settings :=
  let d : Settings := {}
  { window := (g.window.getD {}).completed d.window
    lineSpacing := g.lineSpacing.getD d.lineSpacing
    kerning := g.kerning.getD d.kerning
    speed := g.speed.getD d.speed
    wrap := g.wrap.getD d.wrap
    backlogLimit := g.backlogLimit.getD d.backlogLimit
    blinkPeriod := g.blinkPeriod.getD d.blinkPeriod }

end PartialSettings

/-- The tree of a rectangle of which some sides are given: an object with these sides among other
fields, or an array of all four. -/
inductive IsRect : Json → PartialRect → Prop
  | object {fields : List (Option String × Json)} {w : PartialRect}
      (hnames : ∀ f ∈ fields, f.1.isSome = true) (hx : Holds IsSingle "x" fields w.x)
      (hy : Holds IsSingle "y" fields w.y) (hwidth : Holds IsSingle "width" fields w.width)
      (hheight : Holds IsSingle "height" fields w.height) : IsRect (.object fields) w
  | array {a b c d : Json} {x y width height : Float32} (hx : IsSingle a x) (hy : IsSingle b y)
      (hwidth : IsSingle c width) (hheight : IsSingle d height) :
      IsRect (.array [a, b, c, d]) ⟨some x, some y, some width, some height⟩

/-- The fields of an object that gives settings, among other fields. An escape for half of a
surrogate pair in a name would make the object unreadable, whatever the name is. -/
structure IsSettings (fields : List (Option String × Json)) (g : PartialSettings) : Prop where
  names : ∀ f ∈ fields, f.1.isSome = true
  window : Holds IsRect "window" fields g.window
  lineSpacing : Holds IsSingle "line_spacing" fields g.lineSpacing
  kerning : Holds IsSingle "kerning" fields g.kerning
  speed : Holds (IsNatural unsigned32) "default_speed_ms" fields g.speed
  wrap : Holds IsBool "wrap" fields g.wrap
  backlogLimit : Holds (IsNatural unsigned64) "history_limit" fields g.backlogLimit
  blinkPeriod : Holds (IsNatural unsigned64) "blink_period_ms" fields g.blinkPeriod

/-! ## Reading what is given -/

/-- The names of the sides of a rectangle. -/
def sideNames : List String := ["x", "y", "width", "height"]

/-- The names of the settings. -/
def settingNames : List String :=
  ["window", "line_spacing", "kerning", "default_speed_ms", "wrap", "history_limit",
    "blink_period_ms"]

/-- **A rectangle is read if all its sides are given.** -/
theorem IsRect.read {v : Json} {w : PartialRect} (h : IsRect v w) :
    Saved.rect.read v = w.rect? := by
  cases h with
  | @object fields w hnames hx hy hwidth hheight =>
    have hfields : fields? sideNames (.object fields) = some (.ofObject sideNames fields) := by
      refine fields?_object hnames fun n hn => ?_
      simp only [sideNames, List.mem_cons, List.not_mem_nil, or_false] at hn
      rcases hn with rfl | rfl | rfl | rfl
      · exact hx.countP_le_one
      · exact hy.countP_le_one
      · exact hwidth.countP_le_one
      · exact hheight.countP_le_one
    have hside {name : String} {x? : Option Float32} (h : Holds IsSingle name fields x?)
        (hname : name ∈ sideNames) :
        (Fields.ofObject sideNames fields).required name Form.single = x? :=
      h.required IsSingle.read hname
    show (fields? sideNames (.object fields)).bind _ = _
    simp only [hfields, PartialRect.rect?, Option.bind_eq_bind, Option.bind_some,
      hside hx (by decide), hside hy (by decide), hside hwidth (by decide),
      hside hheight (by decide)]
  | @array a b c d _ _ _ _ hx hy hwidth hheight =>
    show (do return (⟨← Form.single.read a, ← Form.single.read b, ← Form.single.read c,
      ← Form.single.read d⟩ : Rect)) = _
    rw [hx.read, hy.read, hwidth.read, hheight.read]
    rfl

/-- The window of settings: the default one, or a given one with all its sides. -/
def PartialSettings.window? (g : PartialSettings) : Option Rect :=
  g.window.elim (some ({} : Settings).window) PartialRect.rect?

theorem PartialSettings.window?_of_whole {g : PartialSettings} (h : g.HasWholeWindow) :
    g.window? = some g.completed.window := by
  unfold window? completed
  cases hw : g.window with
  | none => rfl
  | some w => exact PartialRect.rect?_of_isWhole (h w hw) _

theorem PartialSettings.window?_of_not_whole {g : PartialSettings} (h : ¬g.HasWholeWindow) :
    g.window? = none := by
  unfold window?
  cases hw : g.window with
  | none => exact absurd (by simp [HasWholeWindow, hw]) h
  | some w =>
    have hpart : ¬w.IsWhole := fun hwhole => h (by simpa [HasWholeWindow, hw] using hwhole)
    exact PartialRect.rect?_of_not_isWhole hpart

namespace IsSettings

variable {fields : List (Option String × Json)} {g : PartialSettings}

theorem fields?_eq (h : IsSettings fields g) :
    fields? settingNames (.object fields) = some (.ofObject settingNames fields) := by
  refine fields?_object h.names fun n hn => ?_
  simp only [settingNames, List.mem_cons, List.not_mem_nil, or_false] at hn
  rcases hn with rfl | rfl | rfl | rfl | rfl | rfl | rfl
  · exact h.window.countP_le_one
  · exact h.lineSpacing.countP_le_one
  · exact h.kerning.countP_le_one
  · exact h.speed.countP_le_one
  · exact h.wrap.countP_le_one
  · exact h.backlogLimit.countP_le_one
  · exact h.blinkPeriod.countP_le_one

/-- **Settings are completed with defaults when they are read,** as soon as there is a window. -/
theorem read (h : IsSettings fields g) : Saved.settings.read (.object fields) =
    g.window?.map fun w => { g.completed with window := w } := by
  show (fields? settingNames (.object fields)).bind _ = _
  rw [h.fields?_eq, Option.bind_some]
  have hwindow : (Fields.ofObject settingNames fields).withDefault "window" Saved.rect
      ({} : Settings).window = g.window? :=
    h.window.withDefault IsRect.read (by decide) _
  have hsetting {α : Type} {means : Json → α → Prop} {f : Form α} {name : String} {a? : Option α}
      (h : Holds means name fields a?) (hread : ∀ {v a}, means v a → f.read v = some a)
      (hname : name ∈ settingNames) (d : α) :
      (Fields.ofObject settingNames fields).withDefault name f d = some (a?.getD d) :=
    h.withDefault_getD hread hname d
  simp only [Option.bind_eq_bind, Option.bind_some, hwindow,
    hsetting h.lineSpacing IsSingle.read (by decide), hsetting h.kerning IsSingle.read (by decide),
    hsetting h.speed IsNatural.read_word32 (by decide), hsetting h.wrap IsBool.read (by decide),
    hsetting h.backlogLimit IsNatural.read_word64 (by decide),
    hsetting h.blinkPeriod IsNatural.read_word64 (by decide)]
  cases g.window? <;> rfl

end IsSettings

/-! ## Checking what was read -/

/-- Settings with which a box can be laid out and played. -/
structure Settings.IsSound (c : Settings) : Prop where
  width : 0 < c.window.width
  height : 0 < c.window.height
  speed : 1 ≤ c.speed
  lineSpacing : 0 ≤ c.lineSpacing

/-- Whether settings have a fault. What cannot be read gives no settings, so none are unreadable. -/
def SettingsFault.IsFaultOf (c : Settings) : SettingsFault → Prop
  | .unreadable => False
  | .emptyWindow => ¬(0 < c.window.width ∧ 0 < c.window.height)
  | .noSpeed => ¬1 ≤ c.speed
  | .negativeSpacing => ¬0 ≤ c.lineSpacing

/-- Settings whose checked fields are numbers. -/
structure Settings.IsComparable (c : Settings) : Prop where
  width : c.window.width.isNaN = false
  height : c.window.height.isNaN = false
  lineSpacing : c.lineSpacing.isNaN = false

namespace Settings

variable {c : Settings}

/-- **Settings that are sound have no fault.** -/
theorem IsComparable.fault?_of_isSound (h : c.IsComparable) (hc : c.IsSound) :
    c.fault? = none := by
  have hwindow : ¬(c.window.width ≤ 0 ∨ c.window.height ≤ 0) :=
    not_or.mpr ⟨(pos_iff h.width).mp hc.width, (pos_iff h.height).mp hc.height⟩
  rw [fault?, if_neg hwindow, if_neg (Nat.ne_of_gt hc.speed),
    if_neg ((nonneg_iff h.lineSpacing).mp hc.lineSpacing)]

/-- **Settings that are not sound have a fault,** and it is the one that is found. -/
theorem IsComparable.exists_fault? (h : c.IsComparable) (hc : ¬c.IsSound) :
    ∃ f, c.fault? = some f ∧ f.IsFaultOf c := by
  unfold fault?
  split
  · next hwindow =>
    refine ⟨_, rfl, fun hpos => ?_⟩
    rcases hwindow with hw | hw
    · exact (pos_iff h.width).mp hpos.1 hw
    · exact (pos_iff h.height).mp hpos.2 hw
  · next hwindow =>
    split
    · next hspeed => exact ⟨_, rfl, fun hle => absurd hspeed (Nat.ne_of_gt hle)⟩
    · next hspeed =>
      split
      · next hspacing =>
        exact ⟨_, rfl, fun hle => (nonneg_iff h.lineSpacing).mp hle hspacing⟩
      · next hspacing =>
        obtain ⟨hwidth, hheight⟩ := not_or.mp hwindow
        refine absurd ⟨?_, ?_, ?_, ?_⟩ hc
        · exact (pos_iff h.width).mpr hwidth
        · exact (pos_iff h.height).mpr hheight
        · exact Nat.pos_of_ne_zero hspeed
        · exact (nonneg_iff h.lineSpacing).mpr hspacing

end Settings

theorem Settings.isComparable_default : ({} : Settings).IsComparable :=
  ⟨by decide, by decide, by decide⟩

/-- The extent of a completed rectangle is one of numbers if the extent that completes it is. -/
theorem IsRect.isNaN_completed {v : Json} {w : PartialRect} (h : IsRect v w) {d : Rect}
    (hwidth : d.width.isNaN = false) (hheight : d.height.isNaN = false) :
    (w.completed d).width.isNaN = false ∧ (w.completed d).height.isNaN = false := by
  cases h with
  | object _ _ _ hw hh => exact ⟨hw.isNaN_getD hwidth, hh.isNaN_getD hheight⟩
  | array _ _ hw hh => exact ⟨hw.isNaN, hh.isNaN⟩

/-- **Completed settings can be compared:** what is given is read from numbers, and the defaults
are numbers. -/
theorem IsSettings.isComparable {fields : List (Option String × Json)} {g : PartialSettings}
    (h : IsSettings fields g) : g.completed.IsComparable := by
  have hdefault := Settings.isComparable_default
  have hextent {w? : Option PartialRect} (hw : Holds IsRect "window" fields w?) :
      ((w?.getD {}).completed ({} : Settings).window).width.isNaN = false ∧
        ((w?.getD {}).completed ({} : Settings).window).height.isNaN = false := by
    cases hw with
    | missing => exact ⟨hdefault.width, hdefault.height⟩
    | given _ _ _ _ hv => exact hv.isNaN_completed hdefault.width hdefault.height
  exact ⟨(hextent h.window).1, (hextent h.window).2, h.lineSpacing.isNaN_getD hdefault.lineSpacing⟩

/-! ## Texts with settings -/

namespace Settings

variable {s : List Char} {fields : List (Option String × Json)} {g : PartialSettings}

theorem ofText?_of_partial (hs : Json.Writes s (.object fields)) (hg : IsSettings fields g) :
    Saved.settings.ofText? s = g.window?.map fun w => { g.completed with window := w } := by
  rw [Form.ofText?, read_eq_some_iff.mpr hs, Option.bind_some, hg.read]

/-- With a whole window, what comes out depends on the completed settings alone. -/
theorem ofText_of_wholeWindow (hs : Json.Writes s (.object fields)) (hg : IsSettings fields g)
    (hwhole : g.HasWholeWindow) :
    ofText s = g.completed.fault?.elim (.ok g.completed) .error := by
  rw [ofText, ofText?_of_partial hs hg, PartialSettings.window?_of_whole hwhole]
  dsimp only [Option.map_some]
  cases g.completed.fault? <;> rfl

/--
**Settings that are given in part are completed and then checked.**

Take any text that writes an object with some of the settings, in any order and among other fields.
If a window that it gives has all its sides, then the settings that come out are the given ones and
otherwise the defaults. They are accepted just if the window has an extent, characters take time and
lines do not overlap; and else they are refused for something that is wrong with them.

If a side of a given window is missing, then the text is refused as unreadable.
-/
theorem ofText_of_partial (hs : Json.Writes s (.object fields)) (hg : IsSettings fields g) :
    (g.HasWholeWindow →
      (ofText s = .ok g.completed ↔ g.completed.IsSound) ∧
        (¬g.completed.IsSound → ∃ f, ofText s = .error f ∧ f.IsFaultOf g.completed)) ∧
      (¬g.HasWholeWindow → ofText s = .error .unreadable) := by
  refine ⟨fun hwhole => ?_, fun hwhole => ?_⟩
  · have htext := ofText_of_wholeWindow hs hg hwhole
    have hgood (hc : g.completed.IsSound) : ofText s = .ok g.completed := by
      rw [htext, hg.isComparable.fault?_of_isSound hc]
      rfl
    have hbad (hc : ¬g.completed.IsSound) :
        ∃ f, ofText s = .error f ∧ f.IsFaultOf g.completed := by
      obtain ⟨f, hf, hfault⟩ := hg.isComparable.exists_fault? hc
      rw [htext, hf]
      exact ⟨f, rfl, hfault⟩
    refine ⟨⟨fun hok => ?_, hgood⟩, hbad⟩
    by_contra hc
    obtain ⟨f, hf, -⟩ := hbad hc
    rw [hok] at hf
    cases hf
  · rw [ofText, ofText?_of_partial hs hg, PartialSettings.window?_of_not_whole hwhole]
    rfl

/-- A text with blanks, an escape in a name, unknown fields and a window that is given as a whole.
What it does not give is completed. -/
theorem ofText_of_partial_reordered :
    let s := "\x7b \"wrap\":false, \"theme\":[\"dark\", null],\n \"\\u0077indow\" : " ++
      "\x7b\"height\":1.2e2,\"unit\":\"px\",\"width\":800,\"y\":-16.5,\"x\":0\x7d, " ++
      "\"default_speed_ms\":45 \x7d"
    let sides : List (Option String × Json) :=
      [(some "height", .number ⟨false, ['1'], ['2'], some 2⟩), (some "unit", .string (some "px")),
        (some "width", .number ⟨false, ['8', '0', '0'], [], none⟩),
        (some "y", .number ⟨true, ['1', '6'], ['5'], none⟩),
        (some "x", .number ⟨false, ['0'], [], none⟩)]
    let fields : List (Option String × Json) :=
      [(some "wrap", .bool false), (some "theme", .array [.string (some "dark"), .null]),
        (some "window", .object sides),
        (some "default_speed_ms", .number ⟨false, ['4', '5'], [], none⟩)]
    let g : PartialSettings :=
      { window := some ⟨some 0, some (-16.5), some 800, some 120⟩, speed := some 45,
        wrap := some false }
    Json.Writes s.toList (.object fields) ∧ IsSettings fields g ∧ g.HasWholeWindow ∧
      g.completed = ⟨⟨0, -16.5, 800, 120⟩, 4, 0, 45, false, 200, 500⟩ ∧ g.completed.IsSound ∧
      ofText s.toList = .ok g.completed := by
  intro s sides fields g
  have hs : Json.Writes s.toList (.object fields) := tokens_eq_some_iff.mp (by decide +kernel)
  have hwindow : IsRect (.object sides) ⟨some 0, some (-16.5), some 800, some 120⟩ :=
    .object (by decide) (.given (sides.take 4) [] rfl (by decide) (.mk (by decide +kernel)))
      (.given (sides.take 3) _ rfl (by decide) (.mk (by decide +kernel)))
      (.given (sides.take 2) _ rfl (by decide) (.mk (by decide +kernel)))
      (.given [] _ rfl (by decide) (.mk (by decide +kernel)))
  have hg : IsSettings fields g :=
    { names := by decide
      window := .given (fields.take 2) _ rfl (by decide) hwindow
      lineSpacing := .missing (by decide)
      kerning := .missing (by decide)
      speed := .given (fields.take 3) _ rfl (by decide) (.mk (by decide))
      wrap := .given [] _ rfl (by decide) (.mk false)
      backlogLimit := .missing (by decide)
      blinkPeriod := .missing (by decide) }
  have hwhole : g.HasWholeWindow := by
    rintro w ⟨⟩
    exact ⟨rfl, rfl, rfl, rfl⟩
  have hc : g.completed.IsSound := ⟨by decide +kernel, by decide +kernel, by decide, by decide⟩
  exact ⟨hs, hg, hwhole, rfl, hc, ((ofText_of_partial hs hg).1 hwhole).1.mpr hc⟩

/-- A window of which only the width is given is not completed: the text is refused, although the
completed settings are sound. -/
theorem partial_window_refused :
    ¬∀ (s : List Char) (fields : List (Option String × Json)) (g : PartialSettings),
      Json.Writes s (.object fields) → IsSettings fields g → g.completed.IsSound →
        ofText s = .ok g.completed := by
  intro h
  let s := "\x7b\"window\":\x7b\"width\":800\x7d\x7d"
  let sides : List (Option String × Json) :=
    [(some "width", .number ⟨false, ['8', '0', '0'], [], none⟩)]
  let fields : List (Option String × Json) := [(some "window", .object sides)]
  let g : PartialSettings := { window := some { width := some 800 } }
  have hwindow : IsRect (.object sides) { width := some 800 } :=
    .object (by decide) (.missing (by decide)) (.missing (by decide))
      (.given [] [] rfl (by decide) (.mk (by decide +kernel))) (.missing (by decide))
  have hg : IsSettings fields g :=
    { names := by decide
      window := .given [] [] rfl (by decide) hwindow
      lineSpacing := .missing (by decide)
      kerning := .missing (by decide)
      speed := .missing (by decide)
      wrap := .missing (by decide)
      backlogLimit := .missing (by decide)
      blinkPeriod := .missing (by decide) }
  have hc : g.completed.IsSound := ⟨by decide +kernel, by decide +kernel, by decide, by decide⟩
  have hs : Json.Writes s.toList (.object fields) := tokens_eq_some_iff.mp (by decide +kernel)
  have hok := h s.toList fields g hs hg hc
  have hrefused : ofText s.toList = .error .unreadable := by decide +kernel
  rw [hok] at hrefused
  cases hrefused

end Settings

end DialogueBox
