import DialogueBox.Proofs.Json.Lawful
import DialogueBox.Saved.Player
import DialogueBox.Saved.Settings

/-!
# What is stored is taken back

Everything that is stored as JSON is given back by reading its text, whatever characters it holds
and whatever numbers fit its fields. And whatever text was accepted for it, in any of the spellings
that the reader knows, the value is stored in one spelling from then on
(`stored_values_round_trip`).

Each form is lawful because it is put together from lawful forms. What has to be said for each of
them is which numbers fit (`Fits`) and which numbers in single precision a value holds (`floats`).
-/

namespace DialogueBox

/-! ## Numbers in stored values -/

/-- The numbers in single precision of a shake. -/
def Shake.floats (s : Shake) : List Float32 := [s.x, s.y, s.speed]

/-- Point sizes fit 32 bits with a sign, durations 32 bits without. -/
def Instruction.Fits : Instruction → Prop
  | size points => Number.signed32.contains points = true
  | speed ms | wait ms | next ms => ms < UInt32.size
  | _ => True

/-- The numbers in single precision of an instruction. -/
def Instruction.floats : Instruction → List Float32
  | rotation degrees => [degrees]
  | shake s => s.floats
  | _ => []

/-- The numbers in single precision of a script. -/
def Script.floats (s : Script) : List Float32 := s.instructions.flatMap Instruction.floats

/-- The time between characters fits 32 bits. -/
def Style.Fits (s : Style) : Prop := s.speed < UInt32.size

/-- The numbers in single precision of a style. -/
def Style.floats (s : Style) : List Float32 := s.scale :: s.rotation :: s.shake.floats

/-- The position fits 64 bits, times fit 32. -/
structure Playhead.Fits (h : Playhead) : Prop where
  position : h.position < UInt64.size
  charTimer : h.charTimer < UInt32.size
  pause : h.pause < UInt32.size
  timedWait : h.timedWait < UInt32.size

/-- The time that is left fits 32 bits. -/
def Phase.Fits : Phase → Prop
  | timedWait remaining => remaining < UInt32.size
  | _ => True

/-- The playing time fits 64 bits. -/
def Entry.Fits (e : Entry) : Prop := e.clock < UInt64.size

/-- The entries fit, and the limit fits 64 bits. -/
structure Backlog.Fits (b : Backlog) : Prop where
  entries : ∀ e ∈ b.entries, e.Fits
  limit : b.limit < UInt64.size

/-- The style fits. -/
def Glyph.Fits (g : Glyph) : Prop := g.style.Fits

/-- The numbers in single precision of a glyph. -/
def Glyph.floats (g : Glyph) : List Float32 :=
  [g.position.x, g.position.y, g.size.width, g.size.height] ++ g.style.floats

/-- The numbers in single precision of a rectangle. -/
def Rect.floats (r : Rect) : List Float32 := [r.x, r.y, r.width, r.height]

/-- The time between characters fits 32 bits, the limit and the period fit 64. -/
structure Settings.Fits (s : Settings) : Prop where
  speed : s.speed < UInt32.size
  backlogLimit : s.backlogLimit < UInt64.size
  blinkPeriod : s.blinkPeriod < UInt64.size

/-- The numbers in single precision of settings. -/
def Settings.floats (s : Settings) : List Float32 :=
  [s.lineSpacing, s.kerning] ++ s.window.floats

namespace Saved

open Json Json.Form

/-! ## Scripts -/

theorem lawful_color : color.Lawful (fun _ => True) fun _ => [] where
  wellFormed := fun c => .string (some c.name)
  read_write := by
    intro c _ _
    cases c <;> rfl
  fits_of_read := fun _ => trivial

theorem lawful_shake : shake.Lawful (fun _ => True) Shake.floats where
  wellFormed := by
    intro s
    refine wellFormed_record ?_
    simp [wellFormed_single]
  read_write := by
    intro s _ hs
    simp only [Shake.floats, List.forall_mem_cons] at hs
    obtain ⟨r, hr, hgiven⟩ := exists_fields_record ["x", "y", "speed"]
      [("x", single.write s.x), ("y", single.write s.y), ("speed", single.write s.speed)] rfl
      (by decide)
    have hx : r.required "x" single = some s.x := required_single hs.1 (hgiven (by simp))
    have hy : r.required "y" single = some s.y := required_single hs.2.1 (hgiven (by simp))
    have hspeed : r.required "speed" single = some s.speed :=
      required_single hs.2.2.1 (hgiven (by simp))
    simp only [shake, hr, hx, hy, hspeed, Option.bind_eq_bind, Option.bind_some, Option.pure_def]
  fits_of_read := fun _ => trivial

theorem lawful_points : points.Lawful (fun n => Number.signed32.contains n = true) fun _ => [] :=
  lawful_integer (by decide) (by decide)

theorem lawful_instruction : instruction.Lawful Instruction.Fits Instruction.floats where
  wellFormed := by
    intro i
    cases i with
    | char c => exact wellFormed_variant (lawful_char.wellFormed c)
    | lineBreak => exact .string _
    | size n => exact wellFormed_variant (lawful_points.wellFormed n)
    | color c => exact wellFormed_variant (lawful_color.wellFormed c)
    | speed ms => exact wellFormed_variant (lawful_word32.wellFormed ms)
    | rotation x => exact wellFormed_variant (wellFormed_single x)
    | font id => exact wellFormed_variant (lawful_nullable_string.wellFormed id)
    | shake s => exact wellFormed_variant (lawful_shake.wellFormed s)
    | reset => exact .string _
    | wait ms => exact wellFormed_variant (lawful_word32.wellFormed ms)
    | icon id => exact wellFormed_variant (lawful_string.wellFormed id)
    | next ms => exact wellFormed_variant (lawful_word32.wellFormed ms)
    | event name => exact wellFormed_variant (lawful_string.wellFormed name)
    | finish => exact .string _
    | input enabled => exact wellFormed_variant (lawful_bool.wellFormed enabled)
  read_write := by
    intro i hi hx
    cases i with
    | char c => exact lawful_char.carried trivial hx Instruction.char
    | lineBreak => rfl
    | size n => exact lawful_points.carried hi hx Instruction.size
    | color c => exact lawful_color.carried trivial hx Instruction.color
    | speed ms => exact lawful_word32.carried hi hx Instruction.speed
    | rotation x => exact lawful_single.carried trivial hx Instruction.rotation
    | font id => exact lawful_nullable_string.carried trivial hx Instruction.font
    | shake s => exact lawful_shake.carried trivial hx Instruction.shake
    | reset => rfl
    | wait ms => exact lawful_word32.carried hi hx Instruction.wait
    | icon id => exact lawful_string.carried trivial hx Instruction.icon
    | next ms => exact lawful_word32.carried hi hx Instruction.next
    | event name => exact lawful_string.carried trivial hx Instruction.event
    | finish => rfl
    | input enabled => exact lawful_bool.carried trivial hx Instruction.input
  fits_of_read := by
    intro v i h
    obtain ⟨⟨name, payload⟩, -, h⟩ := Option.bind_eq_some_iff.mp h
    dsimp only at h
    split at h
    · exact lawful_char.of_carried h fun _ _ => trivial
    · exact of_bare h trivial
    · exact lawful_points.of_carried h fun _ ha => ha
    · exact lawful_color.of_carried h fun _ _ => trivial
    · exact lawful_word32.of_carried h fun _ ha => ha
    · exact lawful_single.of_carried h fun _ _ => trivial
    · exact lawful_nullable_string.of_carried h fun _ _ => trivial
    · exact lawful_shake.of_carried h fun _ _ => trivial
    · exact of_bare h trivial
    · exact lawful_word32.of_carried h fun _ ha => ha
    · exact lawful_string.of_carried h fun _ _ => trivial
    · exact lawful_word32.of_carried h fun _ ha => ha
    · exact lawful_string.of_carried h fun _ _ => trivial
    · exact of_bare h trivial
    · exact lawful_bool.of_carried h fun _ _ => trivial
    · cases h

theorem lawful_instructions :
    instructions.Lawful (fun is => ∀ i ∈ is, i.Fits) fun is => is.flatMap Instruction.floats :=
  lawful_instruction.list

/-- A script is given back without the source lines. -/
theorem read_write_script {s : Script} (hs : ∀ i ∈ s.instructions, i.Fits)
    (hx : ∀ x ∈ s.floats, Faithful x) :
    script.read (script.write s) = some ⟨s.instructions, []⟩ := by
  obtain ⟨r, hr, hgiven⟩ := exists_fields_record ["commands"]
    [("commands", instructions.write s.instructions)] rfl (by decide)
  have his : r.required "commands" instructions = some s.instructions :=
    lawful_instructions.required hs hx (hgiven (by simp))
  simp only [script, hr, his, Option.bind_eq_bind, Option.bind_some, Option.pure_def]

theorem lawful_script :
    script.Lawful (fun s => s.lines = [] ∧ ∀ i ∈ s.instructions, i.Fits) Script.floats where
  wellFormed := by
    intro s
    refine wellFormed_record ?_
    simp [lawful_instructions.wellFormed]
  read_write := by
    rintro ⟨is, lines⟩ ⟨rfl, hs⟩ hx
    exact read_write_script hs hx
  fits_of_read := by
    intro v s h
    obtain ⟨r, -, h⟩ := Option.bind_eq_some_iff.mp h
    obtain ⟨is, his, h⟩ := Option.bind_eq_some_iff.mp h
    cases h
    exact ⟨rfl, lawful_instructions.fits_of_required his⟩

/-! ## Styles and playheads -/

theorem lawful_style : style.Lawful Style.Fits Style.floats where
  wellFormed := by
    intro s
    refine wellFormed_record ?_
    simp [wellFormed_single, lawful_color.wellFormed, lawful_nullable_string.wellFormed,
      lawful_shake.wellFormed, lawful_word32.wellFormed]
  read_write := by
    intro s hs hx
    simp only [Style.floats, List.forall_mem_cons] at hx
    obtain ⟨r, hr, hgiven⟩ := exists_fields_record
      ["scale", "color", "rotation", "font", "shake", "speed_ms"]
      [("scale", single.write s.scale), ("color", color.write s.color),
        ("rotation", single.write s.rotation), ("font", Form.string.nullable.write s.font),
        ("shake", shake.write s.shake), ("speed_ms", word32.write s.speed)] rfl (by decide)
    have hscale : r.required "scale" single = some s.scale :=
      required_single hx.1 (hgiven (by simp))
    have hcolor : r.required "color" color = some s.color :=
      lawful_color.required trivial faithful_nil (hgiven (by simp))
    have hrotation : r.required "rotation" single = some s.rotation :=
      required_single hx.2.1 (hgiven (by simp))
    have hfont : r.optional "font" Form.string = some s.font := optional_string (hgiven (by simp))
    have hshake : r.required "shake" shake = some s.shake :=
      lawful_shake.required trivial hx.2.2 (hgiven (by simp))
    have hspeed : r.required "speed_ms" word32 = some s.speed :=
      lawful_word32.required hs faithful_nil (hgiven (by simp))
    simp only [style, hr, hscale, hcolor, hrotation, hfont, hshake, hspeed, Option.bind_eq_bind,
      Option.bind_some, Option.pure_def]
  fits_of_read := by
    intro v s h
    simp only [style, Option.bind_eq_bind, Option.bind_eq_some_iff] at h
    obtain ⟨r, -, scale, -, color, -, rotation, -, font, -, shake, -, speed, hspeed, h⟩ := h
    cases h
    exact lawful_word32.fits_of_required hspeed

theorem lawful_playhead : playhead.Lawful Playhead.Fits fun _ => [] where
  wellFormed := by
    intro h
    refine wellFormed_record ?_
    simp [lawful_bool.wellFormed, lawful_word32.wellFormed, lawful_word64.wellFormed]
  read_write := by
    intro h hh _
    obtain ⟨r, hr, hgiven⟩ := exists_fields_record
      ["active", "busy", "wait_input", "script_ended", "input_enabled", "position",
        "char_timer_ms", "pause_ms", "forced_wait_ms"]
      [("active", Form.bool.write h.active), ("busy", Form.bool.write h.busy),
        ("wait_input", Form.bool.write h.waiting), ("script_ended", Form.bool.write h.ended),
        ("input_enabled", Form.bool.write h.inputEnabled),
        ("position", word64.write h.position), ("char_timer_ms", word32.write h.charTimer),
        ("pause_ms", word32.write h.pause), ("forced_wait_ms", word32.write h.timedWait)] rfl
      (by decide)
    have hbool : ∀ {name : String} {b : Bool}, r.given? name = some (Form.bool.write b) →
        r.required name Form.bool = some b := lawful_bool.required trivial faithful_nil
    have hactive : r.required "active" Form.bool = some h.active := hbool (hgiven (by simp))
    have hbusy : r.required "busy" Form.bool = some h.busy := hbool (hgiven (by simp))
    have hwaiting : r.required "wait_input" Form.bool = some h.waiting := hbool (hgiven (by simp))
    have hended : r.required "script_ended" Form.bool = some h.ended := hbool (hgiven (by simp))
    have hinput : r.required "input_enabled" Form.bool = some h.inputEnabled :=
      hbool (hgiven (by simp))
    have hposition : r.required "position" word64 = some h.position :=
      lawful_word64.required hh.position faithful_nil (hgiven (by simp))
    have hcharTimer : r.required "char_timer_ms" word32 = some h.charTimer :=
      lawful_word32.required hh.charTimer faithful_nil (hgiven (by simp))
    have hpause : r.required "pause_ms" word32 = some h.pause :=
      lawful_word32.required hh.pause faithful_nil (hgiven (by simp))
    have htimedWait : r.required "forced_wait_ms" word32 = some h.timedWait :=
      lawful_word32.required hh.timedWait faithful_nil (hgiven (by simp))
    simp only [playhead, hr, hactive, hbusy, hwaiting, hended, hinput, hposition, hcharTimer,
      hpause, htimedWait, Option.bind_eq_bind, Option.bind_some, Option.pure_def]
  fits_of_read := by
    intro v h hv
    simp only [playhead, Option.bind_eq_bind, Option.bind_eq_some_iff] at hv
    obtain ⟨r, -, active, -, busy, -, waiting, -, ended, -, input, -, position, hposition,
      charTimer, hcharTimer, pause, hpause, timedWait, htimedWait, hv⟩ := hv
    cases hv
    exact ⟨lawful_word64.fits_of_required hposition, lawful_word32.fits_of_required hcharTimer,
      lawful_word32.fits_of_required hpause, lawful_word32.fits_of_required htimedWait⟩

theorem lawful_remaining : remaining.Lawful (· < UInt32.size) fun _ => [] where
  wellFormed := by
    intro ms
    refine wellFormed_record ?_
    simp [lawful_word32.wellFormed]
  read_write := by
    intro ms hms _
    obtain ⟨r, hr, hgiven⟩ := exists_fields_record ["remaining_ms"]
      [("remaining_ms", word32.write ms)] rfl (by decide)
    have hremaining : r.required "remaining_ms" word32 = some ms :=
      lawful_word32.required hms faithful_nil (hgiven (by simp))
    simp only [remaining, hr, hremaining, Option.bind_eq_bind, Option.bind_some]
  fits_of_read := by
    intro v ms h
    obtain ⟨r, -, h⟩ := Option.bind_eq_some_iff.mp h
    exact lawful_word32.fits_of_required h

theorem lawful_phase : phase.Lawful Phase.Fits fun _ => [] where
  wellFormed := by
    intro p
    cases p with
    | timedWait ms => exact wellFormed_variant (lawful_remaining.wellFormed ms)
    | _ => exact .string _
  read_write := by
    intro p hp hx
    cases p with
    | timedWait ms => exact lawful_remaining.carried hp hx Phase.timedWait
    | _ => rfl
  fits_of_read := by
    intro v p h
    obtain ⟨⟨name, payload⟩, -, h⟩ := Option.bind_eq_some_iff.mp h
    dsimp only at h
    split at h
    · exact of_bare h trivial
    · exact of_bare h trivial
    · exact of_bare h trivial
    · exact lawful_remaining.of_carried h fun _ ha => ha
    · cases h

/-! ## Backlogs -/

theorem lawful_timed {textName : String} (hne : textName ≠ "clock_ms") :
    (timed textName).Lawful (fun p => p.2 < UInt64.size) fun _ => [] where
  wellFormed := by
    intro p
    refine wellFormed_record ?_
    simp [lawful_string.wellFormed, lawful_word64.wellFormed]
  read_write := by
    intro p hp _
    obtain ⟨r, hr, hgiven⟩ := exists_fields_record [textName, "clock_ms"]
      [(textName, Form.string.write p.1), ("clock_ms", word64.write p.2)] rfl (by simpa using hne)
    have htext : r.required textName Form.string = some p.1 :=
      lawful_string.required trivial faithful_nil (hgiven (by simp))
    have hclock : r.required "clock_ms" word64 = some p.2 :=
      lawful_word64.required hp faithful_nil (hgiven (by simp))
    simp only [timed, hr, htext, hclock, Option.bind_eq_bind, Option.bind_some, Option.pure_def]
  fits_of_read := by
    intro v p h
    simp only [timed, Option.bind_eq_bind, Option.bind_eq_some_iff] at h
    obtain ⟨r, -, text, -, clock, hclock, h⟩ := h
    cases h
    exact lawful_word64.fits_of_required hclock

theorem lawful_entry : entry.Lawful Entry.Fits fun _ => [] where
  wellFormed := by
    intro e
    cases e with
    | page text clock => exact wellFormed_variant ((lawful_timed (by decide)).wellFormed _)
    | event name clock => exact wellFormed_variant ((lawful_timed (by decide)).wellFormed _)
  read_write := by
    intro e he hx
    cases e with
    | page text clock =>
      have htimed : (timed "text").Lawful _ _ := lawful_timed (by decide)
      exact htimed.carried (a := (text, clock)) he hx fun p => Entry.page p.1 p.2
    | event name clock =>
      have htimed : (timed "name").Lawful _ _ := lawful_timed (by decide)
      exact htimed.carried (a := (name, clock)) he hx fun p => Entry.event p.1 p.2
  fits_of_read := by
    intro v e h
    obtain ⟨⟨name, payload⟩, -, h⟩ := Option.bind_eq_some_iff.mp h
    dsimp only at h
    split at h
    · exact (lawful_timed (by decide)).of_carried h fun _ ha => ha
    · exact (lawful_timed (by decide)).of_carried h fun _ ha => ha
    · cases h

theorem lawful_backlog : backlog.Lawful Backlog.Fits fun _ => [] where
  wellFormed := by
    intro b
    refine wellFormed_record ?_
    simp [lawful_entry.list.wellFormed, lawful_word64.wellFormed]
  read_write := by
    intro b hb _
    obtain ⟨r, hr, hgiven⟩ := exists_fields_record ["events", "max_events"]
      [("events", (Form.list entry).write b.entries), ("max_events", word64.write b.limit)] rfl
      (by decide)
    have hentries : r.required "events" (Form.list entry) = some b.entries :=
      lawful_entry.list.required hb.entries (by simp) (hgiven (by simp))
    have hlimit : r.required "max_events" word64 = some b.limit :=
      lawful_word64.required hb.limit faithful_nil (hgiven (by simp))
    simp only [backlog, hr, hentries, hlimit, Option.bind_eq_bind, Option.bind_some,
      Option.pure_def]
  fits_of_read := by
    intro v b h
    simp only [backlog, Option.bind_eq_bind, Option.bind_eq_some_iff] at h
    obtain ⟨r, -, entries, hentries, limit, hlimit, h⟩ := h
    cases h
    exact ⟨lawful_entry.list.fits_of_required hentries, lawful_word64.fits_of_required hlimit⟩

/-! ## Glyphs -/

theorem lawful_point : point.Lawful (fun _ => True) fun p => [p.x, p.y] where
  wellFormed := by
    intro p
    refine wellFormed_record ?_
    simp [wellFormed_single]
  read_write := by
    intro p _ hp
    simp only [List.forall_mem_cons] at hp
    obtain ⟨r, hr, hgiven⟩ := exists_fields_record ["x", "y"]
      [("x", single.write p.x), ("y", single.write p.y)] rfl (by decide)
    have hx : r.required "x" single = some p.x := required_single hp.1 (hgiven (by simp))
    have hy : r.required "y" single = some p.y := required_single hp.2.1 (hgiven (by simp))
    simp only [point, hr, hx, hy, Option.bind_eq_bind, Option.bind_some, Option.pure_def]
  fits_of_read := fun _ => trivial

theorem lawful_size : size.Lawful (fun _ => True) fun s => [s.width, s.height] where
  wellFormed := by
    intro s
    refine wellFormed_record ?_
    simp [wellFormed_single]
  read_write := by
    intro s _ hs
    simp only [List.forall_mem_cons] at hs
    obtain ⟨r, hr, hgiven⟩ := exists_fields_record ["width", "height"]
      [("width", single.write s.width), ("height", single.write s.height)] rfl (by decide)
    have hwidth : r.required "width" single = some s.width :=
      required_single hs.1 (hgiven (by simp))
    have hheight : r.required "height" single = some s.height :=
      required_single hs.2.1 (hgiven (by simp))
    simp only [size, hr, hwidth, hheight, Option.bind_eq_bind, Option.bind_some, Option.pure_def]
  fits_of_read := fun _ => trivial

theorem lawful_glyphKind : glyphKind.Lawful (fun _ => True) fun _ => [] where
  wellFormed := by
    intro k
    cases k with
    | char c => exact wellFormed_variant (lawful_char.wellFormed c)
    | icon id => exact wellFormed_variant (lawful_string.wellFormed id)
  read_write := by
    intro k _ hx
    cases k with
    | char c => exact lawful_char.carried trivial hx GlyphKind.char
    | icon id => exact lawful_string.carried trivial hx GlyphKind.icon
  fits_of_read := fun _ => trivial

theorem lawful_glyph : glyph.Lawful Glyph.Fits Glyph.floats where
  wellFormed := by
    intro g
    refine wellFormed_record ?_
    simp [lawful_glyphKind.wellFormed, lawful_point.wellFormed, lawful_size.wellFormed,
      lawful_style.wellFormed]
  read_write := by
    intro g hg hx
    simp only [Glyph.floats, List.cons_append, List.nil_append, List.forall_mem_cons] at hx
    obtain ⟨hpx, hpy, hwidth, hheight, hstyle⟩ := hx
    obtain ⟨r, hr, hgiven⟩ := exists_fields_record ["kind", "position", "size", "style"]
      [("kind", glyphKind.write g.kind), ("position", point.write g.position),
        ("size", size.write g.size), ("style", style.write g.style)] rfl (by decide)
    have hk : r.required "kind" glyphKind = some g.kind :=
      lawful_glyphKind.required trivial faithful_nil (hgiven (by simp))
    have hp : r.required "position" point = some g.position :=
      lawful_point.required trivial (by simp [hpx, hpy]) (hgiven (by simp))
    have hs : r.required "size" size = some g.size :=
      lawful_size.required trivial (by simp [hwidth, hheight]) (hgiven (by simp))
    have ht : r.required "style" style = some g.style :=
      lawful_style.required hg hstyle (hgiven (by simp))
    simp only [glyph, hr, hk, hp, hs, ht, Option.bind_eq_bind, Option.bind_some, Option.pure_def]
  fits_of_read := by
    intro v g h
    simp only [glyph, Option.bind_eq_bind, Option.bind_eq_some_iff] at h
    obtain ⟨r, -, kind, -, position, -, size, -, style, hstyle, h⟩ := h
    cases h
    exact lawful_style.fits_of_required hstyle

/-! ## Settings -/

theorem lawful_rect : rect.Lawful (fun _ => True) Rect.floats where
  wellFormed := by
    intro w
    refine wellFormed_record ?_
    simp [wellFormed_single]
  read_write := by
    intro w _ hw
    simp only [Rect.floats, List.forall_mem_cons] at hw
    obtain ⟨r, hr, hgiven⟩ := exists_fields_record ["x", "y", "width", "height"]
      [("x", single.write w.x), ("y", single.write w.y), ("width", single.write w.width),
        ("height", single.write w.height)] rfl (by decide)
    have hx : r.required "x" single = some w.x := required_single hw.1 (hgiven (by simp))
    have hy : r.required "y" single = some w.y := required_single hw.2.1 (hgiven (by simp))
    have hwidth : r.required "width" single = some w.width :=
      required_single hw.2.2.1 (hgiven (by simp))
    have hheight : r.required "height" single = some w.height :=
      required_single hw.2.2.2.1 (hgiven (by simp))
    simp only [rect, hr, hx, hy, hwidth, hheight, Option.bind_eq_bind, Option.bind_some,
      Option.pure_def]
  fits_of_read := fun _ => trivial

theorem lawful_settings : settings.Lawful Settings.Fits Settings.floats where
  wellFormed := by
    intro s
    refine wellFormed_record ?_
    simp [wellFormed_single, lawful_rect.wellFormed, lawful_bool.wellFormed,
      lawful_word32.wellFormed, lawful_word64.wellFormed]
  read_write := by
    intro s hs hx
    simp only [Settings.floats, List.cons_append, List.nil_append, List.forall_mem_cons] at hx
    obtain ⟨r, hr, hgiven⟩ := exists_fields_record
      ["window", "line_spacing", "kerning", "default_speed_ms", "wrap", "history_limit",
        "blink_period_ms"]
      [("window", rect.write s.window), ("line_spacing", single.write s.lineSpacing),
        ("kerning", single.write s.kerning), ("default_speed_ms", word32.write s.speed),
        ("wrap", Form.bool.write s.wrap), ("history_limit", word64.write s.backlogLimit),
        ("blink_period_ms", word64.write s.blinkPeriod)] rfl (by decide)
    have hwindow : ∀ d, r.withDefault "window" rect d = some s.window :=
      lawful_rect.withDefault trivial hx.2.2 (hgiven (by simp))
    have hspacing : ∀ d, r.withDefault "line_spacing" single d = some s.lineSpacing :=
      lawful_single.withDefault trivial (faithful_singleton hx.1) (hgiven (by simp))
    have hkerning : ∀ d, r.withDefault "kerning" single d = some s.kerning :=
      lawful_single.withDefault trivial (faithful_singleton hx.2.1) (hgiven (by simp))
    have hspeed : ∀ d, r.withDefault "default_speed_ms" word32 d = some s.speed :=
      lawful_word32.withDefault hs.speed faithful_nil (hgiven (by simp))
    have hwrap : ∀ d, r.withDefault "wrap" Form.bool d = some s.wrap :=
      lawful_bool.withDefault trivial faithful_nil (hgiven (by simp))
    have hlimit : ∀ d, r.withDefault "history_limit" word64 d = some s.backlogLimit :=
      lawful_word64.withDefault hs.backlogLimit faithful_nil (hgiven (by simp))
    have hperiod : ∀ d, r.withDefault "blink_period_ms" word64 d = some s.blinkPeriod :=
      lawful_word64.withDefault hs.blinkPeriod faithful_nil (hgiven (by simp))
    simp only [settings, hr, hwindow, hspacing, hkerning, hspeed, hwrap, hlimit, hperiod,
      Option.bind_eq_bind, Option.bind_some, Option.pure_def]
  fits_of_read := by
    intro v s h
    simp only [settings, Option.bind_eq_bind, Option.bind_eq_some_iff] at h
    obtain ⟨r, -, window, -, spacing, -, kerning, -, speed, hspeed, wrap, -, limit, hlimit, period,
      hperiod, h⟩ := h
    cases h
    exact ⟨lawful_word32.fits_of_withDefault (by decide) hspeed,
      lawful_word64.fits_of_withDefault (by decide) hlimit,
      lawful_word64.fits_of_withDefault (by decide) hperiod⟩

/-! ## Texts -/

/--
**What is stored is taken back.**

Of each type that is stored: the text of a value whose numbers fit is read as the value, whatever
its characters are. And if any text was read as a value, the text of that value is read as the same
value, and is written for it again. A script is given back without its source lines.

The numbers in single precision are finite, and reading gives each of them back as it is written.
-/
theorem stored_values_round_trip :
    instruction.RoundTrips Instruction.Fits Instruction.floats ∧
    (∀ s : Script, (∀ i ∈ s.instructions, i.Fits) → (∀ x ∈ s.floats, Faithful x) →
      script.ofText? (script.text s).toList = some ⟨s.instructions, []⟩) ∧
    script.RoundTrips (fun s => s.lines = [] ∧ ∀ i ∈ s.instructions, i.Fits) Script.floats ∧
    color.RoundTrips (fun _ => True) (fun _ => []) ∧
    shake.RoundTrips (fun _ => True) Shake.floats ∧
    style.RoundTrips Style.Fits Style.floats ∧
    playhead.RoundTrips Playhead.Fits (fun _ => []) ∧
    phase.RoundTrips Phase.Fits (fun _ => []) ∧
    entry.RoundTrips Entry.Fits (fun _ => []) ∧
    backlog.RoundTrips Backlog.Fits (fun _ => []) ∧
    glyph.RoundTrips Glyph.Fits Glyph.floats ∧
    rect.RoundTrips (fun _ => True) Rect.floats ∧
    settings.RoundTrips Settings.Fits Settings.floats := by
  refine ⟨lawful_instruction.roundTrips, fun s hs hx => ?_, lawful_script.roundTrips,
    lawful_color.roundTrips, lawful_shake.roundTrips, lawful_style.roundTrips,
    lawful_playhead.roundTrips, lawful_phase.roundTrips, lawful_entry.roundTrips,
    lawful_backlog.roundTrips, lawful_glyph.roundTrips, lawful_rect.roundTrips,
    lawful_settings.roundTrips⟩
  rw [ofText?_text (lawful_script.wellFormed s)]
  exact read_write_script hs hx

/-- An event whose name has to be escaped, and a rectangle that was read from a text with its fields
in another order, one more field, and other spellings of its numbers. -/
theorem stored_values_round_trip_rect :
    let i := Instruction.event "a\"\n\x01"
    let w : Rect := ⟨1.5, 2, 3, 4⟩
    let s := "\x7b\"y\": 2, \"x\":15e-1, \"more\":[null],\n \"height\":4.0, \"width\" :3e0\x7d"
    instruction.ofText? (instruction.text i).toList = some i ∧
      rect.ofText? s.toList = some w ∧ (∀ x ∈ w.floats, Faithful x) ∧
      rect.text w = "\x7b\"x\":1.5,\"y\":2.0,\"width\":3.0,\"height\":4.0\x7d" ∧
      rect.ofText? (rect.text w).toList = some w := by
  intro i w s
  obtain ⟨hinstruction, -, -, -, -, -, -, -, -, -, -, hrect, -⟩ := stored_values_round_trip
  have hread : rect.ofText? s.toList = some w := by decide +kernel
  have hfloats : ∀ x ∈ w.floats, Faithful x := by
    simp only [w, Rect.floats, List.forall_mem_cons]
    exact ⟨⟨by decide, by decide +kernel⟩, ⟨by decide, by decide +kernel⟩,
      ⟨by decide, by decide +kernel⟩, ⟨by decide, by decide +kernel⟩, faithful_nil⟩
  obtain ⟨b, hb, rfl, -⟩ := hrect.of_text _ w hread hfloats
  exact ⟨hinstruction.of_value i trivial faithful_nil, hread, hfloats, by decide +kernel, hb⟩

end Saved

end DialogueBox
