import DialogueBox.Playback.Run

/-!
# Single steps of playing

What an instruction does to a player, said for each part of the player by itself: the playhead, the
style, the page, the events and the backlog (`execute_eq`). No part looks at the clock but the
backlog, and only the page looks at the metrics of glyphs.

`Player.step` goes past an instruction and carries it out. Draining is a sequence of steps, and
`drain_induction` says once what has to be shown about them.
-/

namespace DialogueBox

/-! ## The parts of an instruction's effect -/

/-- The name of the event that an instruction raises. -/
def Instruction.eventName? : Instruction → Option String
  | event name => some name
  | _ => none

/-- Whether an instruction ends the script. -/
def Instruction.isFinish : Instruction → Bool
  | finish => true
  | _ => false

/-- Whether an instruction completes its page. -/
def Instruction.endsPage (i : Instruction) : Bool := i.isNext || i.isFinish

/-- What an instruction says about whether input is heeded. -/
def Instruction.inputSetting? : Instruction → Option Bool
  | input enabled => some enabled
  | _ => none

/-- The flags and timers after an instruction. -/
def Playhead.after (instant : Bool) (h : Playhead) : Instruction → Playhead
  | .wait ms => if instant || ms == 0 then h else { h with pause := ms, charTimer := 0 }
  | .next ms => { h.finishPage with timedWait := ms }
  | .finish => { h with ended := true }.finishPage
  | .input enabled => { h with inputEnabled := enabled }
  | _ => h

/-- The style after an instruction; `speed` is the speed that a reset goes back to. -/
def Style.after (hasFont : String → Bool) (speed : Nat) (s : Style) : Instruction → Style
  | .size points => s.withSize points
  | .color c => { s with color := c }
  | .speed ms => s.withSpeed ms
  | .rotation degrees => { s with rotation := degrees }
  | .font none => { s with font := none }
  | .font (some id) => if hasFont id then { s with font := some id } else s
  | .shake k => { s with shake := k }
  | .reset => .initial speed
  | _ => s

/-- The page with an icon, if it exists. -/
def Page.withIcon (m : Metrics) (s : Style) (p : Page) (id : String) : Page :=
  match m.icon? id with
  | some size => p.place (.icon id) size s (m.glyph ' ' s.font s.scale).height
  | none => p

/-- The page after an instruction that is met in a style. -/
def Page.after (m : Metrics) (s : Style) (p : Page) : Instruction → Page
  | .char c => p.placeChar c (m.glyph c s.font s.scale) s (m.glyph ' ' s.font s.scale).height
  | .icon id => p.withIcon m s id
  | .lineBreak => p.breakLine (m.glyph ' ' s.font s.scale).height
  | .size _ | .color _ | .speed _ | .rotation _ | .font _ | .shake _ | .reset | .wait _ | .next _
  | .event _ | .finish | .input _ => p

/-- The text of a page as the backlog keeps it. -/
def Page.keptText (p : Page) : String := String.ofList (Text.trimEnd p.text.toList)

/-- The entries that a completed page is worth: one if it has text, else none. -/
def Page.entries (p : Page) (clock : Nat) : List Entry :=
  if p.keptText = "" then [] else [.page p.keptText clock]

/-- The entries that an instruction adds to the backlog. -/
def Instruction.entries (p : Page) (clock : Nat) : Instruction → List Entry
  | event name => [.event name clock]
  | next _ | finish => p.entries clock
  | _ => []

/-- Adds entries one after the other. -/
def Backlog.pushAll (b : Backlog) (es : List Entry) : Backlog := es.foldl push b

theorem Backlog.pushAll_append (b : Backlog) (es fs : List Entry) :
    b.pushAll (es ++ fs) = (b.pushAll es).pushAll fs := List.foldl_append

/-- An entry without its time. -/
def Entry.untimed : Entry → Entry
  | page text _ => .page text 0
  | event name _ => .event name 0

/-- Whether a page has text does not depend on the time. -/
theorem Page.map_untimed_entries (p : Page) (clock : Nat) :
    (p.entries clock).map Entry.untimed = p.entries 0 := by
  unfold entries
  split <;> rfl

theorem Instruction.map_untimed_entries (p : Page) (clock : Nat) (i : Instruction) :
    (i.entries p clock).map Entry.untimed = i.entries p 0 := by
  cases i with
  | next ms => exact p.map_untimed_entries clock
  | finish => exact p.map_untimed_entries clock
  | _ => rfl

/-- Going past an instruction moves the position, carrying it out does not. -/
@[simp] theorem Playhead.position_after (instant : Bool) (h : Playhead) (i : Instruction) :
    (h.after instant i).position = h.position := by
  cases i with
  | wait ms => simp only [after]; split <;> rfl
  | _ => rfl

theorem Playhead.inputEnabled_after (instant : Bool) (h : Playhead) (i : Instruction) :
    (h.after instant i).inputEnabled = i.inputSetting?.getD h.inputEnabled := by
  cases i with
  | wait ms => simp only [after]; split <;> rfl
  | _ => rfl

theorem Playhead.ended_after (instant : Bool) (h : Playhead) (i : Instruction) :
    (h.after instant i).ended = (h.ended || i.isFinish) := by
  cases i with
  | wait ms => simp only [after]; split <;> exact (Bool.or_false _).symm
  | finish => exact (Bool.or_true _).symm
  | _ => exact (Bool.or_false _).symm

theorem Playhead.waiting_after (instant : Bool) (h : Playhead) (i : Instruction) :
    (h.after instant i).waiting = (h.waiting || i.endsPage) := by
  cases i with
  | wait ms => simp only [after]; split <;> exact (Bool.or_false _).symm
  | next ms => exact (Bool.or_true _).symm
  | finish => exact (Bool.or_true _).symm
  | _ => exact (Bool.or_false _).symm

/-- An instruction at which playing does not halt leaves all flags and timers as they are but
whether input is heeded. -/
theorem Playhead.after_of_not_halts {instant : Bool} {i : Instruction}
    (h : i.halts instant = false) (k : Playhead) :
    k.after instant i = { k with inputEnabled := (k.after instant i).inputEnabled } := by
  cases i with
  | wait ms =>
    have hz : (instant || ms == 0) = true := by
      simp only [Instruction.halts, Bool.and_eq_false_iff, Bool.not_eq_eq_eq_not, Bool.not_false,
        bne_eq_false_iff_eq] at h
      rcases h with h | h <;> simp [h]
    simp only [after, hz, if_true]
  | next ms => simp [Instruction.halts] at h
  | finish => simp [Instruction.halts] at h
  | _ => rfl

namespace Player

/-! ## Instructions and steps -/

theorem finishPage_eq (p : Player) :
    p.finishPage =
      { p with
        playhead := p.playhead.finishPage
        backlog := p.backlog.pushAll (p.page.entries p.clock) } := by
  unfold finishPage Page.entries
  by_cases h : p.finishedText = ""
  · rw [if_pos h, if_pos (show p.page.keptText = "" from h)]
    rfl
  · rw [if_neg h, if_neg (show ¬p.page.keptText = "" from h)]
    rfl

/-- **An instruction acts on each part of a player by itself.** -/
theorem execute_eq (instant : Bool) (i : Instruction) (p : Player) :
    p.execute instant i =
      { p with
        playhead := p.playhead.after instant i
        style := p.style.after p.metrics.hasFont p.settings.speed i
        page := p.page.after p.metrics p.style i
        events := p.events ++ i.eventName?.toList
        backlog := p.backlog.pushAll (i.entries p.page p.clock) } := by
  have hnil : p.events ++ [] = p.events := List.append_nil _
  cases i with
  | wait ms =>
    simp only [execute, Playhead.after, Instruction.eventName?, Option.toList_none, hnil]
    split <;> rfl
  | icon id =>
    simp only [execute, showIcon, Page.after, Page.withIcon, Instruction.eventName?,
      Option.toList_none, hnil]
    cases p.metrics.icon? id <;> rfl
  | font id =>
    simp only [execute, Instruction.eventName?, Option.toList_none, hnil]
    cases id with
    | none => rfl
    | some id =>
      simp only [chooseFont, Style.after]
      split <;> rfl
  | next ms =>
    simp only [execute, finishPage_eq, Instruction.eventName?, Option.toList_none, hnil]
    rfl
  | finish =>
    simp only [execute, finishPage_eq, Instruction.eventName?, Option.toList_none, hnil]
    rfl
  | event name => rfl
  | _ => simp only [Instruction.eventName?, Option.toList_none, hnil]; rfl

/-- Goes past an instruction and carries it out. -/
def step (instant : Bool) (i : Instruction) (p : Player) : Player :=
  (p.pass instant i).execute instant i

theorem step_eq (instant : Bool) (i : Instruction) (p : Player) :
    p.step instant i =
      { p with
        playhead := (p.pass instant i).playhead.after instant i
        style := p.style.after p.metrics.hasFont p.settings.speed i
        page := p.page.after p.metrics p.style i
        events := p.events ++ i.eventName?.toList
        backlog := p.backlog.pushAll (i.entries p.page p.clock) } := by
  unfold step
  rw [execute_eq]
  rfl

theorem position_step (instant : Bool) (i : Instruction) (p : Player) :
    (p.step instant i).playhead.position = p.playhead.position + 1 := by
  rw [step_eq]
  exact Playhead.position_after ..

theorem waiting_step (instant : Bool) (i : Instruction) (p : Player) :
    (p.step instant i).playhead.waiting = (p.playhead.waiting || i.endsPage) := by
  rw [step_eq]
  exact Playhead.waiting_after ..

theorem ended_step (instant : Bool) (i : Instruction) (p : Player) :
    (p.step instant i).playhead.ended = (p.playhead.ended || i.isFinish) := by
  rw [step_eq]
  exact Playhead.ended_after ..

/-- A step takes one instruction off those that are left. -/
theorem ahead_step {instant : Bool} {i : Instruction} {rest : List Instruction} {p : Player}
    (h : p.ahead = i :: rest) : (p.step instant i).ahead = rest := by
  have hscript : (p.step instant i).script = p.script := by rw [step_eq]
  unfold ahead at h ⊢
  rw [hscript, position_step, ← List.drop_drop, h, List.drop_one, List.tail_cons]

/-- Where an instruction is left, it stands at the position. -/
theorem getElem?_position {i : Instruction} {rest : List Instruction} {p : Player}
    (h : p.ahead = i :: rest) : p.script.instructions[p.playhead.position]? = some i := by
  rw [← List.head?_drop, show p.script.instructions.drop p.playhead.position = i :: rest from h]
  rfl

theorem length_le_position {p : Player} (h : p.ahead = []) :
    p.script.length ≤ p.playhead.position := List.drop_eq_nil_iff.mp h

theorem ahead_ne_nil {p : Player} (h : p.playhead.position < p.script.length) : p.ahead ≠ [] :=
  fun hl => Nat.not_le.mpr h (length_le_position hl)

theorem atEnd_eq_false_iff {p : Player} : p.atEnd = false ↔
    p.playhead.ended = false ∧ p.playhead.position < p.script.length := by
  simp only [atEnd, Bool.or_eq_false_iff, decide_eq_false_iff_not, Nat.not_le]

/-- The instructions at which a page that is put out at once halts complete it. -/
theorem busy_step_of_halts_instant (p : Player) (instant : Bool) {i : Instruction}
    (h : i.halts true = true) : (p.step instant i).playhead.busy = false := by
  rw [step_eq]
  cases i with
  | next ms => rfl
  | finish => rfl
  | _ => simp [Instruction.halts] at h

/-- All others leave it as it is, also a pause. -/
theorem busy_step_of_not_halts_instant (p : Player) (instant : Bool) {i : Instruction}
    (h : i.halts true = false) :
    (p.step instant i).playhead.busy = p.playhead.busy := by
  rw [step_eq]
  cases i with
  | wait ms => simp only [Playhead.after]; split <;> rfl
  | next ms => simp [Instruction.halts] at h
  | finish => simp [Instruction.halts] at h
  | _ => rfl

/-! ## Taking events -/

theorem takeEvent_eq (p : Player) :
    p.takeEvent = (p.events.head?, { p with events := p.events.tail }) := by
  obtain ⟨_, _, _, _, _, _, _, events, _, _⟩ := p
  cases events <;> rfl

/-! ## Turning the page -/

theorem ahead_eq_append (p : Player) :
    p.ahead = p.ahead.takeWhile (· == .lineBreak) ++ p.ahead.dropWhile (· == .lineBreak) :=
  List.takeWhile_append_dropWhile.symm

/-- Turning the page skips the line breaks at the beginning of the next one. -/
theorem ahead_turnPage (p : Player) :
    p.turnPage.ahead = p.ahead.dropWhile (· == .lineBreak) := by
  show p.script.instructions.drop (p.playhead.position + _) = _
  rw [← List.drop_drop]
  calc p.ahead.drop (p.ahead.takeWhile (· == .lineBreak)).length
      = (p.ahead.takeWhile (· == .lineBreak) ++ p.ahead.dropWhile (· == .lineBreak)).drop
          (p.ahead.takeWhile (· == .lineBreak)).length := by rw [← ahead_eq_append]
    _ = p.ahead.dropWhile (· == .lineBreak) := List.drop_left

/-- What is behind after turning the page. -/
theorem take_position_turnPage (p : Player) :
    p.script.instructions.take p.turnPage.playhead.position =
      p.script.instructions.take p.playhead.position ++
        p.ahead.takeWhile (· == .lineBreak) := by
  show p.script.instructions.take (p.playhead.position + _) = _
  rw [List.take_add]
  congr 1
  exact (List.prefix_iff_eq_take.mp (List.takeWhile_prefix _)).symm

/-! ## Draining -/

theorem drain_cons (instant : Bool) (i : Instruction) (rest : List Instruction) (p : Player) :
    p.drain instant (i :: rest) =
      if p.mustWait instant i then p
      else if i.halts instant then p.step instant i
      else (p.step instant i).drain instant rest := rfl

/--
**Induction on draining.**

What holds before and is kept by each instruction at which playing goes on leads to what holds in
the end, whether playing stops before an instruction that has to wait, at one that halts, or
because nothing is left.
-/
theorem drain_induction {instant : Bool} {P Q : Player → Prop}
    (goOn : ∀ p i rest, p.ahead = i :: rest → P p → p.mustWait instant i = false →
      i.halts instant = false → P (p.step instant i))
    (wait : ∀ p i rest, p.ahead = i :: rest → P p → p.mustWait instant i = true → Q p)
    (halt : ∀ p i rest, p.ahead = i :: rest → P p → p.mustWait instant i = false →
      i.halts instant = true → Q (p.step instant i))
    (exhausted : ∀ p, p.ahead = [] → P p → Q p.finishPage)
    {p : Player} (h : P p) : Q (p.drain instant p.ahead) := by
  generalize hl : p.ahead = left
  induction left generalizing p with
  | nil => exact exhausted p hl h
  | cons i rest ih =>
    rw [drain_cons]
    by_cases hw : p.mustWait instant i = true
    · rw [if_pos hw]
      exact wait p i rest hl h hw
    · have hw' : p.mustWait instant i = false := by simpa using hw
      rw [if_neg hw]
      by_cases hh : i.halts instant = true
      · rw [if_pos hh]
        exact halt p i rest hl h hw' hh
      · rw [if_neg hh]
        exact ih (goOn p i rest hl h hw' (by simpa using hh)) (ahead_step hl)

/-- What every step and the end of a page keep, draining keeps. -/
theorem drain_keeps {α : Type} {instant : Bool} (f : Player → α)
    (hstep : ∀ q i, f (q.step instant i) = f q) (hfinish : ∀ q, f q.finishPage = f q)
    (p : Player) : f (p.drain instant p.ahead) = f p := by
  refine drain_induction (P := fun q => f q = f p) (Q := fun q => f q = f p) ?_ ?_ ?_ ?_ rfl
  · intro q i rest _ hq _ _
    exact (hstep q i).trans hq
  · intro q i rest _ hq _
    exact hq
  · intro q i rest _ hq _ _
    exact (hstep q i).trans hq
  · intro q _ hq
    exact (hfinish q).trans hq

end Player

end DialogueBox
