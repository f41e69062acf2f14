import DialogueBox.Playback.Player

/-!
# Playing

How a player goes on: by the time that has passed, and by the reader's wish.

* Characters, icons and line breaks appear one after the other, each when the gathered time has
  reached the time between characters, which is then taken off. Time left over counts for what
  follows, also in the same step, so frames of any length show the same in the end.
* A wish to go on completes a page that is being put out, turns a complete page, and closes the
  box after the last one. A timed wait lets no wish pass.
* Turning a page skips the line breaks at the beginning of the next one.

## Termination

`drain` recurses on the instructions that are left.
-/

namespace DialogueBox.Player

/-- The instructions that are left. -/
def ahead (p : Player) : List Instruction := p.script.instructions.drop p.playhead.position

/-- Whether an instruction has to wait until more time is gathered. -/
def mustWait (instant : Bool) (i : Instruction) (p : Player) : Bool :=
  !instant && i.takesTime && decide (p.playhead.charTimer < p.style.speed)

/-- Goes past an instruction, and pays for it if it takes time. -/
def pass (instant : Bool) (i : Instruction) (p : Player) : Player :=
  p.movePlayhead
    { p.playhead with
      position := p.playhead.position + 1
      charTimer :=
        if !instant && i.takesTime then p.playhead.charTimer - p.style.speed
        else p.playhead.charTimer }

/-- Carries out instructions until one has to wait or halts. A script without a further
instruction ends its page. -/
def drain (instant : Bool) : List Instruction → Player → Player
  | [], p => p.finishPage
  | i :: rest, p =>
    if mustWait instant i p then p
    else
      let q := (p.pass instant i).execute instant i
      if i.halts instant then q else drain instant rest q

/-! ## Advancing -/

/-- Completes the page at once. -/
def skip (p : Player) : Player :=
  let q := p.movePlayhead { p.playhead with pause := 0 }
  let r := q.drain true q.ahead
  r.movePlayhead { r.playhead with charTimer := 0 }

/-- Turns the page. -/
def turnPage (p : Player) : Player :=
  let breaks := (p.ahead.takeWhile (· == .lineBreak)).length
  { p with
    page := p.page.clear
    playhead := { p.playhead with position := p.playhead.position + breaks }.startPage }

/-- Closes the box. Events that were not taken and the backlog stay. -/
def close (p : Player) : Player :=
  { p with playhead := p.playhead.close, script := .blank, page := p.page.clear }

/-- Whether no page follows the current one. -/
def atEnd (p : Player) : Bool :=
  p.playhead.ended || decide (p.script.length ≤ p.playhead.position)

/-- Goes on: completes the page, turns it, or closes the box. -/
def advance (p : Player) : Player :=
  if !p.playhead.active then p.movePlayhead p.playhead.close
  else if p.playhead.waiting then if p.atEnd then p.close else p.turnPage
  else if p.playhead.busy then p.skip
  else p

/-- Goes on at the host's wish, whether or not input is heeded; a timed wait is not cut short. -/
def next (p : Player) : Player := if 0 < p.playhead.timedWait then p else p.advance

/-! ## Time -/

/-- Reports that time has passed to the clock alone. -/
def tick (p : Player) (elapsed : Nat) : Player :=
  { p with clock := (p.clock + elapsed) % UInt64.size }

/-- Lets time pass in a timed wait; at its end the player goes on. -/
def countDown (p : Player) (elapsed : Nat) : Player :=
  let q := p.movePlayhead { p.playhead with timedWait := p.playhead.timedWait - elapsed }
  if q.playhead.timedWait = 0 then q.advance else q

/-- Lets time pass for the page that is put out: first for a pause, and once that is over, for the
characters. -/
def reveal (p : Player) (elapsed : Nat) : Player :=
  if !p.playhead.active || p.playhead.waiting then p
  else
    let q := p.movePlayhead { p.playhead with pause := p.playhead.pause - elapsed }
    if 0 < q.playhead.pause then q
    else if q.playhead.busy then
      let r := q.movePlayhead (q.playhead.gather elapsed)
      r.drain false r.ahead
    else q

/-- One frame: time that has passed, and whether the reader wishes to go on. -/
def update (p : Player) (elapsed : Nat) (wish : Bool) : Player :=
  if !p.playhead.active then p
  else
    let p := p.tick elapsed
    if 0 < p.playhead.timedWait then p.countDown elapsed
    else (if wish && p.playhead.inputEnabled then p.advance else p).reveal elapsed

/-! ## Loading -/

/-- Plays a script from its beginning. The backlog stays; all else is forgotten. -/
def load (p : Player) (s : Script) : Player :=
  { p with
    script := s
    playhead := .start
    style := .initial p.settings.speed
    page := p.page.clear
    events := []
    clock := 0 }

/-- Compiles a source text and plays it. -/
def present (p : Player) (source : List Char) : Player :=
  let c := Markup.compile source
  { p with dropped := c.dropped }.load c.script

/-- Plays a section. If there is none with the label, plays a page that says so. -/
def presentSection (p : Player) (source : List Char) (label : Option String) :
    Player × Option Markup.MissingLabel :=
  match Markup.section? source label with
  | .ok s => (p.present s, none)
  | .error e => (p.present (Markup.errorPage e), some e)

/-! ## Other wishes of the host -/

/-- Takes the glyphs off the page. -/
def clear (p : Player) : Player := { p with page := p.page.clear }

/-- Takes the oldest event. -/
def takeEvent (p : Player) : Option String × Player :=
  match p.events with
  | [] => (none, p)
  | e :: es => (some e, { p with events := es })

/-- Takes all events. -/
def takeEvents (p : Player) : List String × Player := (p.events, { p with events := [] })

/-! ## Questions of the host -/

/-- What the player does at the moment. -/
def phase (p : Player) : Phase := p.playhead.phase

/-- Whether a page is put out or waits to be advanced. -/
def isBusy (p : Player) : Bool := p.playhead.active && (p.playhead.busy || p.playhead.waiting)

/-- Whether a page waits for its time. -/
def isTimedWait (p : Player) : Bool := p.playhead.active && decide (0 < p.playhead.timedWait)

/-- Whether to show that the page waits to be advanced. The indicator blinks with the clock, and a
timed wait has none. -/
def indicatorVisible (p : Player) : Bool :=
  p.playhead.active && p.playhead.waiting && p.playhead.timedWait == 0
    && (p.settings.blinkPeriod == 0 || p.clock / p.settings.blinkPeriod % 2 == 0)

end DialogueBox.Player
