import DialogueBox.Playback.Run

/-!
# Sessions

A session plays a loaded script from its beginning to the moment when the box closes, in frames of
one length, for a reader who goes on as soon as a page may be advanced. It notes every page once,
in the first frame that finds the page complete, with the events raised since the page before.

A timed page stays complete for many frames. The session remembers that it has noted the page,
and forgets it when the page is turned.

## Termination

Each frame moves the clock by the length of a frame, and a session ends when the clock has passed
its limit, so it takes at most `limit / frame + 1` frames. `play` recurses on that number.
-/

namespace DialogueBox

/-- A page as a session notes it. -/
structure PageRecord where
  /-- The number of the page, counted from 1. -/
  number : Nat
  text : String
  /-- The events raised since the page before. -/
  events : List String
  /-- The player's clock when the page was found complete. -/
  clock : Nat
  /-- Whether the script ends with the page. -/
  ended : Bool
  deriving DecidableEq, Repr

/-- The state of a session between two frames. -/
structure Session where
  player : Player
  /-- The pages noted so far. -/
  pages : List PageRecord := []
  /-- The events taken since the last page was noted. -/
  events : List String := []
  /-- Whether the page that is complete now has been noted. -/
  noted : Bool := false

namespace Session

/-- Takes the events that the player has raised. -/
def collect (s : Session) : Session :=
  let (taken, p) := s.player.takeEvents
  { s with player := p, events := s.events ++ taken }

/-- The page on show, as it would be noted now. -/
def record (s : Session) : PageRecord where
  number := s.pages.length + 1
  text := s.player.page.text
  events := s.events
  clock := s.player.clock
  ended := s.player.playhead.ended

/-- Notes the page on show if it is complete and has not been noted yet. -/
def note (s : Session) : Session :=
  if !s.player.phase.isWaiting then { s with noted := false }
  else if s.noted then s
  else { s with pages := s.pages ++ [s.record], events := [], noted := true }

/-- Lets the reader go on if the page waits for that. -/
def goOn (s : Session) : Session :=
  if s.player.phase = .waiting then { s with player := s.player.next, noted := false } else s

/-- Plays one frame. -/
def frame (length : Nat) (s : Session) : Session :=
  goOn (note (collect { s with player := s.player.update length false }))

/-- How a session ended. -/
inductive Ending
  /-- The box has closed. -/
  | closed
  /-- The clock has passed the limit. -/
  | overLimit
  deriving DecidableEq, Repr

/-- Plays at most a number of frames. -/
def play (length limit : Nat) : Nat → Session → Session × Ending
  | 0, s => (s, .overLimit)
  | n + 1, s =>
    if s.player.isBusy then
      let t := s.frame length
      if limit < t.player.clock then (t, .overLimit) else play length limit n t
    else (s, .closed)

end Session

/-- What a session leaves behind. -/
structure Transcript where
  pages : List PageRecord
  /-- The events raised after the last page. -/
  events : List String
  ending : Session.Ending
  deriving DecidableEq, Repr

/-- Plays what a player has loaded until the box closes or the clock passes a limit. A session
that was cut short keeps no events beside those of its pages. -/
def Player.transcript (p : Player) (length limit : Nat) : Transcript :=
  let (s, ending) := Session.play length limit (limit / length + 1) { player := p }
  match ending with
  | .closed => ⟨s.pages, s.collect.events, .closed⟩
  | .overLimit => ⟨s.pages, [], .overLimit⟩

end DialogueBox
