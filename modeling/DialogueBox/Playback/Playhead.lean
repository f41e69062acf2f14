/-!
# The playhead

Where playing stands in its script, and what it waits for. Flags and timers alone decide how
playing goes on; what is shown has no say in it.

```text
idle ──load──► playing ──end of page──► waiting ──advance──► playing, on the next page
                                           └──advance, at the end of the script──► idle
```

Waiting with a timed wait left goes on by itself when the time is over, and heeds no input until
then.
-/

namespace DialogueBox

/-- What a dialogue box does at the moment. -/
inductive Phase
  /-- It is closed. -/
  | idle
  /-- It puts out the current page. -/
  | playing
  /-- The page is complete; it waits to be advanced. -/
  | waiting
  /-- The page is complete; it advances by itself after some milliseconds. -/
  | timedWait (remaining : Nat)
  deriving DecidableEq, Repr

/-- Whether the current page is complete. -/
def Phase.isWaiting : Phase → Bool
  | waiting | timedWait _ => true
  | _ => false

/-- The flags and timers of playing. Times are in milliseconds. -/
structure Playhead where
  /-- Whether a script is being played. -/
  active : Bool := false
  /-- Whether the current page is being put out. -/
  busy : Bool := false
  /-- Whether the current page is complete. -/
  waiting : Bool := false
  /-- Whether the script has said that it ends. -/
  ended : Bool := false
  /-- Whether advance input is heeded. -/
  inputEnabled : Bool := false
  /-- The index of the next instruction. -/
  position : Nat := 0
  /-- The time gathered for the next character. -/
  charTimer : Nat := 0
  /-- What is left of a pause. -/
  pause : Nat := 0
  /-- What is left of a timed wait. -/
  timedWait : Nat := 0
  deriving DecidableEq, Repr

namespace Playhead

/-- The greatest time that a timer holds; it stands still there. -/
def timerLimit : Nat := UInt32.size - 1

/-- The beginning of a script. -/
def start : Playhead := { active := true, busy := true, inputEnabled := true }

/-- What the flags and timers mean. -/
def phase (h : Playhead) : Phase :=
  if !h.active then .idle
  else if h.waiting then
    if 0 < h.timedWait then .timedWait h.timedWait else .waiting
  else .playing

/-- The current page is complete. -/
def finishPage (h : Playhead) : Playhead := { h with busy := false, waiting := true }

/-- A new page begins. -/
def startPage (h : Playhead) : Playhead :=
  { h with waiting := false, timedWait := 0, pause := 0, charTimer := 0, busy := true }

/-- Playing is over. Whether input is heeded stays as it is. -/
def close (h : Playhead) : Playhead := { inputEnabled := h.inputEnabled }

/-- Gathers time for the next character. -/
def gather (h : Playhead) (elapsed : Nat) : Playhead :=
  { h with charTimer := min (h.charTimer + elapsed) timerLimit }

end Playhead

end DialogueBox
