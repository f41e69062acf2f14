import DialogueBox.Markup.Compile
import DialogueBox.Markup.Section
import DialogueBox.Playback.Backlog
import DialogueBox.Playback.Playhead
import DialogueBox.Typesetting.Metrics
import DialogueBox.Typesetting.Page

/-!
# The player

A player plays one script at a time. The host loads a script, reports the time that has passed and
the reader's wish to go on, draws the glyphs of the page, and takes the events that the script has
raised. The player knows no other time than the reported one, and asks the metrics for sizes.

This module holds the state of a player and what a single instruction does to it.

* `execute` carries out an instruction. What it does to the playhead depends on the instruction
  alone, never on sizes.
* `halts` says after which instructions playing stops: at the end of a page, and at a pause. A
  page that is put out at once does not pause.
-/

namespace DialogueBox

/-- The state of a dialogue box. -/
structure Player where
  settings : Settings
  metrics : Metrics
  script : Script
  /-- The tags that compiling the last source text dropped. -/
  dropped : List Markup.DroppedTag
  playhead : Playhead
  style : Style
  page : Page
  /-- The events that the host has not taken yet, oldest first. -/
  events : List String
  backlog : Backlog
  /-- The time reported since the script was loaded, in milliseconds. -/
  clock : Nat

/-- Whether playing stops after an instruction; `instant` says that the page is put out at once. -/
def Instruction.halts (instant : Bool) : Instruction → Bool
  | wait ms => !instant && ms != 0
  | next _ | finish => true
  | _ => false

namespace Player

/-- A player without a script. -/
def ofSettings (metrics : Metrics) (settings : Settings) : Player where
  settings := settings
  metrics := metrics
  script := .blank
  dropped := []
  playhead := {}
  style := .initial settings.speed
  page := .ofSettings settings
  events := []
  backlog := .empty settings.backlogLimit
  clock := 0

/-! ## Single instructions -/

/-- The size of a character in the current style. -/
def charSize (p : Player) (c : Char) : Size := p.metrics.glyph c p.style.font p.style.scale

/-- The height of a line without glyphs: that of a space in the current style. -/
def emptyLineHeight (p : Player) : Float32 := (p.charSize ' ').height

/-- Adds an entry to the backlog. -/
def record (p : Player) (e : Entry) : Player := { p with backlog := p.backlog.push e }

/-- Sets the style. -/
def restyle (p : Player) (s : Style) : Player := { p with style := s }

/-- Sets the playhead. -/
def movePlayhead (p : Player) (h : Playhead) : Player := { p with playhead := h }

/-- Shows a character. -/
def showChar (p : Player) (c : Char) : Player :=
  { p with page := p.page.placeChar c (p.charSize c) p.style p.emptyLineHeight }

/-- Shows an icon, if it exists. -/
def showIcon (p : Player) (id : String) : Player :=
  match p.metrics.icon? id with
  | some size => { p with page := p.page.place (.icon id) size p.style p.emptyLineHeight }
  | none => p

/-- Sets the font; a font that does not exist changes nothing. -/
def chooseFont (p : Player) (font : Option String) : Player :=
  match font with
  | none => p.restyle { p.style with font := none }
  | some id => if p.metrics.hasFont id then p.restyle { p.style with font := some id } else p

/-- The text of the page as the backlog keeps it. -/
def finishedText (p : Player) : String := String.ofList (Text.trimEnd p.page.text.toList)

/-- Completes the page. A page with text goes to the backlog. -/
def finishPage (p : Player) : Player :=
  let q := p.movePlayhead p.playhead.finishPage
  if p.finishedText = "" then q else q.record (.page p.finishedText p.clock)

/-- Pauses. -/
def pauseFor (p : Player) (ms : Nat) : Player :=
  p.movePlayhead { p.playhead with pause := ms, charTimer := 0 }

/-- Carries out an instruction; `instant` says that the page is put out at once. -/
def execute (instant : Bool) (i : Instruction) (p : Player) : Player :=
  match i with
  | .char c => p.showChar c
  | .lineBreak => { p with page := p.page.breakLine p.emptyLineHeight }
  | .size points => p.restyle (p.style.withSize points)
  | .color c => p.restyle { p.style with color := c }
  | .speed ms => p.restyle (p.style.withSpeed ms)
  | .rotation degrees => p.restyle { p.style with rotation := degrees }
  | .font id => p.chooseFont id
  | .shake s => p.restyle { p.style with shake := s }
  | .reset => p.restyle (.initial p.settings.speed)
  | .wait ms => if instant || ms == 0 then p else p.pauseFor ms
  | .icon id => p.showIcon id
  | .next ms =>
    let q := p.finishPage
    q.movePlayhead { q.playhead with timedWait := ms }
  | .event name => { p with events := p.events ++ [name] }.record (.event name p.clock)
  | .finish => finishPage (p.movePlayhead { p.playhead with ended := true })
  | .input enabled => p.movePlayhead { p.playhead with inputEnabled := enabled }

end Player

end DialogueBox
