import DialogueBox.Color
import DialogueBox.Number.Integer
import DialogueBox.Shake

/-!
# Instructions

What a script consists of once its markup has been read: one instruction for each character to be
shown and one for each tag. An instruction is only data; playing it is the work of the player.

Durations are in milliseconds and fit 32 bits; a point size is positive and fits 31.
-/

namespace DialogueBox

/-- A step of a script. -/
inductive Instruction
  /-- Show a character. -/
  | char (c : Char)
  /-- Begin a new line. -/
  | lineBreak
  /-- Set the point size; 24 points are the natural size. -/
  | size (points : Int)
  /-- Set the text colour. -/
  | color (c : Color)
  /-- Set the time between two characters; it is at least 1. -/
  | speed (ms : Nat)
  /-- Set the angle of each glyph, in degrees. -/
  | rotation (degrees : Float32)
  /-- Set the font, or go back to the default one. -/
  | font (id : Option String)
  /-- Set the shaking. -/
  | shake (s : Shake)
  /-- Go back to the initial style; whether input is heeded does not change. -/
  | reset
  /-- Pause. -/
  | wait (ms : Nat)
  /-- Show an icon in the line. -/
  | icon (id : String)
  /-- End the page; a positive duration turns the page by itself. -/
  | next (ms : Nat)
  /-- Hand a named event to the host. -/
  | event (name : String)
  /-- End the script. -/
  | finish
  /-- Say whether advance input is heeded. -/
  | input (enabled : Bool)
  deriving DecidableEq

namespace Instruction

/-- The durations between characters that a script can set. -/
def speedRange : Number.IntegerRange := ⟨1, Number.unsigned32.greatest⟩

/-- The instruction for a wanted time between characters, brought into the range. -/
def speedOf (ms : Int) : Instruction := .speed (speedRange.clamp ms).toNat

/-- Whether an instruction waits its turn of the character timer: it does if it shows something
or moves to a new line. All other instructions are carried out at once. -/
def takesTime : Instruction → Bool
  | char _ | icon _ | lineBreak => true
  | _ => false

/-- Whether an instruction ends a page without ending the script. -/
def isNext : Instruction → Bool
  | next _ => true
  | _ => false

/-- What an instruction adds to the plain text of its page. -/
def plainChar? : Instruction → Option Char
  | char c => some c
  | lineBreak => some '\n'
  | _ => none

end Instruction

end DialogueBox
