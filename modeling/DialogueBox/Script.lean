import DialogueBox.Instruction

/-!
# Scripts

A script is a sequence of instructions, and the source lines of those that come from a source.
A script made here ends with a `next`: one is added if it is missing. So playing always comes to
rest at a defined place. A script that was stored and is taken back keeps the sequence it has.
-/

namespace DialogueBox

/-- A sequence of instructions to be played. -/
structure Script where
  instructions : List Instruction
  /-- The source line of each instruction, as far as they have one. -/
  lines : List Nat
  deriving DecidableEq

namespace Script

/-- The sequence with a `next` at its end, added if it is missing. -/
def closed (is : List Instruction) : List Instruction :=
  if is.getLast?.any Instruction.isNext then is else is ++ [.next 0]

/-- The script of a sequence whose instructions come from source lines. -/
def ofLines (is : List Instruction) (lines : List Nat) : Script := ⟨closed is, lines⟩

/-- The script of a sequence. -/
def ofInstructions (is : List Instruction) : Script := ofLines is []

/-- The script that shows nothing. -/
def blank : Script := ofInstructions []

/-- The number of instructions. -/
def length (s : Script) : Nat := s.instructions.length

/-- The source line of the instruction with an index. -/
def lineOf? (s : Script) (i : Nat) : Option Nat := s.lines[i]?

/-- What the script shows, without its tags. -/
def plainText (s : Script) : List Char := s.instructions.filterMap Instruction.plainChar?

/-- A closed sequence ends with a `next`. -/
theorem getLast?_closed (is : List Instruction) : (closed is).getLast?.any Instruction.isNext := by
  unfold closed
  split
  · assumption
  · rw [List.getLast?_append]; rfl

theorem mem_closed {i : Instruction} {is : List Instruction} (h : i ∈ closed is) :
    i ∈ is ∨ i = .next 0 := by
  unfold closed at h
  split at h
  · exact .inl h
  · simpa using h

end Script

end DialogueBox
