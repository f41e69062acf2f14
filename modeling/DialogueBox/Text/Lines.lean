/-!
# Lines

A text is cut after each line feed. A line keeps its line feed, so that nothing is lost: the
lines of a text concatenate to the text (`flatten_lines`), and every line but the last ends with
a line feed. A carriage return has no meaning here.

## Termination

`lines`, `splitAt?` and `splitAll` recurse on the text.
-/

namespace DialogueBox.Text

/-- The lines of a text, each with its line feed; the last one may have none. -/
def lines : List Char → List (List Char)
  | [] => []
  | c :: r =>
    if c = '\n' then [c] :: lines r
    else
      match lines r with
      | [] => [[c]]
      | l :: ls => (c :: l) :: ls

/-- The lines of a text with their numbers, counted from 1. -/
def numberedLines (s : List Char) : List (List Char × Nat) := (lines s).zipIdx 1

/-- **Cutting into lines loses nothing.** -/
theorem flatten_lines (s : List Char) : (lines s).flatten = s := by
  induction s with
  | nil => rfl
  | cons c r ih =>
    rw [lines]
    split
    · simp [ih]
    · split
      · next h => rw [h] at ih; simp at ih; simp [ih]
      · next l ls h => rw [h] at ih; simpa using ih

/-- The parts of a text before and after the first occurrence of a character. -/
def splitAt? (mark : Char) : List Char → Option (List Char × List Char)
  | [] => none
  | c :: r =>
    if c = mark then some ([], r)
    else (splitAt? mark r).map fun p => (c :: p.1, p.2)

/-- The two parts and the mark between them give the text back, and the first part lacks the
mark. -/
theorem eq_of_splitAt? {mark : Char} {s before after : List Char}
    (h : splitAt? mark s = some (before, after)) :
    s = before ++ mark :: after ∧ mark ∉ before := by
  induction s generalizing before with
  | nil => simp [splitAt?] at h
  | cons c r ih =>
    rw [splitAt?] at h
    split at h
    · next hc => simp_all
    · next hc =>
      obtain ⟨p, hp, he⟩ := Option.map_eq_some_iff.mp h
      simp only [Prod.mk.injEq] at he
      obtain ⟨hs, hm⟩ := @ih p.1 (by rw [hp, ← he.2])
      refine ⟨?_, ?_⟩
      · rw [← he.1, hs]; simp
      · rw [← he.1]
        exact List.not_mem_cons_of_ne_of_not_mem (fun e => hc e.symm) hm

/-- The parts of a text between the occurrences of a character; there is always at least one. -/
def splitAll (mark : Char) : List Char → List (List Char)
  | [] => [[]]
  | c :: r =>
    if c = mark then [] :: splitAll mark r
    else
      match splitAll mark r with
      | [] => [[c]]
      | p :: ps => (c :: p) :: ps

/-- A text made of lines that lack their line feeds. -/
def ofLines (ls : List String) : String := String.join (ls.map (· ++ "\n"))

/-- The number of bytes of a text in UTF-8. -/
def byteLength (s : List Char) : Nat := s.foldr (fun c n => c.utf8Size + n) 0

end DialogueBox.Text
