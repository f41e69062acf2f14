import DialogueBox.Text.Blank
import DialogueBox.Text.Lines

/-!
# Segments

The text of a script is cut into stretches of plain text and tags. A line whose first character
that is not blank is a semicolon is a comment and goes with its line feed. In any other line a
tag runs from an opening bracket to the first closing bracket after it; an opening bracket that
is never closed in its line is plain text, and so is a closing bracket outside a tag.

A tag never extends over a line end, so each segment belongs to one line, whose number it keeps.
The line feed at the end of a line is part of the plain text.

## Termination

`lineSegments` goes on with what follows the closing bracket, which is shorter
(`length_after_findTag?`).
-/

namespace DialogueBox.Markup

open Text

/-! ## Tags in a line -/

/-- A text cut at its first tag. -/
structure TagCut where
  /-- What stands before the opening bracket. -/
  before : List Char
  /-- What stands between the brackets. -/
  inner : List Char
  /-- What stands after the closing bracket. -/
  after : List Char
  deriving DecidableEq, Repr

/-- A tag with its brackets. -/
def bracketed (inner : List Char) : List Char := '[' :: (inner ++ [']'])

/-- Cuts a text at its first tag: the first opening bracket and the first closing one after it. -/
def findTag? (s : List Char) : Option TagCut :=
  match splitAt? '[' s with
  | none => none
  | some (before, rest) =>
    match splitAt? ']' rest with
    | none => none
    | some (inner, after) => some ⟨before, inner, after⟩

/-- The byte offsets of the two brackets. -/
def TagCut.offsets (t : TagCut) : Nat × Nat :=
  (byteLength t.before, byteLength t.before + 1 + byteLength t.inner)

/-- The three parts of a cut give the text back. -/
theorem eq_of_findTag? {s : List Char} {t : TagCut} (h : findTag? s = some t) :
    s = t.before ++ bracketed t.inner ++ t.after := by
  unfold findTag? at h
  split at h
  · cases h
  · next before rest hb =>
    split at h
    · cases h
    · next inner after hi =>
      cases h
      rw [(eq_of_splitAt? hb).1, (eq_of_splitAt? hi).1]
      simp [bracketed]

theorem length_after_findTag? {s : List Char} {t : TagCut} (h : findTag? s = some t) :
    t.after.length < s.length := by
  rw [eq_of_findTag? h]
  simp only [bracketed, List.length_append, List.length_cons, List.length_nil]
  omega

/-! ## Segments -/

/-- A stretch of plain text, or a tag, with the number of its line. -/
inductive Segment
  | text (chars : List Char) (line : Nat)
  | tag (inner : List Char) (line : Nat)
  deriving DecidableEq, Repr

/-- The line of a segment, counted from 1. -/
def Segment.line : Segment → Nat
  | text _ n => n
  | tag _ n => n

/-- The source text of a segment. -/
def Segment.source : Segment → List Char
  | text cs _ => cs
  | tag inner _ => bracketed inner

/-- Plain text as a segment, unless there is none. -/
def textSegment (cs : List Char) (line : Nat) : List Segment :=
  if cs.isEmpty then [] else [.text cs line]

/-- The segments of a line. -/
def lineSegments (line : Nat) (s : List Char) : List Segment :=
  match _h : findTag? s with
  | none => textSegment s line
  | some t => textSegment t.before line ++ .tag t.inner line :: lineSegments line t.after
termination_by s.length
decreasing_by exact length_after_findTag? _h

theorem lineSegments_of_none {n : Nat} {s : List Char} (h : findTag? s = none) :
    lineSegments n s = textSegment s n := by
  rw [lineSegments]
  split
  · rfl
  · next h' => rw [h] at h'; cases h'

theorem lineSegments_of_some {n : Nat} {s : List Char} {t : TagCut} (h : findTag? s = some t) :
    lineSegments n s = textSegment t.before n ++ .tag t.inner n :: lineSegments n t.after := by
  rw [lineSegments]
  split
  · next h' => rw [h] at h'; cases h'
  · next h' => rw [h] at h'; cases h'; rfl

/-- Whether a line is a comment. -/
def isComment (line : List Char) : Bool := (trimStart line).head? == some ';'

/-- The segments of a source text. -/
def segments (source : List Char) : List Segment :=
  (numberedLines source).flatMap fun l => if isComment l.1 then [] else lineSegments l.2 l.1

/-- **Nothing of a line is lost:** its segments concatenate to it. -/
theorem flatMap_source_lineSegments (line : Nat) (s : List Char) :
    (lineSegments line s).flatMap Segment.source = s := by
  have htext : ∀ cs, (textSegment cs line).flatMap Segment.source = cs := by
    intro cs
    unfold textSegment
    split
    · next h => rw [List.isEmpty_iff.mp h]; rfl
    · simp [Segment.source]
  fun_induction lineSegments line s with
  | case1 s h => exact htext s
  | case2 s t h ih =>
    rw [List.flatMap_append, List.flatMap_cons, htext, ih]
    conv => rhs; rw [eq_of_findTag? h]
    simp [Segment.source]

end DialogueBox.Markup
