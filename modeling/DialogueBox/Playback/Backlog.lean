/-!
# The backlog

What a reader can look back at: the texts of the pages that were completed and the names of the
events that occurred, each with the playing time. A backlog keeps a number of entries; a new entry
beyond that number pushes out the oldest one.
-/

namespace DialogueBox

/-- What the backlog tells about. -/
inductive Entry
  /-- A page was completed. -/
  | page (text : String) (clock : Nat)
  /-- An event occurred. -/
  | event (name : String) (clock : Nat)
  deriving DecidableEq, Repr

namespace Entry

/-- The playing time of an entry, in milliseconds. -/
def clock : Entry → Nat
  | page _ t | event _ t => t

/-- The text of a page. -/
def pageText? : Entry → Option String
  | page text _ => some text
  | event _ _ => none

end Entry

/-- Entries in the order of time. -/
structure Backlog where
  entries : List Entry
  /-- The number of entries that are kept. -/
  limit : Nat
  deriving DecidableEq, Repr

namespace Backlog

/-- The limit where nothing sets one. -/
def defaultLimit : Nat := 200

/-- A backlog without entries. -/
def empty (limit : Nat) : Backlog := ⟨[], limit⟩

/-- Adds an entry; the oldest ones beyond the limit are lost. With limit 0 nothing is kept, and
nothing is lost either. -/
def push (b : Backlog) (e : Entry) : Backlog :=
  if b.limit = 0 then b
  else { b with entries := (b.entries ++ [e]).drop (b.entries.length + 1 - b.limit) }

/-- The texts of the pages. -/
def pages (b : Backlog) : List String := b.entries.filterMap Entry.pageText?

end Backlog

end DialogueBox
