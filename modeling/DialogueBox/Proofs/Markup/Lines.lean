import DialogueBox.Markup.Segment
import Mathlib.Data.List.Basic
import Mathlib.Data.List.TakeWhile

/-!
# Lines of a source text

A text is cut into lines before its segments are read, and comment lines go. Here the same is said
of the characters of the whole text: the number of a line is the number of line feeds before it
(`numberedChars`), and the characters of comment lines are left out (`keptChars`). Both ways agree
(`keptChars_eq`).

The lines that are kept have no line feed but at their ends, all but the last one have one there,
and their numbers ascend. That is all that is used of them (`keptLines_induction`).
-/

namespace DialogueBox.Markup

open Text

/-! ## Lines and their numbers -/

/-- The characters of a text, each with the number of its line: `first`, and one more for each line
feed before it. -/
def numberedChars (first : Nat) (t : List Char) : List (Char × Nat) :=
  t.mapIdx fun i c => (c, first + (t.take i).count '\n')

/-- Whether a line is a comment: its first character that is not blank is a semicolon. -/
def isCommentLine (t : List Char) (n : Nat) : Bool :=
  (numberedChars 1 t).find? (fun p => p.2 == n && !isBlank p.1) == some (';', n)

/-- The characters of a text without those of comment lines. -/
def keptChars (t : List Char) : List (Char × Nat) :=
  (numberedChars 1 t).filter fun p => !isCommentLine t p.2

/-- The characters of a line. -/
def lineChars (l : List Char × Nat) : List (Char × Nat) := l.1.map fun c => (c, l.2)

theorem numberedChars_cons (n : Nat) (c : Char) (r : List Char) :
    numberedChars n (c :: r) = (c, n) :: numberedChars (if c = '\n' then n + 1 else n) r := by
  unfold numberedChars
  rw [List.mapIdx_cons]
  congr 1
  · refine congrArg (fun f => List.mapIdx f r) ?_
    funext i d
    rw [List.take_succ_cons, List.count_cons]
    by_cases hc : c = '\n'
    · simp [hc]; omega
    · simp [hc]

theorem numberedChars_eq (n : Nat) (t : List Char) :
    numberedChars n t = ((lines t).zipIdx n).flatMap lineChars := by
  induction t generalizing n with
  | nil => rfl
  | cons c r ih =>
    rw [numberedChars_cons, lines]
    by_cases hc : c = '\n'
    · rw [if_pos hc, if_pos hc, ih, List.zipIdx_cons, List.flatMap_cons]
      rfl
    · rw [if_neg hc, if_neg hc, ih]
      cases lines r with
      | nil => rfl
      | cons l ls => rfl

theorem line_of_mem_lineChars {l : List Char × Nat} {p : Char × Nat} (h : p ∈ lineChars l) :
    p.2 = l.2 := by
  obtain ⟨c, -, rfl⟩ := List.mem_map.mp h
  rfl

/-- The numbers of later lines are greater. -/
theorem filter_line_of_lt {ls : List (List Char)} {k n : Nat} (h : n < k) :
    ((ls.zipIdx k).flatMap lineChars).filter (fun p => p.2 == n) = [] := by
  rw [List.filter_eq_nil_iff]
  intro p hp
  obtain ⟨l, hl, hpl⟩ := List.mem_flatMap.mp hp
  have hle := List.le_snd_of_mem_zipIdx hl
  rw [beq_iff_eq, line_of_mem_lineChars hpl]
  omega

theorem filter_line {ls : List (List Char)} {k : Nat} {l : List Char × Nat}
    (h : l ∈ ls.zipIdx k) :
    ((ls.zipIdx k).flatMap lineChars).filter (fun p => p.2 == l.2) = lineChars l := by
  induction ls generalizing k with
  | nil => simp at h
  | cons x ls ih =>
    rw [List.zipIdx_cons, List.flatMap_cons, List.filter_append]
    rw [List.zipIdx_cons, List.mem_cons] at h
    rcases h with rfl | h
    · rw [filter_line_of_lt (Nat.lt_succ_self k), List.append_nil, List.filter_eq_self]
      exact fun p hp => beq_iff_eq.mpr (line_of_mem_lineChars hp)
    · have hlt : k + 1 ≤ l.2 := List.le_snd_of_mem_zipIdx h
      rw [ih h, List.append_left_eq_self, List.filter_eq_nil_iff]
      intro p hp
      rw [beq_iff_eq, line_of_mem_lineChars hp]
      omega

theorem isCommentLine_eq {t : List Char} {l : List Char × Nat} (h : l ∈ numberedLines t) :
    isCommentLine t l.2 = isComment l.1 := by
  have hfind : (numberedChars 1 t).find? (fun p => p.2 == l.2 && !isBlank p.1) =
      ((lineChars l).filter fun p => !isBlank p.1).head? := by
    rw [← filter_line h, ← numberedChars_eq, List.filter_filter, ← List.head?_filter]
    simp only [Bool.and_comm]
  have hmap : ((lineChars l).filter fun p => !isBlank p.1).head? =
      (l.1.find? fun c => !isBlank c).map fun c => (c, l.2) := by
    rw [lineChars, List.filter_map, List.head?_map, List.head?_filter]
    rfl
  unfold isCommentLine isComment trimStart
  rw [hfind, hmap, List.find?_not_eq_head?_dropWhile]
  cases (l.1.dropWhile isBlank).head? <;> simp

theorem eq_of_mem_numberedLines {t : List Char} {l k : List Char × Nat}
    (hl : l ∈ numberedLines t) (hk : k ∈ numberedLines t) (h : l.2 = k.2) : l = k := by
  obtain ⟨a, n⟩ := l
  obtain ⟨b, m⟩ := k
  cases h
  obtain ⟨-, -, ha⟩ := List.mem_zipIdx hl
  obtain ⟨-, -, hb⟩ := List.mem_zipIdx hk
  rw [ha, hb]

/-- The lines of a text that are no comments, with their numbers. -/
def keptLines (t : List Char) : List (List Char × Nat) :=
  (numberedLines t).filter fun l => !isComment l.1

theorem flatMap_keptLines {α : Type} (f : List Char × Nat → List α) (t : List Char) :
    (keptLines t).flatMap f =
      (numberedLines t).flatMap fun l => if isComment l.1 then [] else f l := by
  unfold keptLines
  induction numberedLines t with
  | nil => rfl
  | cons l ls ih =>
    rw [List.filter_cons, List.flatMap_cons, ← ih]
    cases isComment l.1 <;> rfl

theorem keptChars_eq (t : List Char) : keptChars t = (keptLines t).flatMap lineChars := by
  unfold keptChars
  rw [numberedChars_eq, List.filter_flatMap, flatMap_keptLines]
  refine List.flatMap_congr fun l hl => ?_
  have hconst : ∀ p ∈ lineChars l, (!isCommentLine t p.2) = !isComment l.1 := by
    intro p hp
    rw [line_of_mem_lineChars hp, isCommentLine_eq hl]
  rw [List.filter_congr hconst]
  cases isComment l.1
  · exact List.filter_true _
  · exact List.filter_false _

/-! ## Stretches of a line -/

/-- A stretch of characters reaches to the end of a line: it has no line feed but at its end, and
has one there, unless it is the last one. -/
structure EndsLine (s : List Char) (last : Prop) : Prop where
  only : '\n' ∉ s.dropLast
  feed : '\n' ∈ s ∨ last

theorem EndsLine.of_notMem {s : List Char} {last : Prop} (h : '\n' ∉ s) (hl : last) :
    EndsLine s last :=
  ⟨fun hm => h (List.dropLast_subset s hm), .inr hl⟩

theorem EndsLine.mono {s : List Char} {last last' : Prop} (h : EndsLine s last)
    (hl : last → last') : EndsLine s last' :=
  ⟨h.only, h.feed.imp_right hl⟩

/-- What stands before another character of the stretch has no line feed, and what stands behind it
ends the line. -/
theorem EndsLine.split {a b : List Char} {x : Char} {last : Prop}
    (h : EndsLine (a ++ x :: b) last) (hx : x ≠ '\n') : '\n' ∉ a ∧ EndsLine b last := by
  have honly := h.only
  rw [List.dropLast_append_of_ne_nil (List.cons_ne_nil x b), List.mem_append, not_or] at honly
  refine ⟨honly.1, ?_, ?_⟩
  · cases b with
    | nil => exact List.not_mem_nil
    | cons y b => exact fun hm => honly.2 (List.mem_cons_of_mem _ hm)
  · refine h.feed.imp_left fun hm => ?_
    rcases List.mem_append.mp hm with ha | hb
    · exact absurd ha honly.1
    · exact (List.mem_cons.mp hb).resolve_left (Ne.symm hx)

theorem only_lines {t l : List Char} (h : l ∈ lines t) : '\n' ∉ l.dropLast := by
  induction t generalizing l with
  | nil => simp [lines] at h
  | cons c r ih =>
    rw [lines] at h
    split at h
    · rcases List.mem_cons.mp h with rfl | h
      · exact List.not_mem_nil
      · exact ih h
    · next hc =>
      split at h
      · rw [List.mem_singleton.mp h]
        exact List.not_mem_nil
      · next x xs hx =>
        rcases List.mem_cons.mp h with rfl | h
        · have hxs := ih (l := x) (by rw [hx]; exact List.mem_cons_self)
          cases x with
          | nil => exact List.not_mem_nil
          | cons d x =>
            rw [List.dropLast_cons_cons, List.mem_cons, not_or]
            exact ⟨Ne.symm hc, hxs⟩
        · exact ih (by rw [hx]; exact List.mem_cons_of_mem _ h)

/-- Every line but the last one has a line feed. -/
theorem pairwise_lines (t : List Char) : (lines t).Pairwise fun l _ => '\n' ∈ l := by
  induction t with
  | nil => exact List.Pairwise.nil
  | cons c r ih =>
    rw [lines]
    split
    · next hc => exact List.Pairwise.cons (fun _ _ => by rw [hc]; exact List.mem_cons_self) ih
    · split
      · exact List.pairwise_singleton _ _
      · next x xs hx =>
        rw [hx, List.pairwise_cons] at ih
        exact List.Pairwise.cons (fun l hl => List.mem_cons_of_mem _ (ih.1 l hl)) ih.2

/-- **Induction on the lines that are kept.** A line ends with its line feed, except that the last
one may lack it, and the lines after it have greater numbers. -/
theorem keptLines_induction {P : List (List Char × Nat) → Prop} (nil : P [])
    (cons : ∀ l ls, EndsLine l.1 (ls = []) → (∀ k ∈ ls, l.2 < k.2) → P ls → P (l :: ls))
    (t : List Char) : P (keptLines t) := by
  have honly : ∀ l ∈ keptLines t, '\n' ∉ l.1.dropLast := fun l hl =>
    only_lines (List.fst_mem_of_mem_zipIdx (List.mem_of_mem_filter hl))
  have hfeed : (keptLines t).Pairwise fun l _ => '\n' ∈ l.1 := by
    refine List.Pairwise.filter _ ?_
    have h := pairwise_lines t
    rw [← List.zipIdx_map_fst 1 (lines t), List.pairwise_map] at h
    exact h
  have hlt : (keptLines t).Pairwise fun l k => l.2 < k.2 := by
    refine List.Pairwise.filter _ ?_
    have h : (List.range' 1 (lines t).length).Pairwise (· < ·) := List.pairwise_lt_range'
    rw [← List.zipIdx_map_snd 1 (lines t), List.pairwise_map] at h
    exact h
  generalize keptLines t = ls at honly hfeed hlt
  induction ls with
  | nil => exact nil
  | cons l ls ih =>
    rw [List.forall_mem_cons] at honly
    rw [List.pairwise_cons] at hfeed hlt
    have hends : EndsLine l.1 (ls = []) := by
      refine ⟨honly.1, ?_⟩
      cases ls with
      | nil => exact .inr rfl
      | cons k ls => exact .inl (hfeed.1 k List.mem_cons_self)
    exact cons l ls hends hlt.1 (ih honly.2 hfeed.2 hlt.2)

end DialogueBox.Markup
