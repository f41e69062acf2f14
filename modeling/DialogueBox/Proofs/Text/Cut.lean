import DialogueBox.Text.Blank
import DialogueBox.Text.Lines
import Mathlib.Data.List.DropRight

/-!
# Cutting texts

A text consists of blanks, its trimmed rest, and blanks; and the trimmed rest is the only way to
say it so (`exists_trim`, `trim_append`). A text without a mark can be put before or behind a text
that is cut at its first mark, and stays on its side (`splitAt?_append_left`,
`splitAt?_append_right`). The lines of two texts side by side are those of the one
and those of the other, if the first one ends with a line feed (`lines_append`); otherwise the last
line of the first text goes on in the second one.
-/

namespace DialogueBox.Text

/-! ## Blanks at the ends -/

/-- All characters of a text are blank. -/
def Blank (s : List Char) : Prop := ∀ c ∈ s, isBlank c = true

/-- A text neither begins nor ends with a blank. -/
structure Trimmed (s : List Char) : Prop where
  head : ∀ c ∈ s.head?, isBlank c = false
  last : ∀ c ∈ s.getLast?, isBlank c = false

theorem Blank.notMem {s : List Char} (h : Blank s) {c : Char} (hc : isBlank c = false) :
    c ∉ s := by
  intro hm
  rw [h c hm] at hc
  cases hc

theorem ne_feed_of_not_blank {c : Char} (h : isBlank c = false) : c ≠ '\n' := by
  rintro rfl
  revert h
  decide

theorem Blank.append {s t : List Char} (hs : Blank s) (ht : Blank t) : Blank (s ++ t) := by
  intro c hc
  rcases List.mem_append.mp hc with h | h
  · exact hs c h
  · exact ht c h

theorem Blank.of_append {s t : List Char} (h : Blank (s ++ t)) : Blank s ∧ Blank t :=
  ⟨fun c hc => h c (List.mem_append_left t hc), fun c hc => h c (List.mem_append_right s hc)⟩

theorem trimStart_append {a s : List Char} (h : Blank a) : trimStart (a ++ s) = trimStart s :=
  List.dropWhile_append_of_pos h

theorem trimStart_of_blank {s : List Char} (h : Blank s) : trimStart s = [] :=
  List.dropWhile_eq_nil_iff.mpr h

theorem trimStart_cons {c : Char} {s : List Char} (h : isBlank c = false) :
    trimStart (c :: s) = c :: s := by
  rw [trimStart, List.dropWhile_cons, if_neg (by simp [h])]

theorem trimEnd_concat (s : List Char) (c : Char) :
    trimEnd (s ++ [c]) = if isBlank c then trimEnd s else s ++ [c] :=
  List.rdropWhile_concat isBlank s c

theorem trimEnd_append {s b : List Char} (h : Blank b) : trimEnd (s ++ b) = trimEnd s := by
  induction b using List.reverseRecOn with
  | nil => rw [List.append_nil]
  | append_singleton b c ih =>
    obtain ⟨hb, hc⟩ := h.of_append
    rw [← List.append_assoc, trimEnd_concat, if_pos (hc c (List.mem_singleton_self c)), ih hb]

theorem trimEnd_of_last {s : List Char} (h : ∀ c ∈ s.getLast?, isBlank c = false) :
    trimEnd s = s := by
  induction s using List.reverseRecOn with
  | nil => rfl
  | append_singleton s c =>
    have hc := h c (by simp)
    rw [trimEnd_concat, if_neg (by simp [hc])]

/-- What stands between blanks, and neither begins nor ends with one, is the trimmed text. -/
theorem trim_append {a s b : List Char} (ha : Blank a) (hs : Trimmed s) (hb : Blank b) :
    trim (a ++ s ++ b) = s := by
  rw [trim, List.append_assoc, trimStart_append ha]
  cases s with
  | nil => rw [List.nil_append, trimStart_of_blank hb]; rfl
  | cons c s =>
    have hc := hs.head c rfl
    rw [List.cons_append, trimStart_cons hc, ← List.cons_append, trimEnd_append hb,
      trimEnd_of_last hs.last]

theorem Trimmed.trim_eq {s : List Char} (h : Trimmed s) : trim s = s := by
  have hnil : Blank [] := fun _ hc => absurd hc List.not_mem_nil
  simpa using trim_append hnil h hnil

theorem exists_trimEnd (s : List Char) : ∃ b, s = trimEnd s ++ b ∧ Blank b := by
  induction s using List.reverseRecOn with
  | nil => exact ⟨[], rfl, fun c hc => absurd hc List.not_mem_nil⟩
  | append_singleton s c ih =>
    rw [trimEnd_concat]
    split
    · next hc =>
      obtain ⟨b, hs, hb⟩ := ih
      refine ⟨b ++ [c], by rw [← List.append_assoc, ← hs], hb.append ?_⟩
      intro d hd
      rw [List.mem_singleton.mp hd]
      exact hc
    · exact ⟨[], (List.append_nil _).symm, fun c hc => absurd hc List.not_mem_nil⟩

theorem last_trimEnd (s : List Char) : ∀ c ∈ (trimEnd s).getLast?, isBlank c = false := by
  induction s using List.reverseRecOn with
  | nil => simp [trimEnd]
  | append_singleton s c ih =>
    rw [trimEnd_concat]
    split
    · exact ih
    · next hc => simpa using hc

theorem trimmed_trim (s : List Char) : Trimmed (trim s) := by
  refine ⟨?_, last_trimEnd _⟩
  intro c hc
  obtain ⟨b, hs, -⟩ := exists_trimEnd (trimStart s)
  have hhead : c ∈ (trimStart s).head? := by
    rw [hs]
    exact List.mem_head?_append_of_mem_head? hc
  have hnot := List.head?_dropWhile_not isBlank s
  rw [show (s.dropWhile isBlank).head? = some c from hhead] at hnot
  exact hnot

/-- **A text is its trimmed rest between blanks.** -/
theorem exists_trim (s : List Char) : ∃ a b, s = a ++ trim s ++ b ∧ Blank a ∧ Blank b := by
  obtain ⟨b, hs, hb⟩ := exists_trimEnd (trimStart s)
  refine ⟨s.takeWhile isBlank, b, ?_, fun c hc => List.mem_takeWhile_imp hc, hb⟩
  calc s = s.takeWhile isBlank ++ trimStart s := List.takeWhile_append_dropWhile.symm
    _ = s.takeWhile isBlank ++ trim s ++ b := by rw [List.append_assoc, trim, ← hs]

/-- Nothing is left of a text just if it is blank. -/
theorem trim_eq_nil_iff {s : List Char} : trim s = [] ↔ Blank s := by
  constructor
  · intro h
    obtain ⟨a, b, hs, ha, hb⟩ := exists_trim s
    rw [hs, h, List.append_nil]
    exact ha.append hb
  · intro h
    rw [trim, trimStart_of_blank h]
    rfl

theorem blank_flatten_iff {ls : List (List Char)} : Blank ls.flatten ↔ ∀ l ∈ ls, Blank l := by
  unfold Blank
  simp only [List.mem_flatten]
  exact ⟨fun h l hl c hc => h c ⟨l, hl, hc⟩, fun h c ⟨l, hl, hc⟩ => h l hl c hc⟩

/-! ## Cutting at a mark -/

theorem notMem_of_splitAt?_eq_none {mark : Char} {s : List Char} (h : splitAt? mark s = none) :
    mark ∉ s := by
  induction s with
  | nil => exact List.not_mem_nil
  | cons c r ih =>
    rw [splitAt?] at h
    split at h
    · simp at h
    · next hc =>
      rw [List.mem_cons, not_or]
      exact ⟨Ne.symm hc, ih (Option.map_eq_none_iff.mp h)⟩

/-- What follows any mark is at the end of what follows the first one. -/
theorem suffix_of_splitAt? {mark : Char} {a b before after : List Char}
    (h : splitAt? mark (a ++ mark :: b) = some (before, after)) : b <:+ after := by
  induction a generalizing before with
  | nil =>
    rw [List.nil_append, splitAt?, if_pos rfl] at h
    cases h
    exact List.suffix_rfl
  | cons c a ih =>
    rw [List.cons_append, splitAt?] at h
    split at h
    · cases h
      exact (List.suffix_cons mark b).trans (List.suffix_append a _)
    · obtain ⟨q, hq, he⟩ := Option.map_eq_some_iff.mp h
      cases he
      exact ih hq

theorem splitAt?_append_left {mark : Char} {a : List Char} (h : mark ∉ a) (s : List Char) :
    splitAt? mark (a ++ s) = (splitAt? mark s).map fun p => (a ++ p.1, p.2) := by
  induction a with
  | nil => rw [List.nil_append]; cases splitAt? mark s <;> rfl
  | cons c a ih =>
    rw [List.mem_cons, not_or] at h
    rw [List.cons_append, splitAt?, if_neg (Ne.symm h.1), ih h.2, Option.map_map]
    rfl

/-- **A text is cut at the first mark.** -/
theorem splitAt?_eq_some_iff {mark : Char} {s before after : List Char} :
    splitAt? mark s = some (before, after) ↔ s = before ++ mark :: after ∧ mark ∉ before := by
  refine ⟨eq_of_splitAt?, fun ⟨hs, hmark⟩ => ?_⟩
  rw [hs, splitAt?_append_left hmark, splitAt?, if_pos rfl, Option.map_some, List.append_nil]

theorem splitAt?_append_right {mark : Char} {b : List Char} (h : mark ∉ b) (s : List Char) :
    splitAt? mark (s ++ b) = (splitAt? mark s).map fun p => (p.1, p.2 ++ b) := by
  induction s with
  | nil =>
    rw [List.nil_append, ← List.append_nil b, splitAt?_append_left h]
    rfl
  | cons c s ih =>
    rw [List.cons_append, splitAt?, splitAt?]
    split
    · rfl
    · rw [ih, Option.map_map, Option.map_map]
      rfl

/-- Cutting at every mark is what the library does. -/
theorem splitAll_eq (mark : Char) (s : List Char) : splitAll mark s = s.splitOn mark := by
  unfold List.splitOn
  induction s with
  | nil => rfl
  | cons c r ih =>
    rw [splitAll, List.splitOnP_cons_eq_if_modifyHead, ih]
    by_cases hc : c = mark
    · rw [if_pos hc, if_pos (beq_iff_eq.mpr hc)]
    · rw [if_neg hc, if_neg (by simpa using hc)]
      cases hs : List.splitOnP (· == mark) r with
      | nil => exact absurd hs (List.splitOnP_ne_nil _ r)
      | cons p ps => rfl

/-! ## Where lines end -/

/-- A text is empty or ends with a line feed, so that what follows it begins a line. -/
def EndsFeed (s : List Char) : Prop := ∀ c ∈ s.getLast?, c = '\n'

theorem EndsFeed.concat (s : List Char) : EndsFeed (s ++ ['\n']) := by
  intro c hc
  simpa using hc.symm

theorem EndsFeed.append {s t : List Char} (hs : EndsFeed s) (ht : EndsFeed t) :
    EndsFeed (s ++ t) := by
  cases t with
  | nil => rwa [List.append_nil]
  | cons c t =>
    unfold EndsFeed
    rwa [List.getLast?_append_of_ne_nil _ (List.cons_ne_nil c t)]

theorem EndsFeed.of_append {s t : List Char} (h : EndsFeed (s ++ t)) : EndsFeed t := by
  intro c hc
  exact h c (List.mem_getLast?_append_of_mem_getLast? hc)

theorem lines_ne_nil {s : List Char} (h : s ≠ []) : lines s ≠ [] := by
  intro hn
  have hs := flatten_lines s
  rw [hn] at hs
  exact h hs.symm

/-- **The lines of two texts,** if the second one begins a line. -/
theorem lines_append {a b : List Char} (h : EndsFeed a) : lines (a ++ b) = lines a ++ lines b := by
  induction a with
  | nil => rfl
  | cons c a ih =>
    have ih := ih (EndsFeed.of_append (s := [c]) h)
    rw [List.cons_append, lines, lines, ih]
    split
    · rfl
    · next hc =>
      cases hl : lines a with
      | cons l ls => rfl
      | nil =>
        -- a text without lines is empty, but then the first character is the line feed
        have ha : a = [] := by
          by_contra hne
          exact lines_ne_nil hne hl
        rw [ha] at h
        exact absurd (h c rfl) hc

/-- Characters before the first line go to it. -/
theorem lines_append_of_notMem {a s l : List Char} {ls : List (List Char)} (ha : '\n' ∉ a)
    (hs : lines s = l :: ls) : lines (a ++ s) = (a ++ l) :: ls := by
  induction a with
  | nil => exact hs
  | cons c a ih =>
    rw [List.mem_cons, not_or] at ha
    rw [List.cons_append, lines, if_neg (Ne.symm ha.1), ih ha.2]
    rfl

/-- A text with no line feed but at its end is one line. -/
theorem lines_singleton {s : List Char} (hs : s ≠ []) (h : '\n' ∉ s.dropLast) : lines s = [s] := by
  induction s using List.reverseRecOn with
  | nil => exact absurd rfl hs
  | append_singleton s c =>
    rw [List.dropLast_concat] at h
    refine lines_append_of_notMem h ?_
    rw [lines]
    split <;> rfl

theorem length_lines {s : List Char} (h : EndsFeed s) : (lines s).length = s.count '\n' := by
  induction s with
  | nil => rfl
  | cons c s ih =>
    have ih := ih (EndsFeed.of_append (s := [c]) h)
    rw [lines, List.count_cons]
    by_cases hc : c = '\n'
    · rw [if_pos hc, List.length_cons, ih, if_pos (by simp [hc])]
    · have hs : s ≠ [] := by
        intro hs
        rw [hs] at h
        exact hc (h c rfl)
      rw [if_neg hc, if_neg (by simp [hc]), ← ih]
      cases hl : lines s with
      | nil => exact absurd hl (lines_ne_nil hs)
      | cons l ls => rfl

/-- A text cut behind its last line feed. -/
theorem exists_endsFeed (s : List Char) : ∃ a b, s = a ++ b ∧ EndsFeed a ∧ '\n' ∉ b := by
  induction s using List.reverseRecOn with
  | nil => exact ⟨[], [], rfl, fun c hc => (by cases hc), List.not_mem_nil⟩
  | append_singleton s c ih =>
    by_cases hc : c = '\n'
    · refine ⟨s ++ [c], [], (List.append_nil _).symm, ?_, List.not_mem_nil⟩
      rw [hc]
      exact .concat s
    · obtain ⟨a, b, hs, ha, hb⟩ := ih
      refine ⟨a, b ++ [c], by rw [hs, List.append_assoc], ha, ?_⟩
      simp [hb, Ne.symm hc]

/-- The last line of a text that does not end with a line feed goes on behind the text. -/
theorem exists_lastLine {t : List Char} {c : Char} (hc : c ∈ t.getLast?) (hfeed : c ≠ '\n') :
    ∃ ls l, c ∈ l ∧ ls.length = t.count '\n' ∧
      ∀ b, '\n' ∉ b.dropLast → lines (t ++ b) = ls ++ [l ++ b] := by
  obtain ⟨p, q, rfl, hp, hq⟩ := exists_endsFeed t
  have hne : q ≠ [] := by
    rintro rfl
    rw [List.append_nil] at hc
    exact hfeed (hp c hc)
  rw [List.getLast?_append_of_ne_nil _ hne] at hc
  refine ⟨lines p, q, List.mem_of_getLast? hc, ?_, fun b hb => ?_⟩
  · rw [length_lines hp, List.count_append, List.count_eq_zero_of_not_mem hq]
    rfl
  · have hdrop : '\n' ∉ (q ++ b).dropLast := by
      cases b with
      | nil => exact fun hm => hq (List.dropLast_subset _ (by rwa [List.append_nil] at hm))
      | cons d b =>
        rw [List.dropLast_append_of_ne_nil (List.cons_ne_nil d b), List.mem_append, not_or]
        exact ⟨hq, hb⟩
    rw [List.append_assoc, lines_append hp, lines_singleton (by simp [hne]) hdrop]

end DialogueBox.Text
