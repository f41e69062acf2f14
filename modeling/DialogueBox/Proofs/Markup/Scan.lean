import DialogueBox.Proofs.Markup.Lines
import DialogueBox.Proofs.Text.Cut
import Mathlib.Data.List.Chain

/-!
# Segments are what one scan finds

The segments of a text are made line by line, each line by looking for its first tag, then for the
first tag of what follows. A single scan of the whole text, from left to right and without a notion
of lines (`items`), finds the same tags and the same plain text between them (`items_keptChars`),
and the plain text cut behind line feeds gives the segments (`segments_eq_cutItems`). Comment lines
have no part in this, except that they are counted (`segments_scan`).

The induction is on the lines that are kept, and within a line it follows `lineSegments`. What
carries it is that no bracket that opens in a line is closed in a later one: the line feed that
ends the line comes first (`EndsLine`).
-/

namespace DialogueBox.Markup

open Text

/-! ## Reading a text as a whole -/

/-- A part of a text: a character of plain text or a tag, with the number of its line. -/
inductive Item
  | char (c : Char) (line : Nat)
  | tag (inner : List Char) (line : Nat)

/-- The inside of a tag and what follows it, if a bracket closes before the next line feed. -/
def closeTag? : List (Char × Nat) → Option (List Char × List (Char × Nat))
  | [] => none
  | (c, _) :: r =>
    if c = ']' then some ([], r)
    else if c = '\n' then none
    else (closeTag? r).map fun p => (c :: p.1, p.2)

/-- The first closing bracket closes a tag, if it comes before the first line feed. -/
theorem closeTag?_eq_some_iff {s after : List (Char × Nat)} {inner : List Char} :
    closeTag? s = some (inner, after) ↔ ∃ mid m, s = mid ++ (']', m) :: after ∧
      mid.map Prod.fst = inner ∧ ']' ∉ inner ∧ '\n' ∉ inner := by
  constructor
  · intro h
    induction s generalizing inner after with
    | nil => cases h
    | cons p r ih =>
      obtain ⟨c, n⟩ := p
      rw [closeTag?] at h
      split at h
      · next hc =>
        cases h
        exact ⟨[], n, by rw [hc]; rfl, rfl, List.not_mem_nil, List.not_mem_nil⟩
      · split at h
        · cases h
        · next hc hf =>
          obtain ⟨q, hq, he⟩ := Option.map_eq_some_iff.mp h
          cases he
          obtain ⟨mid, m, hr, hmid, hclose, hfeed⟩ := ih hq
          refine ⟨(c, n) :: mid, m, by rw [hr]; rfl, by rw [← hmid]; rfl, ?_, ?_⟩
          · exact List.not_mem_cons_of_ne_of_not_mem (Ne.symm hc) hclose
          · exact List.not_mem_cons_of_ne_of_not_mem (Ne.symm hf) hfeed
  · rintro ⟨mid, m, rfl, rfl, hclose, hfeed⟩
    induction mid with
    | nil => exact if_pos rfl
    | cons p mid ih =>
      rw [List.map_cons, List.mem_cons, not_or] at hclose hfeed
      rw [List.cons_append, closeTag?, if_neg (Ne.symm hclose.1), if_neg (Ne.symm hfeed.1),
        ih hclose.2 hfeed.2]
      rfl

theorem length_of_closeTag? {s after : List (Char × Nat)} {inner : List Char}
    (h : closeTag? s = some (inner, after)) : after.length < s.length := by
  obtain ⟨mid, m, hs, -⟩ := closeTag?_eq_some_iff.mp h
  rw [hs, List.length_append, List.length_cons]
  omega

/-- Reads a text from left to right: an opening bracket opens a tag if the tag is closed in its
line, and all else is plain text. -/
def items : List (Char × Nat) → List Item
  | [] => []
  | (c, n) :: r =>
    if c = '[' then
      match _h : closeTag? r with
      | some (inner, after) => .tag inner n :: items after
      | none => .char c n :: items r
    else .char c n :: items r
termination_by s => s.length
decreasing_by
  · exact Nat.lt_succ_of_lt (length_of_closeTag? _h)
  · exact Nat.lt_succ_self _
  · exact Nat.lt_succ_self _

/-- Puts a character of plain text in front of segments. It joins the text that follows, unless it
ends its line. -/
def consChar (c : Char) (n : Nat) (ss : List Segment) : List Segment :=
  if c = '\n' then .text [c] n :: ss
  else
    match ss with
    | .text cs _ :: rest => .text (c :: cs) n :: rest
    | _ => .text [c] n :: ss

/-- The tags, and the plain text between them, which is cut behind each line feed. -/
def cutItems : List Item → List Segment
  | [] => []
  | .char c n :: r => consChar c n (cutItems r)
  | .tag inner n :: r => .tag inner n :: cutItems r

/-- What a segment consists of. -/
def Segment.items : Segment → List Item
  | .text cs n => cs.map fun c => .char c n
  | .tag inner n => [.tag inner n]

/-! ## Looking for the closing bracket -/

theorem closeTag?_eq_none {b : List Char} {n : Nat} {rest : List (Char × Nat)} (hb : ']' ∉ b)
    (h : '\n' ∈ b ∨ rest = []) : closeTag? (lineChars (b, n) ++ rest) = none := by
  induction b with
  | nil =>
    rw [h.resolve_left List.not_mem_nil]
    rfl
  | cons c b ih =>
    rw [List.mem_cons, not_or] at hb
    change closeTag? ((c, n) :: (lineChars (b, n) ++ rest)) = none
    rw [closeTag?, if_neg (Ne.symm hb.1)]
    by_cases hc : c = '\n'
    · rw [if_pos hc]
    · have hfeed : '\n' ∈ b ∨ rest = [] :=
        h.imp_left fun hm => (List.mem_cons.mp hm).resolve_left (Ne.symm hc)
      rw [if_neg hc, ih hb.2 hfeed]
      rfl

/-- The first tag of a line: no bracket opens before it, and none closes inside it. -/
theorem brackets_of_findTag? {s : List Char} {t : TagCut} (h : findTag? s = some t) :
    '[' ∉ t.before ∧ ']' ∉ t.inner := by
  unfold findTag? at h
  split at h
  · cases h
  · next before rest hb =>
    split at h
    · cases h
    · next inner after hi =>
      cases h
      exact ⟨(eq_of_splitAt? hb).2, (eq_of_splitAt? hi).2⟩

/-- In a line without a tag no bracket closes behind one that opens. -/
theorem notMem_of_findTag?_eq_none {a b : List Char} (h : findTag? (a ++ '[' :: b) = none) :
    ']' ∉ b := by
  unfold findTag? at h
  split at h
  · next hs => exact absurd List.mem_append_cons_self (notMem_of_splitAt?_eq_none hs)
  · next before rest hs =>
    split at h
    · next hr => exact fun hb => notMem_of_splitAt?_eq_none hr ((suffix_of_splitAt? hs).subset hb)
    · cases h

/-! ## Reading line by line is reading as a whole -/

theorem segments_eq (t : List Char) :
    segments t = (keptLines t).flatMap fun l => lineSegments l.2 l.1 := (flatMap_keptLines _ t).symm

/-- The segments of a line of a text; a comment has none. -/
def segmentsOf (l : List Char × Nat) : List Segment :=
  if isComment l.1 then [] else lineSegments l.2 l.1

theorem segments_eq_segmentsOf (t : List Char) :
    segments t = (numberedLines t).flatMap segmentsOf := rfl

/-- Plain text is read as such: no bracket that opens in it is closed. -/
theorem items_lineChars {a : List Char} {n : Nat} {rest : List (Char × Nat)}
    (h : ∀ x b, a = x ++ '[' :: b → closeTag? (lineChars (b, n) ++ rest) = none) :
    items (lineChars (a, n) ++ rest) = (a.map fun c => .char c n) ++ items rest := by
  induction a with
  | nil => rfl
  | cons c a ih =>
    have hrest := ih fun x b he => h (c :: x) b (by rw [he]; rfl)
    change items ((c, n) :: (lineChars (a, n) ++ rest)) =
      .char c n :: ((a.map fun c => .char c n) ++ items rest)
    rw [← hrest, items]
    by_cases hc : c = '['
    · rw [if_pos hc]
      split
      · next hs => rw [h [] a (by rw [hc]; rfl)] at hs; cases hs
      · rfl
    · rw [if_neg hc]

theorem items_tag {inner : List Char} {n m : Nat} {rest : List (Char × Nat)} (hclose : ']' ∉ inner)
    (hfeed : '\n' ∉ inner) :
    items (('[', n) :: (lineChars (inner, n) ++ (']', m) :: rest)) =
      .tag inner n :: items rest := by
  have hmap : (lineChars (inner, n)).map Prod.fst = inner := by
    rw [lineChars, List.map_map]
    exact List.map_id inner
  have htag : closeTag? (lineChars (inner, n) ++ (']', m) :: rest) = some (inner, rest) :=
    closeTag?_eq_some_iff.mpr ⟨_, m, rfl, hmap, hclose, hfeed⟩
  rw [items, if_pos rfl]
  split
  · next hs => cases htag.symm.trans hs; rfl
  · next hs => cases htag.symm.trans hs

theorem items_textSegment (s : List Char) (n : Nat) :
    (textSegment s n).flatMap Segment.items = s.map fun c => .char c n := by
  unfold textSegment
  split
  · next h => rw [List.isEmpty_iff.mp h]; rfl
  · exact List.append_nil _

theorem eq_append_of_findTag? {s : List Char} {t : TagCut} (h : findTag? s = some t) :
    s = t.before ++ '[' :: (t.inner ++ ']' :: t.after) := by
  rw [eq_of_findTag? h]
  simp [bracketed]

/-- A tag stands within its line, and what follows it ends the line. -/
theorem EndsLine.of_findTag? {s : List Char} {t : TagCut} {last : Prop} (h : EndsLine s last)
    (ht : findTag? s = some t) : '\n' ∉ t.before ∧ '\n' ∉ t.inner ∧ EndsLine t.after last := by
  rw [eq_append_of_findTag? ht] at h
  obtain ⟨hbefore, hinner⟩ := h.split (by decide)
  exact ⟨hbefore, hinner.split (by decide)⟩

theorem items_lineSegments {s : List Char} {n : Nat} {rest : List (Char × Nat)}
    (h : EndsLine s (rest = [])) :
    items (lineChars (s, n) ++ rest) = (lineSegments n s).flatMap Segment.items ++ items rest := by
  fun_induction lineSegments n s with
  | case1 s hs =>
    rw [items_textSegment]
    refine items_lineChars fun x b he => ?_
    subst he
    exact closeTag?_eq_none (notMem_of_findTag?_eq_none hs) (h.split (by decide)).2.feed
  | case2 s t ht ih =>
    obtain ⟨hopen, hclose⟩ := brackets_of_findTag? ht
    obtain ⟨-, hfeed, hafter⟩ := h.of_findTag? ht
    have hchars : lineChars (s, n) ++ rest = lineChars (t.before, n) ++
        ('[', n) :: (lineChars (t.inner, n) ++ (']', n) :: (lineChars (t.after, n) ++ rest)) := by
      rw [eq_append_of_findTag? ht]
      simp [lineChars]
    have hbefore : ∀ x b, t.before = x ++ '[' :: b → closeTag? (lineChars (b, n) ++
        ('[', n) :: (lineChars (t.inner, n) ++ (']', n) :: (lineChars (t.after, n) ++ rest))) =
          none := by
      intro x b he
      rw [he] at hopen
      exact absurd List.mem_append_cons_self hopen
    rw [hchars, items_lineChars hbefore, items_tag hclose hfeed, ih hafter, List.flatMap_append,
      List.flatMap_cons, items_textSegment, List.append_assoc, List.append_assoc]
    rfl

/-- Characters of one line are one segment, if no more text of the line follows. -/
theorem cutItems_chars {s : List Char} {n : Nat} {its : List Item}
    (h : EndsLine s (∀ cs m ss, cutItems its ≠ .text cs m :: ss)) :
    cutItems ((s.map fun c => .char c n) ++ its) = textSegment s n ++ cutItems its := by
  induction s with
  | nil => rfl
  | cons c s ih =>
    change consChar c n (cutItems ((s.map fun c => .char c n) ++ its)) = .text (c :: s) n :: _
    unfold consChar
    cases s with
    | nil =>
      change (if c = '\n' then .text [c] n :: cutItems its else _) = _
      by_cases hc : c = '\n'
      · rw [if_pos hc]
        rfl
      · have hits := h.feed.resolve_left fun hm => hc (List.mem_singleton.mp hm).symm
        rw [if_neg hc]
        split
        · next hs => exact absurd hs (hits _ _ _)
        · rfl
    | cons d s =>
      have hc : c ≠ '\n' := fun hc => h.only (by rw [hc]; exact List.mem_cons_self)
      rw [if_neg hc, ih (EndsLine.split (a := []) h hc).2]
      rfl

theorem cutItems_lineSegments {s : List Char} {n : Nat} {its : List Item}
    (h : EndsLine s (its = [])) :
    cutItems ((lineSegments n s).flatMap Segment.items ++ its) =
      lineSegments n s ++ cutItems its := by
  fun_induction lineSegments n s with
  | case1 s hs =>
    rw [items_textSegment]
    refine cutItems_chars (h.mono fun hits cs m ss => ?_)
    rw [hits]
    exact (List.cons_ne_nil _ _).symm
  | case2 s t ht ih =>
    obtain ⟨hbefore, -, hafter⟩ := h.of_findTag? ht
    have hchars : ∀ its', EndsLine t.before
        (∀ cs m ss, cutItems (.tag t.inner n :: its') ≠ .text cs m :: ss) :=
      fun its' => .of_notMem hbefore fun cs m ss h => by rw [cutItems] at h; cases h
    rw [List.flatMap_append, List.flatMap_cons, items_textSegment, List.append_assoc,
      List.append_assoc, List.append_assoc]
    change cutItems (_ ++ .tag t.inner n :: (_ ++ its)) = _
    rw [cutItems_chars (hchars _), cutItems, ih hafter]
    rfl

/-- Reading a text as a whole gives what its segments consist of. -/
theorem items_keptChars (t : List Char) :
    items (keptChars t) = (segments t).flatMap Segment.items := by
  rw [keptChars_eq, segments_eq]
  refine keptLines_induction (P := fun ls => items (ls.flatMap lineChars) =
    (ls.flatMap fun l => lineSegments l.2 l.1).flatMap Segment.items) ?_ ?_ t
  · rw [List.flatMap_nil, items]
    rfl
  · intro l ls hl _ ih
    have hrest : ls = [] → ls.flatMap lineChars = [] := fun hls => by rw [hls]; rfl
    rw [List.flatMap_cons, List.flatMap_cons, List.flatMap_append, ← ih,
      ← items_lineSegments (hl.mono hrest)]

theorem segments_eq_cutItems (t : List Char) : segments t = cutItems (items (keptChars t)) := by
  rw [items_keptChars, segments_eq]
  refine keptLines_induction (P := fun ls => ls.flatMap (fun l => lineSegments l.2 l.1) =
    cutItems ((ls.flatMap fun l => lineSegments l.2 l.1).flatMap Segment.items)) rfl ?_ t
  intro l ls hl _ ih
  have hrest : ls = [] →
      (ls.flatMap fun l => lineSegments l.2 l.1).flatMap Segment.items = [] :=
    fun hls => by rw [hls]; rfl
  rw [List.flatMap_cons, List.flatMap_append, cutItems_lineSegments (hl.mono hrest), ← ih]

/-! ## Segments and their lines -/

theorem line_lineSegments {n : Nat} {l : List Char} {s : Segment} (h : s ∈ lineSegments n l) :
    s.line = n := by
  have htext : ∀ {cs}, s ∈ textSegment cs n → s.line = n := by
    intro cs hs
    unfold textSegment at hs
    split at hs
    · cases hs
    · rw [List.mem_singleton.mp hs]
      rfl
  fun_induction lineSegments n l with
  | case1 l hl => exact htext h
  | case2 l t ht ih =>
    rcases List.mem_append.mp h with h | h
    · exact htext h
    · rcases List.mem_cons.mp h with rfl | h
      · rfl
      · exact ih h

theorem line_segmentsOf {l : List Char × Nat} {s : Segment} (h : s ∈ segmentsOf l) :
    s.line = l.2 := by
  unfold segmentsOf at h
  split at h
  · cases h
  · exact line_lineSegments h

/-- A segment stands in the line that has its number. -/
theorem mem_segmentsOf {t : List Char} {l : List Char × Nat} {s : Segment}
    (hl : l ∈ numberedLines t) : s ∈ segmentsOf l ↔ s ∈ segments t ∧ s.line = l.2 := by
  rw [segments_eq_segmentsOf, List.mem_flatMap]
  constructor
  · exact fun hs => ⟨⟨l, hl, hs⟩, line_segmentsOf hs⟩
  · rintro ⟨⟨k, hk, hs⟩, hline⟩
    rw [line_segmentsOf hs] at hline
    rwa [← eq_of_mem_numberedLines hk hl hline]

/-- The characters of a segment, each with the line of the segment. -/
def Segment.chars (s : Segment) : List (Char × Nat) := s.source.map fun c => (c, s.line)

theorem chars_segments (t : List Char) : (segments t).flatMap Segment.chars = keptChars t := by
  rw [keptChars_eq, segments_eq, List.flatMap_assoc]
  refine List.flatMap_congr fun l _ => ?_
  have hline : ∀ s ∈ lineSegments l.2 l.1, s.chars = s.source.map fun c => (c, l.2) := by
    intro s hs
    rw [Segment.chars, line_lineSegments hs]
  rw [List.flatMap_congr hline, ← List.map_flatMap, flatMap_source_lineSegments]
  rfl

/-- What a segment looks like: a stretch of text is not empty and has no line feed but at its end,
and a tag has neither a line feed nor a closing bracket inside. -/
def Segment.Proper : Segment → Prop
  | .text cs _ => cs ≠ [] ∧ '\n' ∉ cs.dropLast
  | .tag inner _ => ']' ∉ inner ∧ '\n' ∉ inner

theorem proper_textSegment {cs : List Char} {n : Nat} {s : Segment} (hcs : '\n' ∉ cs.dropLast)
    (h : s ∈ textSegment cs n) : s.Proper := by
  unfold textSegment at h
  split at h
  · cases h
  · next he =>
    rw [List.mem_singleton.mp h]
    exact ⟨fun hc => he (List.isEmpty_iff.mpr hc), hcs⟩

theorem proper_lineSegments {n : Nat} {l : List Char} {s : Segment} (hl : EndsLine l True)
    (h : s ∈ lineSegments n l) : s.Proper := by
  fun_induction lineSegments n l with
  | case1 l ht => exact proper_textSegment hl.only h
  | case2 l t ht ih =>
    obtain ⟨hbefore, hinner, hafter⟩ := hl.of_findTag? ht
    rcases List.mem_append.mp h with h | h
    · exact proper_textSegment (EndsLine.of_notMem hbefore trivial).only h
    · rcases List.mem_cons.mp h with rfl | h
      · exact ⟨(brackets_of_findTag? ht).2, hinner⟩
      · exact ih hafter h

theorem proper_segments (t : List Char) : ∀ s ∈ segments t, s.Proper := by
  rw [segments_eq]
  refine keptLines_induction (P := fun ls => ∀ s ∈ ls.flatMap fun l => lineSegments l.2 l.1,
    s.Proper) (fun s hs => absurd hs List.not_mem_nil) ?_ t
  intro l ls hl _ ih
  rw [List.flatMap_cons, List.forall_mem_append]
  exact ⟨fun s => proper_lineSegments (hl.mono fun _ => trivial), ih⟩

/-- Whether a segment is plain text. -/
def Segment.isText : Segment → Bool
  | .text _ _ => true
  | .tag _ _ => false

/-- If two segments are plain text, then the second is on a later line. -/
def NextLine (s r : Segment) : Prop := s.isText → r.isText → s.line < r.line

theorem isChain_textSegment (cs : List Char) (n : Nat) : (textSegment cs n).IsChain NextLine := by
  unfold textSegment
  split
  · exact List.isChain_nil
  · exact List.isChain_singleton _

theorem isChain_lineSegments (n : Nat) (l : List Char) :
    (lineSegments n l).IsChain NextLine := by
  fun_induction lineSegments n l with
  | case1 l ht => exact isChain_textSegment l n
  | case2 l t ht ih =>
    refine List.isChain_append.mpr ⟨isChain_textSegment _ _, ?_, ?_⟩
    · refine List.isChain_cons.mpr ⟨fun s _ htag => ?_, ih⟩
      cases htag
    · intro s _ r hr _ htag
      cases hr
      cases htag

theorem isChain_segments (t : List Char) : (segments t).IsChain NextLine := by
  rw [segments_eq]
  refine keptLines_induction (P := fun ls => (ls.flatMap fun l => lineSegments l.2 l.1).IsChain
    NextLine) List.isChain_nil ?_ t
  intro l ls _ hlt ih
  rw [List.flatMap_cons]
  refine List.isChain_append.mpr ⟨isChain_lineSegments _ _, ih, fun s hs r hr _ _ => ?_⟩
  obtain ⟨k, hk, hrk⟩ := List.mem_flatMap.mp (List.mem_of_mem_head? hr)
  rw [line_lineSegments (List.mem_of_mem_getLast? hs), line_lineSegments hrk]
  exact hlt k hk

/-- With nothing but plain text from one segment to another, the other is on a later line. -/
theorem line_lt_of_isChain {s r : Segment} {mid b : List Segment}
    (h : (s :: (mid ++ r :: b)).IsChain NextLine) (hs : s.isText) (hr : r.isText)
    (hmid : ∀ x ∈ mid, x.isText) : s.line < r.line := by
  induction mid generalizing s with
  | nil => exact h.rel hs hr
  | cons x mid ih =>
    have hx := hmid x List.mem_cons_self
    have hlt : s.line < x.line := h.rel hs hx
    exact hlt.trans (ih h.tail hx fun y hy => hmid y (List.mem_cons_of_mem _ hy))

theorem exists_tag_between {t cs ds : List Char} {a mid b : List Segment} {n : Nat}
    (h : segments t = a ++ .text cs n :: (mid ++ .text ds n :: b)) :
    ∃ inner m, .tag inner m ∈ mid := by
  by_contra hnone
  have hmid : ∀ x ∈ mid, x.isText := by
    intro x hx
    cases x with
    | text cs m => rfl
    | tag inner m => exact absurd ⟨inner, m, hx⟩ hnone
  have hchain := isChain_segments t
  rw [h] at hchain
  exact lt_irrefl n (line_lt_of_isChain hchain.right_of_append rfl rfl hmid)

/-- A text without its comment lines. -/
def withoutComments (t : List Char) : List Char := (keptChars t).map Prod.fst

/-- **Cutting a text into segments loses nothing and is one scan of it.** The segments give back
the text without its comment lines. They are what a single pass over that text finds: a bracket
opens a tag if and only if one closes before the next line feed, and the text between tags is cut
behind line feeds. So tags stay in their line, no stretch of text is empty, and between two of one
line there is a tag. Each segment tells the line that its characters have in the whole text. -/
theorem segments_scan (t : List Char) :
    (segments t).flatMap Segment.source = withoutComments t ∧
    segments t = cutItems (items (keptChars t)) ∧
    (∀ s ∈ segments t, s.Proper) ∧
    (∀ a cs mid ds n b, segments t = a ++ .text cs n :: (mid ++ .text ds n :: b) →
      ∃ inner m, .tag inner m ∈ mid) ∧
    (segments t).flatMap Segment.chars = keptChars t := by
  refine ⟨?_, segments_eq_cutItems t, proper_segments t, fun a cs mid ds n b =>
    exists_tag_between, chars_segments t⟩
  rw [withoutComments, ← chars_segments, List.map_flatMap]
  refine List.flatMap_congr fun s _ => ?_
  rw [Segment.chars, List.map_map]
  exact (List.map_id _).symm

example : segments "a[b\n; c]\nd]e[f]".toList =
    [.text "a[b\n".toList 1, .text "d]e".toList 3, .tag "f".toList 3] := by cbv

end DialogueBox.Markup
