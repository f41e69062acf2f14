import DialogueBox.Proofs.Markup.Slice

/-!
# Sections by lines and by bytes

What a section is can be said by lines alone: it is the text between the first line that marks it
and the next line that begins with a number sign (`Frames`). Cutting a section out finds this text,
and reports the label as missing if no line marks it (`section_by_lines`). So nothing else has a
say: not the lines before that mark something else, not what comes from the next marker on, and not
a number sign that is not the first character of its line.

A text in UTF-8 may also be gone over once, with a running count of bytes, and cut at the counts
(`scanSection`). Every count is that of whole lines, so no cut goes through a character, and the
scan gives the same section (`scanSection_eq`).
-/

namespace DialogueBox.Markup

open Text

/-! ## Texts cut at bytes -/

/-- A text without its first bytes, if no character lies across the cut. -/
def dropBytes? (n : Nat) : List Char → Option (List Char)
  | [] => if n = 0 then some [] else none
  | c :: r =>
    if n = 0 then some (c :: r)
    else if c.utf8Size ≤ n then dropBytes? (n - c.utf8Size) r
    else none

/-- The first bytes of a text, if no character lies across the cut. -/
def takeBytes? (n : Nat) : List Char → Option (List Char)
  | [] => if n = 0 then some [] else none
  | c :: r =>
    if n = 0 then some []
    else if c.utf8Size ≤ n then (takeBytes? (n - c.utf8Size) r).map (c :: ·)
    else none

/-- The part of a text between two numbers of bytes. There is none if they are in the wrong order,
beyond the text, or within a character. -/
def bytesBetween? (s : List Char) (start stop : Nat) : Option (List Char) :=
  if start ≤ stop then (dropBytes? start s).bind (takeBytes? (stop - start)) else none

theorem byteLength_cons (c : Char) (s : List Char) :
    byteLength (c :: s) = c.utf8Size + byteLength s := rfl

theorem byteLength_append (a b : List Char) :
    byteLength (a ++ b) = byteLength a + byteLength b := by
  induction a with
  | nil => exact (Nat.zero_add _).symm
  | cons c a ih => rw [List.cons_append, byteLength_cons, byteLength_cons, ih, Nat.add_assoc]

theorem dropBytes?_append (a b : List Char) : dropBytes? (byteLength a) (a ++ b) = some b := by
  induction a with
  | nil => cases b <;> rfl
  | cons c a ih =>
    have hpos := c.utf8Size_pos
    rw [byteLength_cons, List.cons_append, dropBytes?, if_neg (by omega), if_pos (by omega),
      Nat.add_sub_cancel_left, ih]

theorem takeBytes?_append (a b : List Char) : takeBytes? (byteLength a) (a ++ b) = some a := by
  induction a with
  | nil => cases b <;> rfl
  | cons c a ih =>
    have hpos := c.utf8Size_pos
    rw [byteLength_cons, List.cons_append, takeBytes?, if_neg (by omega), if_pos (by omega),
      Nat.add_sub_cancel_left, ih]
    rfl

/-- **Counts of bytes that end with a character cut between characters.** -/
theorem bytesBetween?_append (a t b : List Char) :
    bytesBetween? (a ++ (t ++ b)) (byteLength a) (byteLength (a ++ t)) = some t := by
  rw [byteLength_append, bytesBetween?, if_pos (Nat.le_add_right _ _), dropBytes?_append,
    Nat.add_sub_cancel_left]
  exact takeBytes?_append t b

/-! ## Lines that mark a section -/

/-- A line marks a section: it begins with a number sign, and the rest of it, trimmed, is the
label. -/
def Marks (label line : List Char) : Prop := ∃ rest, line = '#' :: rest ∧ trim rest = label

theorem markerLabel?_eq_some_iff {label line : List Char} :
    markerLabel? line = some label ↔ Marks label line := by
  cases line with
  | nil => exact iff_of_false (by simp [markerLabel?]) fun ⟨_, h, _⟩ => by cases h
  | cons c r =>
    rw [markerLabel?]
    split
    · next hc =>
      subst hc
      constructor
      · exact fun h => ⟨r, rfl, Option.some.inj h⟩
      · rintro ⟨rest, hrest, rfl⟩
        cases hrest
        rfl
    · next hc =>
      refine iff_of_false (by simp) ?_
      rintro ⟨rest, hrest, -⟩
      cases hrest
      exact hc rfl

theorem Marks.isMarker {label line : List Char} (h : Marks label line) : isMarker line = true := by
  obtain ⟨rest, rfl, -⟩ := h
  rfl

/-- A line marks one section only. -/
theorem Marks.unique {label label' line : List Char} (h : Marks label line)
    (h' : Marks label' line) : label = label' := by
  obtain ⟨rest, rfl, rfl⟩ := h
  obtain ⟨rest', heq, rfl⟩ := h'
  cases heq
  rfl

/-- A number sign behind blanks is no marker. -/
theorem not_isMarker_indented {blanks : List Char} (hne : blanks ≠ []) (h : Blank blanks)
    (rest : List Char) : isMarker (blanks ++ rest) = false := by
  cases blanks with
  | nil => exact absurd rfl hne
  | cons c blanks =>
    have hc : c ≠ '#' := by
      rintro rfl
      exact absurd (h '#' List.mem_cons_self) (by decide)
    simp [isMarker, hc]

theorem linesAfterMarker?_eq_none_iff {label : List Char} {ls : List (List Char)} :
    linesAfterMarker? label ls = none ↔ ∀ l ∈ ls, markerLabel? l ≠ some label := by
  induction ls with
  | nil => simp [linesAfterMarker?]
  | cons l ls ih =>
    unfold linesAfterMarker?
    by_cases h : markerLabel? l = some label
    · simp [h]
    · rw [if_neg h, ih]
      simp [h]

theorem linesAfterMarker?_append {label : List Char} {before : List (List Char)}
    (h : ∀ l ∈ before, ¬Marks label l) (ls : List (List Char)) :
    linesAfterMarker? label (before ++ ls) = linesAfterMarker? label ls := by
  induction before with
  | nil => rfl
  | cons l before ih =>
    rw [List.forall_mem_cons] at h
    rw [List.cons_append, linesAfterMarker?, if_neg (mt markerLabel?_eq_some_iff.mp h.1), ih h.2]

/-! ## Sections by lines -/

/-- The lines of a text around a section: those before its marker, its marker, its own ones, and
those from the next marker on. -/
structure Frames (source label : List Char) (before : List (List Char)) (marker : List Char)
    (body after : List (List Char)) : Prop where
  lines_eq : lines source = before ++ marker :: (body ++ after)
  first : ∀ l ∈ before, ¬Marks label l
  marks : Marks label marker
  within : ∀ l ∈ body, l.head? ≠ some '#'
  next : ∀ l ∈ after.head?, l.head? = some '#'

variable {source : List Char} {label : String}

theorem Frames.section?_eq {marker : List Char} {before body after : List (List Char)}
    (h : Frames source label.toList before marker body after) : section? source (some label) =
      .ok (trim body.flatten) := by
  have hbody : (body ++ after).takeWhile (fun l => !isMarker l) = body := by
    rw [List.takeWhile_append_of_pos fun l hl => by simpa [isMarker] using h.within l hl]
    cases after with
    | nil => exact List.append_nil _
    | cons l after =>
      have hl : isMarker l = true := by simpa [isMarker] using h.next l rfl
      rw [List.takeWhile_cons_of_neg (by simp [hl]), List.append_nil]
  unfold section?
  dsimp only
  rw [h.lines_eq, linesAfterMarker?_append h.first, linesAfterMarker?,
    if_pos (markerLabel?_eq_some_iff.mpr h.marks)]
  dsimp only
  rw [hbody]

theorem exists_frames {s : List Char} (h : section? source (some label) = .ok s) :
    ∃ before marker body after, Frames source label.toList before marker body after ∧
      s = trim body.flatten := by
  obtain ⟨before, marker, body, after, hlines, hmarks, hfirst, hwithin, hnext, hs⟩ :=
    lines_of_section? h
  refine ⟨before, marker, body, after, ⟨hlines, ?_, ?_, ?_, ?_⟩, hs⟩
  · exact fun l hl => mt markerLabel?_eq_some_iff.mpr (hfirst l hl)
  · exact markerLabel?_eq_some_iff.mp hmarks
  · exact fun l hl => by simpa [isMarker] using hwithin l hl
  · exact fun l hl => by simpa [isMarker] using hnext l hl

theorem section?_of_not_marks (h : ∀ l ∈ lines source, ¬Marks label.toList l) : section? source
      (some label) = .error ⟨label⟩ := by
  have hnone : linesAfterMarker? label.toList (lines source) = none :=
    linesAfterMarker?_eq_none_iff.mpr fun l hl => mt markerLabel?_eq_some_iff.mp (h l hl)
  unfold section?
  dsimp only
  rw [hnone]

/-- There is a section just if a line marks it. -/
theorem exists_section?_iff :
    (∃ s, section? source (some label) = .ok s) ↔ ∃ l ∈ lines source, Marks label.toList l := by
  constructor
  · rintro ⟨s, hs⟩
    obtain ⟨before, marker, body, after, hframes, -⟩ := exists_frames hs
    exact ⟨marker, by simp [hframes.lines_eq], hframes.marks⟩
  · rintro ⟨l, hl, hmarks⟩
    unfold section?
    dsimp only
    cases hls : linesAfterMarker? label.toList (lines source) with
    | none =>
      exact absurd (markerLabel?_eq_some_iff.mpr hmarks)
        (linesAfterMarker?_eq_none_iff.mp hls l hl)
    | some ls => exact ⟨_, rfl⟩

/-- Lines before that do not mark the section have no say. -/
theorem section?_append_left {x : List Char} (hfeed : EndsFeed x)
    (h : ∀ l ∈ lines x, ¬Marks label.toList l) (source : List Char) : section? (x ++ source)
      (some label) = section? source (some label) := by
  unfold section?
  dsimp only
  rw [lines_append hfeed, linesAfterMarker?_append h]

theorem head?_lines_cons {c : Char} (hc : c ≠ '\n') (r : List Char) :
    ∀ l ∈ (lines (c :: r)).head?, l.head? = some c := by
  rw [lines, if_neg hc]
  cases lines r with
  | nil => simp
  | cons l ls => simp

/-- What comes from another marker on behind a section has no say. -/
theorem section?_append_right {s : List Char} (hfeed : EndsFeed source)
    (h : section? source (some label) = .ok s) (y : List Char) : section? (source ++ '#' :: y)
      (some label) = .ok s := by
  obtain ⟨before, marker, body, after, hframes, rfl⟩ := exists_frames h
  have hlonger : Frames (source ++ '#' :: y) label.toList before marker body
      (after ++ lines ('#' :: y)) := by
    refine ⟨?_, hframes.first, hframes.marks, hframes.within, ?_⟩
    · rw [lines_append hfeed, hframes.lines_eq]
      simp
    · cases after with
      | cons l after => exact hframes.next
      | nil => exact head?_lines_cons (by decide : '#' ≠ '\n') y
  exact hlonger.section?_eq

/-! ## Labels -/

/-- The labels are those of the markers in order, without the empty ones. -/
theorem labels_eq (source : List Char) :
    labels source = (((lines source).filter fun l => l.head? == some '#').map
      fun l => trim l.tail).filter fun l => !l.isEmpty := by
  unfold labels
  congr 1
  rw [← List.filterMap_eq_map, ← List.filterMap_eq_filter, List.filterMap_filterMap]
  refine List.filterMap_congr fun l _ => ?_
  cases l with
  | nil => rfl
  | cons c r =>
    by_cases hc : c = '#'
    · simp [markerLabel?, hc, Option.guard]
    · simp [markerLabel?, hc, Option.guard]

/-- A label that is not empty is listed just if a line marks it. -/
theorem mem_labels_iff {label : List Char} (hne : label ≠ []) :
    label ∈ labels source ↔ ∃ l ∈ lines source, Marks label l := by
  unfold labels
  rw [List.mem_filter, List.mem_filterMap]
  simp [markerLabel?_eq_some_iff, hne]

/-! ## Sections by bytes -/

/-- Goes over lines with the number of bytes before them, and with that before the section once its
marker is found. Cuts the section out of its source where the next marker stands, or at the end.
There is no result if a cut is none. -/
def scanSection (source : List Char) (label : String) :
    Nat → Option Nat → List (List Char) → Option (Except MissingLabel (List Char))
  | _, none, [] => some (.error ⟨label⟩)
  | _, some start, [] =>
    (bytesBetween? source start (byteLength source)).map fun s => .ok (trim s)
  | offset, none, l :: ls =>
    let stop := offset + byteLength l
    scanSection source label stop
      (if markerLabel? l = some label.toList then some stop else none) ls
  | offset, some start, l :: ls =>
    if isMarker l then (bytesBetween? source start offset).map fun s => .ok (trim s)
    else scanSection source label (offset + byteLength l) (some start) ls

theorem byteLength_flatten_concat (ls : List (List Char)) (l : List Char) :
    byteLength (ls ++ [l]).flatten = byteLength ls.flatten + byteLength l := by
  rw [List.flatten_append, List.flatten_singleton, byteLength_append]

/-- Between the byte counts of whole lines stand whole lines. -/
theorem bytesBetween?_lines {before body after : List (List Char)}
    (h : lines source = before ++ body ++ after) :
    bytesBetween? source (byteLength before.flatten) (byteLength (before ++ body).flatten) =
      some body.flatten := by
  have hsource : source = before.flatten ++ (body.flatten ++ after.flatten) := by
    rw [← flatten_lines source, h]
    simp
  conv_lhs => rw [hsource, List.flatten_append]
  exact bytesBetween?_append _ _ _

/-- A scan behind the marker of a section: `before` are the lines up to the marker, and `body` those
of the section that have been passed. -/
theorem scanSection_some {before body ls : List (List Char)}
    (h : lines source = before ++ body ++ ls) :
    scanSection source label (byteLength (before ++ body).flatten)
        (some (byteLength before.flatten)) ls =
      some (.ok (trim (body ++ ls.takeWhile fun l => !isMarker l).flatten)) := by
  induction ls generalizing body with
  | nil =>
    have hend : byteLength source = byteLength (before ++ body).flatten := by
      rw [← flatten_lines source, h, List.append_nil]
    rw [scanSection, hend, bytesBetween?_lines h, List.takeWhile_nil, List.append_nil]
    rfl
  | cons l ls ih =>
    rw [scanSection]
    by_cases hl : isMarker l = true
    · rw [if_pos hl, bytesBetween?_lines h, List.takeWhile_cons_of_neg (by simp [hl]),
        List.append_nil]
      rfl
    · rw [if_neg hl, List.takeWhile_cons_of_pos (by simp [hl]), ← byteLength_flatten_concat,
        List.append_assoc, ih (by rw [h]; simp), List.append_assoc]
      rfl

/-- A scan before the marker of a section: `before` are the lines that have been passed. -/
theorem scanSection_none {before ls : List (List Char)} (h : lines source = before ++ ls)
    (hbefore : ∀ l ∈ before, ¬Marks label.toList l) :
    scanSection source label (byteLength before.flatten) none ls =
      some (section? source (some label)) := by
  induction ls generalizing before with
  | nil =>
    rw [List.append_nil] at h
    rw [scanSection, section?_of_not_marks (by rwa [h])]
  | cons l ls ih =>
    rw [scanSection, ← byteLength_flatten_concat]
    by_cases hl : markerLabel? l = some label.toList
    · have hlines : lines source = before ++ [l] ++ [] ++ ls := by
        rw [h]
        simp
      have hscan : scanSection source label _ _ ls = _ := scanSection_some hlines
      rw [List.append_nil, List.nil_append] at hscan
      unfold section?
      dsimp only
      rw [if_pos hl, hscan, h, linesAfterMarker?_append hbefore, linesAfterMarker?, if_pos hl]
    · rw [if_neg hl]
      refine ih (by rw [h]; simp) fun k hk => ?_
      rcases List.mem_append.mp hk with hk | hk
      · exact hbefore k hk
      · rw [List.mem_singleton.mp hk]
        exact mt markerLabel?_eq_some_iff.mpr hl

/-- **Cutting at counts of bytes gives the section**, and no cut goes through a character. -/
theorem scanSection_eq (source : List Char) (label : String) :
    scanSection source label 0 none (lines source) = some (section? source (some label)) :=
  scanSection_none (show lines source = [] ++ lines source from rfl)
    fun _ h => absurd h List.not_mem_nil

/-- A longer label before, an indented number sign within, and the same label again behind. -/
example : let source := "#甲乙\nA\n#甲\n 你好 \n #乙\n#甲\nB\n".toList
    scanSection source "甲" 0 none (lines source) = some (.ok "你好 \n #乙".toList) := rfl

/-! ## What is found -/

/-- What is found for a label is a matter of lines. -/
structure FoundByLines (source : List Char) (label : String) : Prop where
  /-- A section is the text between the first line that marks it and the next marker. -/
  found : ∀ s, section? source (some label) = .ok s ↔
    ∃ before marker body after, Frames source label.toList before marker body after ∧
      s = trim body.flatten
  /-- There is a section just if a line marks it. -/
  marked : (∃ s, section? source (some label) = .ok s) ↔
    ∃ l ∈ lines source, Marks label.toList l
  /-- Otherwise the label is missing. -/
  missing : section? source (some label) = .error ⟨label⟩ ↔
    ∀ l ∈ lines source, ¬Marks label.toList l
  /-- A scan that counts bytes finds the same, and cuts the text between characters. -/
  scanned : scanSection source label 0 none (lines source) = some (section? source (some label))
  /-- A label that is not empty has a section just if it is listed. -/
  listed : label ≠ "" →
    ((∃ s, section? source (some label) = .ok s) ↔ label.toList ∈ labels source)
  /-- A line that marks a section with a longer label does not mark this one. -/
  longer : ∀ more l, more ≠ [] → Marks (label.toList ++ more) l → ¬Marks label.toList l
  /-- Nor does a line before whose number sign stand blanks; and it ends no section. -/
  indented : ∀ blanks rest, blanks ≠ [] → Blank blanks →
    ¬Marks label.toList (blanks ++ '#' :: rest) ∧ (blanks ++ '#' :: rest).head? ≠ some '#'
  /-- Such lines before have no say. -/
  before : ∀ x, EndsFeed x → (∀ l ∈ lines x, ¬Marks label.toList l) → section? (x ++ source)
    (some label) = section? source (some label)
  /-- What comes from a later marker on has no say, also if it marks the section again. -/
  behind : EndsFeed source → ∀ s, section? source (some label) = .ok s →
    ∀ y, section? (source ++ '#' :: y) (some label) = .ok s

/--
**Sections are found by lines.**

Whatever the source and the label are: a section is found just if a line marks it, and it is what
stands between the first such line and the next marker, trimmed. The labels that are listed are
those of the markers in order, without the empty ones.
-/
theorem section_by_lines (source : List Char) :
    labels source = (((lines source).filter fun l => l.head? == some '#').map
      fun l => trim l.tail).filter (fun l => !l.isEmpty) ∧
    ∀ label, FoundByLines source label := by
  refine ⟨labels_eq source, fun label => ?_⟩
  refine
    { found := fun s => ⟨exists_frames, ?_⟩
      marked := exists_section?_iff
      missing := ⟨fun h => ?_, section?_of_not_marks⟩
      scanned := scanSection_eq source label
      listed := fun hne => ?_
      longer := fun more l hne hmore hl => ?_
      indented := fun blanks rest hne hblank => ?_
      before := fun x hfeed hx => section?_append_left hfeed hx source
      behind := fun hfeed s hs y => section?_append_right hfeed hs y }
  · rintro ⟨before, marker, body, after, hframes, rfl⟩
    exact hframes.section?_eq
  · intro l hl hmarks
    obtain ⟨s, hs⟩ := exists_section?_iff.mpr ⟨l, hl, hmarks⟩
    rw [h] at hs
    cases hs
  · rw [exists_section?_iff, mem_labels_iff]
    simpa using hne
  · exact hne (List.append_right_eq_self.mp (hmore.unique hl))
  · have hnot := not_isMarker_indented hne hblank ('#' :: rest)
    refine ⟨fun hmarks => ?_, fun hhead => ?_⟩
    · rw [hmarks.isMarker] at hnot
      cases hnot
    · rw [isMarker, hhead] at hnot
      cases hnot

end DialogueBox.Markup
