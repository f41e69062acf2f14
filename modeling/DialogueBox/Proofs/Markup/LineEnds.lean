import DialogueBox.Lint.Analysis
import DialogueBox.Proofs.Markup.Scan

/-!
# Line ends

A text that was written with carriage returns before its line feeds is the same text to everything
that reads it: to compiling, to looking for sections, and to checking
(`reads_withReturns`). It does not matter whether the text has other carriage returns, nor where.

The stages treat the carriage return in different ways. Compiling leaves it out of plain text; a tag
never holds one that was put in, since there is no line feed in a tag; labels and sections are
trimmed, and a carriage return is blank. So the proof goes stage by stage: each stage of the text
with the carriage returns is that of the text, with carriage returns put in wherever a line feed is
left (`segments_withReturns`, `section?_withReturns`).
-/

namespace DialogueBox.Text

/-! ## Carriage returns -/

/-- A text with a carriage return put before each line feed. -/
def withReturns (t : List Char) : List Char :=
  t.flatMap fun c => if c = '\n' then ['\r', c] else [c]

theorem withReturns_append (s t : List Char) :
    withReturns (s ++ t) = withReturns s ++ withReturns t := List.flatMap_append

theorem withReturns_cons_of_ne {c : Char} (h : c ≠ '\n') (t : List Char) :
    withReturns (c :: t) = c :: withReturns t := by
  rw [withReturns, List.flatMap_cons, if_neg h]
  rfl

theorem withReturns_of_notMem {t : List Char} (h : '\n' ∉ t) : withReturns t = t := by
  induction t with
  | nil => rfl
  | cons c t ih =>
    rw [List.mem_cons, not_or] at h
    rw [withReturns_cons_of_ne (Ne.symm h.1), ih h.2]

theorem withReturns_flatten (ls : List (List Char)) :
    withReturns ls.flatten = (ls.map withReturns).flatten := by
  induction ls with
  | nil => rfl
  | cons l ls ih => rw [List.flatten_cons, withReturns_append, ih, List.map_cons, List.flatten_cons]

theorem isEmpty_withReturns (t : List Char) : (withReturns t).isEmpty = t.isEmpty := by
  cases t with
  | nil => rfl
  | cons c t => rw [withReturns, List.flatMap_cons]; split <;> rfl

theorem mem_withReturns {c : Char} (h : c ≠ '\r') (t : List Char) :
    c ∈ withReturns t ↔ c ∈ t := by
  rw [withReturns, List.mem_flatMap]
  constructor
  · rintro ⟨d, hd, hc⟩
    split at hc
    · rcases List.mem_cons.mp hc with hc | hc
      · exact absurd hc h
      · rwa [List.mem_singleton.mp hc]
    · rwa [List.mem_singleton.mp hc]
  · intro hc
    refine ⟨c, hc, ?_⟩
    split <;> simp

theorem lines_withReturns (t : List Char) : lines (withReturns t) = (lines t).map withReturns := by
  induction t with
  | nil => rfl
  | cons c t ih =>
    by_cases hc : c = '\n'
    · subst hc
      show lines ('\r' :: '\n' :: withReturns t) = _
      rw [lines, if_neg (by decide), lines, if_pos rfl, ih, lines, if_pos rfl]
      rfl
    · rw [withReturns_cons_of_ne hc, lines, if_neg hc, ih, lines, if_neg hc]
      cases lines t with
      | nil => rw [List.map_nil, List.map_singleton, withReturns_cons_of_ne hc]; rfl
      | cons l ls => rw [List.map_cons, List.map_cons, withReturns_cons_of_ne hc]

theorem splitAt?_withReturns {mark : Char} (hf : mark ≠ '\n') (hr : mark ≠ '\r') (t : List Char) :
    splitAt? mark (withReturns t) =
      (splitAt? mark t).map fun p => (withReturns p.1, withReturns p.2) := by
  induction t with
  | nil => rfl
  | cons c t ih =>
    by_cases hc : c = '\n'
    · subst hc
      show splitAt? mark ('\r' :: '\n' :: withReturns t) = _
      rw [splitAt?, if_neg (Ne.symm hr), splitAt?, if_neg (Ne.symm hf), ih, splitAt?,
        if_neg (Ne.symm hf), Option.map_map, Option.map_map, Option.map_map]
      rfl
    · rw [withReturns_cons_of_ne hc, splitAt?, ih, splitAt?]
      split
      · rfl
      · rw [Option.map_map, Option.map_map]
        congr 1
        funext p
        simp only [Function.comp_apply]
        rw [withReturns_cons_of_ne hc]

/-! ## Carriage returns and blanks -/

theorem Blank.withReturns {s : List Char} (h : Blank s) : Blank (withReturns s) := by
  intro c hc
  by_cases hr : c = '\r'
  · rw [hr]
    decide
  · exact h c ((mem_withReturns hr s).mp hc)

theorem trimStart_withReturns (s : List Char) :
    trimStart (withReturns s) = withReturns (trimStart s) := by
  have hblank : Blank (s.takeWhile isBlank) := fun c hc => List.mem_takeWhile_imp hc
  have hs : s = s.takeWhile isBlank ++ trimStart s := List.takeWhile_append_dropWhile.symm
  have hhead := List.head?_dropWhile_not isBlank s
  conv_lhs => rw [hs, withReturns_append, trimStart_append hblank.withReturns]
  unfold trimStart at hhead ⊢
  cases hd : s.dropWhile isBlank with
  | nil => rfl
  | cons c r =>
    have hc : isBlank c = false := by rw [hd] at hhead; exact hhead
    rw [withReturns_cons_of_ne (ne_feed_of_not_blank hc)]
    exact trimStart_cons hc

theorem trimEnd_withReturns (s : List Char) :
    trimEnd (withReturns s) = withReturns (trimEnd s) := by
  induction s using List.reverseRecOn with
  | nil => rfl
  | append_singleton s c ih =>
    rw [withReturns_append, trimEnd_concat]
    split
    · next hc =>
      have hblank : Blank (withReturns [c]) :=
        Blank.withReturns fun d hd => by rw [List.mem_singleton.mp hd]; exact hc
      rw [trimEnd_append hblank, ih]
    · next hc =>
      have hn : c ≠ '\n' := ne_feed_of_not_blank (by simpa using hc)
      rw [withReturns_append, withReturns_cons_of_ne hn, show withReturns [] = [] from rfl,
        trimEnd_concat, if_neg hc]

theorem trim_withReturns (s : List Char) : trim (withReturns s) = withReturns (trim s) := by
  rw [trim, trimStart_withReturns, trimEnd_withReturns]
  rfl

/-- A line feed at the end is trimmed. -/
theorem notMem_trimEnd {s : List Char} (h : '\n' ∉ s.dropLast) : '\n' ∉ trimEnd s := by
  induction s using List.reverseRecOn with
  | nil => exact h
  | append_singleton s c =>
    rw [List.dropLast_concat] at h
    rw [trimEnd_concat]
    split
    · obtain ⟨b, hs, -⟩ := exists_trimEnd s
      rw [hs] at h
      exact fun hm => h (List.mem_append_left b hm)
    · next hc =>
      have hn : c ≠ '\n' := ne_feed_of_not_blank (by simpa using hc)
      simp [h, Ne.symm hn]

theorem notMem_trim {s : List Char} (h : '\n' ∉ s.dropLast) : '\n' ∉ trim s := by
  have hs : s = s.takeWhile isBlank ++ trimStart s := List.takeWhile_append_dropWhile.symm
  refine notMem_trimEnd fun hm => h ?_
  have hne : trimStart s ≠ [] := by
    intro hn
    rw [hn] at hm
    cases hm
  rw [hs, List.dropLast_append_of_ne_nil hne]
  exact List.mem_append_right _ hm

end DialogueBox.Text

namespace DialogueBox.Markup

open Text

/-! ## Segments -/

theorem findTag?_withReturns (s : List Char) :
    findTag? (withReturns s) = (findTag? s).map fun t =>
      ⟨withReturns t.before, withReturns t.inner, withReturns t.after⟩ := by
  unfold findTag?
  rw [splitAt?_withReturns (by decide) (by decide)]
  cases splitAt? '[' s with
  | none => rfl
  | some p =>
    simp only [Option.map_some]
    rw [splitAt?_withReturns (by decide) (by decide)]
    cases splitAt? ']' p.2 <;> rfl

/-- A segment with carriage returns. -/
def Segment.withReturns : Segment → Segment
  | text cs n => text (Text.withReturns cs) n
  | tag inner n => tag (Text.withReturns inner) n

theorem textSegment_withReturns (s : List Char) (n : Nat) :
    textSegment (withReturns s) n = (textSegment s n).map Segment.withReturns := by
  unfold textSegment
  rw [isEmpty_withReturns]
  split <;> rfl

theorem lineSegments_withReturns (n : Nat) (s : List Char) :
    lineSegments n (withReturns s) = (lineSegments n s).map Segment.withReturns := by
  fun_induction lineSegments n s with
  | case1 s h =>
    rw [lineSegments_of_none (by rw [findTag?_withReturns, h]; rfl), textSegment_withReturns]
  | case2 s t h ih =>
    rw [lineSegments_of_some (by rw [findTag?_withReturns, h]; rfl), textSegment_withReturns, ih,
      List.map_append, List.map_cons]
    rfl

theorem numberedLines_withReturns (t : List Char) :
    numberedLines (withReturns t) = (numberedLines t).map fun l => (withReturns l.1, l.2) := by
  rw [numberedLines, lines_withReturns, List.zipIdx_map]
  rfl

theorem isComment_withReturns (l : List Char) : isComment (withReturns l) = isComment l := by
  unfold isComment
  rw [trimStart_withReturns]
  cases trimStart l with
  | nil => rfl
  | cons c r =>
    rw [Text.withReturns, List.flatMap_cons]
    split
    · next hc => rw [hc]; rfl
    · rfl

/-- **The segments of a text with carriage returns.** -/
theorem segments_withReturns (t : List Char) :
    segments (withReturns t) = (segments t).map Segment.withReturns := by
  unfold segments
  rw [numberedLines_withReturns, List.flatMap_map, List.map_flatMap]
  refine List.flatMap_congr fun l _ => ?_
  dsimp only
  rw [isComment_withReturns, lineSegments_withReturns]
  split <;> rfl

/-! ## Compiling -/

theorem Segment.line_withReturns (s : Segment) : s.withReturns.line = s.line := by
  cases s <;> rfl

/-- In a tag there is no line feed, so it stays as it is. -/
theorem Segment.withReturns_tag {inner : List Char} {n : Nat} (h : (Segment.tag inner n).Proper) :
    (Segment.tag inner n).withReturns = .tag inner n := by
  show Segment.tag _ n = _
  rw [Text.withReturns_of_notMem h.2]

theorem filterMap_charInstruction?_withReturns (cs : List Char) :
    (withReturns cs).filterMap charInstruction? = cs.filterMap charInstruction? := by
  rw [Text.withReturns, List.filterMap_flatMap, List.filterMap_eq_flatMap_toList]
  refine List.flatMap_congr fun c _ => ?_
  split
  · next hc => rw [hc]; rfl
  · cases h : charInstruction? c <;> simp [h]

theorem Segment.instructions_withReturns {s : Segment} (h : s.Proper) :
    s.withReturns.instructions = s.instructions := by
  cases s with
  | text cs n => exact filterMap_charInstruction?_withReturns cs
  | tag inner n => rw [withReturns_tag h]

theorem Segment.dropped?_withReturns {s : Segment} (h : s.Proper) :
    s.withReturns.dropped? = s.dropped? := by
  cases s with
  | text cs n => rfl
  | tag inner n => rw [withReturns_tag h]

theorem compile_withReturns (t : List Char) : compile (withReturns t) = compile t := by
  have hproper := proper_segments t
  have hinstructions : ((segments t).map Segment.withReturns).flatMap Segment.instructions =
      (segments t).flatMap Segment.instructions := by
    rw [List.flatMap_map]
    exact List.flatMap_congr fun s hs => Segment.instructions_withReturns (hproper s hs)
  have hlines : ((segments t).map Segment.withReturns).flatMap
      (fun s => s.instructions.map fun _ => s.line) =
        (segments t).flatMap fun s => s.instructions.map fun _ => s.line := by
    rw [List.flatMap_map]
    refine List.flatMap_congr fun s hs => ?_
    rw [Segment.instructions_withReturns (hproper s hs), Segment.line_withReturns]
  have hdropped : ((segments t).map Segment.withReturns).filterMap Segment.dropped? =
      (segments t).filterMap Segment.dropped? := by
    rw [List.filterMap_map]
    exact List.filterMap_congr fun s hs => Segment.dropped?_withReturns (hproper s hs)
  unfold compile compileSegments
  rw [segments_withReturns, hinstructions, hlines, hdropped]

/-! ## Sections -/

theorem markerLabel?_withReturns {l : List Char} (h : '\n' ∉ l.dropLast) :
    markerLabel? (withReturns l) = markerLabel? l := by
  cases l with
  | nil => rfl
  | cons c r =>
    by_cases hn : c = '\n'
    · rw [hn]
      rfl
    · have hr : '\n' ∉ r.dropLast := by
        cases r with
        | nil => exact h
        | cons d r => exact fun hm => h (List.mem_cons_of_mem c hm)
      rw [withReturns_cons_of_ne hn, markerLabel?, markerLabel?, trim_withReturns,
        withReturns_of_notMem (notMem_trim hr)]

theorem isMarker_withReturns (l : List Char) : isMarker (withReturns l) = isMarker l := by
  cases l with
  | nil => rfl
  | cons c r =>
    rw [Text.withReturns, List.flatMap_cons]
    split
    · next hc => rw [hc]; rfl
    · rfl

theorem linesAfterMarker?_withReturns {ls : List (List Char)} (h : ∀ l ∈ ls, '\n' ∉ l.dropLast)
    (label : List Char) :
    linesAfterMarker? label (ls.map withReturns) =
      (linesAfterMarker? label ls).map (List.map withReturns) := by
  induction ls with
  | nil => rfl
  | cons l ls ih =>
    rw [List.forall_mem_cons] at h
    rw [List.map_cons, linesAfterMarker?, linesAfterMarker?, markerLabel?_withReturns h.1, ih h.2]
    split <;> rfl

theorem section?_withReturns (t : List Char) (label : String) :
    (section? (withReturns t) (some label)) = (section? t (some label)).map withReturns := by
  unfold section?
  dsimp only
  rw [lines_withReturns, linesAfterMarker?_withReturns fun l hl => only_lines hl]
  cases linesAfterMarker? label.toList (lines t) with
  | none => rfl
  | some ls =>
    have hbody : (ls.map withReturns).takeWhile (fun l => !isMarker l) =
        (ls.takeWhile fun l => !isMarker l).map withReturns := by
      rw [List.takeWhile_map]
      congr 2
      funext l
      exact congrArg not (isMarker_withReturns l)
    show Except.ok (trim _) = Except.ok (withReturns (trim _))
    rw [hbody, ← withReturns_flatten, trim_withReturns]

theorem labels_withReturns (t : List Char) : labels (withReturns t) = labels t := by
  unfold labels
  rw [lines_withReturns, List.filterMap_map]
  congr 1
  exact List.filterMap_congr fun l hl => markerLabel?_withReturns (only_lines hl)

end DialogueBox.Markup

namespace DialogueBox.Lint

open Markup Text

/-! ## Checking -/

theorem markerLines_withReturns (t : List Char) : markerLines (withReturns t) = markerLines t := by
  unfold markerLines
  rw [numberedLines_withReturns, List.filter_map, List.map_map]
  refine congrArg (List.map Prod.snd) (List.filter_congr fun l _ => ?_)
  exact isMarker_withReturns l.1

theorem checkSegment_withReturns {s : Segment} (h : s.Proper) (script : String)
    (markers : List Nat) :
    checkSegment script markers s.withReturns = checkSegment script markers s := by
  cases s with
  | text cs n =>
    have hcontains : (withReturns cs).contains '[' = cs.contains '[' := by
      rw [Bool.eq_iff_iff, List.contains_iff_mem, List.contains_iff_mem]
      exact mem_withReturns (by decide) cs
    show checkText script markers (withReturns cs) n = checkText script markers cs n
    unfold checkText
    rw [hcontains, trimEnd_withReturns, withReturns_of_notMem (notMem_trimEnd h.2)]
  | tag inner n => rw [Segment.withReturns_tag h]

theorem markers_withReturns (t : List Char) : markers (withReturns t) = markers t := by
  unfold markers
  rw [numberedLines_withReturns, List.filterMap_map]
  refine List.filterMap_congr fun l hl => ?_
  have honly := only_lines (List.fst_mem_of_mem_zipIdx hl)
  simp only [Function.comp_apply]
  rw [markerLabel?_withReturns honly]

theorem isEmptySection_withReturns (t label : List Char) :
    isEmptySection (withReturns t) label = isEmptySection t label := by
  unfold isEmptySection
  rw [section?_withReturns]
  cases section? t (some (String.ofList label)) with
  | error e => rfl
  | ok s => exact isEmpty_withReturns s

theorem checkMarkers_withReturns (script : String) (t : List Char) (seen : List (List Char))
    (ms : List (List Char × Nat)) :
    checkMarkers script (withReturns t) seen ms = checkMarkers script t seen ms := by
  induction ms generalizing seen with
  | nil => rfl
  | cons m ms ih =>
    have hmarker : checkMarker script (withReturns t) seen m.1 m.2 =
        checkMarker script t seen m.1 m.2 := by
      unfold checkMarker
      rw [isEmptySection_withReturns]
    show (checkMarker ..).toList ++ checkMarkers .. = _
    rw [hmarker, ih]
    rfl

theorem check_withReturns (script : String) (t : List Char) :
    check script (withReturns t) = check script t := by
  unfold check
  rw [segments_withReturns, List.filterMap_map, markerLines_withReturns, markers_withReturns,
    checkMarkers_withReturns]
  congr 1
  exact List.filterMap_congr fun s hs =>
    checkSegment_withReturns (proper_segments t s hs) script (markerLines t)

theorem resourceUses_withReturns (t : List Char) :
    resourceUses (withReturns t) = resourceUses t := by
  unfold resourceUses
  rw [segments_withReturns, List.flatMap_map]
  refine List.flatMap_congr fun s hs => ?_
  unfold segmentUses
  rw [Segment.instructions_withReturns (proper_segments t s hs), Segment.line_withReturns]

end DialogueBox.Lint

namespace DialogueBox.Markup

open Text

/--
**Line ends do not matter.**

A text and the same text with a carriage return before each line feed compile to the same script,
with the same lines and the same dropped tags. They have the same labels; under a label the one has
the section of the other with carriage returns, or both have none. Checking finds the same in both
of them, and they ask for the same resources.
-/
theorem reads_withReturns (t : List Char) :
    compile (withReturns t) = compile t ∧
      labels (withReturns t) = labels t ∧
      (∀ label, section? (withReturns t) (some label) =
        (section? t (some label)).map withReturns) ∧
      (∀ script, Lint.check script (withReturns t) = Lint.check script t) ∧
      Lint.resourceUses (withReturns t) = Lint.resourceUses t :=
  ⟨compile_withReturns t, labels_withReturns t, section?_withReturns t,
    fun script => Lint.check_withReturns script t, Lint.resourceUses_withReturns t⟩

example : section? "#a\r\n x\r\ny \r\r\n\r\n#b".toList (some "a") = .ok "x\r\ny".toList := by cbv

end DialogueBox.Markup
