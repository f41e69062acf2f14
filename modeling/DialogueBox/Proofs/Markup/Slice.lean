import DialogueBox.Proofs.Lint.Agreement
import DialogueBox.Proofs.Markup.Stretch

/-!
# Sections are slices

A section is cut out of the text of its source, not out of what the source compiles to. Still what a
section compiles to is a slice of what its source compiles to: the part that comes from the lines
that the section touches, with other line numbers (`slice_of_section`). So a source that has been
checked needs no check of its sections.

The section need not consist of whole lines, as it is taken without the blanks at its ends. But it
lies between whole lines and blanks (`exists_lies`), and blanks make no difference.
-/

namespace DialogueBox.Markup

open Text

/-! ## Where a section stands -/

/-- The section with a label stands between two parts of its source. -/
structure StandsAt (source label before s after : List Char) : Prop where
  source_eq : source = before ++ s ++ after
  /-- Before the section stand the lines up to the first marker with the label, and blanks. -/
  marker : ∃ hs m a, before = (hs ++ [m]).flatten ++ a ∧ hs ++ [m] <+: lines source ∧
    markerLabel? m = some label ∧ (∀ l ∈ hs, markerLabel? l ≠ some label) ∧ Blank a
  /-- Behind it stand blanks, and the lines from the next marker on. -/
  next : ∃ b rest, after = b ++ rest.flatten ∧ rest <:+ lines source ∧
    (∀ l ∈ rest.head?, isMarker l = true) ∧ Blank b

theorem eq_of_linesAfterMarker? {label : List Char} {ls body : List (List Char)}
    (h : linesAfterMarker? label ls = some body) :
    ∃ hs m, ls = hs ++ m :: body ∧ markerLabel? m = some label ∧
      ∀ l ∈ hs, markerLabel? l ≠ some label := by
  induction ls with
  | nil => cases h
  | cons l ls ih =>
    rw [linesAfterMarker?] at h
    split at h
    · next hl =>
      cases h
      exact ⟨[], l, rfl, hl, fun _ hm => absurd hm List.not_mem_nil⟩
    · next hl =>
      obtain ⟨hs, m, rfl, hm, hhs⟩ := ih h
      exact ⟨l :: hs, m, rfl, hm, List.forall_mem_cons.mpr ⟨hl, hhs⟩⟩

/-- A section is the trimmed run of lines from its marker to the next one. -/
theorem lines_of_section? {source s : List Char} {label : String}
    (h : section? source (some label) = .ok s) :
    ∃ hs m body after, lines source = hs ++ m :: (body ++ after) ∧
      markerLabel? m = some label.toList ∧ (∀ l ∈ hs, markerLabel? l ≠ some label.toList) ∧
      (∀ l ∈ body, isMarker l = false) ∧ (∀ l ∈ after.head?, isMarker l = true) ∧
      s = trim body.flatten := by
  rw [section?] at h
  split at h
  · cases h
  · next ls hls =>
    cases h
    obtain ⟨hs, m, hlines, hm, hhs⟩ := eq_of_linesAfterMarker? hls
    refine ⟨hs, m, ls.takeWhile fun l => !isMarker l, ls.dropWhile fun l => !isMarker l, ?_, hm,
      hhs, ?_, ?_, rfl⟩
    · rw [hlines, List.takeWhile_append_dropWhile]
    · exact fun l hl => by simpa using List.mem_takeWhile_imp hl
    · intro l hl
      have hnot := List.head?_dropWhile_not (fun l => !isMarker l) ls
      rw [hl] at hnot
      simpa using hnot

/-- Lines that another line follows end with a line feed. -/
theorem endsFeed_flatten {t : List Char} {a b : List (List Char)} (h : lines t = a ++ b)
    (hb : b ≠ []) : EndsFeed a.flatten := by
  cases a using List.reverseRecOn with
  | nil => exact fun c hc => by cases hc
  | append_singleton a l =>
    obtain ⟨r, b, rfl⟩ := List.exists_cons_of_ne_nil hb
    have hmem : '\n' ∈ l := by
      have hpairwise := pairwise_lines t
      rw [h, List.append_assoc] at hpairwise
      exact List.rel_of_pairwise_cons (List.pairwise_append.mp hpairwise).2.1 List.mem_cons_self
    have honly : '\n' ∉ l.dropLast := only_lines (t := t) (by simp [h])
    cases l using List.reverseRecOn with
    | nil => cases hmem
    | append_singleton l c =>
      rw [List.dropLast_concat] at honly
      have hc : '\n' = c :=
        (List.mem_append.mp hmem).elim (fun hm => absurd hm honly) List.mem_singleton.mp
      rw [List.flatten_append, List.flatten_singleton, ← hc, ← List.append_assoc]
      exact .concat _

/-- A text cut behind its first line feed. -/
theorem exists_firstLine (s : List Char) :
    ∃ a b, s = a ++ b ∧ '\n' ∉ a.dropLast ∧ (b = [] ∨ ∃ c, a = c ++ ['\n']) := by
  cases h : splitAt? '\n' s with
  | none =>
    have hs := notMem_of_splitAt?_eq_none h
    exact ⟨s, [], (List.append_nil s).symm, fun hm => hs (List.dropLast_subset s hm), .inl rfl⟩
  | some p =>
    obtain ⟨hs, hp⟩ := eq_of_splitAt? h
    refine ⟨p.1 ++ ['\n'], p.2, by rw [hs, List.append_assoc]; rfl, ?_, .inr ⟨p.1, rfl⟩⟩
    rwa [List.dropLast_concat]

/-- A section lies in a source between whole lines and blanks, which begin its first line and end
its last one. -/
structure Lies (whole a s b rest : List Char) : Prop where
  trimmed : Trimmed s
  whole : EndsFeed whole
  lead : Blank a
  lead_feed : '\n' ∉ a
  trail : Blank b
  trail_feed : '\n' ∉ b.dropLast
  rest : rest = [] ∨ EndsFeed (a ++ s ++ b)

theorem exists_lies {source s : List Char} {label : String}
    (h : section? source (some label) = .ok s) (hne : s ≠ []) :
    ∃ whole a b rest, StandsAt source label.toList (whole ++ a) s (b ++ rest) ∧
      Lies whole a s b rest := by
  obtain ⟨hs, m, body, after, hlines, hm, hhs, -, hafter, rfl⟩ := lines_of_section? h
  obtain ⟨lead, trail, htrim, hlead, htrail⟩ := exists_trim body.flatten
  obtain ⟨a₁, a, rfl, ha₁, ha⟩ := exists_endsFeed lead
  obtain ⟨b, b₂, rfl, hb, hb₂⟩ := exists_firstLine trail
  have hsource : source = (hs ++ [m]).flatten ++ body.flatten ++ after.flatten := by
    rw [← flatten_lines source, hlines]
    simp
  refine ⟨(hs ++ [m]).flatten ++ a₁, a, b, b₂ ++ after.flatten, ⟨?_, ?_, ?_⟩, ⟨trimmed_trim _, ?_,
    hlead.of_append.2, ha, htrail.of_append.1, hb, ?_⟩⟩
  · conv_lhs => rw [hsource, htrim]
    simp only [List.append_assoc]
  · refine ⟨hs, m, a₁ ++ a, List.append_assoc _ _ _, ?_, hm, hhs, hlead⟩
    exact ⟨body ++ after, by rw [hlines, List.append_assoc]; rfl⟩
  · refine ⟨b ++ b₂, after, (List.append_assoc _ _ _).symm, ?_, hafter, htrail⟩
    exact ⟨hs ++ m :: body, by rw [hlines]; simp⟩
  · -- the section is not empty, so a line follows its marker
    refine EndsFeed.append (endsFeed_flatten (b := body ++ after) (by rw [hlines]; simp) ?_) ha₁
    intro hnil
    rw [(List.append_eq_nil_iff.mp hnil).1] at hne
    exact hne rfl
  · -- if the blanks behind the section have no line feed, then they end its last line
    rcases hb₂ with rfl | ⟨c, rfl⟩
    · rw [List.nil_append]
      by_cases hlast : after = []
      · exact .inl (by rw [hlast]; rfl)
      · right
        have hfeed : EndsFeed (hs ++ m :: body).flatten :=
          endsFeed_flatten (by rw [hlines]; simp) hlast
        rw [show (hs ++ m :: body).flatten = (hs ++ [m]).flatten ++ body.flatten by simp,
          htrim] at hfeed
        refine EndsFeed.of_append (s := (hs ++ [m]).flatten ++ a₁) ?_
        simpa only [List.append_assoc, List.append_nil] using hfeed
    · right
      rw [← List.append_assoc]
      exact .concat _

/-! ## What a section yields -/

/-- Whether a text that stands behind another one touches a line. -/
def touches (before s : List Char) (n : Nat) : Bool :=
  before.count '\n' + 1 ≤ n && n ≤ before.count '\n' + 1 + s.count '\n'

theorem touches_eq_true {before s : List Char} {n : Nat} :
    touches before s n = true ↔
      before.count '\n' + 1 ≤ n ∧ n ≤ before.count '\n' + 1 + s.count '\n' := by
  simp [touches]

section

variable {whole a s b rest : List Char}

theorem Lies.count_before (h : Lies whole a s b rest) :
    (whole ++ a).count '\n' = whole.count '\n' := by
  rw [List.count_append, List.count_eq_zero_of_not_mem h.lead_feed, Nat.add_zero]

/-- The lines of a section with the blanks around it are those that it touches. -/
theorem Lies.length_lines (h : Lies whole a s b rest) (hs : s ≠ []) :
    (lines (a ++ s ++ b)).length = s.count '\n' + 1 := by
  have hlast : s.getLast hs ∈ s.getLast? := List.getLast?_eq_getLast_of_ne_nil hs
  have hfeed := ne_feed_of_not_blank (h.trimmed.last _ hlast)
  obtain ⟨ls, l, -, hlength, hlines⟩ :=
    exists_lastLine (t := a ++ s) (List.mem_getLast?_append_of_mem_getLast? hlast) hfeed
  rw [hlines b h.trail_feed, List.length_append, hlength, List.count_append,
    List.count_eq_zero_of_not_mem h.lead_feed, Nat.zero_add]
  rfl

theorem Lies.stretch_eq (h : Lies whole a s b rest) (hs : s ≠ []) (n : Nat) :
    ∃ a' b', a' <:+ a ∧ b' <+: b ∧ stretch n (a ++ s ++ b) =
      charYields n a' ++ stretch n s ++ charYields (n + s.count '\n') b' := by
  obtain ⟨a', ha', hlead⟩ := stretch_lead (t := s ++ b) h.lead h.lead_feed (by simp [hs]) n
  have hlast : s.getLast hs ∈ s.getLast? := List.getLast?_eq_getLast_of_ne_nil hs
  obtain ⟨b', hb', htrail⟩ :=
    stretch_trail h.trail h.trail_feed hlast (h.trimmed.last _ hlast) n
  refine ⟨a', b', ha', hb', ?_⟩
  rw [List.append_assoc, hlead, htrail, List.append_assoc]

theorem Lies.stretch_rest (h : Lies whole a s b rest) (n : Nat) :
    ∃ zs, stretch n (a ++ s ++ b ++ rest) = stretch n (a ++ s ++ b) ++ zs ∧
      ∀ z ∈ zs, n + (lines (a ++ s ++ b)).length ≤ z.line := by
  rcases h.rest with rfl | hfeed
  · exact ⟨[], by simp, fun z hz => absurd hz List.not_mem_nil⟩
  · refine ⟨_, stretch_append hfeed n rest, fun z hz => ?_⟩
    rw [Text.length_lines hfeed]
    exact (line_stretch hz).1

/-- **What a source yields on the lines that a section touches.** -/
theorem Lies.filter_yields (h : Lies whole a s b rest) (hs : s ≠ []) :
    ∃ a' b', a' <:+ a ∧ b' <+: b ∧
      (yields (whole ++ a ++ s ++ (b ++ rest))).filter (fun y => touches (whole ++ a) s y.line) =
        charYields (1 + whole.count '\n') a' ++ (yields s).map (Yield.shift (whole.count '\n')) ++
          charYields (1 + whole.count '\n' + s.count '\n') b' := by
  obtain ⟨a', b', ha', hb', hstretch⟩ := h.stretch_eq hs (1 + whole.count '\n')
  obtain ⟨zs, hrest, hzs⟩ := h.stretch_rest (1 + whole.count '\n')
  have hlength := h.length_lines hs
  have hcount := h.count_before
  refine ⟨a', b', ha', hb', ?_⟩
  have hsource : whole ++ a ++ s ++ (b ++ rest) = whole ++ (a ++ s ++ b ++ rest) := by
    simp only [List.append_assoc]
  -- the lines before the section, its own lines, and those behind it
  have hbefore : (stretch 1 whole).filter (fun y => touches (whole ++ a) s y.line) = [] := by
    refine List.filter_eq_nil_iff.mpr fun y hy => ?_
    have hline := (line_stretch hy).2
    rw [Text.length_lines h.whole] at hline
    rw [touches_eq_true]
    omega
  have htouched : (stretch (1 + whole.count '\n') (a ++ s ++ b)).filter
      (fun y => touches (whole ++ a) s y.line) =
        stretch (1 + whole.count '\n') (a ++ s ++ b) := by
    refine List.filter_eq_self.mpr fun y hy => ?_
    have hline := line_stretch hy
    rw [touches_eq_true]
    omega
  have hbehind : zs.filter (fun y => touches (whole ++ a) s y.line) = [] := by
    refine List.filter_eq_nil_iff.mpr fun y hy => ?_
    have hline := hzs y hy
    rw [touches_eq_true]
    omega
  rw [yields_eq_stretch, hsource, stretch_append h.whole, List.filter_append, hbefore,
    List.nil_append, hrest, List.filter_append, htouched, hbehind, List.append_nil, hstretch,
    stretch_add, yields_eq_stretch]

end

/-! ## What a section compiles to -/

/-- The instructions of a script that come from a line, each with that line. -/
def sourced (s : Script) : List (Instruction × Nat) :=
  (located s).filterMap fun p => p.2.map fun n => (p.1, n)

/-- Those that come from tags. -/
def tagPart (s : Script) : List (Instruction × Nat) :=
  (sourced s).filter fun p => p.1.plainChar?.isNone

/-- Those that come from plain text. -/
def plainPart (s : Script) : List (Instruction × Nat) :=
  (sourced s).filter fun p => p.1.plainChar?.isSome

/-- The instructions for characters of a line. -/
def charsOn (n : Nat) (cs : List Char) : List (Instruction × Nat) :=
  (cs.filterMap charInstruction?).map fun i => (i, n)

/-- What a text compiles to is a slice of what its source compiles to. -/
structure Slice (source before s after : List Char) : Prop where
  dropped : (compile s).dropped.map (DroppedTag.shift (before.count '\n')) =
    (compile source).dropped.filter fun d => touches before s d.line
  tags : (tagPart (compile s).script).map (fun p => (p.1, p.2 + before.count '\n')) =
    (tagPart (compile source).script).filter fun p => touches before s p.2
  /-- The plain text on the first and the last line may have blanks more. -/
  plain : ∃ a b, Blank a ∧ a <:+ before ∧ Blank b ∧ b <+: after ∧
    (plainPart (compile source).script).filter (fun p => touches before s p.2) =
      charsOn (1 + before.count '\n') a ++
        (plainPart (compile s).script).map (fun p => (p.1, p.2 + before.count '\n')) ++
          charsOn (1 + before.count '\n' + s.count '\n') b
  uses : (Lint.resourceUses s).map (fun u => { u with line := u.line + before.count '\n' }) =
    (Lint.resourceUses source).filter fun u => touches before s u.line

theorem sourced_compile (t : List Char) : sourced (compile t).script = emitted t := by
  rw [sourced, filterMap_located rfl]
  exact List.filterMap_some

theorem filter_filterMap_yields {α : Type} {f : Yield → Option α} (line : α → Nat)
    (h : ∀ y a, f y = some a → line a = y.line) (p : Nat → Bool) (t : List Char) :
    ((yields t).filterMap f).filter (fun a => p (line a)) =
      ((yields t).filter fun y => p y.line).filterMap f := by
  rw [List.filter_filterMap, List.filterMap_filter]
  refine List.filterMap_congr fun y _ => ?_
  cases hy : f y with
  | none => simp
  | some a => rw [Option.filter_some, h y a hy]

theorem emitted_charYields (n : Nat) (cs : List Char) :
    (charYields n cs).filterMap Yield.emitted? = charsOn n cs := emitted_items (.text cs n)

theorem dropped_charYields (n : Nat) (cs : List Char) :
    (charYields n cs).filterMap Yield.dropped? = [] := dropped_items (.text cs n)

theorem emitted_shift (k : Nat) (ys : List Yield) :
    (ys.map (Yield.shift k)).filterMap Yield.emitted? =
      (ys.filterMap Yield.emitted?).map fun p => (p.1, p.2 + k) := by
  rw [List.filterMap_map, List.map_filterMap]
  exact List.filterMap_congr fun y _ => by cases y <;> rfl

theorem dropped_shift (k : Nat) (ys : List Yield) :
    (ys.map (Yield.shift k)).filterMap Yield.dropped? =
      (ys.filterMap Yield.dropped?).map (DroppedTag.shift k) := by
  rw [List.filterMap_map, List.map_filterMap]
  exact List.filterMap_congr fun y _ => by cases y <;> rfl

theorem plain_charsOn {n : Nat} {cs : List Char} {p : Instruction × Nat} (h : p ∈ charsOn n cs) :
    p.1.plainChar?.isSome = true := by
  obtain ⟨i, hi, rfl⟩ := List.mem_map.mp h
  obtain ⟨c, -, hc⟩ := List.mem_filterMap.mp hi
  unfold charInstruction? at hc
  split at hc
  · cases hc
  · split at hc <;> (cases hc; rfl)

theorem tags_charsOn (n : Nat) (cs : List Char) :
    (charsOn n cs).filter (fun p => p.1.plainChar?.isNone) = [] := by
  refine List.filter_eq_nil_iff.mpr fun p hp => ?_
  rw [Option.isNone_iff_eq_none, ← Option.not_isSome_iff_eq_none, not_not]
  exact plain_charsOn hp

theorem uses_charsOn (n : Nat) (cs : List Char) : (charsOn n cs).filterMap Lint.use? = [] := by
  refine List.filterMap_eq_nil_iff.mpr fun p hp => ?_
  have hplain := plain_charsOn hp
  unfold Lint.use?
  cases hi : p.1 with
  | icon id => rw [hi] at hplain; cases hplain
  | font id => rw [hi] at hplain; cases hplain
  | _ => rfl

theorem uses_shift (k : Nat) (es : List (Instruction × Nat)) :
    (es.map fun p => (p.1, p.2 + k)).filterMap Lint.use? =
      (es.filterMap Lint.use?).map fun u => { u with line := u.line + k } := by
  rw [List.filterMap_map, List.map_filterMap]
  refine List.filterMap_congr fun p _ => ?_
  unfold Lint.use?
  rw [Function.comp_apply]
  cases Lint.resource? p.1 <;> rfl

theorem filter_uses (p : Nat → Bool) (es : List (Instruction × Nat)) :
    (es.filterMap Lint.use?).filter (fun u => p u.line) =
      (es.filter fun e => p e.2).filterMap Lint.use? := by
  rw [List.filter_filterMap, List.filterMap_filter]
  refine List.filterMap_congr fun e _ => ?_
  unfold Lint.use?
  cases Lint.resource? e.1 with
  | none => simp
  | some r => rfl

theorem Lies.slice {whole a s b rest : List Char} (h : Lies whole a s b rest) (hs : s ≠ []) :
    Slice (whole ++ a ++ s ++ (b ++ rest)) (whole ++ a) s (b ++ rest) := by
  obtain ⟨a', b', ha', hb', hyields⟩ := h.filter_yields hs
  rw [← h.count_before] at hyields
  -- from here on only the numbers of lines matter, not how the source is composed
  have hlead : Blank a' := fun c hc => h.lead c (ha'.subset hc)
  have htrail : Blank b' := fun c hc => h.trail c (hb'.subset hc)
  have hbefore : a' <:+ whole ++ a := ha'.trans (List.suffix_append whole a)
  have hafter : b' <+: b ++ rest := hb'.trans (List.prefix_append b rest)
  generalize whole ++ a ++ s ++ (b ++ rest) = source at hyields ⊢
  generalize whole ++ a = before at hyields hbefore ⊢
  have hemitted : (emitted source).filter (fun p => touches before s p.2) =
      charsOn (1 + before.count '\n') a' ++
        (emitted s).map (fun p => (p.1, p.2 + before.count '\n')) ++
          charsOn (1 + before.count '\n' + s.count '\n') b' := by
    rw [emitted, filter_filterMap_yields Prod.snd (fun _ _ => line_of_emitted?), hyields,
      List.filterMap_append, List.filterMap_append, emitted_charYields, emitted_charYields,
      emitted_shift]
    rfl
  refine ⟨?_, ?_, ⟨a', b', hlead, hbefore, htrail, hafter, ?_⟩, ?_⟩
  · rw [dropped_compile, dropped_compile,
      filter_filterMap_yields DroppedTag.line (fun _ _ => line_of_dropped?), hyields,
      List.filterMap_append, List.filterMap_append, dropped_charYields, dropped_charYields,
      dropped_shift, List.nil_append, List.append_nil]
  · rw [tagPart, tagPart, sourced_compile, sourced_compile, List.filter_comm, hemitted,
      List.filter_append, List.filter_append, tags_charsOn, tags_charsOn, List.filter_map,
      List.nil_append, List.append_nil]
    rfl
  · have hplain : ∀ n cs, (charsOn n cs).filter (fun p => p.1.plainChar?.isSome) = charsOn n cs :=
      fun n cs => List.filter_eq_self.mpr fun p => plain_charsOn
    rw [plainPart, plainPart, sourced_compile, sourced_compile, List.filter_comm, hemitted,
      List.filter_append, List.filter_append, hplain, hplain, List.filter_map]
    rfl
  · rw [Lint.resourceUses_eq, Lint.resourceUses_eq, filter_uses, hemitted, List.filterMap_append,
      List.filterMap_append, uses_charsOn, uses_charsOn, uses_shift, List.nil_append,
      List.append_nil]

/-! ## Sections -/

theorem unknown_of_severityOf {fault : TagFault} (h : Lint.severityOf fault ≠ .error) :
    ∃ key, fault = .unknown key := by
  cases fault with
  | unknown key => exact ⟨key, rfl⟩
  | missingValue t => exact absurd rfl h
  | invalidValue t v f => exact absurd rfl h

/--
**Compiling a section is a slice of compiling its source.**

What a section compiles to is what its source compiles to on the lines that the section touches.
Only the lines are counted from another one, and the blanks that were cut from the section are
missing.

So if checking the source finds no errors, then no section of it, when it is presented, drops a tag
for its value; and the icons that a section shows and the fonts that it sets by their names are
among the resources of the source.
-/
theorem slice_of_section {source s : List Char} {label : String}
    (h : section? source (some label) = .ok s) :
    (s ≠ [] → ∃ before after, StandsAt source label.toList before s after ∧
      Slice source before s after) ∧
    (∀ script, Lint.hasErrors (Lint.check script source) = false → ∀ p : Player,
      ∀ d ∈ (p.presentSection source (some label)).1.dropped, ∃ key, d.fault = .unknown key) ∧
    ∀ i ∈ (compile s).script.instructions, ∀ kind id, Lint.AsksFor i kind id →
      ∃ u ∈ Lint.resourceUses source, u.kind = kind ∧ u.id = id := by
  have hslice : s ≠ [] → ∃ before after, StandsAt source label.toList before s after ∧
      Slice source before s after := by
    intro hs
    obtain ⟨whole, a, b, rest, hstands, hlies⟩ := exists_lies h hs
    refine ⟨whole ++ a, b ++ rest, hstands, ?_⟩
    rw [hstands.source_eq]
    exact hlies.slice hs
  refine ⟨hslice, ?_, ?_⟩
  · intro script herrors p d hd
    refine unknown_of_severityOf fun hseverity => ?_
    have hdropped : d ∈ (compile s).dropped := by
      rw [Player.presentSection, h] at hd
      exact hd
    have hs : s ≠ [] := by
      rintro rfl
      cases hdropped
    obtain ⟨before, after, -, hslice⟩ := hslice hs
    have hshift : d.shift (before.count '\n') ∈ (compile source).dropped := by
      have hmem := List.mem_map_of_mem (f := DroppedTag.shift (before.count '\n')) hdropped
      rw [hslice.dropped] at hmem
      exact (List.mem_filter.mp hmem).1
    rw [(Lint.hasErrors_check script source).mpr ⟨_, hshift, hseverity⟩] at herrors
    cases herrors
  · intro i hi kind id hasks
    obtain ⟨n, hu⟩ := Lint.mem_resourceUses_of_asksFor hi hasks
    have hs : s ≠ [] := by
      rintro rfl
      cases hu
    obtain ⟨before, after, -, hslice⟩ := hslice hs
    have hmem := List.mem_map_of_mem
      (f := fun u : Lint.ResourceUse => { u with line := u.line + before.count '\n' }) hu
    rw [hslice.uses] at hmem
    exact ⟨_, (List.mem_filter.mp hmem).1, rfl, rfl⟩

/-- A section that is indented and drops a tag whose name is unknown. -/
theorem slice_of_section_indented :
    let source := "#a\n\n  x[huh]y \n#b\n".toList
    let s := "x[huh]y".toList
    (section? source (some "a") = .ok s) ∧
      (∃ before after, StandsAt source "a".toList before s after ∧ Slice source before s after) ∧
      ∀ p : Player, ∀ d ∈ (p.presentSection source (some "a")).1.dropped,
        ∃ key, d.fault = .unknown key := by
  intro source s
  have h : section? source (some "a") = .ok s := by decide +kernel
  obtain ⟨hslice, hfaults, -⟩ := slice_of_section h
  exact ⟨h, hslice (by decide +kernel), hfaults "a" (by decide +kernel)⟩

end DialogueBox.Markup
