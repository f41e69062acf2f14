import DialogueBox.Proofs.Lint.Agreement
import DialogueBox.Proofs.Markup.Sections
import Mathlib.Data.Finset.Card

/-!
# What checking says about sections

Behind what it says about segments, checking warns of sections: of a marker without a label, of one
whose label occurred before, and of one behind which nothing follows but blanks up to the next
marker. It warns of all of them, and of nothing else, once for each and in their order
(`section_warnings_exact`).

Checking goes over the markers with the labels it has seen, but whether there is something in a
section it finds out by loading it. Of several sections with one label the first is loaded; so it
matters that a label that was seen is reported before that, and what is loaded is the section whose
marker is being checked (`isEmptySection_eq_true_iff`).
-/

namespace DialogueBox.Lint

open Markup Text

/-! ## What there is to warn of -/

/-- What is wrong with a section. -/
inductive SectionFault
  /-- Its marker has no label. -/
  | unnamed
  /-- Another marker before has its label. -/
  | repeated (label : String)
  /-- It has no content. -/
  | hollow (label : String)
  deriving DecidableEq, Repr

/-- The wording of a fault. -/
def SectionFault.message : SectionFault → String
  | unnamed => "空的分节标签"
  | repeated label => "重复的分节标签 '#" ++ label ++ "'，只有第一个会被加载"
  | hollow label => "分节 '#" ++ label ++ "' 没有内容"

/-- Whether a fault is that a label occurs again. -/
def SectionFault.isRepeat : SectionFault → Bool
  | repeated _ => true
  | _ => false

/-- A warning of a section, with the line of its marker. -/
structure SectionWarning where
  fault : SectionFault
  line : Nat
  deriving DecidableEq, Repr

/-- The finding that warns of a section. -/
def SectionWarning.finding (script : String) (w : SectionWarning) : Finding :=
  ⟨.warning, script, some w.line, w.fault.message, none⟩

/-- A line with other lines before it marks a section that is at fault. -/
inductive Faulty (source : List Char) (before : List (List Char)) (line : List Char) :
    SectionFault → Prop
  | unnamed (marks : Marks [] line) : Faulty source before line .unnamed
  | repeated {label : String} (named : label ≠ "") (marks : Marks label.toList line)
      (earlier : ∃ l ∈ before, Marks label.toList l) : Faulty source before line (.repeated label)
  /-- All lines up to the next marker, or to the end, are blank. -/
  | hollow {label : String} {body after : List (List Char)} (named : label ≠ "")
      (frames : Frames source label.toList before line body after) (blank : ∀ l ∈ body, Blank l) :
      Faulty source before line (.hollow label)

/-- A warning is due. -/
def Due (source : List Char) (w : SectionWarning) : Prop :=
  ∃ before line after, lines source = before ++ line :: after ∧
    Faulty source before line w.fault ∧ w.line = before.length + 1

/-- Warnings are those that are due, one for a line at most, in the order of the lines. -/
structure WarnsExactly (source : List Char) (ws : List SectionWarning) : Prop where
  due : ∀ w, w ∈ ws ↔ Due source w
  sorted : ws.Pairwise fun v w => v.line < w.line
  /-- Every label that is not empty is new or repeated. -/
  repeats : ws.countP (fun w => w.fault.isRepeat) + (labels source).toFinset.card =
    (labels source).length
  /-- Without a warning no two sections have the same label, and for each marker its own section is
  found, and it has content. -/
  sound : ws = [] → (labels source).Nodup ∧
    ∀ before line after, lines source = before ++ line :: after → line.head? = some '#' →
      ∃ label body rest, label ≠ "" ∧ Frames source label.toList before line body rest ∧
        trim body.flatten ≠ [] ∧ section? source (some label) = .ok (trim body.flatten)

variable {source : List Char} {before after : List (List Char)} {line : List Char}

/-! ## Single markers -/

/-- A marker that is the first one with its label has its section behind it. -/
theorem exists_frames_of_first {label : String} (hlines : lines source = before ++ line :: after)
    (hmarks : Marks label.toList line) (hfirst : ∀ l ∈ before, ¬Marks label.toList l) :
    ∃ body rest, Frames source label.toList before line body rest := by
  refine ⟨after.takeWhile fun l => l.head? != some '#',
    after.dropWhile fun l => l.head? != some '#', ?_, hfirst, hmarks, fun l hl => ?_,
    fun l hl => ?_⟩
  · rw [hlines, List.takeWhile_append_dropWhile]
  · simpa using List.mem_takeWhile_imp hl
  · have hnot := List.head?_dropWhile_not (fun l : List Char => l.head? != some '#') after
    rw [hl] at hnot
    simpa using hnot

/-- A warning that is due from a line on is due for this line, or for a later one. -/
theorem due_from_iff (hlines : lines source = before ++ line :: after) {w : SectionWarning} :
    Due source w ∧ before.length < w.line ↔
      (Faulty source before line w.fault ∧ w.line = before.length + 1) ∨
        (Due source w ∧ before.length + 1 < w.line) := by
  constructor
  · rintro ⟨hdue, hlt⟩
    rcases Nat.eq_or_lt_of_le hlt with heq | hlt
    · -- the same lines stand around a line with the same number
      obtain ⟨before', line', after', hlines', hfaulty, hline⟩ := hdue
      obtain ⟨rfl, hrest⟩ := List.append_inj (hlines'.symm.trans hlines) (by omega)
      cases hrest
      exact .inl ⟨hfaulty, hline⟩
    · exact .inr ⟨hdue, hlt⟩
  · rintro (⟨hfaulty, hline⟩ | ⟨hdue, hlt⟩)
    · exact ⟨⟨before, line, after, hlines, hfaulty, hline⟩, by omega⟩
    · exact ⟨hdue, by omega⟩

theorem Faulty.exists_marks {fault : SectionFault} (h : Faulty source before line fault) :
    ∃ label, Marks label line := by
  cases h with
  | unnamed marks => exact ⟨_, marks⟩
  | repeated named marks earlier => exact ⟨_, marks⟩
  | hollow named frames blank => exact ⟨_, frames.marks⟩

/-- **What is loaded is the section of the marker that is checked,** and it is empty if its lines
are blank. -/
theorem isEmptySection_eq_true_iff {label : String} {body : List (List Char)}
    (h : Frames source label.toList before line body after) :
    isEmptySection source label.toList = true ↔ ∀ l ∈ body, Blank l := by
  unfold isEmptySection
  rw [String.ofList_toList, h.section?_eq]
  dsimp only
  rw [List.isEmpty_iff, trim_eq_nil_iff, blank_flatten_iff]

/-- The fault that is found with a marker, if the labels `seen` occurred before it. -/
def fault? (source : List Char) (seen : List (List Char)) (label : String) :
    Option SectionFault :=
  if label = "" then some .unnamed
  else if label.toList ∈ seen then some (.repeated label)
  else if isEmptySection source label.toList then some (.hollow label)
  else none

theorem checkMarker_eq (script : String) (source : List Char) (seen : List (List Char))
    (label : String) (n : Nat) :
    checkMarker script source seen label.toList n =
      (fault? source seen label).map fun fault => SectionWarning.finding script ⟨fault, n⟩ := by
  unfold checkMarker fault?
  simp only [List.isEmpty_iff, String.toList_eq_nil_iff, List.contains_iff_mem,
    String.ofList_toList]
  split
  · rfl
  · split
    · rfl
    · split <;> rfl

/-- The labels that were seen are those of the lines before. -/
def SeenIn (seen : List (List Char)) (before : List (List Char)) : Prop :=
  ∀ label, label ∈ seen ↔ ∃ l ∈ before, Marks label l

theorem SeenIn.concat {seen : List (List Char)} (h : SeenIn seen before) {label : List Char}
    (hmarks : Marks label line) : SeenIn (label :: seen) (before ++ [line]) := by
  intro label'
  rw [List.mem_cons, h label']
  constructor
  · rintro (rfl | ⟨l, hl, hl'⟩)
    · exact ⟨line, by simp, hmarks⟩
    · exact ⟨l, by simp [hl], hl'⟩
  · rintro ⟨l, hl, hl'⟩
    rcases List.mem_append.mp hl with hl | hl
    · exact .inr ⟨l, hl, hl'⟩
    · rw [List.mem_singleton.mp hl] at hl'
      exact .inl (hl'.unique hmarks)

theorem SeenIn.concat_of_not_marks {seen : List (List Char)} (h : SeenIn seen before)
    (hnot : ∀ label, ¬Marks label line) : SeenIn seen (before ++ [line]) := by
  intro label
  rw [h label]
  simp [hnot]

/-- **The fault that is found is the one that there is.** -/
theorem mem_fault?_iff {label : String} {seen : List (List Char)} {fault : SectionFault}
    (hlines : lines source = before ++ line :: after) (hmarks : Marks label.toList line)
    (hseen : SeenIn seen before) :
    fault ∈ fault? source seen label ↔ Faulty source before line fault := by
  constructor
  · intro h
    unfold fault? at h
    split at h
    · next hnil =>
      cases h
      rw [hnil] at hmarks
      exact .unnamed hmarks
    · next hnamed =>
      split at h
      · next hmem =>
        cases h
        exact .repeated hnamed hmarks ((hseen _).mp hmem)
      · next hmem =>
        split at h
        · next hempty =>
          cases h
          obtain ⟨body, rest, hframes⟩ := exists_frames_of_first hlines hmarks fun l hl hl' =>
            hmem ((hseen _).mpr ⟨l, hl, hl'⟩)
          exact .hollow hnamed hframes ((isEmptySection_eq_true_iff hframes).mp hempty)
        · cases h
  · have hlabel : ∀ {l : String}, Marks l.toList line → l = label := fun hl =>
      String.toList_inj.mp (hl.unique hmarks)
    intro h
    unfold fault?
    cases h with
    | unnamed marks => rw [if_pos (hlabel (l := "") marks).symm]; rfl
    | repeated named marks earlier =>
      cases hlabel marks
      rw [if_neg named, if_pos ((hseen _).mpr earlier)]
      rfl
    | hollow named frames blank =>
      cases hlabel frames.marks
      have hnot : label.toList ∉ seen := fun hmem => by
        obtain ⟨l, hl, hl'⟩ := (hseen _).mp hmem
        exact frames.first l hl hl'
      rw [if_neg named, if_neg hnot, if_pos ((isEmptySection_eq_true_iff frames).mpr blank)]
      rfl

theorem countP_isRepeat_fault? (source : List Char) (seen : List (List Char)) (label : List Char) :
    (fault? source seen (String.ofList label)).toList.countP SectionFault.isRepeat =
      if label ≠ [] ∧ label ∈ seen then 1 else 0 := by
  unfold fault?
  rw [String.toList_ofList]
  by_cases hnil : label = []
  · have hnot : ¬(label ≠ [] ∧ label ∈ seen) := fun h => h.1 hnil
    rw [if_pos (by rw [hnil]), if_neg hnot]
    rfl
  · rw [if_neg (by simpa using hnil)]
    by_cases hmem : label ∈ seen
    · have hboth : label ≠ [] ∧ label ∈ seen := ⟨hnil, hmem⟩
      rw [if_pos hmem, if_pos hboth]
      rfl
    · have hnot : ¬(label ≠ [] ∧ label ∈ seen) := fun h => hmem h.2
      rw [if_neg hmem, if_neg hnot]
      split <;> rfl

/-! ## All markers -/

/-- The warnings of markers with their lines, if the labels `seen` occurred before them. -/
def warnings (source : List Char) (seen : List (List Char)) :
    List (List Char × Nat) → List SectionWarning
  | [] => []
  | (label, n) :: ms =>
    (fault? source seen (String.ofList label)).toList.map (fun fault => ⟨fault, n⟩)
      ++ warnings source (label :: seen) ms

theorem checkMarkers_eq (script : String) (source : List Char) (seen : List (List Char))
    (ms : List (List Char × Nat)) :
    checkMarkers script source seen ms =
      (warnings source seen ms).map (SectionWarning.finding script) := by
  induction ms generalizing seen with
  | nil => rfl
  | cons m ms ih =>
    obtain ⟨label, n⟩ := m
    have hmarker := checkMarker_eq script source seen (String.ofList label) n
    rw [String.toList_ofList] at hmarker
    rw [checkMarkers, warnings, List.map_append, ih, hmarker]
    cases fault? source seen (String.ofList label) <;> rfl

/-- The warnings stand in the order of the markers. -/
theorem sublist_line_warnings (source : List Char) (seen : List (List Char))
    (ms : List (List Char × Nat)) :
    ((warnings source seen ms).map SectionWarning.line).Sublist (ms.map Prod.snd) := by
  induction ms generalizing seen with
  | nil => exact .slnil
  | cons m ms ih =>
    obtain ⟨label, n⟩ := m
    rw [warnings]
    cases fault? source seen (String.ofList label) with
    | none => exact (ih _).cons n
    | some fault => exact (ih _).cons_cons n

/-- The labels that are not empty. -/
def named (labels : List (List Char)) : List (List Char) := labels.filter fun l => !l.isEmpty

theorem named_cons {label : List Char} (h : label ≠ []) (labels : List (List Char)) :
    named (label :: labels) = label :: named labels := List.filter_cons_of_pos (by simpa using h)

theorem mem_named {label : List Char} (h : label ≠ []) {labels : List (List Char)} :
    label ∈ named labels ↔ label ∈ labels := by
  simp [named, h]

/-- **A label that is not empty is new, or there is a warning that it is repeated.** -/
theorem countP_isRepeat_warnings (source : List Char) (seen : List (List Char))
    (ms : List (List Char × Nat)) :
    (warnings source seen ms).countP (fun w => w.fault.isRepeat) +
        (named (ms.map Prod.fst) ++ named seen).toFinset.card =
      (named seen).toFinset.card + (named (ms.map Prod.fst)).length := by
  induction ms generalizing seen with
  | nil => simp [warnings, named]
  | cons m ms ih =>
    obtain ⟨label, n⟩ := m
    have hrest := ih (label :: seen)
    rw [warnings, List.countP_append, List.countP_map, List.map_cons]
    show (fault? source seen (String.ofList label)).toList.countP SectionFault.isRepeat + _ + _ = _
    rw [countP_isRepeat_fault?]
    by_cases hnil : label = []
    · subst hnil
      rw [if_neg (fun h => h.1 rfl), Nat.zero_add]
      exact hrest
    · have hperm : (named (ms.map Prod.fst) ++ label :: named seen).Perm
          (label :: named (ms.map Prod.fst) ++ named seen) := List.perm_middle
      rw [named_cons hnil, List.toFinset_eq_of_perm _ _ hperm, List.toFinset_cons] at hrest
      rw [named_cons hnil, List.length_cons]
      by_cases hmem : label ∈ seen
      · have hseen : label ∈ (named seen).toFinset :=
          List.mem_toFinset.mpr ((mem_named hnil).mpr hmem)
        rw [if_pos ⟨hnil, hmem⟩]
        rw [Finset.insert_eq_of_mem hseen] at hrest
        omega
      · have hseen : label ∉ (named seen).toFinset := fun h =>
          hmem ((mem_named hnil).mp (List.mem_toFinset.mp h))
        rw [if_neg fun h => hmem h.2]
        rw [Finset.card_insert_of_notMem hseen] at hrest
        omega

/-- The markers among lines that are numbered from a number on. -/
def markersFrom (n : Nat) (ls : List (List Char)) : List (List Char × Nat) :=
  (ls.zipIdx n).filterMap fun l => (markerLabel? l.1).map fun label => (label, l.2)

theorem markersFrom_cons (n : Nat) (l : List Char) (ls : List (List Char)) :
    markersFrom n (l :: ls) =
      ((markerLabel? l).map fun label => (label, n)).toList ++ markersFrom (n + 1) ls := by
  unfold markersFrom
  rw [List.zipIdx_cons, List.filterMap_cons]
  cases markerLabel? l <;> rfl

/-- The labels are those of the markers, without the empty ones. -/
theorem named_markers (source : List Char) :
    named ((markers source).map Prod.fst) = labels source := by
  have hlabels : (markers source).map Prod.fst = (lines source).filterMap markerLabel? := by
    rw [← List.zipIdx_map_fst 1 (lines source), List.filterMap_map]
    unfold markers numberedLines
    rw [List.map_filterMap]
    refine List.filterMap_congr fun l _ => ?_
    rw [Option.map_map]
    exact Option.map_id_apply
  rw [hlabels]
  rfl

theorem pairwise_markers (source : List Char) :
    ((markers source).map Prod.snd).Pairwise (· < ·) := by
  have hlt : (numberedLines source).Pairwise fun l k => l.2 < k.2 := by
    have h : (List.range' 1 (lines source).length).Pairwise (· < ·) := List.pairwise_lt_range'
    rw [← List.zipIdx_map_snd 1 (lines source), List.pairwise_map] at h
    exact h
  rw [List.pairwise_map]
  refine hlt.filterMap _ fun l k hlk a ha b hb => ?_
  obtain ⟨-, -, rfl⟩ := Option.map_eq_some_iff.mp ha
  obtain ⟨-, -, rfl⟩ := Option.map_eq_some_iff.mp hb
  exact hlk

/-- **The warnings of the lines from a place on are those that are due there.** -/
theorem mem_warnings_iff {seen ls : List (List Char)} (hlines : lines source = before ++ ls)
    (hseen : SeenIn seen before) {w : SectionWarning} :
    w ∈ warnings source seen (markersFrom (before.length + 1) ls) ↔
      Due source w ∧ before.length < w.line := by
  induction ls generalizing before seen with
  | nil =>
    refine iff_of_false List.not_mem_nil ?_
    rintro ⟨⟨before', line, after, hlines', -, hline⟩, hlt⟩
    have hlength := congrArg List.length (hlines'.symm.trans hlines)
    simp only [List.append_nil, List.length_append, List.length_cons] at hlength
    omega
  | cons l ls ih =>
    have hlines' : lines source = (before ++ [l]) ++ ls := by
      rw [hlines, List.append_assoc]
      rfl
    rw [due_from_iff hlines, markersFrom_cons]
    cases hlabel : markerLabel? l with
    | none =>
      have hnot : ∀ label, ¬Marks label l := fun label hmarks => by
        rw [markerLabel?_eq_some_iff.mpr hmarks] at hlabel
        cases hlabel
      have hfaulty : ¬Faulty source before l w.fault := fun h => by
        obtain ⟨label, hmarks⟩ := h.exists_marks
        exact hnot label hmarks
      have hrest := ih hlines' (hseen.concat_of_not_marks hnot)
      rw [List.length_append, List.length_singleton] at hrest
      rw [Option.map_none, Option.toList_none, List.nil_append, hrest]
      exact ⟨.inr, fun h => h.resolve_left fun hl => hfaulty hl.1⟩
    | some label =>
      have hmarks : Marks label l := markerLabel?_eq_some_iff.mp hlabel
      have hrest := ih hlines' (hseen.concat hmarks)
      rw [List.length_append, List.length_singleton] at hrest
      have hfault : ∀ fault, fault ∈ fault? source seen (String.ofList label) ↔
          Faulty source before l fault :=
        fun _ => mem_fault?_iff hlines (by rwa [String.toList_ofList]) hseen
      show w ∈ warnings source seen ((label, before.length + 1) :: markersFrom _ ls) ↔ _
      rw [warnings, List.mem_append, hrest, List.mem_map]
      refine or_congr_left ?_
      constructor
      · rintro ⟨fault, hmem, rfl⟩
        exact ⟨(hfault fault).mp (Option.mem_toList.mp hmem), rfl⟩
      · rintro ⟨hfaulty, hline⟩
        exact ⟨w.fault, Option.mem_toList.mpr ((hfault _).mpr hfaulty), by rw [← hline]⟩

/-! ## The result -/

theorem isSome_quoted_checkSegment {script : String} {ms : List Nat} {s : Segment} {f : Finding}
    (h : checkSegment script ms s = some f) : f.quoted.isSome = true := by
  cases s with
  | text cs n =>
    unfold checkSegment checkText at h
    dsimp only at h
    split at h
    · cases h
      rfl
    · cases h
  | tag inner n =>
    rw [checkSegment, checkTag_eq] at h
    obtain ⟨r, -, rfl⟩ := Option.map_eq_some_iff.mp h
    cases r <;> rfl

/-- Without a warning every section is the only one with its label, is found, and has content. -/
theorem sound_of_not_due (h : ∀ w, ¬Due source w)
    (hlines : lines source = before ++ line :: after) (hmarker : line.head? = some '#') :
    ∃ label body rest, label ≠ "" ∧ Frames source label.toList before line body rest ∧
      trim body.flatten ≠ [] ∧ section? source (some label) = .ok (trim body.flatten) := by
  obtain ⟨rest, rfl⟩ := List.head?_eq_some_iff.mp hmarker
  have hnot : ∀ fault, ¬Faulty source before ('#' :: rest) fault := fun fault hfaulty =>
    h ⟨fault, before.length + 1⟩ ⟨before, _, after, hlines, hfaulty, rfl⟩
  have hmarks : Marks (String.ofList (trim rest)).toList ('#' :: rest) :=
    ⟨rest, rfl, by rw [String.toList_ofList]⟩
  generalize String.ofList (trim rest) = label at hmarks
  have hnamed : label ≠ "" := fun hnil => hnot _ (.unnamed (by rwa [hnil] at hmarks))
  have hfirst : ∀ l ∈ before, ¬Marks label.toList l := fun l hl hl' =>
    hnot _ (.repeated hnamed hmarks ⟨l, hl, hl'⟩)
  obtain ⟨body, rest, hframes⟩ := exists_frames_of_first hlines hmarks hfirst
  refine ⟨label, body, rest, hnamed, hframes, fun hempty => ?_, hframes.section?_eq⟩
  rw [trim_eq_nil_iff, blank_flatten_iff] at hempty
  exact hnot _ (.hollow hnamed hframes hempty)

/--
**What checking says about sections is exact.**

Behind what is said about segments, which always quotes something, stand the warnings of sections
that are due, and no others, in the order of the lines, one for a line at most. There are as many
warnings of a repeated label as there are labels more than different ones. If there are no warnings,
then the sections have different labels, each of them can be loaded, and none is empty.
-/
theorem section_warnings_exact (script : String) (source : List Char) :
    ∃ (said : List Finding) (ws : List SectionWarning),
      check script source = said ++ ws.map (SectionWarning.finding script) ∧
      (∀ f ∈ said, f.quoted.isSome = true) ∧ WarnsExactly source ws := by
  have hdue : ∀ w, w ∈ warnings source [] (markers source) ↔ Due source w := by
    intro w
    have hseen : SeenIn [] [] := fun label => by simp
    refine (mem_warnings_iff (show lines source = [] ++ lines source from rfl) hseen).trans ?_
    refine and_iff_left_of_imp ?_
    rintro ⟨before, line, after, -, -, hline⟩
    rw [hline]
    exact Nat.succ_pos _
  have hcount := countP_isRepeat_warnings source [] (markers source)
  rw [named_markers] at hcount
  refine ⟨(segments source).filterMap (checkSegment script (markerLines source)),
    warnings source [] (markers source), ?_, ?_, ⟨hdue, ?_, ?_, fun hnil => ⟨?_, ?_⟩⟩⟩
  · rw [check, checkMarkers_eq]
  · intro f hf
    obtain ⟨s, -, hs⟩ := List.mem_filterMap.mp hf
    exact isSome_quoted_checkSegment hs
  · have hsorted := (pairwise_markers source).sublist
      (sublist_line_warnings source [] (markers source))
    exact List.pairwise_map.mp hsorted
  · simpa [named] using hcount
  · have hcard : (labels source).toFinset.card = (labels source).length := by
      simpa [hnil, named] using hcount
    exact Multiset.coe_nodup.mp (Multiset.toFinset_card_eq_card_iff_nodup.mp hcard)
  · intro before line after hlines hmarker
    refine sound_of_not_due (fun w hw => ?_) hlines hmarker
    have hmem := (hdue w).mpr hw
    rw [hnil] at hmem
    exact List.not_mem_nil hmem

example : check "s" "#A\nhello\n#A\nagain\n# B \n \n#\nx\n#B".toList =
    [⟨.repeated "A", 3⟩, ⟨.hollow "B", 5⟩, ⟨.unnamed, 7⟩, ⟨.repeated "B", 9⟩].map
      (SectionWarning.finding "s") := by
  decide +kernel

end DialogueBox.Lint
