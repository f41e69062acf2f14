import DialogueBox.Lint.Analysis
import DialogueBox.Proofs.Markup.Compile

/-!
# Checking sees what compiling does

Checking reads the segments of a source by itself. It could miss a tag that compiling drops, or warn
of one that compiling takes. It does neither (`check_agrees`): what it says about tags is what
compiling drops, in order, and the colours that are not known; it notes an opening bracket where the
compiled script shows one; and the resources that it lists are those that the script asks for.

Each segment gives cause to say one thing at most, which is settled for the segment alone
(`checkTag_eq`, `brackets_lineSegments`). So the lists agree because they are read off the same
segments.
-/

namespace DialogueBox.Lint

open Markup Text

/-! ## Remarks about tags -/

/-- A colour tag whose value names no colour. -/
structure UnknownColor where
  line : Nat
  /-- The tag with its brackets. -/
  tag : String
  /-- The value of the tag, trimmed. -/
  name : String

/-- The colour tag that a segment is, if it names no colour. -/
def unknownColor? : Segment → Option UnknownColor
  | .text _ _ => none
  | .tag inner line =>
    if Tag.ofText? (splitTag inner).1 = some .color ∧
        Color.ofText? ((splitTag inner).2.getD []) = none then
      some ⟨line, String.ofList (bracketed inner), String.ofList ((splitTag inner).2.getD [])⟩
    else none

/-- What there is to say about a tag. -/
inductive Remark
  | dropped (d : DroppedTag)
  | unknownColor (c : UnknownColor)

/-- How grave it is that a tag is dropped. -/
def severityOf : TagFault → Severity
  | .unknown _ => .warning
  | .missingValue _ => .error
  | .invalidValue _ _ _ => .error

namespace Remark

/-- The finding that makes a remark. -/
def finding (script : String) : Remark → Finding
  | dropped d => ⟨severityOf d.fault, script, some d.line, d.fault.message ++ "，标签将被忽略",
      some d.tag⟩
  | unknownColor c => ⟨.warning, script, some c.line,
      "未识别的颜色 '" ++ c.name ++ "'，将使用白色", some c.tag⟩

def dropped? : Remark → Option DroppedTag
  | dropped d => some d
  | unknownColor _ => none

def unknownColor? : Remark → Option UnknownColor
  | dropped _ => none
  | unknownColor c => some c

end Remark

/-- The remark about a segment. -/
def remark? (s : Segment) : Option Remark :=
  (s.dropped?.map .dropped).or ((unknownColor? s).map .unknownColor)

theorem readTag_of_color {inner : List Char} (h : Tag.ofText? (splitTag inner).1 = some .color) :
    readTag inner = .ok (.color (Color.ofText ((splitTag inner).2.getD []))) := by
  rw [readTag, h]
  rfl

theorem unknownColor?_of_dropped {s : Segment} {d : DroppedTag} (h : s.dropped? = some d) :
    unknownColor? s = none := by
  cases s with
  | text cs n => rfl
  | tag inner n =>
    refine if_neg fun hcolor => ?_
    rw [Segment.dropped?, readTag_of_color hcolor.1] at h
    cases h

theorem dropped?_remark? (s : Segment) : (remark? s).bind Remark.dropped? = s.dropped? := by
  unfold remark?
  cases s.dropped? with
  | some d => rfl
  | none => cases unknownColor? s <;> rfl

theorem unknownColor?_remark? (s : Segment) :
    (remark? s).bind Remark.unknownColor? = unknownColor? s := by
  unfold remark?
  cases h : s.dropped? with
  | some d => exact (unknownColor?_of_dropped h).symm
  | none => cases unknownColor? s <;> rfl

theorem remark?_of_error {inner : List Char} {fault : TagFault} (h : readTag inner = .error fault)
    (n : Nat) :
    remark? (.tag inner n) = some (.dropped ⟨n, String.ofList (bracketed inner), fault⟩) := by
  unfold remark? Segment.dropped?
  dsimp only
  rw [h]
  rfl

theorem remark?_of_ok {inner : List Char} {i : Instruction} (h : readTag inner = .ok i) (n : Nat) :
    remark? (.tag inner n) = (unknownColor? (.tag inner n)).map .unknownColor := by
  unfold remark? Segment.dropped?
  dsimp only
  rw [h]
  rfl

theorem severityOf_eq (fault : TagFault) :
    (if fault.isOfValue then Severity.error else .warning) = severityOf fault := by
  cases fault <;> rfl

/-- **Checking a tag makes the remark about it.** An unknown colour is white, and so only a tag that
sets white can name one. -/
theorem checkTag_eq (script : String) (inner : List Char) (n : Nat) :
    checkTag script inner n = (remark? (.tag inner n)).map (Remark.finding script) := by
  unfold checkTag
  dsimp only
  split
  · next hread =>
    obtain ⟨t, ht, hcolor⟩ := tagOf?_of_readTag hread
    cases hcolor
    rw [remark?_of_ok hread, unknownColor?]
    cases hname : Color.ofText? ((splitTag inner).2.getD []) with
    | none => rw [if_neg (by simp), if_pos ⟨ht, rfl⟩]; rfl
    | some c => rw [if_pos (by simp), if_neg (by simp)]; rfl
  · next i hwhite hread =>
    -- a colour tag with an unknown colour would have set white
    have hknown : unknownColor? (.tag inner n) = none := by
      refine if_neg fun hcolor => hwhite ?_
      have hset := readTag_of_color hcolor.1
      rw [Color.ofText, hcolor.2] at hset
      exact Except.ok.inj (hread.symm.trans hset)
    rw [remark?_of_ok hread, hknown]
    rfl
  · next fault hread =>
    rw [remark?_of_error hread, severityOf_eq]
    rfl

/-! ## Open brackets -/

/-- The line of a segment, if it is plain text with an opening bracket. -/
def openBracket? : Segment → Option Nat
  | .text cs n => if cs.contains '[' then some n else none
  | .tag _ _ => none

theorem charInstruction?_eq_bracket {c : Char} :
    charInstruction? c = some (.char '[') ↔ c = '[' := by
  unfold charInstruction?
  constructor
  · intro h
    split at h
    · cases h
    · split at h
      · cases h
      · cases h
        rfl
  · rintro rfl
    rfl

theorem bracket_mem_instructions {s : Segment} :
    .char '[' ∈ s.instructions ↔ openBracket? s = some s.line := by
  cases s with
  | text cs n =>
    have hmem : .char '[' ∈ cs.filterMap charInstruction? ↔ '[' ∈ cs := by
      simp only [List.mem_filterMap, charInstruction?_eq_bracket, exists_eq_right]
    simp [Segment.instructions, openBracket?, hmem, Segment.line]
  | tag inner n =>
    constructor
    · intro h
      rw [Segment.instructions] at h
      cases hread : readTag inner with
      | error fault => rw [hread] at h; cases h
      | ok i =>
        rw [hread] at h
        cases List.mem_singleton.mp h
        cases plainChar?_of_readTag hread
    · intro h
      cases h

theorem openBracket?_textSegment (cs : List Char) (n : Nat) :
    (textSegment cs n).filterMap openBracket? = if cs.contains '[' then [n] else [] := by
  unfold textSegment
  cases cs with
  | nil => rfl
  | cons c cs =>
    rw [if_neg (by simp), List.filterMap_cons, openBracket?]
    cases (c :: cs).contains '[' <;> rfl

/-- Before a tag no bracket opens, so only behind the last tag of a line one can stand open. -/
theorem brackets_lineSegments (n : Nat) (l : List Char) :
    (lineSegments n l).filterMap openBracket? = [] ∨
      (lineSegments n l).filterMap openBracket? = [n] := by
  fun_induction lineSegments n l with
  | case1 l h =>
    rw [openBracket?_textSegment]
    split
    · exact .inr rfl
    · exact .inl rfl
  | case2 l t h ih =>
    have hbefore : t.before.contains '[' = false := by
      simpa using (brackets_of_findTag? h).1
    rw [List.filterMap_append, openBracket?_textSegment, hbefore]
    exact ih

/-- Whether a script shows an opening bracket that comes from a line. -/
def showsBracket (s : Script) (n : Nat) : Bool := (located s).contains (.char '[', some n)

theorem showsBracket_compile {t : List Char} {l : List Char × Nat} (hl : l ∈ numberedLines t) :
    showsBracket (compile t).script l.2 = true ↔ l.2 ∈ (segmentsOf l).filterMap openBracket? := by
  rw [showsBracket, List.contains_iff_mem, mem_located, emitted_eq, List.mem_filterMap,
    List.mem_flatMap]
  refine exists_congr fun s => ?_
  rw [mem_segmentsOf hl, and_assoc]
  refine and_congr_right fun _ => ?_
  rw [List.mem_map]
  constructor
  · rintro ⟨i, hi, he⟩
    obtain ⟨rfl, hline⟩ := Prod.mk.inj he
    rw [← hline]
    exact ⟨rfl, bracket_mem_instructions.mp hi⟩
  · rintro ⟨hline, hs⟩
    rw [← hline] at hs ⊢
    exact ⟨_, bracket_mem_instructions.mpr hs, rfl⟩

theorem brackets_segmentsOf {t : List Char} {l : List Char × Nat} (hl : l ∈ numberedLines t) :
    (segmentsOf l).filterMap openBracket? =
      if showsBracket (compile t).script l.2 then [l.2] else [] := by
  have hcases : (segmentsOf l).filterMap openBracket? = [] ∨
      (segmentsOf l).filterMap openBracket? = [l.2] := by
    unfold segmentsOf
    split
    · exact .inl rfl
    · exact brackets_lineSegments l.2 l.1
  split
  · next h =>
    rcases hcases with hnil | hone
    · rw [showsBracket_compile hl, hnil] at h
      cases h
    · exact hone
  · next h =>
    rw [showsBracket_compile hl] at h
    rcases hcases with hnil | hone
    · exact hnil
    · rw [hone] at h
      exact absurd (List.mem_singleton_self _) h

theorem brackets_segments (t : List Char) :
    (segments t).filterMap openBracket? =
      ((numberedLines t).filter fun l => showsBracket (compile t).script l.2).map Prod.snd := by
  rw [segments_eq_segmentsOf, List.filterMap_flatMap,
    List.flatMap_congr fun l hl => brackets_segmentsOf hl]
  induction numberedLines t with
  | nil => rfl
  | cons l ls ih =>
    rw [List.flatMap_cons, List.filter_cons, ih]
    split <;> rfl

/-! ## Findings -/

/-- A finding is about a tag: it quotes something, and it is graver than a note. -/
def Finding.isOfTag (f : Finding) : Bool := f.severity != .info && f.quoted.isSome

/-- A finding is a note. -/
def Finding.isNote (f : Finding) : Bool := f.severity == .info

theorem isOfTag_finding (script : String) (r : Remark) : (r.finding script).isOfTag = true := by
  cases r with
  | dropped d =>
    show (severityOf d.fault != .info && true) = true
    cases d.fault <;> rfl
  | unknownColor c => rfl

theorem isNote_of_isOfTag {f : Finding} (h : f.isOfTag = true) : f.isNote = false := by
  simp_all [Finding.isOfTag, Finding.isNote]

/-- What is said about markers is neither about a tag nor a note. -/
theorem marker_finding {script : String} {source label : List Char} {seen : List (List Char)}
    {n : Nat} {f : Finding} (h : checkMarker script source seen label n = some f) :
    f.severity = .warning ∧ f.quoted = none := by
  unfold checkMarker at h
  split at h
  · cases h; exact ⟨rfl, rfl⟩
  · split at h
    · cases h; exact ⟨rfl, rfl⟩
    · split at h
      · cases h; exact ⟨rfl, rfl⟩
      · cases h

theorem markers_finding {script : String} {source : List Char} {seen : List (List Char)}
    {ms : List (List Char × Nat)} {f : Finding} (h : f ∈ checkMarkers script source seen ms) :
    f.severity = .warning ∧ f.quoted = none := by
  induction ms generalizing seen with
  | nil => cases h
  | cons m ms ih =>
    rw [checkMarkers] at h
    rcases List.mem_append.mp h with h | h
    · exact marker_finding (Option.mem_toList.mp h)
    · exact ih h

/-- Checking says of a segment what there is to remark, or notes an open bracket. -/
theorem filter_check {p : Finding → Bool}
    (h : ∀ f, f.severity = .warning → f.quoted = none → p f = false) (script : String)
    (source : List Char) :
    (check script source).filter p = (segments source).filterMap fun s =>
      (checkSegment script (markerLines source) s).filter p := by
  have hmarkers : (checkMarkers script source [] (markers source)).filter p = [] := by
    rw [List.filter_eq_nil_iff]
    intro f hf
    obtain ⟨hseverity, hquoted⟩ := markers_finding hf
    rw [h f hseverity hquoted]
    exact Bool.false_ne_true
  rw [check, List.filter_append, hmarkers, List.append_nil, List.filter_filterMap]

theorem tag_findings (script : String) (source : List Char) :
    (check script source).filter Finding.isOfTag =
      ((segments source).filterMap remark?).map (Remark.finding script) := by
  rw [filter_check (fun f _ hquoted => by simp [Finding.isOfTag, hquoted]), List.map_filterMap]
  refine List.filterMap_congr fun s _ => ?_
  cases s with
  | text cs n =>
    show (checkText ..).filter _ = none
    unfold checkText
    split <;> rfl
  | tag inner n =>
    show (checkTag ..).filter _ = _
    rw [checkTag_eq]
    cases remark? (.tag inner n) with
    | none => rfl
    | some r => exact if_pos (isOfTag_finding script r)

theorem lines_notes (script : String) (source : List Char) :
    ((check script source).filter Finding.isNote).map Finding.line =
      (((segments source).filterMap openBracket?).filter
        fun n => !(markerLines source).contains n).map some := by
  rw [filter_check (fun f hseverity _ => by simp [Finding.isNote, hseverity]), List.map_filterMap,
    List.filter_filterMap, List.map_filterMap]
  refine List.filterMap_congr fun s _ => ?_
  cases s with
  | text cs n =>
    unfold checkSegment checkText openBracket?
    dsimp only
    cases cs.contains '[' with
    | false => rfl
    | true =>
      rw [Bool.true_and, if_pos rfl, Option.filter_some]
      cases (markerLines source).contains n <;> rfl
  | tag inner n =>
    show ((checkTag ..).filter _).map _ = none
    rw [checkTag_eq]
    cases remark? (.tag inner n) with
    | none => rfl
    | some r =>
      rw [Option.map_some, Option.filter_some, isNote_of_isOfTag (isOfTag_finding script r)]
      rfl

theorem contains_markerLines {t : List Char} {l : List Char × Nat} (hl : l ∈ numberedLines t) :
    (markerLines t).contains l.2 = isMarker l.1 := by
  rw [Bool.eq_iff_iff, List.contains_iff_mem, markerLines, List.mem_map]
  constructor
  · rintro ⟨k, hk, hline⟩
    obtain ⟨hk, hmarker⟩ := List.mem_filter.mp hk
    rwa [← eq_of_mem_numberedLines hk hl hline]
  · exact fun h => ⟨l, List.mem_filter.mpr ⟨hl, h⟩, rfl⟩

/-- A bracket on a marker line is shown as well, but not noted. -/
theorem notes_check (script : String) (source : List Char) :
    ((check script source).filter Finding.isNote).map Finding.line =
      ((numberedLines source).filter fun l =>
        !isMarker l.1 && showsBracket (compile source).script l.2).map fun l => some l.2 := by
  rw [lines_notes, brackets_segments, List.filter_map, List.filter_filter, List.map_map]
  refine congrArg (List.map _) (List.filter_congr fun l hl => ?_)
  rw [Function.comp_apply, contains_markerLines hl]

theorem errors_check (script : String) (source : List Char) :
    (check script source).filter (fun f => f.severity == .error) =
      ((compile source).dropped.filter fun d => severityOf d.fault == .error).map fun d =>
        (Remark.dropped d).finding script := by
  show _ = (((segments source).filterMap Segment.dropped?).filter _).map _
  rw [filter_check (fun f hseverity _ => by rw [hseverity]; rfl), List.filter_filterMap,
    List.map_filterMap]
  refine List.filterMap_congr fun s _ => ?_
  cases s with
  | text cs n =>
    unfold checkSegment checkText
    dsimp only
    split <;> rfl
  | tag inner n =>
    show (checkTag ..).filter _ = _
    rw [checkTag_eq, ← dropped?_remark?]
    cases remark? (.tag inner n) with
    | none => rfl
    | some r =>
      cases r with
      | unknownColor c => rfl
      | dropped d =>
        rw [Option.map_some, Option.bind_some, Remark.dropped?, Option.filter_some,
          Option.filter_some, Remark.finding]
        split <;> rfl

theorem hasErrors_check (script : String) (source : List Char) :
    hasErrors (check script source) = true ↔
      ∃ d ∈ (compile source).dropped, severityOf d.fault = .error := by
  rw [hasErrors, decide_eq_true_iff, count, List.countP_eq_length_filter, errors_check,
    List.length_map, List.length_pos_iff_exists_mem]
  simp

/-! ## Resources -/

/-- What an instruction asks for: the icon that it shows, or the font that it sets by its name. -/
inductive AsksFor : Instruction → ResourceKind → String → Prop
  | icon (id : String) : AsksFor (.icon id) .icon id
  | font (id : String) : AsksFor (.font (some id)) .font id

theorem resource?_eq_some_iff {i : Instruction} {kind : ResourceKind} {id : String} :
    resource? i = some (kind, id) ↔ AsksFor i kind id := by
  constructor
  · intro h
    unfold resource? at h
    split at h
    · cases h
      exact .icon _
    · cases h
      exact .font _
    · cases h
  · rintro (_ | _) <;> rfl

theorem resource?_eq_none_iff {i : Instruction} :
    resource? i = none ↔ ∀ kind id, ¬AsksFor i kind id := by
  simp only [← resource?_eq_some_iff, Option.eq_none_iff_forall_ne_some, Prod.forall, ne_eq]

/-- The resource that an instruction of a line asks for. -/
def use? (p : Instruction × Nat) : Option ResourceUse :=
  (resource? p.1).map fun r => ⟨r.1, r.2, p.2⟩

theorem resourceUses_eq (t : List Char) : resourceUses t = (emitted t).filterMap use? := by
  rw [emitted_eq, List.filterMap_flatMap]
  refine List.flatMap_congr fun s _ => ?_
  rw [List.filterMap_map]
  rfl

/-- What an instruction of a compiled text asks for is among the resources of the text. -/
theorem mem_resourceUses_of_asksFor {t : List Char} {i : Instruction} {kind : ResourceKind}
    {id : String} (hi : i ∈ (compile t).script.instructions) (h : AsksFor i kind id) :
    ∃ n, ⟨kind, id, n⟩ ∈ resourceUses t := by
  rcases mem_emitted_of_mem_compile hi with ⟨n, hn⟩ | rfl
  · refine ⟨n, ?_⟩
    rw [resourceUses_eq]
    refine List.mem_filterMap.mpr ⟨_, hn, ?_⟩
    rw [use?, resource?_eq_some_iff.mpr h]
    rfl
  · cases h

/-! ## The agreement -/

/-- Checking a source agrees with compiling it. -/
structure Agrees (script : String) (source : List Char) : Prop where
  /-- What is said about tags are remarks: one for each tag that is dropped, and one for each colour
  tag that names no colour, both in their order. -/
  tags : ∃ rs : List Remark,
    (check script source).filter Finding.isOfTag = rs.map (Remark.finding script) ∧
      rs.filterMap Remark.dropped? = (compile source).dropped ∧
      rs.filterMap Remark.unknownColor? = (segments source).filterMap unknownColor?
  errors : hasErrors (check script source) = true ↔
    ∃ d ∈ (compile source).dropped, severityOf d.fault = .error
  /-- There is one note for each line without a marker in which the script shows an opening
  bracket. -/
  notes : ((check script source).filter Finding.isNote).map Finding.line =
    ((numberedLines source).filter fun l =>
      !isMarker l.1 && showsBracket (compile source).script l.2).map fun l => some l.2
  /-- The resources that are listed are the icons that the script shows and the fonts that it sets
  by their names, in their order. -/
  uses : (resourceUses source).map (fun u => ((u.kind, u.id), some u.line)) =
    (located (compile source).script).filterMap fun
      | (.icon id, n) => some ((.icon, id), n)
      | (.font (some id), n) => some ((.font, id), n)
      | _ => none

/-- **Checking sees exactly what compiling does.** It reports the tags that are dropped, and only
those as errors whose value is at fault; beside them only the colours that are not known; the
brackets that stand open; and the resources that the compiled script asks for. -/
theorem check_agrees (script : String) (source : List Char) : Agrees script source where
  tags := by
    refine ⟨(segments source).filterMap remark?, tag_findings script source, ?_, ?_⟩
    · rw [List.filterMap_filterMap]
      exact List.filterMap_congr fun s _ => dropped?_remark? s
    · rw [List.filterMap_filterMap]
      exact List.filterMap_congr fun s _ => unknownColor?_remark? s
  errors := hasErrors_check script source
  notes := notes_check script source
  uses := by
    rw [resourceUses_eq, filterMap_located rfl, List.map_filterMap]
    refine List.filterMap_congr fun p _ => ?_
    obtain ⟨i, n⟩ := p
    unfold use?
    dsimp only
    cases hasked : resource? i with
    | some r =>
      obtain ⟨kind, id⟩ := r
      cases resource?_eq_some_iff.mp hasked <;> rfl
    | none =>
      have hnot := resource?_eq_none_iff.mp hasked
      split
      · next hicon => cases hicon; exact absurd (.icon _) (hnot _ _)
      · next hfont => cases hfont; exact absurd (.font _) (hnot _ _)
      · rfl

example : (check "s" "#a[\n[huh]a[color: reed]b[\n;[\n[size]".toList).map
    (fun f => (f.severity, f.line)) =
      [(.warning, some 2), (.warning, some 2), (.info, some 2), (.error, some 4)] := by
  decide +kernel

end DialogueBox.Lint
