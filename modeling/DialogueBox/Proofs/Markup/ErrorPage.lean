import DialogueBox.Proofs.Markup.Sections
import DialogueBox.Proofs.Markup.Slice
import DialogueBox.Proofs.Playback.Step

/-!
# Error pages

The page that tells that a label is missing has the message in it, which has the label in it; and a
label may be any text. The brackets of the message are made round, so that there are no tags in it.
But there may be line feeds, and then a line may begin with a semicolon. Such a line is a comment.
It is not shown, and if it is the last one, then what is written behind the message goes as well.

That is all that can happen to a message (`compile_errorPage`). It is shown as a whole if none of
its lines is a comment (`instructions_of_no_comment`), as it is if the label is a single line
(`not_isComment_of_singleLine`).
-/

namespace DialogueBox.Markup

open Text

/-! ## Messages on their pages -/

/-- A square bracket as a round one. -/
def roundBracket (c : Char) : Char := if c = '[' then '(' else if c = ']' then ')' else c

/-- The message as its page writes it. -/
def MissingLabel.wording (e : MissingLabel) : List Char := e.message.toList.map roundBracket

/-- What is left of a text without its comment lines. -/
def spoken (s : List Char) : List Char := ((lines s).filter fun l => !isComment l).flatten

/-- The last line of a text is a comment. -/
def endsInComment (s : List Char) : Bool := (lines s).getLast?.any isComment

/-- The instructions of a page that shows a text in red. -/
def redPage (s : List Char) : List Instruction :=
  .color .red :: s.filterMap charInstruction? ++ [.reset, .next 0]

theorem errorPage_eq (e : MissingLabel) :
    errorPage e = "[color:red]".toList ++ (e.wording ++ "[reset][next]".toList) :=
  List.append_assoc ..

theorem wording_eq (e : MissingLabel) :
    e.wording = "标签 '#".toList ++ (e.label.toList.map roundBracket ++ "' 未找到".toList) := by
  unfold MissingLabel.wording MissingLabel.message
  rw [String.toList_append, String.toList_append, List.map_append, List.map_append,
    List.append_assoc]
  rfl

theorem roundBracket_ne (c : Char) : roundBracket c ≠ '[' := by
  unfold roundBracket
  split
  · decide
  · split
    · decide
    · assumption

theorem bracket_notMem_wording (e : MissingLabel) : '[' ∉ e.wording := by
  unfold MissingLabel.wording
  rw [List.mem_map]
  rintro ⟨c, -, hc⟩
  exact roundBracket_ne c hc

/-! ## What lines yield -/

theorem findTag?_bracketed {inner : List Char} (h : ']' ∉ inner) (s : List Char) :
    findTag? (bracketed inner ++ s) = some ⟨[], inner, s⟩ := by
  have hopen : splitAt? '[' (bracketed inner ++ s) = some ([], inner ++ ']' :: s) := by
    rw [bracketed, List.cons_append, List.append_assoc]
    exact if_pos rfl
  have hclose : splitAt? ']' (inner ++ ']' :: s) = some (inner, s) := by
    rw [splitAt?_append_left h, splitAt?, if_pos rfl, Option.map_some, List.append_nil]
  unfold findTag?
  rw [hopen]
  dsimp only
  rw [hclose]

/-- A tag at the beginning of a line that is no comment yields first. -/
theorem yields_bracketed {inner : List Char} (h : ']' ∉ inner) (n : Nat) (s : List Char) :
    ((lineSegments n (bracketed inner ++ s)).flatMap Segment.items).filterMap Item.yield? =
      tagYield inner n :: ((lineSegments n s).flatMap Segment.items).filterMap Item.yield? := by
  rw [lineSegments_of_some (findTag?_bracketed h s)]
  rfl

theorem lineSegments_nil (n : Nat) : lineSegments n [] = [] := lineSegments_of_none rfl

/-- Without an opening bracket a line is plain text, if it is no comment. -/
theorem lineYields_plain {l : List Char} (h : '[' ∉ l) (n : Nat) :
    lineYields (l, n) = if isComment l then [] else charYields n l := by
  have hitems := items_lead h n []
  rw [List.append_nil, lineSegments_nil] at hitems
  unfold lineYields segmentsOf
  dsimp only
  split
  · rfl
  · rw [hitems]
    exact congrArg _ (List.append_nil _)

theorem lineYields_opening {l : List Char} (h : isComment l = false) (n : Nat) :
    lineYields ("[color:red]".toList ++ l, n) =
      .emitted (.color .red) n :: lineYields (l, n) := by
  have hcomment : isComment ("[color:red]".toList ++ l) = false := rfl
  have hred : tagYield "color:red".toList n = .emitted (.color .red) n := by
    unfold tagYield
    rw [show readTag "color:red".toList = .ok (.color .red) by decide +kernel]
  unfold lineYields segmentsOf
  dsimp only
  rw [h, hcomment, show "[color:red]".toList = bracketed "color:red".toList by decide +kernel,
    ← hred]
  exact yields_bracketed (by decide +kernel) n l

theorem lineYields_closing {l : List Char} (h : '[' ∉ l) {c : Char} (hc : c ∈ l)
    (hblank : isBlank c = false) (n : Nat) :
    lineYields (l ++ "[reset][next]".toList, n) =
      lineYields (l, n) ++
        if isComment l then [] else [.emitted .reset n, .emitted (.next 0) n] := by
  have htags : "[reset][next]".toList =
      bracketed "reset".toList ++ (bracketed "next".toList ++ []) := by decide +kernel
  have hreset : tagYield "reset".toList n = .emitted .reset n := by
    unfold tagYield
    rw [show readTag "reset".toList = .ok .reset by decide +kernel]
  have hnext : tagYield "next".toList n = .emitted (.next 0) n := by
    unfold tagYield
    rw [show readTag "next".toList = .ok (.next 0) by decide +kernel]
  rw [lineYields_plain h]
  unfold lineYields segmentsOf
  dsimp only
  rw [isComment_trail hc hblank]
  split
  · rfl
  · rw [items_lead h, List.filterMap_append, htags, yields_bracketed (by decide +kernel),
      yields_bracketed (by decide +kernel), lineSegments_nil, hreset, hnext]
    rfl

/-! ## What a page yields -/

/-- A text without an opening bracket yields its characters, without those of comments. -/
theorem instructions_stretch {s : List Char} (h : '[' ∉ s) (n : Nat) :
    ((stretch n s).filterMap Yield.emitted?).map Prod.fst =
        (spoken s).filterMap charInstruction? ∧
      (stretch n s).filterMap Yield.dropped? = [] := by
  have hlines : ∀ l ∈ lines s, '[' ∉ l := fun l hl hmem =>
    h (flatten_lines s ▸ List.mem_flatten.mpr ⟨l, hl, hmem⟩)
  unfold stretch spoken
  generalize lines s = ls at hlines
  induction ls generalizing n with
  | nil => exact ⟨rfl, rfl⟩
  | cons l ls ih =>
    rw [List.forall_mem_cons] at hlines
    obtain ⟨hemitted, hdropped⟩ := ih (n + 1) hlines.2
    rw [List.zipIdx_cons, List.flatMap_cons, List.filterMap_append, List.filterMap_append,
      List.map_append, hemitted, hdropped, lineYields_plain hlines.1, List.filter_cons]
    cases isComment l with
    | true => exact ⟨rfl, rfl⟩
    | false =>
      rw [if_neg Bool.false_ne_true, emitted_charYields, dropped_charYields, charsOn, List.map_map]
      refine ⟨?_, rfl⟩
      show (l.filterMap charInstruction?).map id ++ _ = (l ++ _).filterMap charInstruction?
      rw [List.map_id, List.filterMap_append]

/-- What the source of an error page yields. -/
theorem yields_errorPage (e : MissingLabel) :
    ∃ n, yields (errorPage e) = .emitted (.color .red) 1 :: (stretch 1 e.wording ++
      if endsInComment e.wording then [] else [.emitted .reset n, .emitted (.next 0) n]) := by
  have hlast : '到' ∈ e.wording.getLast? := by
    rw [wording_eq, ← List.append_assoc, List.getLast?_append_of_ne_nil _ (by decide)]
    decide +kernel
  have hhead : ∃ r, e.wording ++ "[reset][next]".toList = '标' :: r := by
    rw [wording_eq]
    exact ⟨_, rfl⟩
  obtain ⟨ls, l, hmem, -, hlines⟩ := exists_lastLine hlast (by decide)
  have hmessage : lines e.wording = ls ++ [l] := by simpa using hlines [] List.not_mem_nil
  have hbracket : '[' ∉ l := fun h => bracket_notMem_wording e <| by
    rw [← flatten_lines e.wording, hmessage]
    simp [h]
  have hcomment : endsInComment e.wording = isComment l := by
    unfold endsInComment
    rw [hmessage, List.getLast?_concat]
    rfl
  refine ⟨1 + ls.length, ?_⟩
  -- the tag in front goes to the first line, which begins with the message
  have hfront : stretch 1 ("[color:red]".toList ++ (e.wording ++ "[reset][next]".toList)) =
      .emitted (.color .red) 1 :: stretch 1 (e.wording ++ "[reset][next]".toList) := by
    obtain ⟨r, hr⟩ := hhead
    obtain ⟨x, xs, hx⟩ := List.exists_cons_of_ne_nil (lines_ne_nil (List.cons_ne_nil '标' r))
    have hfirst : x.head? = some '标' :=
      head?_lines_cons (by decide) r x (by rw [hx]; rfl)
    have hno : isComment x = false := by
      obtain ⟨y, rfl⟩ := List.head?_eq_some_iff.mp hfirst
      rfl
    rw [hr, stretch, stretch, lines_append_of_notMem (by decide +kernel) hx, hx, List.zipIdx_cons,
      List.zipIdx_cons, List.flatMap_cons, List.flatMap_cons, lineYields_opening hno]
    rfl
  -- the tags behind go to the last one
  have hback : stretch 1 (e.wording ++ "[reset][next]".toList) = stretch 1 e.wording ++
      if isComment l then []
      else [.emitted .reset (1 + ls.length), .emitted (.next 0) (1 + ls.length)] := by
    rw [stretch, stretch, hlines _ (by decide +kernel), hmessage, List.zipIdx_append,
      List.zipIdx_append, List.flatMap_append, List.flatMap_append, List.append_assoc]
    show _ ++ (lineYields (l ++ _, 1 + ls.length) ++ []) =
      _ ++ ((lineYields (l, 1 + ls.length) ++ []) ++ _)
    rw [List.append_nil, List.append_nil, lineYields_closing hbracket hmem (by decide)]
  rw [errorPage_eq, yields_eq_stretch, hfront, hback, hcomment]

/-! ## What a page compiles to -/

/-- The instructions of an error page before its end: the message in red, without its comment lines.
If the last line is a comment, then there is no reset. -/
def MissingLabel.spelled (e : MissingLabel) : List Instruction :=
  .color .red :: ((spoken e.wording).filterMap charInstruction?
    ++ if endsInComment e.wording then [] else [.reset])

/-- The instructions of an error page. -/
def MissingLabel.instructions (e : MissingLabel) : List Instruction := e.spelled ++ [.next 0]

/-- What an error page shows. -/
def MissingLabel.told (e : MissingLabel) : List Char := (spoken e.wording).filter (· ≠ '\r')

theorem charInstruction?_eq_some {c : Char} {i : Instruction} (h : charInstruction? c = some i) :
    i = .lineBreak ∧ c = '\n' ∨ i = .char c := by
  unfold charInstruction? at h
  split at h
  · cases h
  · split at h
    · next hfeed =>
      cases h
      exact .inl ⟨rfl, hfeed⟩
    · cases h
      exact .inr rfl

/-- A character other than a carriage return shows itself. -/
theorem plainChar?_charInstruction? (c : Char) :
    (charInstruction? c).bind Instruction.plainChar? = Option.guard (· ≠ '\r') c := by
  unfold charInstruction? Option.guard
  by_cases hreturn : c = '\r'
  · rw [hreturn]
    rfl
  · rw [if_neg hreturn, if_pos (decide_eq_true hreturn)]
    by_cases hfeed : c = '\n'
    · rw [if_pos hfeed, hfeed]
      rfl
    · rw [if_neg hfeed]
      rfl

theorem not_endsPage_of_mem_spelled {e : MissingLabel} {i : Instruction} (h : i ∈ e.spelled) :
    i.endsPage = false := by
  rcases List.mem_cons.mp h with rfl | h
  · rfl
  · rcases List.mem_append.mp h with h | h
    · obtain ⟨c, -, hc⟩ := List.mem_filterMap.mp h
      rcases charInstruction?_eq_some hc with ⟨rfl, -⟩ | rfl <;> rfl
    · split at h
      · cases h
      · rw [List.mem_singleton.mp h]
        rfl

/-- **An error page compiles without a note,** and has nothing in it but the message. -/
theorem compile_errorPage (e : MissingLabel) :
    (compile (errorPage e)).dropped = [] ∧
      (compile (errorPage e)).script.instructions = e.instructions := by
  obtain ⟨n, hyields⟩ := yields_errorPage e
  obtain ⟨hemitted, hdropped⟩ := instructions_stretch (bracket_notMem_wording e) 1
  constructor
  · rw [dropped_compile, hyields, List.filterMap_cons_none rfl, List.filterMap_append, hdropped]
    cases endsInComment e.wording <;> rfl
  · have hinstructions : (emitted (errorPage e)).map Prod.fst =
        e.spelled ++ if endsInComment e.wording then [] else [.next 0] := by
      rw [emitted, hyields, MissingLabel.spelled, List.cons_append, List.append_assoc,
        List.filterMap_cons_some (f := Yield.emitted?) rfl, List.map_cons, List.filterMap_append,
        List.map_append, hemitted]
      cases endsInComment e.wording <;> rfl
    rw [script_compile]
    show Script.closed _ = _
    rw [hinstructions, MissingLabel.instructions]
    unfold Script.closed
    cases endsInComment e.wording with
    | false => exact if_pos (by rw [if_neg Bool.false_ne_true, List.getLast?_append]; rfl)
    | true =>
      -- what is spelled does not end the page, so a `next` is added
      rw [if_pos rfl, List.append_nil]
      refine if_neg fun hnext => ?_
      obtain ⟨i, hlast, hi⟩ := (Option.any_eq_true _ _).mp hnext
      have hends := not_endsPage_of_mem_spelled (List.mem_of_getLast? hlast)
      rw [Instruction.endsPage, hi] at hends
      cases hends

/-- A message without comment lines is shown as a whole. -/
theorem instructions_of_no_comment {e : MissingLabel}
    (h : ∀ l ∈ lines e.wording, isComment l = false) :
    e.instructions = redPage e.wording ∧ e.told = e.wording.filter (· ≠ '\r') := by
  have hspoken : spoken e.wording = e.wording := by
    unfold spoken
    rw [List.filter_eq_self.mpr fun l hl => by rw [h l hl]; rfl, flatten_lines]
  have hends : endsInComment e.wording = false :=
    (Option.any_eq_false _ _).mpr fun l hl => h l (List.mem_of_getLast? hl)
  rw [MissingLabel.instructions, MissingLabel.spelled, MissingLabel.told, hspoken, hends,
    if_neg Bool.false_ne_true, redPage, List.cons_append, List.append_assoc]
  exact ⟨rfl, rfl⟩

/-- A label that is a single line makes no comment. -/
theorem not_isComment_of_singleLine {e : MissingLabel} (h : '\n' ∉ e.label.toList) :
    ∀ l ∈ lines e.wording, isComment l = false := by
  have hfeed : '\n' ∉ e.wording := by
    rw [wording_eq, List.mem_append, List.mem_append, List.mem_map]
    rintro (hmem | ⟨c, hc, hround⟩ | hmem)
    · exact absurd hmem (by decide +kernel)
    · unfold roundBracket at hround
      split at hround
      · cases hround
      · split at hround
        · cases hround
        · exact h (hround ▸ hc)
    · exact absurd hmem (by decide +kernel)
  intro l hl
  have hne : e.wording ≠ [] := by
    rw [wording_eq]
    exact List.cons_ne_nil _ _
  rw [lines_singleton hne fun hmem => hfeed (List.dropLast_subset _ hmem)] at hl
  rw [List.mem_singleton.mp hl, wording_eq]
  rfl

end DialogueBox.Markup
