import DialogueBox.Proofs.Playback.Mode

/-!
# Pages without playing

Which pages a script has can be read off its instructions: they are cut behind each `next`, the end
of the script is at the first `finish`, and the line breaks at the beginning of every page but the
first are dropped (`Script.pages`). Playing goes through these pages one after the other: a frame
changes nothing about the pages that are left (`pagesLeft_update`), and turning a page leaves those
behind it (`pagesLeft_turnPage`).

## How the proof goes

In the middle of a page, the pages to come are those of the instructions that are left, the first
of them with what is on the page already (`pagesFrom`). An instruction moves its part from the
instructions to the page (`pagesFrom_cons`), and a complete page is the first of those that were
to come.
-/

namespace DialogueBox

/-! ## Cutting a script -/

/-- The instructions of a page, and whether the script ends with them. -/
structure Part where
  instructions : List Instruction
  ended : Bool

/-- What can be read on a page, and the names of its events. -/
structure PageContent where
  text : String
  events : List String
  /-- Whether the script ends with the page. -/
  ended : Bool
  deriving DecidableEq, Repr

namespace Part

/-- Adds an instruction to the front of the first part. -/
def consHead (i : Instruction) : List Part → List Part
  | [] => [⟨[i], false⟩]
  | part :: others => { part with instructions := i :: part.instructions } :: others

/-- Cuts instructions behind each `next`. What follows a `finish` is left out. -/
def cut : List Instruction → List Part
  | [] => []
  | .next _ :: rest => ⟨[], false⟩ :: cut rest
  | .finish :: _ => [⟨[], true⟩]
  | i :: rest => consHead i (cut rest)

/-- The characters and line breaks of a page. -/
def chars (part : Part) : List Char := part.instructions.filterMap Instruction.plainChar?

/-- The names of the events of a page, in order. -/
def events (part : Part) : List String := part.instructions.filterMap Instruction.eventName?

/-- The page of a part. -/
def content (part : Part) : PageContent := ⟨String.ofList part.chars, part.events, part.ended⟩

/-- A part without the line breaks at its beginning. -/
def trimmed (part : Part) : Part :=
  { part with instructions := part.instructions.dropWhile (· == .lineBreak) }

end Part

/-- The pages of instructions that the first part begins, if that has something already. -/
def pagesFrom (text : List Char) (events : List String) (is : List Instruction) :
    List PageContent :=
  match Part.cut is with
  | [] => [⟨String.ofList text, events, false⟩]
  | part :: others =>
    ⟨String.ofList (text ++ part.chars), events ++ part.events, part.ended⟩
      :: others.map fun q => q.trimmed.content

/-- The pages of a script. A script without instructions has one empty page. -/
def Script.pages (s : Script) : List PageContent :=
  match Part.cut s.instructions with
  | [] => [⟨"", [], false⟩]
  | part :: others => part.content :: others.map fun q => q.trimmed.content

theorem Script.pages_eq (s : Script) : s.pages = pagesFrom [] [] s.instructions := by
  unfold Script.pages pagesFrom
  cases Part.cut s.instructions <;> rfl

namespace Part

theorem cut_cons_of_not_endsPage {i : Instruction} (hi : i.endsPage = false)
    (rest : List Instruction) : cut (i :: rest) = consHead i (cut rest) := by
  cases i with
  | next ms => simp [Instruction.endsPage, Instruction.isNext] at hi
  | finish => simp [Instruction.endsPage, Instruction.isNext, Instruction.isFinish] at hi
  | _ => rfl

theorem cut_eq_nil_iff {is : List Instruction} : cut is = [] ↔ is = [] := by
  cases is with
  | nil => exact ⟨fun _ => rfl, fun _ => rfl⟩
  | cons i rest =>
    refine ⟨fun h => ?_, fun h => by simp at h⟩
    by_cases hi : i.endsPage = true
    · cases i <;> simp_all [cut, Instruction.endsPage, Instruction.isNext, Instruction.isFinish]
    · rw [cut_cons_of_not_endsPage (by simpa using hi)] at h
      cases hc : cut rest <;> simp [hc, consHead] at h

/-- A part begins with the instruction that the whole begins with, or has none. -/
theorem head?_of_cut {i : Instruction} {rest : List Instruction} {part : Part} {others : List Part}
    (h : cut (i :: rest) = part :: others) :
    part.instructions = [] ∨ part.instructions.head? = some i := by
  by_cases hi : i.endsPage = true
  · left
    cases i with
    | next ms => simp only [cut, List.cons.injEq] at h; rw [← h.1]
    | finish => simp only [cut, List.cons.injEq] at h; rw [← h.1]
    | _ => simp [Instruction.endsPage, Instruction.isNext, Instruction.isFinish] at hi
  · right
    rw [cut_cons_of_not_endsPage (by simpa using hi)] at h
    cases hc : cut rest with
    | nil => simp only [hc, consHead, List.cons.injEq] at h; rw [← h.1]; rfl
    | cons => simp only [hc, consHead, List.cons.injEq] at h; rw [← h.1]; rfl

theorem trimmed_of_cut {i : Instruction} (hi : i ≠ .lineBreak) {rest : List Instruction}
    {part : Part} {others : List Part} (h : cut (i :: rest) = part :: others) :
    part.trimmed = part := by
  have hd : part.instructions.dropWhile (· == .lineBreak) = part.instructions := by
    rcases head?_of_cut h with hn | hs
    · rw [hn]
      rfl
    · obtain ⟨is, his⟩ := List.head?_eq_some_iff.mp hs
      rw [his]
      exact List.dropWhile_cons_of_neg (by simpa using hi)
  rw [trimmed, hd]

end Part

/-! ## The pages that are left -/

theorem filterMap_cons_toList {α β : Type} (f : α → Option β) (a : α) (l : List α) :
    (a :: l).filterMap f = (f a).toList ++ l.filterMap f := by
  cases h : f a <;> simp [h]

/-- **An instruction within a page belongs to it**: its text and its event come next. -/
theorem pagesFrom_cons {i : Instruction} (hi : i.endsPage = false) (text : List Char)
    (events : List String) (rest : List Instruction) :
    pagesFrom text events (i :: rest) =
      pagesFrom (text ++ i.plainChar?.toList) (events ++ i.eventName?.toList) rest := by
  unfold pagesFrom
  rw [Part.cut_cons_of_not_endsPage hi]
  cases Part.cut rest with
  | nil =>
    simp only [Part.consHead, Part.chars, Part.events, filterMap_cons_toList, List.filterMap_nil,
      List.append_nil, List.map_nil]
  | cons part others =>
    simp only [Part.consHead, Part.chars, Part.events, filterMap_cons_toList, List.append_assoc]

theorem pagesFrom_nil (text : List Char) (events : List String) :
    pagesFrom text events [] = [⟨String.ofList text, events, false⟩] := rfl

theorem pagesFrom_finish (text : List Char) (events : List String) (rest : List Instruction) :
    pagesFrom text events (.finish :: rest) = [⟨String.ofList text, events, true⟩] := by
  simp [pagesFrom, Part.cut, Part.chars, Part.events]

/-- The pages behind one that is complete. -/
def pagesBehind (is : List Instruction) : List PageContent :=
  if is = [] then [] else pagesFrom [] [] (is.dropWhile (· == .lineBreak))

/-- Line breaks are dropped at the beginning of a page before or after cutting. -/
theorem map_trimmed_cut (is : List Instruction) :
    (Part.cut is).map (fun q => q.trimmed.content) = pagesBehind is := by
  unfold pagesBehind
  induction is with
  | nil => rfl
  | cons i rest ih =>
    rw [if_neg (List.cons_ne_nil i rest)]
    -- a line break is dropped on both sides, anything else stops the dropping
    by_cases hi : i = .lineBreak
    · rw [hi, Part.cut_cons_of_not_endsPage rfl, List.dropWhile_cons_of_pos (by simp)]
      by_cases hr : rest = []
      · rw [hr]
        rfl
      · rw [if_neg hr] at ih
        rw [← ih]
        cases hc : Part.cut rest with
        | nil => exact absurd (Part.cut_eq_nil_iff.mp hc) hr
        | cons part others =>
          simp only [Part.consHead, List.map_cons]
          rw [show Part.trimmed { part with instructions := .lineBreak :: part.instructions } =
            part.trimmed from rfl]
    · rw [List.dropWhile_cons_of_neg (by simpa using hi)]
      unfold pagesFrom
      cases hc : Part.cut (i :: rest) with
      | nil => exact absurd (Part.cut_eq_nil_iff.mp hc) (List.cons_ne_nil i rest)
      | cons part others =>
        rw [List.map_cons, Part.trimmed_of_cut hi hc]
        rfl

theorem pagesFrom_next (text : List Char) (events : List String) (ms : Nat)
    (rest : List Instruction) :
    pagesFrom text events (.next ms :: rest) =
      ⟨String.ofList text, events, false⟩ :: pagesBehind rest := by
  rw [← map_trimmed_cut]
  simp [pagesFrom, Part.cut, Part.chars, Part.events]

/-! ## Players -/

theorem Instruction.plainChar?_of_endsPage {i : Instruction} (hi : i.endsPage = true) :
    i.plainChar? = none := by
  cases i with
  | next ms => rfl
  | finish => rfl
  | _ => simp [endsPage, isNext, isFinish] at hi

/-- What an instruction adds to the text of the page. -/
theorem Page.toList_text_after (m : Metrics) (s : Style) (p : Page) (i : Instruction) :
    (p.after m s i).text.toList = p.text.toList ++ i.plainChar?.toList := by
  have hnil : p.text.toList = p.text.toList ++ [] := (List.append_nil _).symm
  cases i with
  | char c => exact String.toList_push c
  | lineBreak => exact String.toList_push '\n'
  | icon id =>
    simp only [Page.after, Page.withIcon]
    split <;> exact hnil
  | _ => exact hnil

namespace Player

/-- The pages behind a complete one. -/
def nextPages (p : Player) : List PageContent :=
  if p.playhead.ended then [] else pagesBehind p.ahead

/-- The page on show, as far as it has come, and those behind it. The events `taken` were raised on
the page too. -/
def pagesLeft (taken : List String) (p : Player) : List PageContent :=
  if p.playhead.waiting then
    ⟨p.page.text, taken ++ p.events, p.playhead.ended⟩ :: p.nextPages
  else pagesFrom p.page.text.toList (taken ++ p.events) p.ahead

variable {p : Player}

theorem pagesLeft_of_waiting (hw : p.playhead.waiting = true) (taken : List String) :
    p.pagesLeft taken = ⟨p.page.text, taken ++ p.events, p.playhead.ended⟩ :: p.nextPages :=
  if_pos hw

theorem pagesLeft_of_not_waiting (hw : p.playhead.waiting = false) (taken : List String) :
    p.pagesLeft taken = pagesFrom p.page.text.toList (taken ++ p.events) p.ahead :=
  if_neg (by simp [hw])

/-- **An instruction changes nothing about the pages that are left.** -/
theorem pagesLeft_step (hw : p.playhead.waiting = false) (he : p.playhead.ended = false)
    {i : Instruction} {rest : List Instruction} (hl : p.ahead = i :: rest) (instant : Bool)
    (taken : List String) : (p.step instant i).pagesLeft taken = p.pagesLeft taken := by
  have hwait : (p.step instant i).playhead.waiting = i.endsPage := by
    rw [waiting_step, hw, Bool.false_or]
  have hended : (p.step instant i).playhead.ended = i.isFinish := by
    rw [ended_step, he, Bool.false_or]
  have htext : (p.step instant i).page.text.toList = p.page.text.toList ++ i.plainChar?.toList := by
    rw [step_eq]
    exact Page.toList_text_after ..
  have hevents : (p.step instant i).events = p.events ++ i.eventName?.toList := by rw [step_eq]
  rw [pagesLeft_of_not_waiting hw, hl]
  by_cases hi : i.endsPage = true
  -- the page is complete as it was: its last instruction adds neither text nor an event
  · rw [pagesLeft_of_waiting (hwait.trans hi), nextPages, hended, ahead_step hl, hevents]
    have hpage : (p.step instant i).page.text = String.ofList p.page.text.toList := by
      rw [← String.ofList_toList (s := (p.step instant i).page.text), htext,
        Instruction.plainChar?_of_endsPage hi, Option.toList_none, List.append_nil]
    rw [hpage]
    cases i with
    | next ms =>
      rw [pagesFrom_next]
      simp [Instruction.isFinish, Instruction.eventName?]
    | finish =>
      rw [pagesFrom_finish]
      simp [Instruction.isFinish, Instruction.eventName?]
    | _ => simp [Instruction.endsPage, Instruction.isNext, Instruction.isFinish] at hi
  · have hi' : i.endsPage = false := by simpa using hi
    rw [pagesLeft_of_not_waiting (hwait.trans hi'), ahead_step hl, htext, hevents,
      pagesFrom_cons hi', List.append_assoc]

/-- Neither does the end of the script. -/
theorem pagesLeft_finishPage (hw : p.playhead.waiting = false) (he : p.playhead.ended = false)
    (hl : p.ahead = []) (taken : List String) :
    p.finishPage.pagesLeft taken = p.pagesLeft taken := by
  rw [pagesLeft_of_not_waiting hw, hl, pagesFrom_nil, finishPage_eq, pagesLeft_of_waiting rfl]
  show (⟨p.page.text, taken ++ p.events, p.playhead.ended⟩ : PageContent) :: p.nextPages = _
  rw [nextPages, he, hl, String.ofList_toList]
  rfl

theorem pagesLeft_drain (hw : p.playhead.waiting = false) (he : p.playhead.ended = false)
    (instant : Bool) (taken : List String) :
    (p.drain instant p.ahead).pagesLeft taken = p.pagesLeft taken := by
  refine drain_induction
    (P := fun q => q.playhead.waiting = false ∧ q.playhead.ended = false ∧
      q.pagesLeft taken = p.pagesLeft taken)
    (Q := fun q => q.pagesLeft taken = p.pagesLeft taken) ?_ ?_ ?_ ?_ ⟨hw, he, rfl⟩
  · rintro q i rest hl ⟨hw, he, hq⟩ - hh
    obtain ⟨-, -, hw', he', -⟩ := playhead_step_of_not_halts (p := q) hh
    exact ⟨hw'.trans hw, he'.trans he, (pagesLeft_step hw he hl instant taken).trans hq⟩
  · rintro q i rest - ⟨-, -, hq⟩ -
    exact hq
  · rintro q i rest hl ⟨hw, he, hq⟩ - -
    exact (pagesLeft_step hw he hl instant taken).trans hq
  · rintro q hl ⟨hw, he, hq⟩
    exact (pagesLeft_finishPage hw he hl taken).trans hq

/-- **A frame changes nothing about the pages that are left**, whatever of the page on show it puts
out. -/
theorem pagesLeft_update {is : List Instruction} (hm : p.playhead.Playing is) (elapsed : Nat)
    (taken : List String) : (p.update elapsed false).pagesLeft taken = p.pagesLeft taken := by
  obtain ⟨clock, charTimer, pause, hu⟩ := update_of_playing hm elapsed
  rcases hu with hu | hu
  · rw [hu]
    rfl
  · rw [hu]
    exact pagesLeft_drain (p := p.retime clock charTimer pause) hm.waiting hm.ended false taken

/-- Turning a page leaves the pages behind it. -/
theorem pagesLeft_turnPage (he : p.atEnd = false) (hevents : p.events = []) :
    p.turnPage.pagesLeft [] = p.nextPages := by
  rw [atEnd_eq_false_iff] at he
  rw [pagesLeft_of_not_waiting rfl, ahead_turnPage, nextPages, he.1, if_neg Bool.false_ne_true,
    pagesBehind, if_neg (ahead_ne_nil he.2)]
  show pagesFrom "".toList ([] ++ p.events) _ = _
  rw [hevents]
  rfl

/-- At the end there is none. -/
theorem nextPages_of_atEnd (he : p.atEnd = true) : p.nextPages = [] := by
  unfold nextPages
  by_cases h : p.playhead.ended = true
  · rw [if_pos h]
  · rw [if_neg h]
    have hle : p.script.length ≤ p.playhead.position := by simpa [atEnd, h] using he
    rw [show p.ahead = [] from List.drop_eq_nil_of_le hle]
    rfl

end Player

end DialogueBox
