import DialogueBox.Proofs.Markup.ErrorPage
import DialogueBox.Proofs.Playback.Chronicle
import DialogueBox.Proofs.Playback.Pagination
import DialogueBox.Proofs.Playback.Showing
import DialogueBox.Proofs.Playback.Wishes

/-!
# The page of a label that is missing

A player that is asked for a section which is not there plays an error page instead. As long as the
box is open, what can be seen is the beginning of the message, in red; when the page is complete, it
is the message, and no other page follows (`tells_missing_label`). It is the whole message if none
of its lines is a comment, and only then is the style set back behind it.

What is shown depends on the place alone (`shows_place_of_calls`), so it is enough to read the
instructions once: a colour, characters, and what shows nothing.
-/

namespace DialogueBox

open Markup

/-! ## Reading characters -/

namespace Showing

variable {r : Showing} (m : Metrics) (speed : Nat)

/-- The page of a showing has a text, and its glyphs are red. -/
structure Red (r : Showing) (text : List Char) : Prop where
  text : r.page.text.toList = text
  glyphs : ∀ g ∈ r.page.glyphs, g.style.color = .red

/-- Characters and line breaks that are read in red stay red. -/
theorem Red.foldl_read {text : List Char} (h : r.Red text) (hred : r.style.color = .red)
    (hstage : r.stage = .filling) {is : List Instruction}
    (his : ∀ i ∈ is, i = .lineBreak ∨ ∃ c, i = .char c) :
    (is.foldl (read m speed) r).Red (text ++ is.filterMap Instruction.plainChar?) ∧
      (is.foldl (read m speed) r).stage = .filling := by
  induction is generalizing r text with
  | nil => exact ⟨by rwa [List.filterMap_nil, List.append_nil], hstage⟩
  | cons i is ih =>
    rw [List.forall_mem_cons] at his
    rw [List.foldl_cons, filterMap_cons_toList, ← List.append_assoc]
    have hread : r.read m speed i = r.carry m speed i := by rw [read, hstage]
    have htext : (r.carry m speed i).page.text.toList = text ++ i.plainChar?.toList := by
      rw [← h.text]
      exact Page.toList_text_after ..
    rw [hread]
    rcases his.1 with rfl | ⟨c, rfl⟩
    · exact ih ⟨htext, h.glyphs⟩ hred rfl his.2
    · refine ih ⟨htext, fun g hg => ?_⟩ hred rfl his.2
      rcases Array.mem_push.mp hg with hg | rfl
      · exact h.glyphs g hg
      · exact hred

/-- What is behind the message shows nothing. -/
theorem page_foldl_read_end (hstage : r.stage = .filling) (n : Nat) {is : List Instruction}
    (h : is = [] ∨ is = [.reset]) :
    (((is ++ [Instruction.next 0]).take n).foldl (read m speed) r).page = r.page := by
  have hread : ∀ i, r.read m speed i = r.carry m speed i := fun i => by rw [read, hstage]
  rcases h with rfl | rfl
  · cases n with
    | zero => rfl
    | succ n =>
      rw [List.nil_append, List.take_succ_cons, List.take_nil, List.foldl_cons, hread]
      rfl
  · rcases n with _ | _ | n
    · rfl
    · show (r.read m speed .reset).page = r.page
      rw [hread]
      rfl
    · rw [List.take_of_length_le (by simp)]
      show ((r.read m speed .reset).read m speed (.next 0)).page = r.page
      rw [hread]
      rfl

/-- Where reading rests, the page is shown, or it has been turned. -/
theorem page_rest (r : Showing) (waiting : Bool) :
    (r.rest waiting).page = r.page ∨ waiting = false ∧ (r.rest waiting).page = r.page.clear := by
  unfold rest
  split
  · exact .inl rfl
  · exact .inl rfl
  · exact .inr ⟨rfl, rfl⟩
  · exact .inl rfl

end Showing

/-! ## Reading an error page -/

namespace Markup.MissingLabel

/-- The characters and line breaks of an error page. -/
def chars (e : MissingLabel) : List Instruction := (spoken e.wording).filterMap charInstruction?

theorem told_eq (e : MissingLabel) : e.chars.filterMap Instruction.plainChar? = e.told := by
  unfold chars told
  rw [List.filterMap_filterMap, ← List.filterMap_eq_filter]
  exact List.filterMap_congr fun c _ => plainChar?_charInstruction? c

/-- Reading an error page up to any place shows some of its characters, in red, and all of them at
its end. -/
theorem red_readTo {e : MissingLabel} {s : Script} (hs : s.instructions = e.instructions)
    (m : Metrics) (t : Settings) (n : Nat) :
    ∃ k, (s.readTo m t n).Red ((e.chars.take k).filterMap Instruction.plainChar?) ∧
      (s.instructions.length ≤ n → e.chars.length ≤ k) := by
  have hchars : ∀ i ∈ e.chars, i = .lineBreak ∨ ∃ c, i = .char c := by
    intro i hi
    obtain ⟨c, -, hc⟩ := List.mem_filterMap.mp hi
    exact (charInstruction?_eq_some hc).imp And.left fun h => ⟨c, h⟩
  let tail : List Instruction := if endsInComment e.wording then [] else [.reset]
  have htail : tail = [] ∨ tail = [.reset] := by
    show (if _ then _ else _) = [] ∨ (if _ then _ else _) = _
    split
    · exact .inl rfl
    · exact .inr rfl
  have hall : s.instructions = .color .red :: (e.chars ++ (tail ++ [.next 0])) := by
    rw [hs, instructions, spelled, List.cons_append, List.append_assoc]
    rfl
  unfold Script.readTo
  cases n with
  | zero =>
    refine ⟨0, ⟨rfl, fun g hg => absurd hg (Array.not_mem_empty g)⟩, fun h => ?_⟩
    rw [hall] at h
    exact absurd h (Nat.not_succ_le_zero _)
  | succ n =>
    refine ⟨n, ?_, fun h => ?_⟩
    · rw [hall, List.take_succ_cons, List.foldl_cons, List.take_append, List.foldl_append]
      have hempty : ((Showing.start t).read m t.speed (.color .red)).Red [] :=
        ⟨rfl, fun g hg => absurd hg (Array.not_mem_empty g)⟩
      have htake : ∀ i ∈ e.chars.take n, i = .lineBreak ∨ ∃ c, i = .char c := fun i hi =>
        hchars i (List.mem_of_mem_take hi)
      obtain ⟨hred, hstage⟩ := hempty.foldl_read m t.speed rfl rfl htake
      have hpage := Showing.page_foldl_read_end m t.speed hstage (n - e.chars.length) htail
      exact ⟨by rw [hpage]; exact hred.text, by rw [hpage]; exact hred.glyphs⟩
    · rw [hall] at h
      simp only [List.length_cons, List.length_append] at h
      omega

end Markup.MissingLabel

namespace Player

variable {p : Player}

/-- A player plays the page that tells of a missing label. -/
structure TellsMissing (e : MissingLabel) (p : Player) : Prop where
  dropped : p.dropped = []
  instructions : p.script.instructions = e.instructions
  /-- Without comment lines the message is shown as a whole, and the style is set back behind it. -/
  whole : (∀ l ∈ Text.lines e.wording, isComment l = false) →
    e.instructions = redPage e.wording ∧ e.told = e.wording.filter (· ≠ '\r')
  singleLine : '\n' ∉ e.label.toList → ∀ l ∈ Text.lines e.wording, isComment l = false
  /-- As long as the box is open, the page is red and shows the beginning of the message. -/
  shows : ∀ cs, (p.calls cs).playhead.active = true →
    (p.calls cs).page.text.toList <+: e.told ∧
      ∀ g ∈ (p.calls cs).page.glyphs, g.style.color = .red
  /-- When the page is complete, it shows all of it, and no page follows. -/
  completed : ∀ cs, (p.calls cs).phase.isWaiting = true →
    (p.calls cs).page.text = String.ofList e.told ∧ (p.calls cs).atEnd = true
  /-- A wish to go on completes the page. -/
  comes : p.next.phase.isWaiting = true

/-- A page that is complete has come to its end. -/
theorem length_le_of_stopped {e : MissingLabel} {position timedWait : Nat} {ended : Bool}
    (h : Playhead.Stopped e.instructions position timedWait ended) :
    e.instructions.length ≤ position := by
  have hlast : ∀ {n : Nat} {i : Instruction}, e.instructions[n]? = some i → i.endsPage = true →
      e.instructions.length ≤ n + 1 := by
    intro n i hi hends
    rw [MissingLabel.instructions, List.length_append, List.length_singleton]
    by_contra hlt
    rw [MissingLabel.instructions, List.getElem?_append_left (by omega)] at hi
    rw [not_endsPage_of_mem_spelled (List.mem_of_getElem? hi)] at hends
    cases hends
  cases h with
  | exhausted hp ht he => exact hp.ge
  | next hp hi ht he => exact hp ▸ hlast hi rfl
  | finish hp hi ht he => exact hp ▸ hlast hi rfl

/-- What can be seen of an error page while the box is open: its beginning, and all of it when it is
complete. -/
theorem Tracks.sees_errorPage {e : MissingLabel} {base : Player} {s : Script} {taken : List String}
    (h : p.Tracks base s taken) (hs : s.instructions = e.instructions) (hc : p.Coherent) :
    (p.page.text.toList <+: e.told ∧ ∀ g ∈ p.page.glyphs, g.style.color = .red) ∧
      (p.playhead.waiting = true → p.page.text = String.ofList e.told ∧ p.atEnd = true) := by
  obtain ⟨k, hred, hend⟩ :=
    MissingLabel.red_readTo hs base.metrics base.settings p.playhead.position
  rcases Showing.page_rest (s.readTo base.metrics base.settings p.playhead.position)
    p.playhead.waiting with hrest | ⟨hw, hrest⟩
  · have hpage := h.shows.page.trans hrest
    have htext : p.page.text.toList = (e.chars.take k).filterMap Instruction.plainChar? := by
      rw [hpage, hred.text]
    refine ⟨⟨?_, by rw [hpage]; exact hred.glyphs⟩, fun hw => ?_⟩
    · rw [htext, ← MissingLabel.told_eq]
      exact (List.take_prefix k e.chars).filterMap _
    · have hstopped := (hc.waiting hw).stopped
      rw [h.script, hs] at hstopped
      have hlength := length_le_of_stopped hstopped
      rw [← hs] at hlength
      refine ⟨?_, ?_⟩
      · rw [← MissingLabel.told_eq, ← List.take_of_length_le (hend hlength), ← htext,
          String.ofList_toList]
      · unfold atEnd
        rw [h.script]
        exact Bool.or_eq_true_iff.mpr (.inr (decide_eq_true hlength))
  · -- a page that has been turned is empty, and does not wait
    rw [h.shows.page.trans hrest]
    refine ⟨⟨List.nil_prefix, fun g hg => absurd hg (Array.not_mem_empty g)⟩, fun hwaits => ?_⟩
    rw [hw] at hwaits
    cases hwaits

theorem Coherent.calls (hc : p.Coherent) (cs : List Call) : (p.calls cs).Coherent := by
  induction cs generalizing p with
  | nil => exact hc
  | cons c cs ih => exact ih (hc.run_call c)

/-- A player to which an error page is presented tells of the label. -/
theorem Coherent.tells_present {e : MissingLabel} (hc : p.Coherent) :
    (p.present (errorPage e)).TellsMissing e := by
  unfold Player.present
  obtain ⟨hdropped, hs⟩ := compile_errorPage e
  generalize compile (errorPage e) = c at hdropped hs
  have hbase : ({ p with dropped := c.dropped } : Player).Coherent :=
    ⟨hc.speed_pos, hc.page_clear, hc.mode, hc.idle⟩
  have hload := hbase.load c.script
  have hsees := fun cs ha => (Tracks.calls cs hload (fun _ => Tracks.load hbase c.script) ha)
    |>.sees_errorPage hs (hload.calls cs)
  refine ⟨hdropped, hs, instructions_of_no_comment, not_isComment_of_singleLine,
    fun cs ha => (hsees cs ha).1, fun cs hw => ?_, ?_⟩
  · rw [isWaiting_phase_eq, Bool.and_eq_true] at hw
    exact (hsees cs hw.1).2 hw.2
  · obtain ⟨-, hw⟩ := hload.waiting_advance (Playhead.Playing.start c.script.instructions)
    rw [next_eq_advance rfl, isWaiting_phase_eq, hw, (hload.advance.waiting hw).active]
    rfl

/-- A section that is missing is one that was asked for, and an error page is presented instead. -/
theorem presentSection_missing {e : MissingLabel} {source : List Char} {label : Option String}
    (h : (p.presentSection source label).2 = some e) :
    label = some e.label ∧ (p.presentSection source label).1 = p.present (errorPage e) := by
  unfold presentSection at h ⊢
  cases hsection : section? source label with
  | ok s =>
    rw [hsection] at h
    cases h
  | error e' =>
    rw [hsection] at h
    cases h
    refine ⟨?_, rfl⟩
    unfold section? at hsection
    split at hsection
    · cases hsection
    · split at hsection <;> cases hsection
      rfl

/--
**Whoever asks for a section that is not there sees a red page with the message, and nothing else.**

Nothing in the label is read as a tag. But lines of the message that are comments are left out, and
if the last one is a comment, then the style is not set back. A label that is a single line makes no
such line, and the message is shown as a whole.
-/
theorem tells_missing_label {e : MissingLabel} (hp : p.Reachable) {source : List Char}
    {label : Option String} (h : (p.presentSection source label).2 = some e) :
    label = some e.label ∧ (p.presentSection source label).1.TellsMissing e := by
  obtain ⟨hlabel, hpresent⟩ := presentSection_missing h
  rw [hpresent]
  exact ⟨hlabel, hp.coherent.tells_present⟩

/-- A label whose second line begins with a semicolon. -/
theorem tells_missing_label_comment :
    let p := ofSettings ({ cell := ⟨8, 16⟩ } : MetricTable).toMetrics {}
    (p.presentSection [] (some "a\n;b")).2 = some ⟨"a\n;b"⟩ ∧
      (p.presentSection [] (some "a\n;b")).1.TellsMissing ⟨"a\n;b"⟩ := by
  intro p
  have h : (p.presentSection [] (some "a\n;b")).2 = some ⟨"a\n;b"⟩ := rfl
  exact ⟨h, (tells_missing_label (.start _ _) h).2⟩

/-- Of this label only the first line is shown, and the style is not set back. -/
theorem message_cut_short :
    let p := ofSettings ({ cell := ⟨8, 16⟩ } : MetricTable).toMetrics {}
    let q := (p.presentSection [] (some "a\n;b")).1
    q.script.instructions = .color .red :: "标签 '#a".toList.map .char ++ [.lineBreak, .next 0] ∧
      q.script.instructions ≠ redPage (MissingLabel.wording ⟨"a\n;b"⟩) ∧
      q.next.page.text = "标签 '#a\n" := by
  decide +kernel

end Player

end DialogueBox
