import DialogueBox.Playback.Session
import DialogueBox.Proofs.Playback.Pagination
import DialogueBox.Proofs.Playback.Reachable
import Mathlib.Logic.Function.Iterate

/-!
# What a session notes

A session that ends by itself has noted the pages of its script, each once and with its own events,
and numbered from 1 (`pages_transcript`). It looks at its player only between frames, and sees no
more than the phase; how long the frames are has no say in what it notes. A session ends by itself
if its box closes before the limit is passed (`ending_transcript`).

## How the proof goes

Between two frames the player is closed, or puts out a page, or is in a timed wait on a page that
has been noted. `Awaits` says for each of these which pages have still to be noted, and a frame
notes the first of them or none (`awaits_frame`). A page that waits for the reader is never met
between frames, since the frame that completes it also turns it.
-/

namespace DialogueBox

/-- What a record says about its page. -/
def PageRecord.content (r : PageRecord) : PageContent := ⟨r.text, r.events, r.ended⟩

namespace Player

variable {p : Player}

/-- Events may be taken at any time. -/
theorem pagesLeft_takeEvents (p : Player) (taken : List String) :
    p.takeEvents.2.pagesLeft (taken ++ p.events) = p.pagesLeft taken := by
  show pagesLeft (taken ++ p.events) { p with events := [] } = _
  by_cases hw : p.playhead.waiting = true
  · rw [pagesLeft_of_waiting hw, pagesLeft_of_waiting (p := { p with events := [] }) hw,
      List.append_nil]
    rfl
  · have hw' : p.playhead.waiting = false := by simpa using hw
    rw [pagesLeft_of_not_waiting hw', pagesLeft_of_not_waiting (p := { p with events := [] }) hw',
      List.append_nil]
    rfl

/-! ## The clock -/

theorem clock_drain (instant : Bool) (p : Player) :
    (p.drain instant p.ahead).clock = p.clock :=
  drain_keeps clock (fun q i => by rw [step_eq]) (fun q => by rw [finishPage_eq]) p

theorem clock_advance (p : Player) : p.advance.clock = p.clock := by
  unfold advance
  split
  · rfl
  · split
    · split <;> rfl
    · split
      · exact clock_drain true (p.movePlayhead { p.playhead with pause := 0 })
      · rfl

theorem clock_next (p : Player) : p.next.clock = p.clock := by
  unfold next
  split
  · rfl
  · exact clock_advance p

theorem clock_reveal (p : Player) (elapsed : Nat) : (p.reveal elapsed).clock = p.clock := by
  unfold reveal
  split
  · rfl
  · dsimp only
    split
    · rfl
    · split
      · exact clock_drain false _
      · rfl

/-- A frame moves the clock by its length, unless the clock begins anew. -/
theorem clock_update_le (p : Player) (elapsed : Nat) (wish : Bool) :
    (p.update elapsed wish).clock ≤ p.clock + elapsed := by
  have htick : (p.tick elapsed).clock ≤ p.clock + elapsed := Nat.mod_le _ _
  unfold update
  dsimp only
  split
  · exact Nat.le_add_right _ _
  · split
    · unfold countDown
      dsimp only
      split
      · rw [clock_advance]
        exact htick
      · exact htick
    · rw [clock_reveal]
      split
      · rw [clock_advance]
        exact htick
      · exact htick

/-- A complete page is turned, or the box closes. -/
theorem Coherent.advance_of_waiting (h : p.Coherent) (hw : p.playhead.waiting = true) :
    p.advance = if p.atEnd then p.close else p.turnPage := by
  unfold Player.advance
  rw [if_neg (by simp [(h.waiting hw).active]), if_pos hw]

theorem Coherent.takeEvents (h : p.Coherent) : p.takeEvents.2.Coherent :=
  ⟨h.speed_pos, h.page_clear, h.mode, h.idle⟩

end Player

namespace Session

/-! ## One frame -/

/-- The pages that a session has still to note, between two frames. -/
inductive Awaits : List PageContent → Session → Prop
  /-- The box has closed. -/
  | closed {s : Session} (ha : s.player.playhead.active = false) (hp : s.player.events = [])
      (hs : s.events = []) : Awaits [] s
  /-- A page is put out. -/
  | playing {s : Session} (hm : s.player.playhead.Playing s.player.script.instructions)
      (hp : s.player.events = []) (hn : s.noted = false) :
      Awaits (s.player.pagesLeft s.events) s
  /-- A page waits for its time and has been noted. -/
  | timedWait {s : Session} (hw : s.player.playhead.waiting = true)
      (ht : 0 < s.player.playhead.timedWait) (hp : s.player.events = []) (hs : s.events = [])
      (hn : s.noted = true) : Awaits s.player.nextPages s

variable {s : Session} {rest : List PageContent}

theorem collect_eq (s : Session) :
    s.collect = { s with player := s.player.takeEvents.2, events := s.events ++ s.player.events } :=
  rfl

theorem collect_of_events (hp : s.player.events = []) : s.collect = s := by
  obtain ⟨p, pages, events, noted⟩ := s
  rw [collect_eq]
  simp only [Session.mk.injEq, true_and, and_true]
  refine ⟨?_, ?_⟩
  · show { p with events := [] } = p
    rw [← show p.events = [] from hp]
  · rw [show p.events = [] from hp, List.append_nil]

theorem note_of_not_waiting (hw : s.player.phase.isWaiting = false) :
    s.note = { s with noted := false } := by
  unfold note
  rw [if_pos (by simp [hw])]

theorem note_of_noted (hw : s.player.phase.isWaiting = true) (hn : s.noted = true) :
    s.note = s := by
  unfold note
  rw [if_neg (by simp [hw]), if_pos hn]

theorem note_of_waiting (hw : s.player.phase.isWaiting = true) (hn : s.noted = false) :
    s.note = { s with pages := s.pages ++ [s.record], events := [], noted := true } := by
  unfold note
  rw [if_neg (by simp [hw]), if_neg (by simp [hn])]

theorem goOn_of_phase_ne (h : s.player.phase ≠ .waiting) : s.goOn = s := if_neg h

theorem goOn_of_phase (h : s.player.phase = .waiting) :
    s.goOn = { s with player := s.player.next, noted := false } := if_pos h

/-- Going on from a complete page, the session awaits those behind it. -/
theorem awaits_advance (hc : s.player.Coherent) (hw : s.player.playhead.waiting = true)
    (hp : s.player.events = []) (hs : s.events = []) :
    Awaits s.player.nextPages { s with player := s.player.advance, noted := false } := by
  rw [hc.advance_of_waiting hw]
  by_cases he : s.player.atEnd = true
  · rw [if_pos he, Player.nextPages_of_atEnd he]
    exact .closed rfl hp hs
  · have he' : s.player.atEnd = false := by simpa using he
    rw [if_neg he, ← Player.pagesLeft_turnPage he' hp, ← hs]
    exact .playing (s := { s with player := s.player.turnPage, noted := false })
      ((hc.turnPage hw he').playing rfl) hp rfl

/-- Nothing is noted twice: a session notes the page on show if it is complete, and then goes on
if it may. -/
theorem awaits_goOn_note (hc : s.player.Coherent) (ha : s.player.playhead.active = true)
    (hp : s.player.events = []) (hn : s.noted = false) :
    ∃ rest, (goOn (note s)).pages.map PageRecord.content ++ rest =
        s.pages.map PageRecord.content ++ s.player.pagesLeft s.events ∧
      Awaits rest (goOn (note s)) := by
  by_cases hw : s.player.playhead.waiting = true
  · have hphase : s.player.phase.isWaiting = true := by rw [hc.isWaiting_phase, hw]
    have hcontent : s.record.content =
        ⟨s.player.page.text, s.events ++ s.player.events, s.player.playhead.ended⟩ := by
      rw [hp, List.append_nil]
      rfl
    have hpages : (s.pages ++ [s.record]).map PageRecord.content ++ s.player.nextPages =
        s.pages.map PageRecord.content ++ s.player.pagesLeft s.events := by
      rw [Player.pagesLeft_of_waiting hw, List.map_append, List.append_assoc, ← hcontent]
      rfl
    rw [note_of_waiting hphase hn]
    refine ⟨s.player.nextPages, ?_⟩
    -- the page stays in a timed wait, or is turned at once
    by_cases ht : 0 < s.player.playhead.timedWait
    · rw [goOn_of_phase_ne (by simp [Player.phase, Playhead.phase, ha, hw, ht])]
      exact ⟨hpages, .timedWait (s := { s with
        pages := s.pages ++ [s.record], events := [], noted := true }) hw ht hp rfl rfl⟩
    · rw [goOn_of_phase (by simp [Player.phase, Playhead.phase, ha, hw, ht])]
      dsimp only
      rw [show s.player.next = s.player.advance from if_neg ht]
      exact ⟨hpages, awaits_advance (s := { s with
        pages := s.pages ++ [s.record], events := [], noted := true }) hc hw hp rfl⟩
  · have hw' : s.player.playhead.waiting = false := by simpa using hw
    have hphase : s.player.phase.isWaiting = false := by rw [hc.isWaiting_phase, hw']
    rw [note_of_not_waiting hphase,
      goOn_of_phase_ne (by simp [Player.phase, Playhead.phase, ha, hw'])]
    refine ⟨_, rfl, .playing (s := { s with noted := false }) ?_ hp rfl⟩
    rcases hc.mode with hm | hm | hm
    · exact absurd hm (Playhead.not_idle_of_active ha)
    · exact hm
    · rw [hm.waiting] at hw'
      simp at hw'

/-- A frame while a page is put out notes the page if it completes it. -/
theorem awaits_frame_playing (hc : s.player.Coherent)
    (hm : s.player.playhead.Playing s.player.script.instructions) (hn : s.noted = false)
    (length : Nat) :
    ∃ rest, (s.frame length).pages.map PageRecord.content ++ rest =
        s.pages.map PageRecord.content ++ s.player.pagesLeft s.events ∧
      Awaits rest (s.frame length) := by
  have hleft := Player.pagesLeft_update hm length s.events
  rw [← Player.pagesLeft_takeEvents] at hleft
  rw [← hleft]
  exact awaits_goOn_note (s := collect { s with player := s.player.update length false })
    (hc.update length false).takeEvents (Player.active_update_of_playing hm length) rfl hn

theorem isWaiting_phase_advance {p : Player} (hc : p.Coherent) (hw : p.playhead.waiting = true) :
    p.advance.phase.isWaiting = false := by
  have ha := (hc.waiting hw).active
  rw [hc.advance_of_waiting hw]
  split
  · rfl
  · simp [Player.phase, Playhead.phase, Player.turnPage, Playhead.startPage, Phase.isWaiting, ha]

theorem events_advance {p : Player} (hc : p.Coherent) (hw : p.playhead.waiting = true) :
    p.advance.events = p.events := by
  rw [hc.advance_of_waiting hw]
  split <;> rfl

/-- A frame during a timed wait notes nothing, and the page behind begins at the end of the wait. -/
theorem awaits_frame_timedWait (hc : s.player.Coherent) (hw : s.player.playhead.waiting = true)
    (ht : 0 < s.player.playhead.timedWait) (hp : s.player.events = []) (hs : s.events = [])
    (hn : s.noted = true) (length : Nat) :
    (s.frame length).pages = s.pages ∧ Awaits s.player.nextPages (s.frame length) := by
  have ha := (hc.waiting hw).active
  generalize hq : (s.player.tick length).movePlayhead
    { s.player.playhead with timedWait := s.player.playhead.timedWait - length } = q
  have hcq : q.Coherent := by
    rw [← hq]
    exact (hc.move (.tick _ length)).move (.timedWait _ _ (Nat.sub_le _ _))
  have hwq : q.playhead.waiting = true := by rw [← hq]; exact hw
  have hpq : q.events = [] := by rw [← hq]; exact hp
  have hnext : q.nextPages = s.player.nextPages := by rw [← hq]; rfl
  have hupdate : s.player.update length false =
      if q.playhead.timedWait = 0 then q.advance else q := by
    unfold Player.update
    rw [if_neg (by simp [ha]), ← hq]
    dsimp only
    rw [if_pos (show 0 < (s.player.tick length).playhead.timedWait from ht)]
    rfl
  unfold frame
  rw [hupdate, ← hnext]
  -- at the end of the wait the next page begins, but nothing of it is put out in this frame
  by_cases h0 : q.playhead.timedWait = 0
  · have hphase := isWaiting_phase_advance hcq hwq
    rw [if_pos h0, collect_of_events ((events_advance hcq hwq).trans hpq),
      note_of_not_waiting hphase, goOn_of_phase_ne (fun h => by simp_all [Phase.isWaiting])]
    exact ⟨rfl, awaits_advance (s := { s with player := q }) hcq hwq hpq hs⟩
  · have hphase : q.phase = .timedWait q.playhead.timedWait := by
      simp [Player.phase, Playhead.phase, (hcq.waiting hwq).active, hwq, Nat.pos_of_ne_zero h0]
    have hwaiting : q.phase.isWaiting = true := by rw [hcq.isWaiting_phase, hwq]
    rw [if_neg h0, collect_of_events hpq, note_of_noted (s := { s with player := q }) hwaiting hn,
      goOn_of_phase_ne (by simp [hphase])]
    exact ⟨rfl, .timedWait (s := { s with player := q }) hwq (Nat.pos_of_ne_zero h0) hpq hs hn⟩

/-- A frame notes nothing after the box has closed. -/
theorem awaits_frame_closed (ha : s.player.playhead.active = false) (hp : s.player.events = [])
    (hs : s.events = []) (length : Nat) :
    (s.frame length).pages = s.pages ∧ Awaits [] (s.frame length) := by
  have hphase : s.player.phase = .idle := by simp [Player.phase, Playhead.phase, ha]
  have hupdate : s.player.update length false = s.player := if_pos (by simp [ha])
  unfold frame
  rw [hupdate, collect_of_events hp, note_of_not_waiting (by simp [hphase, Phase.isWaiting]),
    goOn_of_phase_ne (by simp [hphase])]
  exact ⟨rfl, .closed (s := { s with noted := false }) ha hp hs⟩

/-- **A frame notes the first of the pages that a session awaits, or none.** -/
theorem awaits_frame (hc : s.player.Coherent) (h : Awaits rest s) (length : Nat) :
    ∃ rest', (s.frame length).pages.map PageRecord.content ++ rest' =
        s.pages.map PageRecord.content ++ rest ∧ Awaits rest' (s.frame length) := by
  cases h with
  | closed ha hp hs =>
    obtain ⟨hpages, h⟩ := awaits_frame_closed ha hp hs length
    exact ⟨[], by rw [hpages], h⟩
  | playing hm _ hn => exact awaits_frame_playing hc hm hn length
  | timedWait hw ht hp hs hn =>
    obtain ⟨hpages, h⟩ := awaits_frame_timedWait hc hw ht hp hs hn length
    exact ⟨_, by rw [hpages], h⟩

/-! ## Whole sessions -/

theorem player_note (s : Session) : s.note.player = s.player := by
  unfold note
  split
  · rfl
  · split <;> rfl

theorem pages_goOn (s : Session) : s.goOn.pages = s.pages := by
  unfold goOn
  split <;> rfl

/-- A frame lets time pass, takes the events, and goes on or does not. -/
theorem player_frame (s : Session) (length : Nat) :
    (s.frame length).player = (s.player.update length false).takeEvents.2 ∨
      (s.frame length).player = (s.player.update length false).takeEvents.2.next := by
  unfold frame goOn
  split
  · right
    dsimp only
    rw [player_note]
    rfl
  · left
    rw [player_note]
    rfl

theorem coherent_frame (hc : s.player.Coherent) (length : Nat) :
    (s.frame length).player.Coherent := by
  have hu := (hc.update length false).takeEvents
  rcases s.player_frame length with h | h
  · rw [h]
    exact hu
  · rw [h]
    exact hu.next

theorem pages_frame (s : Session) (length : Nat) :
    (s.frame length).pages = s.pages ∨
      ∃ r : PageRecord, r.number = s.pages.length + 1 ∧
        (s.frame length).pages = s.pages ++ [r] := by
  unfold frame
  rw [pages_goOn]
  unfold note
  split
  · exact Or.inl rfl
  · split
    · exact Or.inl rfl
    · exact Or.inr ⟨_, rfl, rfl⟩

/-- A session has noted the first of some pages, numbered them from 1, and awaits the others. -/
structure Follows (all : List PageContent) (s : Session) : Prop where
  coherent : s.player.Coherent
  numbers : s.pages.map PageRecord.number = List.range' 1 s.pages.length
  contents : ∃ rest, s.pages.map PageRecord.content ++ rest = all ∧ Awaits rest s

namespace Follows

variable {all : List PageContent}

theorem frame (h : s.Follows all) (length : Nat) : (s.frame length).Follows all := by
  obtain ⟨rest, hrest, ha⟩ := h.contents
  obtain ⟨rest', hrest', ha'⟩ := awaits_frame h.coherent ha length
  refine
    { coherent := coherent_frame h.coherent length
      numbers := ?_
      contents := ⟨rest', hrest'.trans hrest, ha'⟩ }
  rcases s.pages_frame length with hp | ⟨r, hr, hp⟩
  · rw [hp, h.numbers]
  · rw [hp, List.map_append, h.numbers, List.length_append, List.map_singleton, hr,
      List.length_singleton, List.range'_1_concat, Nat.add_comm 1]

theorem play (h : s.Follows all) (length limit n : Nat) :
    (play length limit n s).1.Follows all ∧
      ((Session.play length limit n s).2 = .closed →
        (Session.play length limit n s).1.player.isBusy = false) := by
  induction n generalizing s with
  | zero => exact ⟨h, fun he => by simp [Session.play] at he⟩
  | succ n ih =>
    unfold Session.play
    by_cases hb : s.player.isBusy = true
    · rw [if_pos hb]
      dsimp only
      by_cases hl : limit < (s.frame length).player.clock
      · rw [if_pos hl]
        exact ⟨h.frame length, fun he => by simp at he⟩
      · rw [if_neg hl]
        exact ih (h.frame length)
    · rw [if_neg hb]
      exact ⟨h, fun _ => by simpa using hb⟩

/-- Once the box has closed, all pages have been noted, and no event is left over. -/
theorem all_noted (h : s.Follows all) (hb : s.player.isBusy = false) :
    s.pages.map PageRecord.content = all ∧ s.collect.events = [] := by
  obtain ⟨rest, hrest, ha⟩ := h.contents
  cases ha with
  | closed _ hp hs =>
    rw [collect_of_events hp]
    exact ⟨by rw [← hrest, List.append_nil], hs⟩
  | playing hm _ _ => simp [Player.isBusy, hm.active, hm.busy] at hb
  | timedWait hw _ _ _ _ => simp [Player.isBusy, (h.coherent.waiting hw).active, hw] at hb

end Follows

/-- A session that has just begun awaits all pages of its script. -/
theorem follows_load {p : Player} (hc : p.Coherent) (s : Script) :
    Follows s.pages { player := p.load s } where
  coherent := hc.load s
  numbers := rfl
  contents := by
    refine ⟨_, ?_, .playing (Playhead.Playing.start _) rfl rfl⟩
    rw [s.pages_eq]
    rfl

end Session

/-! ## The limit of a session -/

namespace Session

/-- A frame moves the clock by its length, or not at all after the box has closed. -/
theorem clock_frame_le (s : Session) (length : Nat) :
    (s.frame length).player.clock ≤ s.player.clock + length := by
  have hu : (s.player.update length false).takeEvents.2.clock ≤ s.player.clock + length :=
    Player.clock_update_le s.player length false
  rcases s.player_frame length with h | h
  · rw [h]
    exact hu
  · rw [h, Player.clock_next]
    exact hu

theorem clock_iterate_frame_le (s : Session) (length n : Nat) :
    ((frame length)^[n] s).player.clock ≤ s.player.clock + n * length := by
  induction n generalizing s with
  | zero => simp
  | succ n ih =>
    have h := ih (s.frame length)
    have hs := s.clock_frame_le length
    rw [Function.iterate_succ_apply, Nat.succ_mul]
    omega

/-- Frames that keep the clock within the limit are all played. -/
theorem ending_play {length limit : Nat} (fuel n : Nat) (s : Session) (hn : n < fuel)
    (hclock : ∀ k ≤ n, ((frame length)^[k] s).player.clock ≤ limit)
    (hclosed : ((frame length)^[n] s).player.isBusy = false) :
    (play length limit fuel s).2 = .closed := by
  induction fuel generalizing n s with
  | zero => exact absurd hn (Nat.not_lt_zero n)
  | succ fuel ih =>
    unfold play
    by_cases hb : s.player.isBusy = true
    · rw [if_pos hb]
      dsimp only
      -- a box that is still open has not been played to its end by no frame
      cases n with
      | zero =>
        rw [show ((frame length)^[0] s).player.isBusy = s.player.isBusy from rfl, hb] at hclosed
        simp at hclosed
      | succ n =>
        have hle : (s.frame length).player.clock ≤ limit := hclock 1 (by omega)
        rw [if_neg (Nat.not_lt.mpr hle)]
        exact ih n (s.frame length) (by omega) (fun k hk => hclock (k + 1) (by omega)) hclosed
    · rw [if_neg hb]

end Session

/-- A transcript is what a session has noted, and, if the box has closed, the events left over. -/
theorem Player.transcript_eq (p : Player) (length limit : Nat) :
    p.transcript length limit =
      let played := Session.play length limit (limit / length + 1) { player := p }
      ⟨played.1.pages, if played.2 = .closed then played.1.collect.events else [], played.2⟩ := by
  unfold transcript
  generalize Session.play length limit (limit / length + 1) { player := p } = played
  obtain ⟨s, ending⟩ := played
  cases ending <;> rfl

/-- A box that closes in time ends its session. -/
theorem Player.ending_transcript {p : Player} {length limit n : Nat} (hlength : 0 < length)
    (hn : n * length ≤ limit)
    (hclosed : ((Session.frame length)^[n] { player := p }).player.isBusy = false)
    (hstart : p.clock = 0) : (p.transcript length limit).ending = .closed := by
  have hfuel : n < limit / length + 1 := Nat.lt_succ_of_le ((Nat.le_div_iff_mul_le hlength).mpr hn)
  have hclock : ∀ k ≤ n, ((Session.frame length)^[k] { player := p }).player.clock ≤ limit := by
    intro k hk
    have h := Session.clock_iterate_frame_le { player := p } length k
    have hmul := Nat.mul_le_mul_right length hk
    rw [show ({ player := p } : Session).player.clock = 0 from hstart] at h
    omega
  rw [transcript_eq]
  exact Session.ending_play (limit / length + 1) n { player := p } hfuel hclock hclosed

/-- **A session that ends by itself notes the pages of its script**, each once and with its own
events, and numbers them from 1; no event is left over. -/
theorem Player.pages_transcript {p : Player} (hc : p.Coherent) (s : Script) (length limit : Nat)
    (h : ((p.load s).transcript length limit).ending = .closed) :
    ((p.load s).transcript length limit).pages.map PageRecord.content = s.pages ∧
      ((p.load s).transcript length limit).pages.map PageRecord.number =
        List.range' 1 s.pages.length ∧
      ((p.load s).transcript length limit).events = [] := by
  obtain ⟨hf, hb⟩ := (Session.follows_load hc s).play length limit (limit / length + 1)
  rw [transcript_eq] at h ⊢
  dsimp only at h ⊢
  obtain ⟨hpages, hevents⟩ := hf.all_noted (hb h)
  refine ⟨hpages, ?_, ?_⟩
  · rw [← hpages, List.length_map]
    exact hf.numbers
  · rw [if_pos h]
    exact hevents

end DialogueBox
