import DialogueBox.Proofs.Playback.Pagination
import DialogueBox.Proofs.Playback.Reachable

/-!
# No page goes by unseen

However long a frame is and however short the pages of a script are, one call of the host completes
at most one page and takes at most one page off, and it takes a page off before it completes the
next one. So a host that looks at the page after every call sees every page that is ever completed
(`Player.pages_seen`).

What happens to pages within a call is not visible in the player that the call leads to. A
chronicle is a player that notes it: its functions are those of the player, and note a page where
the player completes it or takes it off. Forgetting the notes gives the player back
(`player_call`), and no note is missing: what a page shows stays there until it is noted that the
page is taken off, and no page is complete that was not before, unless it is noted (`Between`).
-/

namespace DialogueBox

/-! ## Pages that go on -/

/-- A page goes on from another one: all that one shows is there. -/
structure Page.Extends (q p : Page) : Prop where
  glyphs : p.glyphs.toList <+: q.glyphs.toList
  text : p.text.toList <+: q.text.toList

theorem Page.Extends.refl (p : Page) : p.Extends p := ⟨List.prefix_rfl, List.prefix_rfl⟩

theorem Page.Extends.trans {p q r : Page} (h : r.Extends q) (h' : q.Extends p) : r.Extends p :=
  ⟨h'.glyphs.trans h.glyphs, h'.text.trans h.text⟩

theorem Page.extends_after (m : Metrics) (s : Style) (p : Page) (i : Instruction) :
    (p.after m s i).Extends p := by
  refine ⟨?_, by rw [toList_text_after]; exact List.prefix_append _ _⟩
  have hplace : ∀ k size fallback,
      p.glyphs.toList <+: (p.place k size s fallback).glyphs.toList := by
    intro k size fallback
    show _ <+: (p.glyphs.push _).toList
    rw [Array.toList_push]
    exact List.prefix_append _ _
  cases i with
  | char c => exact hplace _ _ _
  | icon id =>
    simp only [after, withIcon]
    split
    · exact hplace _ _ _
    · exact List.prefix_rfl
  | _ => exact List.prefix_rfl

/-! ## What happens to pages -/

/-- What can happen to the page of a player. -/
inductive PageEvent
  /-- The page has become complete; this is how it looks. -/
  | completed (page : Page)
  /-- The page has been taken off for the next one. -/
  | turned
  /-- The page has been taken off, and the box has closed. -/
  | closed
  /-- The host looks at the page. -/
  | read (page : Page)

/-- A player, and what has happened to its pages. -/
structure Chronicle where
  player : Player
  log : List PageEvent := []

namespace Chronicle

/-- Does something that neither completes a page nor takes one off. -/
def apply (f : Player → Player) (c : Chronicle) : Chronicle := { c with player := f c.player }

/-- Does something that is noted. -/
def note (e : PageEvent) (f : Player → Player) (c : Chronicle) : Chronicle :=
  ⟨f c.player, c.log ++ [e]⟩

/-! ## Playing with notes -/

/-- Goes past an instruction and carries it out. -/
def step (instant : Bool) (i : Instruction) (c : Chronicle) : Chronicle :=
  if i.endsPage then c.note (.completed c.player.page) (Player.step instant i)
  else c.apply (Player.step instant i)

/-- Carries out instructions until one has to wait or halts. -/
def drain (instant : Bool) : List Instruction → Chronicle → Chronicle
  | [], c => c.note (.completed c.player.page) Player.finishPage
  | i :: rest, c =>
    if c.player.mustWait instant i then c
    else if i.halts instant then c.step instant i
    else drain instant rest (c.step instant i)

/-- Completes the page at once. -/
def skip (c : Chronicle) : Chronicle :=
  let d := c.apply fun p => p.movePlayhead { p.playhead with pause := 0 }
  (d.drain true d.player.ahead).apply fun p => p.movePlayhead { p.playhead with charTimer := 0 }

/-- Goes on: completes the page, turns it, or closes the box. -/
def advance (c : Chronicle) : Chronicle :=
  if !c.player.playhead.active then c.apply fun p => p.movePlayhead p.playhead.close
  else if c.player.playhead.waiting then
    if c.player.atEnd then c.note .closed Player.close else c.note .turned Player.turnPage
  else if c.player.playhead.busy then c.skip
  else c

/-- Goes on at the host's wish. -/
def next (c : Chronicle) : Chronicle := if 0 < c.player.playhead.timedWait then c else c.advance

/-- Lets time pass in a timed wait; at its end the player goes on. -/
def countDown (elapsed : Nat) (c : Chronicle) : Chronicle :=
  let d := c.apply fun p =>
    p.movePlayhead { p.playhead with timedWait := p.playhead.timedWait - elapsed }
  if d.player.playhead.timedWait = 0 then d.advance else d

/-- Lets time pass for the page that is put out. -/
def reveal (elapsed : Nat) (c : Chronicle) : Chronicle :=
  if !c.player.playhead.active || c.player.playhead.waiting then c
  else
    let d := c.apply fun p => p.movePlayhead { p.playhead with pause := p.playhead.pause - elapsed }
    if 0 < d.player.playhead.pause then d
    else if d.player.playhead.busy then
      let e := d.apply fun p => p.movePlayhead (p.playhead.gather elapsed)
      e.drain false e.player.ahead
    else d

/-- One frame. -/
def update (elapsed : Nat) (wish : Bool) (c : Chronicle) : Chronicle :=
  if !c.player.playhead.active then c
  else
    let c := c.apply fun p => p.tick elapsed
    if 0 < c.player.playhead.timedWait then c.countDown elapsed
    else (if wish && c.player.playhead.inputEnabled then c.advance else c).reveal elapsed

/-- A call of the host. -/
def call (c : Chronicle) : Call → Chronicle
  | .update elapsed wish => c.update elapsed wish
  | .next => c.next
  | .takeEvent => c.apply fun p => p.takeEvent.2

/-! ## Forgetting the notes -/

theorem player_step (instant : Bool) (i : Instruction) (c : Chronicle) :
    (c.step instant i).player = c.player.step instant i := by
  unfold step
  split <;> rfl

theorem player_drain (instant : Bool) (left : List Instruction) (c : Chronicle) :
    (c.drain instant left).player = c.player.drain instant left := by
  induction left generalizing c with
  | nil => rfl
  | cons i rest ih =>
    rw [drain, Player.drain_cons]
    split
    · rfl
    · split
      · exact player_step instant i c
      · rw [ih, player_step]

theorem player_skip (c : Chronicle) : c.skip.player = c.player.skip := by
  show Player.movePlayhead (Chronicle.player (drain ..)) _ = _
  rw [player_drain]
  rfl

theorem player_advance (c : Chronicle) : c.advance.player = c.player.advance := by
  unfold advance Player.advance
  split
  · rfl
  · split
    · split <;> rfl
    · split
      · exact player_skip c
      · rfl

theorem player_countDown (elapsed : Nat) (c : Chronicle) :
    (c.countDown elapsed).player = c.player.countDown elapsed := by
  unfold countDown Player.countDown
  dsimp only [apply]
  split
  · exact player_advance _
  · rfl

theorem player_reveal (elapsed : Nat) (c : Chronicle) :
    (c.reveal elapsed).player = c.player.reveal elapsed := by
  unfold reveal Player.reveal
  dsimp only [apply]
  split
  · rfl
  · split
    · rfl
    · split
      · exact player_drain _ _ _
      · rfl

theorem player_update (elapsed : Nat) (wish : Bool) (c : Chronicle) :
    (c.update elapsed wish).player = c.player.update elapsed wish := by
  unfold update Player.update
  dsimp only [apply]
  split
  · rfl
  · split
    · exact player_countDown _ _
    · rw [player_reveal]
      split
      · rw [player_advance]
      · rfl

/-- **A chronicle notes what its player does.** -/
theorem player_call (c : Chronicle) (k : Call) : (c.call k).player = k.run c.player := by
  cases k with
  | update elapsed wish => exact player_update elapsed wish c
  | next =>
    show c.next.player = c.player.next
    unfold next Player.next
    split
    · rfl
    · exact player_advance c
  | takeEvent => rfl

/-! ## What is noted -/

variable {c d : Chronicle} {l : List PageEvent} {page : Page}

/-- What putting out a page leads to, when `l` has been noted before and the page was `page`: the
page goes on, or else it is complete, noted and on show. -/
inductive Fills (l : List PageEvent) (page : Page) (d : Chronicle) : Prop
  | filling (hl : d.log = l) (hp : d.player.page.Extends page)
      (hw : d.player.playhead.waiting = false)
  | completed (hl : d.log = l ++ [.completed d.player.page]) (hp : d.player.page.Extends page)
      (hw : d.player.playhead.waiting = true)

theorem Fills.mono {page' : Page} (h : Fills l page' d) (hp : page'.Extends page) :
    Fills l page d := by
  rcases h with ⟨hl, hp', hw⟩ | ⟨hl, hp', hw⟩
  · exact .filling hl (hp'.trans hp) hw
  · exact .completed hl (hp'.trans hp) hw

theorem fills_step (instant : Bool) (i : Instruction) (hw : c.player.playhead.waiting = false) :
    Fills c.log c.player.page (c.step instant i) := by
  have hwait := Player.waiting_step instant i c.player
  rw [hw, Bool.false_or] at hwait
  unfold step
  by_cases he : i.endsPage = true
  · rw [if_pos he]
    -- the instructions that complete a page put nothing on it
    have hpage : (c.player.step instant i).page = c.player.page := by
      rw [Player.step_eq]
      cases i with
      | next ms => rfl
      | finish => rfl
      | _ => simp [Instruction.endsPage, Instruction.isNext, Instruction.isFinish] at he
    refine .completed ?_ ?_ (hwait.trans he)
    · show _ = c.log ++ [PageEvent.completed (c.player.step instant i).page]
      rw [hpage]
      rfl
    · show (c.player.step instant i).page.Extends _
      rw [hpage]
      exact .refl _
  · rw [if_neg he]
    refine .filling rfl ?_ (hwait.trans (by simpa using he))
    show (c.player.step instant i).page.Extends _
    rw [Player.step_eq]
    exact Page.extends_after _ _ _ _

theorem fills_drain (instant : Bool) (left : List Instruction)
    (hw : c.player.playhead.waiting = false) :
    Fills c.log c.player.page (c.drain instant left) := by
  induction left generalizing c with
  | nil =>
    have hpage : c.player.finishPage.page = c.player.page := by rw [Player.finishPage_eq]
    have hwait : c.player.finishPage.playhead.waiting = true := by rw [Player.finishPage_eq]; rfl
    refine .completed ?_ ?_ hwait
    · show _ = c.log ++ [PageEvent.completed c.player.finishPage.page]
      rw [hpage]
      rfl
    · show c.player.finishPage.page.Extends _
      rw [hpage]
      exact .refl _
  | cons i rest ih =>
    rw [drain]
    split
    · exact .filling rfl (.refl _) hw
    · split
      · exact fills_step instant i hw
      · next hh =>
        -- an instruction at which playing goes on completes no page
        have hwait := (Player.playhead_step_of_not_halts (p := c.player) (by simpa using hh)).2.2.1
        rw [← player_step, hw] at hwait
        rcases fills_step instant i hw with ⟨hl, hp, hw'⟩ | ⟨-, -, hw'⟩
        · rw [← hl]
          exact (ih hw').mono hp
        · rw [hwait] at hw'
          simp at hw'

theorem active_drain (instant : Bool) (c : Chronicle) :
    (c.drain instant c.player.ahead).player.playhead.active = c.player.playhead.active := by
  rw [player_drain]
  exact Player.active_drain instant c.player

theorem fills_skip (ha : c.player.playhead.active = true)
    (hw : c.player.playhead.waiting = false) :
    Fills c.log c.player.page c.skip ∧ c.skip.player.playhead.active = true := by
  have hd := fills_drain (c := c.apply fun p => p.movePlayhead { p.playhead with pause := 0 }) true
    (c.player.movePlayhead { c.player.playhead with pause := 0 }).ahead hw
  refine ⟨?_, (active_drain true _).trans ha⟩
  rcases hd with ⟨hl, hp, hw'⟩ | ⟨hl, hp, hw'⟩
  · exact .filling hl hp hw'
  · exact .completed hl hp hw'

theorem fills_reveal (elapsed : Nat) (ha : c.player.playhead.active = true)
    (hw : c.player.playhead.waiting = false) :
    Fills c.log c.player.page (c.reveal elapsed) ∧
      (c.reveal elapsed).player.playhead.active = true := by
  unfold reveal
  rw [if_neg (by simp [ha, hw])]
  dsimp only
  generalize hd : c.apply (fun p =>
    p.movePlayhead { p.playhead with pause := p.playhead.pause - elapsed }) = d
  have hdl : d.log = c.log := by rw [← hd]; rfl
  have hdp : d.player.page = c.player.page := by rw [← hd]; rfl
  have hda : d.player.playhead.active = true := by rw [← hd]; exact ha
  have hdw : d.player.playhead.waiting = false := by rw [← hd]; exact hw
  rw [← hdl, ← hdp]
  split
  · exact ⟨.filling rfl (.refl _) hdw, hda⟩
  · split
    · exact ⟨fills_drain (c := d.apply fun p => p.movePlayhead (p.playhead.gather elapsed)) false _
        hdw, (active_drain false _).trans hda⟩
    · exact ⟨.filling rfl (.refl _) hdw, hda⟩

/-- Time does nothing to a page that is complete, and to a closed box. -/
theorem reveal_eq (elapsed : Nat)
    (h : c.player.playhead.active = false ∨ c.player.playhead.waiting = true) :
    c.reveal elapsed = c := by
  unfold reveal
  rw [if_pos]
  rcases h with h | h <;> simp [h]

/-- What putting out a page has led to, time leads on. -/
theorem Fills.reveal (h : Fills l page d) (ha : d.player.playhead.active = true)
    (elapsed : Nat) :
    Fills l page (d.reveal elapsed) ∧ (d.reveal elapsed).player.playhead.active = true := by
  rcases h with ⟨hl, hp, hw⟩ | ⟨hl, hp, hw⟩
  · obtain ⟨hf, ha'⟩ := fills_reveal elapsed ha hw
    rw [hl] at hf
    exact ⟨hf.mono hp, ha'⟩
  · rw [reveal_eq elapsed (Or.inr hw)]
    exact ⟨.completed hl hp hw, ha⟩

/-- Whether the page is complete. -/
def waits (c : Chronicle) : Bool := c.player.playhead.active && c.player.playhead.waiting

/-- What a call of the host may lead to when `l` has been noted before, the page was `page`, and
`waits` says whether it was complete. -/
inductive Course (l : List PageEvent) (page : Page) (waits : Bool) (d : Chronicle) : Prop
  | quiet (hl : d.log = l) (hp : d.player.page = page) (hw : d.waits = waits)
  | fills (hw : waits = false) (h : Fills l page d) (ha : d.player.playhead.active = true)
  | closed (hw : waits = true) (hl : d.log = l ++ [.closed])
      (ha : d.player.playhead.active = false)
  | turned (hw : waits = true) (h : Fills (l ++ [.turned]) page.clear d)
      (ha : d.player.playhead.active = true)

theorem course_advance (ha : c.player.playhead.active = true) :
    Course c.log c.player.page c.waits c.advance := by
  unfold advance
  rw [if_neg (by simp [ha])]
  by_cases hw : c.player.playhead.waiting = true
  · have hwaits : c.waits = true := by simp [waits, ha, hw]
    rw [if_pos hw]
    split
    · exact .closed hwaits rfl rfl
    · exact .turned hwaits (.filling rfl (.refl _) rfl) ha
  · have hwaits : c.waits = false := by simp [waits, hw]
    rw [if_neg hw]
    split
    · obtain ⟨hf, ha'⟩ := fills_skip ha (by simpa using hw)
      exact .fills hwaits hf ha'
    · exact .quiet rfl rfl rfl

theorem Course.reveal {waits : Bool} (h : Course l page waits d) (elapsed : Nat) :
    Course l page waits (d.reveal elapsed) := by
  cases h with
  | quiet hl hp hw =>
    by_cases hd : d.player.playhead.active = false ∨ d.player.playhead.waiting = true
    · rw [reveal_eq elapsed hd]
      exact .quiet hl hp hw
    · simp only [not_or, Bool.not_eq_false, Bool.not_eq_true] at hd
      obtain ⟨hf, ha⟩ := fills_reveal elapsed hd.1 hd.2
      rw [hl, hp] at hf
      exact .fills (hw.symm.trans (by simp [Chronicle.waits, hd.2])) hf ha
  | fills hw h ha =>
    obtain ⟨hf, ha'⟩ := h.reveal ha elapsed
    exact .fills hw hf ha'
  | closed hw hl ha =>
    rw [reveal_eq elapsed (Or.inl ha)]
    exact .closed hw hl ha
  | turned hw h ha =>
    obtain ⟨hf, ha'⟩ := h.reveal ha elapsed
    exact .turned hw hf ha'

theorem course_countDown (elapsed : Nat) (ha : c.player.playhead.active = true) :
    Course c.log c.player.page c.waits (c.countDown elapsed) := by
  unfold countDown
  dsimp only
  split
  · exact course_advance (c := c.apply fun p =>
      p.movePlayhead { p.playhead with timedWait := p.playhead.timedWait - elapsed }) ha
  · exact .quiet rfl rfl rfl

theorem course_update (elapsed : Nat) (wish : Bool) (c : Chronicle) :
    Course c.log c.player.page c.waits (c.update elapsed wish) := by
  unfold update
  by_cases ha : c.player.playhead.active = true
  · rw [if_neg (by simp [ha])]
    dsimp only
    split
    · exact course_countDown (c := c.apply fun p => p.tick elapsed) elapsed ha
    · refine Course.reveal ?_ elapsed
      split
      · exact course_advance (c := c.apply fun p => p.tick elapsed) ha
      · exact .quiet rfl rfl rfl
  · rw [if_pos (by simpa using ha)]
    exact .quiet rfl rfl rfl

/-- **A call takes at most one page off, and then completes at most one.** -/
theorem course_call (c : Chronicle) (k : Call) :
    Course c.log c.player.page c.waits (c.call k) := by
  cases k with
  | update elapsed wish => exact course_update elapsed wish c
  | takeEvent =>
    have hplayer : (c.call .takeEvent).player = { c.player with events := c.player.events.tail } :=
      congrArg Prod.snd c.player.takeEvent_eq
    refine .quiet rfl ?_ ?_
    · rw [hplayer]
    · rw [waits, hplayer]
      rfl
  | next =>
    show Course c.log c.player.page c.waits c.next
    unfold next
    split
    · exact .quiet rfl rfl rfl
    · by_cases ha : c.player.playhead.active = true
      · exact course_advance ha
      · have hwaits : c.waits = false := by simp [waits, ha]
        unfold advance
        rw [if_pos (by simpa using ha), hwaits]
        exact .quiet rfl rfl rfl

end Chronicle

/-! ## Reading after every call -/

/-- What happens to pages in a call. -/
def Call.chronicle (k : Call) (p : Player) : List PageEvent :=
  (Chronicle.call { player := p } k).log

/-- What happens to pages in calls, the first one first, when the host looks at the page after each
of them. -/
def Player.chronicle : Player → List Call → List PageEvent
  | _, [] => []
  | p, k :: ks => k.chronicle p ++ .read (k.run p).page :: chronicle (k.run p) ks

/-- The phase tells whether the page is complete. -/
theorem Player.isWaiting_phase_eq (p : Player) :
    p.phase.isWaiting = (p.playhead.active && p.playhead.waiting) := by
  unfold phase Playhead.phase
  cases p.playhead.active with
  | false => rfl
  | true =>
    cases p.playhead.waiting with
    | false => rfl
    | true =>
      rw [if_neg (by simp), if_pos rfl]
      split <;> rfl

/-- What may happen to pages between a player and what it becomes in a call. First, a page is taken
off only where one was complete; else what it shows stays there. Then, a page is completed only to
stay on show; else no page is complete but the one that was so before. -/
def PageEvent.Between (p q : Player) (l : List PageEvent) : Prop :=
  ∃ off done, l = off ++ done ∧
    (off = [] ∧ q.page.Extends p.page ∨
      (off = [.turned] ∨ off = [.closed]) ∧ p.phase.isWaiting = true) ∧
    (done = [] ∧ (q.phase.isWaiting = true → off = [] ∧ p.phase.isWaiting = true) ∨
      done = [.completed q.page] ∧ q.phase.isWaiting = true ∧
        (off = [] → p.phase.isWaiting = false))

theorem Call.between_chronicle (k : Call) (p : Player) :
    PageEvent.Between p (k.run p) (k.chronicle p) := by
  have hplayer : (Chronicle.call { player := p } k).player = k.run p :=
    Chronicle.player_call { player := p } k
  have hcourse := Chronicle.course_call { player := p } k
  unfold Call.chronicle PageEvent.Between
  rw [Player.isWaiting_phase_eq, Player.isWaiting_phase_eq, ← hplayer]
  generalize Chronicle.call { player := p } k = d at hcourse
  cases hcourse with
  | quiet hl hp hw =>
    refine ⟨[], [], hl, Or.inl ⟨rfl, ?_⟩, Or.inl ⟨rfl, fun hd => ⟨rfl, hw.symm.trans hd⟩⟩⟩
    rw [hp]
    exact .refl _
  | closed hw hl ha =>
    refine ⟨[.closed], [], hl, Or.inr ⟨Or.inr rfl, hw⟩, Or.inl ⟨rfl, fun hd => ?_⟩⟩
    rw [ha] at hd
    simp at hd
  | fills hw hf ha =>
    rcases hf with ⟨hl, hp, hw'⟩ | ⟨hl, hp, hw'⟩
    · exact ⟨[], [], hl, Or.inl ⟨rfl, hp⟩, Or.inl ⟨rfl, fun hd => by simp [hw'] at hd⟩⟩
    · exact ⟨[], _, hl, Or.inl ⟨rfl, hp⟩, Or.inr ⟨rfl, by rw [ha, hw']; rfl, fun _ => hw⟩⟩
  | turned hw hf ha =>
    rcases hf with ⟨hl, -, hw'⟩ | ⟨hl, -, hw'⟩
    · exact ⟨[.turned], [], hl, Or.inr ⟨Or.inl rfl, hw⟩,
        Or.inl ⟨rfl, fun hd => by simp [hw'] at hd⟩⟩
    · exact ⟨[.turned], _, hl, Or.inr ⟨Or.inl rfl, hw⟩,
        Or.inr ⟨rfl, by rw [ha, hw']; rfl, fun h => by simp at h⟩⟩

namespace PageEvent

/-- Every page that is completed is read before anything else happens to it. -/
def AllRead (l : List PageEvent) : Prop :=
  ∀ before page after, l = before ++ .completed page :: after → after.head? = some (.read page)

theorem AllRead.cons {e : PageEvent} {l : List PageEvent} (he : ∀ page, e ≠ .completed page)
    (h : AllRead l) : AllRead (e :: l) := by
  intro before page after hl
  cases before with
  | nil =>
    rw [List.nil_append, List.cons.injEq] at hl
    exact absurd hl.1 (he page)
  | cons e' before =>
    rw [List.cons_append, List.cons.injEq] at hl
    exact h before page after hl.2

theorem AllRead.completed_read {page : Page} {l : List PageEvent} (h : AllRead l) :
    AllRead (.completed page :: .read page :: l) := by
  intro before page' after hl
  cases before with
  | nil =>
    rw [List.nil_append, List.cons.injEq, PageEvent.completed.injEq] at hl
    rw [← hl.2, ← hl.1]
    rfl
  | cons e before =>
    rw [List.cons_append, List.cons.injEq] at hl
    exact h.cons (by simp) before page' after hl.2

end PageEvent

theorem Player.allRead_chronicle (p : Player) (ks : List Call) :
    PageEvent.AllRead (p.chronicle ks) := by
  induction ks generalizing p with
  | nil => simp [PageEvent.AllRead, chronicle]
  | cons k ks ih =>
    obtain ⟨off, done, hl, hoff, hdone⟩ := k.between_chronicle p
    have hread : PageEvent.AllRead (done ++ .read (k.run p).page :: (k.run p).chronicle ks) := by
      rcases hdone with ⟨rfl, -⟩ | ⟨rfl, -⟩
      · exact (ih _).cons (by simp)
      · exact (ih _).completed_read
    rw [chronicle, hl, List.append_assoc]
    rcases hoff with ⟨rfl, -⟩ | ⟨rfl | rfl, -⟩
    · exact hread
    · exact hread.cons (by simp)
    · exact hread.cons (by simp)

/--
**No page goes by unseen.**

A call of the host takes at most one page off, which was complete before the call, and then
completes at most one page, which is on show after the call. Nothing else happens to pages. So when
calls follow each other and the host looks at the page after each of them, every page that is
completed is read before it is taken off.
-/
theorem Player.pages_seen (p : Player) :
    (∀ k : Call, (Chronicle.call { player := p } k).player = k.run p ∧
      PageEvent.Between p (k.run p) (k.chronicle p)) ∧
      ∀ ks, PageEvent.AllRead (p.chronicle ks) :=
  ⟨fun k => ⟨Chronicle.player_call { player := p } k, k.between_chronicle p⟩,
    fun ks => p.allRead_chronicle ks⟩

end DialogueBox
