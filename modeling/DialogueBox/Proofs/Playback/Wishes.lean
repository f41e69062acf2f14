import DialogueBox.Proofs.Playback.Finishing

/-!
# Two ways of going on

A reader's wish to go on reaches a player with a frame, and a host's wish by itself. The two agree
(`wishes_agree`), whatever the player is doing:

* where a reader's wish is not heeded, the frame is one without a wish;
* while a page is put out, the frame completes it as the host's wish does, only later;
* where a page waits, the frame goes on as the host's wish does, and its time counts for what
  follows.

Completing a page looks at the clock in one place: the entries that go to the backlog bear its time.
So a page that is completed later is the same but for these times (`skip_later`).
-/

namespace DialogueBox

/-! ## Times of entries -/

/-- The entry at another time. -/
def Entry.stamped (clock : Nat) : Entry → Entry
  | page text _ => .page text clock
  | event name _ => .event name clock

theorem Page.entries_eq_stamped (p : Page) (clock : Nat) :
    p.entries clock = (p.entries 0).map (Entry.stamped clock) := by
  unfold entries
  split <;> rfl

theorem Instruction.entries_eq_stamped (p : Page) (clock : Nat) (i : Instruction) :
    i.entries p clock = (i.entries p 0).map (Entry.stamped clock) := by
  cases i with
  | next ms => exact p.entries_eq_stamped clock
  | finish => exact p.entries_eq_stamped clock
  | _ => rfl

namespace Player

variable {p : Player}

/-! ## Completing a page at another time -/

/-- The player at another time, and with another backlog. -/
def later (p : Player) (clock : Nat) (b : Backlog) : Player :=
  { p with clock := clock, backlog := b }

theorem later_self (p : Player) : p.later p.clock p.backlog = p := rfl

theorem step_later (p : Player) (clock : Nat) (b : Backlog) (instant : Bool) (i : Instruction) :
    (p.later clock b).step instant i =
      (p.step instant i).later clock
        (b.pushAll ((i.entries p.page 0).map (Entry.stamped clock))) := by
  rw [step_eq, step_eq, ← Instruction.entries_eq_stamped]
  rfl

theorem finishPage_later (p : Player) (clock : Nat) (b : Backlog) :
    (p.later clock b).finishPage =
      p.finishPage.later clock (b.pushAll ((p.page.entries 0).map (Entry.stamped clock))) := by
  rw [finishPage_eq, finishPage_eq, ← Page.entries_eq_stamped]
  rfl

/-- Draining adds the same entries at any time, and each with that time. -/
theorem drain_later (instant : Bool) (left : List Instruction) (p : Player) :
    ∃ log : List Entry, ∀ clock b, (p.later clock b).drain instant left =
      (p.drain instant left).later clock (b.pushAll (log.map (Entry.stamped clock))) := by
  induction left generalizing p with
  | nil => exact ⟨p.page.entries 0, fun clock b => finishPage_later p clock b⟩
  | cons i rest ih =>
    by_cases hw : p.mustWait instant i = true
    · refine ⟨[], fun clock b => ?_⟩
      rw [drain_cons, drain_cons, if_pos hw, if_pos (show (p.later clock b).mustWait instant i from
        hw)]
      rfl
    · by_cases hh : i.halts instant = true
      · refine ⟨i.entries p.page 0, fun clock b => ?_⟩
        rw [drain_cons, drain_cons, if_neg hw, if_neg (show ¬(p.later clock b).mustWait instant i
          from hw), if_pos hh, if_pos hh, step_later]
      · obtain ⟨log, hlog⟩ := ih (p.step instant i)
        refine ⟨i.entries p.page 0 ++ log, fun clock b => ?_⟩
        rw [drain_cons, drain_cons, if_neg hw, if_neg (show ¬(p.later clock b).mustWait instant i
          from hw), if_neg hh, if_neg hh, step_later, hlog, List.map_append,
          Backlog.pushAll_append]

/-- **A page that is completed later is the same but for the times in the backlog.** -/
theorem skip_later (p : Player) : ∃ log : List Entry, ∀ clock b,
    (p.later clock b).skip =
      p.skip.later clock (b.pushAll (log.map (Entry.stamped clock))) := by
  obtain ⟨log, hlog⟩ := drain_later true
    (p.movePlayhead { p.playhead with pause := 0 }).ahead
    (p.movePlayhead { p.playhead with pause := 0 })
  refine ⟨log, fun clock b => ?_⟩
  unfold skip
  dsimp only
  rw [show (p.later clock b).movePlayhead { (p.later clock b).playhead with pause := 0 } =
    (p.movePlayhead { p.playhead with pause := 0 }).later clock b from rfl,
    show ((p.movePlayhead { p.playhead with pause := 0 }).later clock b).ahead =
      (p.movePlayhead { p.playhead with pause := 0 }).ahead from rfl, hlog]
  rfl

/-! ## The whole time of a wait -/

/-- Nothing of the time of a complete page has passed. -/
def WholeWait (p : Player) : Prop :=
  p.phase = .waiting ∨ ∃ n ms, p.phase = .timedWait ms ∧ p.playhead.position = n + 1 ∧
    p.script.instructions[n]? = some (.next ms)

/-- The time that a complete page waits for is that of the `next` it ends with. -/
def TimeGiven (p : Player) : Prop :=
  p.playhead.timedWait = 0 ∨ ∃ n, p.playhead.position = n + 1 ∧
    p.script.instructions[n]? = some (.next p.playhead.timedWait)

theorem timeGiven_step {instant : Bool} {i : Instruction} {rest : List Instruction}
    (hl : p.ahead = i :: rest) (ht : p.playhead.timedWait = 0) : (p.step instant i).TimeGiven := by
  have hi := getElem?_position hl
  rw [step_eq]
  cases i with
  | next ms => exact Or.inr ⟨p.playhead.position, rfl, hi⟩
  | wait ms =>
    left
    show (Playhead.after instant _ _).timedWait = 0
    simp only [Playhead.after]
    split <;> exact ht
  | _ => exact Or.inl ht

/-- A page that is completed at once waits for its whole time. -/
theorem timeGiven_drain {instant : Bool} (ht : p.playhead.timedWait = 0) :
    (p.drain instant p.ahead).TimeGiven := by
  refine drain_induction (P := fun q => q.playhead.timedWait = 0) ?_ ?_ ?_ ?_ ht
  · intro q i rest _ hq _ hh
    obtain ⟨-, -, -, -, -, ht⟩ := playhead_step_of_not_halts (p := q) hh
    exact ht.trans hq
  · exact fun q i rest _ hq _ => Or.inl hq
  · exact fun q i rest hl hq _ _ => timeGiven_step hl hq
  · intro q _ hq
    rw [finishPage_eq]
    exact Or.inl hq

theorem Coherent.wholeWait (hc : p.Coherent) (hw : p.playhead.waiting = true)
    (ht : p.TimeGiven) : p.WholeWait := by
  have hphase := hc.phase_of_waiting hw
  rcases ht with ht | ⟨n, hn, hi⟩
  · left
    rw [hphase, if_neg (by omega)]
  · by_cases hpos : 0 < p.playhead.timedWait
    · right
      rw [if_pos hpos] at hphase
      exact ⟨n, p.playhead.timedWait, hphase, hn, hi⟩
    · left
      rw [hphase, if_neg hpos]

/-! ## Frames with a wish -/

/-- A frame is one without a wish where input is not heeded, where the box is closed, and in a timed
wait. -/
theorem update_wish_of_unheeded (h : p.playhead.active = false ∨ 0 < p.playhead.timedWait ∨
    p.playhead.inputEnabled = false) (elapsed : Nat) :
    p.update elapsed true = p.update elapsed false := by
  unfold update
  dsimp only
  rcases h with h | h | h
  · rw [if_pos (by simp [h]), if_pos (by simp [h])]
  · rw [if_pos (show 0 < (p.tick elapsed).playhead.timedWait from h),
      if_pos (show 0 < (p.tick elapsed).playhead.timedWait from h)]
  · rw [show (p.tick elapsed).playhead.inputEnabled = false from h, Bool.and_false,
      Bool.and_false]

/-- Elsewhere it goes on if the wish is heeded, and then lets its time pass. -/
theorem update_of_untimed (ha : p.playhead.active = true) (ht : p.playhead.timedWait = 0)
    (elapsed : Nat) (wish : Bool) :
    p.update elapsed wish =
      (if wish && p.playhead.inputEnabled then (p.tick elapsed).advance
        else p.tick elapsed).reveal elapsed := by
  unfold update
  dsimp only
  rw [if_neg (by simp [ha]), if_neg (by simp [tick, ht])]
  rfl

theorem update_wish_of_heeded (ha : p.playhead.active = true) (ht : p.playhead.timedWait = 0)
    (hinput : p.playhead.inputEnabled = true) (elapsed : Nat) :
    p.update elapsed true = (p.tick elapsed).advance.reveal elapsed := by
  rw [update_of_untimed ha ht, if_pos (by simp [hinput])]

theorem reveal_of_waiting (hw : p.playhead.waiting = true) (elapsed : Nat) :
    p.reveal elapsed = p := by
  unfold reveal
  rw [if_pos (by simp [hw])]

theorem next_eq_advance (ht : p.playhead.timedWait = 0) : p.next = p.advance := by
  unfold next
  rw [if_neg (by omega)]

/-- Completing a page leaves it waiting. -/
theorem Coherent.waiting_advance {is : List Instruction} (hc : p.Coherent)
    (hm : p.playhead.Playing is) :
    p.advance = p.skip ∧ p.advance.playhead.waiting = true := by
  have hskip : p.advance = p.skip := by
    unfold Player.advance
    rw [if_neg (by simp [hm.active]), if_neg (by simp [hm.waiting]), if_pos hm.busy]
  have hactive : p.skip.playhead.active = true :=
    (active_drain true (p.movePlayhead { p.playhead with pause := 0 })).trans hm.active
  have hbusy : p.skip.playhead.busy = false := busy_drain_instant _
  rw [← hskip] at hactive hbusy
  exact ⟨hskip, (hc.advance.waiting_of_not_busy hactive hbusy).waiting⟩

/-- **While a page is put out, a frame with a wish completes it as the host's wish does,** at the
end of the frame. -/
theorem Coherent.update_wish_of_playing (hc : p.Coherent) (hphase : p.phase = .playing)
    (hinput : p.playhead.inputEnabled = true) (elapsed : Nat) :
    (∃ log : List Entry, p.next.backlog = p.backlog.pushAll (log.map (Entry.stamped p.clock)) ∧
      p.update elapsed true = p.next.later (p.tick elapsed).clock
        (p.backlog.pushAll (log.map (Entry.stamped (p.tick elapsed).clock)))) ∧
    (p.update elapsed true).WholeWait := by
  have hm := hc.playing_of_phase hphase
  have hct : (p.tick elapsed).Coherent := hc.move (.tick p elapsed)
  obtain ⟨hskip, hwaiting⟩ := hct.waiting_advance (p := p.tick elapsed) hm
  have hupdate : p.update elapsed true = (p.tick elapsed).skip := by
    rw [update_wish_of_heeded hm.active hm.timedWait hinput, reveal_of_waiting hwaiting, hskip]
  have hnext : p.next = p.skip := by
    rw [next_eq_advance hm.timedWait, (hc.waiting_advance hm).1]
  refine ⟨?_, ?_⟩
  · obtain ⟨log, hlog⟩ := p.skip_later
    refine ⟨log, ?_, ?_⟩
    · have hself := hlog p.clock p.backlog
      rw [later_self] at hself
      rw [hnext, hself]
      rfl
    · rw [hupdate, hnext]
      exact hlog (p.tick elapsed).clock p.backlog
  · have hgiven : (p.tick elapsed).skip.TimeGiven :=
      timeGiven_drain (p := (p.tick elapsed).movePlayhead
        { (p.tick elapsed).playhead with pause := 0 }) hm.timedWait
    have hcu := hc.update elapsed true
    rw [hupdate] at hcu ⊢
    rw [hskip] at hwaiting
    exact hcu.wholeWait hwaiting hgiven

/-- **Where a page waits, a frame with a wish goes on as the host's wish does,** and the next page
gets the time of the frame. -/
theorem Coherent.update_wish_of_waiting (hc : p.Coherent) (hphase : p.phase = .waiting)
    (hinput : p.playhead.inputEnabled = true) (elapsed : Nat) :
    (p.atEnd = false → p.update elapsed true = p.next.update elapsed false) ∧
    (p.atEnd = true → p.update elapsed true = p.next.tick elapsed ∧
      (p.update elapsed true).phase = .idle) := by
  obtain ⟨hw, ht⟩ := hc.of_phase_waiting hphase
  have ha := (hc.waiting hw).active
  have hct : (p.tick elapsed).Coherent := hc.move (.tick p elapsed)
  have hend : (p.tick elapsed).atEnd = p.atEnd := rfl
  rw [update_wish_of_heeded ha ht hinput, hct.advance_of_waiting hw, hend, next_eq_advance ht,
    hc.advance_of_waiting hw]
  refine ⟨fun he => ?_, fun he => ?_⟩
  · rw [he, if_neg Bool.false_ne_true, if_neg Bool.false_ne_true,
      update_of_untimed (p := p.turnPage) ha rfl, Bool.false_and, if_neg Bool.false_ne_true]
    rfl
  · rw [he, if_pos rfl, if_pos rfl]
    exact ⟨rfl, rfl⟩

/-! ## Pages that begin -/

/-- The page is turned; all that the host can ask for, and that is not of the page, is as before. -/
structure BeginsPage (p q : Player) : Prop where
  phase : q.phase = .playing
  glyphs : q.page.glyphs = #[]
  text : q.page.text = ""
  cursor : q.page.typesetter.cursor = p.settings.window.origin
  timers : q.playhead.charTimer = 0 ∧ q.playhead.pause = 0 ∧ q.playhead.timedWait = 0
  /-- The page begins at the first instruction that is no line break. -/
  position_le : p.playhead.position ≤ q.playhead.position
  skipped : ∀ n, p.playhead.position ≤ n → n < q.playhead.position →
    p.script.instructions[n]? = some .lineBreak
  stands : p.script.instructions[q.playhead.position]? ≠ some .lineBreak
  script : q.script = p.script
  style : q.style = p.style
  events : q.events = p.events
  backlog : q.backlog = p.backlog
  clock : q.clock = p.clock
  inputEnabled : q.playhead.inputEnabled = p.playhead.inputEnabled

theorem getElem?_ahead (p : Player) (n : Nat) :
    p.ahead[n]? = p.script.instructions[p.playhead.position + n]? := List.getElem?_drop

/-- The instruction at which a turned page begins is no line break. -/
theorem stands_turnPage (p : Player) :
    p.script.instructions[p.turnPage.playhead.position]? ≠ some .lineBreak := by
  intro h
  have hhead : p.turnPage.ahead.head? = some .lineBreak := by
    rw [← h, show p.turnPage.ahead.head? = p.turnPage.ahead[0]? from List.head?_eq_getElem?,
      getElem?_ahead]
    rfl
  rw [ahead_turnPage] at hhead
  have hnot := List.head?_dropWhile_not (· == Instruction.lineBreak) p.ahead
  rw [hhead] at hnot
  exact absurd hnot (by decide)

/-- Before it there are only line breaks. -/
theorem skipped_turnPage (p : Player) {n : Nat} (hle : p.playhead.position ≤ n)
    (hlt : n < p.turnPage.playhead.position) :
    p.script.instructions[n]? = some .lineBreak := by
  obtain ⟨k, rfl⟩ := Nat.exists_eq_add_of_le hle
  have hk : k < (p.ahead.takeWhile (· == .lineBreak)).length := by
    have hlt' : p.playhead.position + k <
      p.playhead.position + (p.ahead.takeWhile (· == .lineBreak)).length := hlt
    omega
  obtain ⟨i, hi⟩ : ∃ i, (p.ahead.takeWhile (· == .lineBreak))[k]? = some i :=
    ⟨_, List.getElem?_eq_getElem hk⟩
  have hbreak : i = .lineBreak := by
    simpa using List.all_eq_true.mp List.all_takeWhile i (List.mem_of_getElem? hi)
  rw [← getElem?_ahead, ahead_eq_append, List.getElem?_append_left hk, hi, hbreak]

theorem Coherent.beginsPage (hc : p.Coherent) (hw : p.playhead.waiting = true) :
    BeginsPage p p.turnPage where
  phase := (hc.turnsTo hw).phase
  glyphs := rfl
  text := rfl
  cursor := by rw [(hc.turnsTo hw).page]; rfl
  timers := ⟨rfl, rfl, rfl⟩
  position_le := Nat.le_add_right _ _
  skipped := fun _ hle hlt => p.skipped_turnPage hle hlt
  stands := p.stands_turnPage
  script := rfl
  style := rfl
  events := rfl
  backlog := rfl
  clock := rfl
  inputEnabled := rfl

/-! ## Both ways -/

/-- A frame with a wish to go on, told from the wish of the host and from a frame without a wish. -/
structure WishesAgree (p : Player) (elapsed : Nat) : Prop where
  /-- A closed box and a timed wait heed no wish, and neither does a script that has switched input
  off. -/
  unheeded : p.phase = .idle ∨ (∃ remaining, p.phase = .timedWait remaining) ∨
    p.playhead.inputEnabled = false → p.update elapsed true = p.update elapsed false
  /-- The page is completed; only the clock is ahead, and so are the times of what goes to the
  backlog. -/
  completes : p.phase = .playing → p.playhead.inputEnabled = true →
    ∃ log : List Entry, p.next.backlog = p.backlog.pushAll (log.map (Entry.stamped p.clock)) ∧
      p.update elapsed true = p.next.later (p.tick elapsed).clock
        (p.backlog.pushAll (log.map (Entry.stamped (p.tick elapsed).clock)))
  /-- If the page goes on by itself, its whole time is left. -/
  waits : p.phase = .playing → p.playhead.inputEnabled = true →
    (p.update elapsed true).WholeWait
  turns : p.phase = .waiting → p.playhead.inputEnabled = true → p.atEnd = false →
    p.update elapsed true = p.next.update elapsed false
  closes : p.phase = .waiting → p.playhead.inputEnabled = true → p.atEnd = true →
    p.update elapsed true = p.next.tick elapsed ∧ (p.update elapsed true).phase = .idle
  /-- Neither a closed box nor a timed wait heeds the host's wish. -/
  next_idle : p.phase = .idle ∨ (∃ remaining, p.phase = .timedWait remaining) → p.next = p
  next_turns : p.phase = .waiting → p.atEnd = false → BeginsPage p p.next

/-- **The reader's wish to go on and the host's agree**, in every player that a host can meet and
for frames of any length. -/
theorem wishes_agree (hp : p.Reachable) (elapsed : Nat) : WishesAgree p elapsed := by
  have hc := hp.coherent
  have htimed : (∃ remaining, p.phase = .timedWait remaining) → 0 < p.playhead.timedWait := by
    rintro ⟨remaining, hphase⟩
    obtain ⟨-, ht, hpos⟩ := hc.of_timedWait hphase
    omega
  refine
    { unheeded := fun h => update_wish_of_unheeded ?_ elapsed
      completes := fun hphase hinput => (hc.update_wish_of_playing hphase hinput elapsed).1
      waits := fun hphase hinput => (hc.update_wish_of_playing hphase hinput elapsed).2
      turns := fun hphase hinput => (hc.update_wish_of_waiting hphase hinput elapsed).1
      closes := fun hphase hinput => (hc.update_wish_of_waiting hphase hinput elapsed).2
      next_idle := fun h => ?_
      next_turns := fun hphase he => ?_ }
  · exact h.imp phase_eq_idle_iff.mp (Or.imp_left htimed)
  · rcases h with h | h
    · exact hc.next_of_inactive (phase_eq_idle_iff.mp h)
    · unfold next
      rw [if_pos (htimed h)]
  · obtain ⟨hw, ht⟩ := hc.of_phase_waiting hphase
    rw [next_eq_advance ht, hc.advance_of_waiting hw, he, if_neg Bool.false_ne_true]
    exact hc.beginsPage hw

/-- A wish in the middle of a page with a pause on it; the page raises an event, and then goes on by
itself. -/
theorem wishes_agree_pause :
    let p := (ofSettings ({ cell := ⟨8, 16⟩ } : MetricTable).toMetrics {}).operate
      [.load (.ofInstructions [.char 'a', .wait 20, .event "x", .next 250, .char 'c']),
        .call (.update 35 false)]
    p.Reachable ∧ p.phase = .playing ∧ 0 < p.playhead.pause ∧
      WishesAgree p 7 ∧ (p.update 7 true).phase = .timedWait 250 ∧
      p.next.backlog.entries = [.event "x" 35, .page "a" 35] ∧
      (p.update 7 true).backlog.entries = [.event "x" 42, .page "a" 42] := by
  intro p
  have hp : p.Reachable := (Reachable.start _ _).operate _
  exact ⟨hp, by decide, by decide, wishes_agree hp 7, by decide, by decide, by decide⟩

end Player

end DialogueBox
