import DialogueBox.Proofs.Playback.Log

/-!
# What has been shown depends on the place alone

`Script.showing` reads a script once from left to right up to a place, without a clock: it follows
the style, sets glyphs, collects events and completed pages, and turns a page that ended at a
`next` when something follows. Playing shows exactly that, however the frames fall, and whether
pages are skipped or played out (`shows_place_of_calls`).

## How the proof goes

While a page is put out, the showing at the position is what the player shows (`Tracks`). Three
moves have to be looked at: a step reads one more instruction, the end of the script completes the
page, and turning the page reads the line breaks that it skips. The last one needs that the page
has come to a `next`, and this is what coherence says of a player that waits and is not at the end.
-/

namespace DialogueBox

/-! ## Reading a script without a clock -/

/-- How far the reading of a page has come. -/
inductive Stage
  /-- Instructions of the page have been read. -/
  | filling
  /-- The page has come to its end. -/
  | complete
  /-- The page before was turned, and only line breaks have been dropped since. -/
  | turned
  deriving DecidableEq

/-- What has been shown up to a place of a script. -/
structure Showing where
  style : Style
  inputEnabled : Bool
  ended : Bool
  page : Page
  /-- The completed pages and the events, without their times. -/
  log : List Entry
  /-- The names of the events. -/
  events : List String
  stage : Stage

namespace Showing

/-- Before the first instruction. -/
def start (s : Settings) : Showing :=
  ⟨.initial s.speed, true, false, .ofSettings s, [], [], .filling⟩

/-- Completes the page. -/
def finish (r : Showing) : Showing :=
  { r with log := r.log ++ r.page.entries 0, stage := .complete }

/-- Turns the page. -/
def turn (r : Showing) : Showing := { r with page := r.page.clear, stage := .turned }

/-- Reads an instruction of the page. -/
def carry (m : Metrics) (speed : Nat) (r : Showing) (i : Instruction) : Showing where
  style := r.style.after m.hasFont speed i
  inputEnabled := i.inputSetting?.getD r.inputEnabled
  ended := r.ended || i.isFinish
  page := r.page.after m r.style i
  log := r.log ++ i.entries r.page 0
  events := r.events ++ i.eventName?.toList
  stage := if i.endsPage then .complete else .filling

/-- Reads an instruction. A complete page is turned first, and line breaks at the beginning of the
next one are dropped. -/
def read (m : Metrics) (speed : Nat) (r : Showing) (i : Instruction) : Showing :=
  match r.stage with
  | .filling => r.carry m speed i
  | .complete => if i = .lineBreak then r.turn else r.turn.carry m speed i
  | .turned => if i = .lineBreak then r else r.carry m speed i

/-- What is on show when reading pauses: on a complete page, or else on one that is still filled. -/
def rest (waiting : Bool) (r : Showing) : Showing :=
  match waiting, r.stage with
  | true, .complete => r
  | true, _ => r.finish
  | false, .complete => r.turn
  | false, _ => r

end Showing

/-- Reads the instructions before a position. -/
def Script.readTo (s : Script) (m : Metrics) (t : Settings) (position : Nat) : Showing :=
  (s.instructions.take position).foldl (Showing.read m t.speed) (.start t)

/-- What a script has shown at a place: a position, and whether the page there is complete. -/
def Script.showing (s : Script) (m : Metrics) (t : Settings) (position : Nat) (waiting : Bool) :
    Showing := (s.readTo m t position).rest waiting

namespace Showing

variable {m : Metrics} {speed : Nat} {r : Showing} {i : Instruction}

/-- Turning a complete page now or with the next instruction is the same. -/
theorem read_rest (m : Metrics) (speed : Nat) (r : Showing) (i : Instruction) :
    (r.rest false).read m speed i = r.read m speed i := by
  cases hs : r.stage with
  | complete => simp only [rest, hs, read, turn]
  | filling => simp only [rest, hs]
  | turned => simp only [rest, hs]

theorem stage_rest_ne_complete (r : Showing) : (r.rest false).stage ≠ .complete := by
  cases hs : r.stage <;> simp [rest, hs, turn]

theorem read_of_stage_ne_complete (hr : r.stage ≠ .complete)
    (hi : r.stage = .turned → i ≠ .lineBreak) : r.read m speed i = r.carry m speed i := by
  cases hs : r.stage with
  | complete => exact absurd hs hr
  | filling => simp only [read, hs]
  | turned => simp only [read, hs, if_neg (hi hs)]

theorem stage_read_next (m : Metrics) (speed : Nat) (r : Showing) (ms : Nat) :
    (r.read m speed (.next ms)).stage = .complete := by
  cases hs : r.stage <;> simp [read, hs, carry, Instruction.endsPage, Instruction.isNext]

/-- An instruction that ends the page leaves it complete, any other one being filled. -/
theorem rest_carry (m : Metrics) (speed : Nat) (r : Showing) (i : Instruction) :
    (r.carry m speed i).rest i.endsPage = r.carry m speed i := by
  cases hi : i.endsPage <;> simp [rest, carry, hi]

/-- Line breaks at the beginning of a page are dropped. -/
theorem foldl_read_lineBreaks {is : List Instruction} (h : ∀ i ∈ is, i = .lineBreak)
    (hr : r.stage = .complete) :
    is.foldl (Showing.read m speed) r = if is = [] then r else r.turn := by
  have hturn : ∀ js : List Instruction, (∀ j ∈ js, j = .lineBreak) →
      js.foldl (Showing.read m speed) r.turn = r.turn := by
    intro js hj
    induction js with
    | nil => rfl
    | cons j js ih =>
      rw [List.foldl_cons, hj j (by simp)]
      exact ih fun k hk => hj k (by simp [hk])
  cases is with
  | nil => rfl
  | cons i is =>
    have hread : r.read m speed .lineBreak = r.turn := by simp [read, hr]
    rw [List.foldl_cons, h i (by simp), hread, hturn is fun j hj => h j (by simp [hj])]
    simp

end Showing

/-- Reading one instruction more. -/
theorem Script.readTo_succ {s : Script} {n : Nat} {i : Instruction}
    (hi : s.instructions[n]? = some i) (m : Metrics) (t : Settings) :
    s.readTo m t (n + 1) = (s.readTo m t n).read m t.speed i := by
  unfold readTo
  rw [List.take_add_one, hi, Option.toList_some, List.foldl_append]
  rfl

namespace Player

/-! ## Players and showings -/

/-- A player shows what was read, and has pushed to the backlog `b` and handed out, together with
the events `taken`, what was read too. -/
structure Shows (b : Backlog) (taken : List String) (r : Showing) (p : Player) : Prop where
  style : p.style = r.style
  inputEnabled : p.playhead.inputEnabled = r.inputEnabled
  ended : p.playhead.ended = r.ended
  page : p.page = r.page
  backlog : ∃ es, p.backlog = b.pushAll es ∧ es.map Entry.untimed = r.log
  events : taken ++ p.events = r.events

variable {b : Backlog} {taken : List String} {r : Showing} {p : Player}

theorem Shows.step (h : p.Shows b taken r) (instant : Bool) (i : Instruction) :
    (p.step instant i).Shows b taken (r.carry p.metrics p.settings.speed i) := by
  obtain ⟨es, hb, hes⟩ := h.backlog
  rw [step_eq]
  refine
    { style := ?_
      inputEnabled := ?_
      ended := ?_
      page := ?_
      backlog := ⟨es ++ i.entries p.page p.clock, ?_, ?_⟩
      events := ?_ }
  · simp only [Showing.carry, h.style]
  · simp only [Showing.carry, Playhead.inputEnabled_after, ← h.inputEnabled]
    rfl
  · simp only [Showing.carry, Playhead.ended_after, ← h.ended]
    rfl
  · simp only [Showing.carry, h.style, h.page]
  · rw [Backlog.pushAll_append, hb]
  · rw [List.map_append, hes, Instruction.map_untimed_entries, h.page]
    rfl
  · simp only [Showing.carry, ← h.events, List.append_assoc]

theorem Shows.finishPage (h : p.Shows b taken r) : p.finishPage.Shows b taken r.finish := by
  obtain ⟨es, hb, hes⟩ := h.backlog
  rw [finishPage_eq]
  refine
    { style := h.style
      inputEnabled := h.inputEnabled
      ended := h.ended
      page := h.page
      backlog := ⟨es ++ p.page.entries p.clock, ?_, ?_⟩
      events := h.events }
  · rw [Backlog.pushAll_append, hb]
  · rw [List.map_append, hes, Page.map_untimed_entries, h.page]
    rfl

theorem Shows.turnPage (h : p.Shows b taken r) : p.turnPage.Shows b taken r.turn where
  style := h.style
  inputEnabled := h.inputEnabled
  ended := h.ended
  page := congrArg Page.clear h.page
  backlog := h.backlog
  events := h.events

/-! ## Playing tracks reading -/

/-- A player plays the script `s` that was loaded into the player `base`, and shows what reading
the script up to its position shows. -/
structure Tracks (p base : Player) (s : Script) (taken : List String) : Prop where
  metrics : p.metrics = base.metrics
  settings : p.settings = base.settings
  script : p.script = s
  shows : p.Shows base.backlog taken
    (s.showing base.metrics base.settings p.playhead.position p.playhead.waiting)
  /-- After turning a page, no line break is left at the beginning of the next one. -/
  top : p.playhead.waiting = false →
    ((s.readTo base.metrics base.settings p.playhead.position).rest false).stage = .turned →
      p.ahead.head? ≠ some .lineBreak
  /-- A page that has just been turned has something after it. -/
  followed : p.playhead.waiting = false →
    (s.readTo base.metrics base.settings p.playhead.position).stage = .complete → p.ahead ≠ []

namespace Tracks

variable {base : Player} {s : Script}

theorem load (hc : base.Coherent) (s : Script) : (base.load s).Tracks base s [] where
  metrics := rfl
  settings := rfl
  script := rfl
  shows :=
    { style := rfl
      inputEnabled := rfl
      ended := rfl
      page := hc.page_clear
      backlog := ⟨[], rfl, rfl⟩
      events := rfl }
  top := fun _ hs => by
    simp [Script.readTo, Player.load, Playhead.start, Showing.start, Showing.rest] at hs
  followed := fun _ hs => by simp [Script.readTo, Player.load, Playhead.start, Showing.start] at hs

/-- What a player shows does not depend on its clock and its timers. -/
theorem of_timers (h : p.Tracks base s taken) {q : Player} (hq : q =
    { p with
      clock := q.clock
      playhead :=
        { p.playhead with
          charTimer := q.playhead.charTimer
          pause := q.playhead.pause
          timedWait := q.playhead.timedWait } }) : q.Tracks base s taken := by
  rw [hq]
  exact
    { metrics := h.metrics
      settings := h.settings
      script := h.script
      shows :=
        { style := h.shows.style
          inputEnabled := h.shows.inputEnabled
          ended := h.shows.ended
          page := h.shows.page
          backlog := h.shows.backlog
          events := h.shows.events }
      top := h.top
      followed := h.followed }

theorem step (h : p.Tracks base s taken) (hw : p.playhead.waiting = false) {i : Instruction}
    {rest : List Instruction} (hl : p.ahead = i :: rest) (instant : Bool) :
    (p.step instant i).Tracks base s taken := by
  have hi : s.instructions[p.playhead.position]? = some i := by
    rw [← h.script]
    exact getElem?_position hl
  have hwait : (p.step instant i).playhead.waiting = i.endsPage := by
    rw [waiting_step, hw, Bool.false_or]
  have htop : ((s.readTo base.metrics base.settings p.playhead.position).rest false).stage =
      .turned → i ≠ .lineBreak := by
    intro hs he
    apply h.top hw hs
    rw [hl, he]
    rfl
  -- one more instruction is read, and the page goes on with it
  have hread : s.readTo base.metrics base.settings (p.playhead.position + 1) =
      (s.showing base.metrics base.settings p.playhead.position false).carry base.metrics
        base.settings.speed i := by
    rw [Script.readTo_succ hi, ← Showing.read_rest]
    exact Showing.read_of_stage_ne_complete (Showing.stage_rest_ne_complete _) htop
  have hstage : (p.step instant i).playhead.waiting = false →
      (s.readTo base.metrics base.settings (p.step instant i).playhead.position).stage =
        .filling := by
    intro hf
    rw [position_step, hread]
    rw [hwait] at hf
    simp [Showing.carry, hf]
  refine
    { metrics := by rw [step_eq]; exact h.metrics
      settings := by rw [step_eq]; exact h.settings
      script := by rw [step_eq]; exact h.script
      shows := ?_
      top := fun hf hs => ?_
      followed := fun hf hs => ?_ }
  · have hshows := h.shows.step instant i
    rw [h.metrics, h.settings, hw] at hshows
    unfold Script.showing
    rw [hwait, position_step, hread, Showing.rest_carry]
    exact hshows
  · have := hstage hf
    simp [Showing.rest, this] at hs
  · rw [hstage hf] at hs
    simp at hs

theorem finishPage (h : p.Tracks base s taken) (hw : p.playhead.waiting = false)
    (hl : p.ahead = []) : p.finishPage.Tracks base s taken := by
  -- the page that is completed is not one that was turned and has nothing after it
  have hs : (s.readTo base.metrics base.settings p.playhead.position).stage ≠ .complete :=
    fun hs => h.followed hw hs hl
  have hshow : s.showing base.metrics base.settings p.playhead.position true =
      (s.showing base.metrics base.settings p.playhead.position false).finish := by
    unfold Script.showing
    revert hs
    generalize s.readTo base.metrics base.settings p.playhead.position = r
    intro hs
    cases hr : r.stage <;> simp_all [Showing.rest]
  have hshows := h.shows.finishPage
  rw [hw, ← hshow] at hshows
  have hpos : p.finishPage.playhead.position = p.playhead.position := by rw [finishPage_eq]; rfl
  have hwait : p.finishPage.playhead.waiting = true := by rw [finishPage_eq]; rfl
  refine
    { metrics := by rw [finishPage_eq]; exact h.metrics
      settings := by rw [finishPage_eq]; exact h.settings
      script := by rw [finishPage_eq]; exact h.script
      shows := by rw [hpos, hwait]; exact hshows
      top := fun hf => ?_
      followed := fun hf => ?_ }
  · rw [hwait] at hf
    simp at hf
  · rw [hwait] at hf
    simp at hf

theorem turnPage (hc : p.Coherent) (h : p.Tracks base s taken) (hw : p.playhead.waiting = true)
    (he : p.atEnd = false) : p.turnPage.Tracks base s taken := by
  rw [atEnd_eq_false_iff] at he
  -- a page that waits but not at the end has come to a `next`
  have hcomplete :
      (s.readTo base.metrics base.settings p.playhead.position).stage = .complete := by
    cases (hc.waiting hw).stopped with
    | exhausted hp _ _ =>
      have hlt : p.playhead.position < p.script.instructions.length := he.2
      omega
    | next hp hi _ _ =>
      rw [h.script] at hi
      rw [hp, Script.readTo_succ hi]
      exact Showing.stage_read_next _ _ _ _
    | finish _ _ _ h1 =>
      rw [he.1] at h1
      simp at h1
  generalize hbreaks : p.ahead.takeWhile (· == .lineBreak) = breaks
  have hall : ∀ i ∈ breaks, i = .lineBreak := by
    intro i hi
    rw [← hbreaks] at hi
    simpa using List.all_eq_true.mp List.all_takeWhile i hi
  -- reading goes past the line breaks that are skipped
  have hread : s.readTo base.metrics base.settings p.turnPage.playhead.position =
      if breaks = [] then s.readTo base.metrics base.settings p.playhead.position
      else (s.readTo base.metrics base.settings p.playhead.position).turn := by
    unfold Script.readTo
    have htake := take_position_turnPage p
    rw [h.script] at htake
    rw [htake, hbreaks, List.foldl_append]
    exact Showing.foldl_read_lineBreaks hall hcomplete
  have hrest : s.showing base.metrics base.settings p.turnPage.playhead.position false =
      (s.showing base.metrics base.settings p.playhead.position true).turn := by
    unfold Script.showing
    rw [hread]
    split <;> simp [Showing.rest, hcomplete, Showing.turn]
  have hshows := h.shows.turnPage
  rw [hw, ← hrest] at hshows
  refine
    { metrics := h.metrics
      settings := h.settings
      script := h.script
      shows := hshows
      top := fun _ _ => ?_
      followed := fun _ hs => ?_ }
  · rw [ahead_turnPage]
    intro hhead
    have := List.head?_dropWhile_not (· == Instruction.lineBreak) p.ahead
    rw [hhead] at this
    simp at this
  · rw [hread] at hs
    split at hs
    · next hnil =>
      rw [ahead_turnPage]
      intro hdrop
      have happ := p.ahead_eq_append
      rw [hdrop, hbreaks, hnil] at happ
      exact ahead_ne_nil he.2 happ
    · simp [Showing.turn] at hs

/-- **Every move tracks reading**, as long as the box is open. -/
theorem move {q : Player} (hm : Move p q) (hc : p.Coherent)
    (h : p.playhead.active = true → p.Tracks base s taken) (ha : q.playhead.active = true) :
    q.Tracks base s taken := by
  cases hm with
  | tick elapsed => exact (h ha).of_timers rfl
  | charTimer ha t => exact (h ha).of_timers rfl
  | pause t ht => exact (h ha).of_timers rfl
  | timedWait t ht => exact (h ha).of_timers rfl
  | step hb _ hl _ =>
    have hk := hc.playing hb
    exact (h hk.active).step hk.waiting hl _
  | finishPage hb _ hl =>
    have hk := hc.playing hb
    exact (h hk.active).finishPage hk.waiting hl
  | turnPage hw he => exact (h (hc.waiting hw).active).turnPage hc hw he
  | close => simp [Player.close, Playhead.close] at ha

theorem moves {q : Player} (hm : Moves p q) (hc : p.Coherent)
    (h : p.playhead.active = true → p.Tracks base s taken) (ha : q.playhead.active = true) :
    q.Tracks base s taken := by
  refine (hm.induction (P := fun r => r.Coherent ∧
    (r.playhead.active = true → r.Tracks base s taken)) ?_ ⟨hc, h⟩).2 ha
  rintro p q hm ⟨hc, h⟩
  exact ⟨hc.move hm, move hm hc h⟩

theorem takeEvent (h : p.Tracks base s taken) :
    p.takeEvent.2.Tracks base s (taken ++ p.takeEvent.1.toList) := by
  unfold Player.takeEvent
  split
  · rw [Option.toList_none, List.append_nil]
    exact h
  · next e es he =>
    exact
      { metrics := h.metrics
        settings := h.settings
        script := h.script
        shows :=
          { style := h.shows.style
            inputEnabled := h.shows.inputEnabled
            ended := h.shows.ended
            page := h.shows.page
            backlog := h.shows.backlog
            events := by
              rw [← h.shows.events, he, Option.toList_some, List.append_assoc]
              rfl }
        top := h.top
        followed := h.followed }

theorem call (c : Call) (hc : p.Coherent)
    (h : p.playhead.active = true → p.Tracks base s taken)
    (ha : (c.run p).playhead.active = true) :
    (c.run p).Tracks base s (taken ++ c.taken p) := by
  cases c with
  | update elapsed wish =>
    rw [show (Call.update elapsed wish).taken p = [] from rfl, List.append_nil]
    exact moves (moves_update p elapsed wish) hc h ha
  | next =>
    rw [show Call.next.taken p = [] from rfl, List.append_nil]
    by_cases hp : p.playhead.active = true
    · exact moves (moves_next hp) hc h ha
    · rw [show Call.next.run p = p.next from rfl,
        hc.next_of_inactive (by simpa using hp)] at ha
      exact absurd ha hp
  | takeEvent =>
    refine (h ?_).takeEvent
    revert ha
    show p.takeEvent.2.playhead.active = true → _
    unfold Player.takeEvent
    split <;> exact id

/-- Calls track reading: the induction behind `shows_place_of_calls`. -/
theorem calls (cs : List Call) (hc : p.Coherent)
    (h : p.playhead.active = true → p.Tracks base s taken)
    (ha : (p.calls cs).playhead.active = true) :
    (p.calls cs).Tracks base s (taken ++ p.taken cs) := by
  induction cs generalizing p taken with
  | nil =>
    rw [show p.taken [] = [] from rfl, List.append_nil]
    exact h ha
  | cons c cs ih =>
    rw [show p.taken (c :: cs) = c.taken p ++ (c.run p).taken cs from rfl, ← List.append_assoc]
    exact ih (hc.run_call c) (call c hc h) ha

end Tracks

/-- **What has been shown depends on the place alone.** After any frames, wishes and takings of
events since a script was loaded, as long as the box is open, the player shows what reading the
script up to its position shows. The backlog has what its limit leaves of the entries before, and of
those that reading the script gives. -/
theorem shows_place_of_calls {p : Player} (hp : p.Reachable) (s : Script) (cs : List Call)
    (ha : ((p.load s).calls cs).playhead.active = true) :
    ((p.load s).calls cs).Shows p.backlog ((p.load s).taken cs)
      (s.showing p.metrics p.settings ((p.load s).calls cs).playhead.position
        ((p.load s).calls cs).playhead.waiting) ∧
    ∃ es, ((p.load s).calls cs).backlog =
        .ofLog p.settings.backlogLimit (p.backlog.entries ++ es) ∧
      es.map Entry.untimed =
        (s.showing p.metrics p.settings ((p.load s).calls cs).playhead.position
          ((p.load s).calls cs).playhead.waiting).log := by
  have hc := hp.coherent
  have hshows := (Tracks.calls cs (hc.load s) (fun _ => Tracks.load hc s) ha).shows
  obtain ⟨es, hbacklog, hlog⟩ := hshows.backlog
  refine ⟨hshows, es, ?_, hlog⟩
  calc
    _ = p.backlog.pushAll es := hbacklog
    _ = (Backlog.ofLog p.settings.backlogLimit p.backlog.entries).pushAll es :=
      congrArg (Backlog.pushAll · es) hp.backlog_eq_ofLog
    _ = _ := Backlog.pushAll_ofLog ..

/-- A page that is skipped, a page that is turned, and an event that is taken in between. -/
theorem shows_place_of_calls_turned :
    let p := ofSettings ({ cell := ⟨8, 16⟩ } : MetricTable).toMetrics {}
    let s := Script.ofInstructions
      [.char 'a', .event "x", .wait 20, .next 0, .lineBreak, .size 20, .event "y", .char 'b']
    let cs : List Call :=
      [.update 5 false, .next, .takeEvent, .update 0 true, .update 40 false]
    ((p.load s).calls cs).playhead.active = true ∧ (p.load s).taken cs = ["x"] ∧
      ((p.load s).calls cs).events = ["y"] ∧
      ((p.load s).calls cs).Shows p.backlog ((p.load s).taken cs)
        (s.showing p.metrics p.settings ((p.load s).calls cs).playhead.position
          ((p.load s).calls cs).playhead.waiting) ∧
      ∃ es, ((p.load s).calls cs).backlog = .ofLog 200 es ∧
        es.map Entry.untimed =
          (s.showing p.metrics p.settings ((p.load s).calls cs).playhead.position
            ((p.load s).calls cs).playhead.waiting).log := by
  intro p s cs
  have hp : p.Reachable := .start _ _
  have ha : ((p.load s).calls cs).playhead.active = true := by decide
  obtain ⟨hshows, hbacklog⟩ := shows_place_of_calls hp s cs ha
  exact ⟨ha, by decide, by decide, hshows, hbacklog⟩

end Player

end DialogueBox
