import DialogueBox.Proofs.Playback.Pace
import DialogueBox.Proofs.Playback.PagesAhead
import DialogueBox.Proofs.Playback.TimedWait

/-!
# Playing finishes

Whatever a script says, frames complete the page that is put out, and a host that goes on wherever
it may comes to the end of the script (`playing_finishes`). It needs no more frames than there are
milliseconds in what is left: the times of the characters, the pauses and the timed waits.

Frames get by on a budget. While a page is put out, an instruction takes at least as much off it as
the time that the instruction costs or pauses for (`Budget`). At the end of a frame a pause is left,
or less time is gathered than the next character costs. Then the next frame takes at least one off
what is left (`Budget.exists_within_update`), also where an instruction pauses and the gathered time
is lost: a character that cost more than was gathered has been paid for in that frame.

Only the first frame of a page need not take anything off, so turning a page is worth one frame.

All this rests on the timer for characters being able to hold the time of a character, which is so
if the times that the settings and the script give fit 32 bits (`Paced`).
-/

namespace DialogueBox

namespace Instruction

/-- How many frames an instruction may hold playing up beside those for its character: the time of a
pause, or that of a timed wait and the first frame of the next page. -/
def holdTime : Instruction → Nat
  | wait ms => ms
  | next ms => ms + 1
  | _ => 0

theorem pauseTime_le_holdTime (i : Instruction) : i.pauseTime ≤ i.holdTime := by
  cases i with
  | wait ms => exact Nat.le_refl ms
  | _ => exact Nat.zero_le _

/-- What instructions cost and hold up together; `initial` and `pace` are as for `costs`. -/
def total (hold : Instruction → Nat) (initial pace : Nat) (is : List Instruction) : Nat :=
  (costs initial pace is).sum + (is.map hold).sum

theorem total_cons (hold : Instruction → Nat) (initial pace : Nat) (i : Instruction)
    (is : List Instruction) :
    total hold initial pace (i :: is) = (if i.takesTime then pace else 0) + hold i +
      total hold initial (i.paceAfter initial pace) is := by
  unfold total
  rw [costs, List.map_cons, List.sum_cons, List.sum_cons]
  omega

/-- Line breaks that are skipped cost nothing. -/
theorem total_dropWhile_le (hold : Instruction → Nat) (initial pace : Nat)
    (is : List Instruction) :
    total hold initial pace (is.dropWhile (· == .lineBreak)) ≤ total hold initial pace is := by
  induction is with
  | nil => exact Nat.le_refl _
  | cons i rest ih =>
    by_cases hi : i = .lineBreak
    · subst hi
      rw [List.dropWhile_cons_of_pos rfl, total_cons]
      exact Nat.le_trans ih (Nat.le_add_left _ _)
    · rw [List.dropWhile_cons_of_neg (by simpa using hi)]

/-- What halts without ending the page is a pause. -/
theorem eq_wait_of_halts {i : Instruction} (hh : i.halts false = true)
    (he : i.endsPage = false) : ∃ ms, i = .wait ms ∧ ms ≠ 0 := by
  cases i with
  | wait ms => exact ⟨ms, rfl, by simpa [halts] using hh⟩
  | next ms => simp [endsPage, isNext] at he
  | finish => simp [endsPage, isNext, isFinish] at he
  | _ => simp [halts] at hh

theorem endsPage_of_not_halts {instant : Bool} {i : Instruction} (hh : i.halts instant = false) :
    i.endsPage = false := by
  cases i with
  | next ms => simp [halts] at hh
  | finish => simp [halts] at hh
  | _ => rfl

end Instruction

namespace Player

variable {p q : Player}

/-! ## The times between characters -/

/-- The times between characters that the settings and the script give fit 32 bits. -/
structure Paced (p : Player) : Prop where
  settings : p.settings.speed < UInt32.size
  script : ∀ ms, .speed ms ∈ p.script.instructions → ms < UInt32.size

/-- The time between characters of a script that is played is that of the settings, or one that the
script gives. -/
def PaceGiven (p : Player) : Prop :=
  p.playhead.active = true → p.style.speed = max 1 p.settings.speed ∨
    ∃ ms, .speed ms ∈ p.script.instructions ∧ p.style.speed = max 1 ms

theorem PaceGiven.move (hm : Move p q) (h : p.PaceGiven) : q.PaceGiven := by
  cases hm with
  | tick elapsed => exact h
  | charTimer ha t => exact h
  | pause t ht => exact h
  | timedWait t ht => exact h
  | @step instant i rest hb hp hl hw =>
    intro ha
    rw [active_step] at ha
    have hmem : i ∈ p.script.instructions := List.mem_of_getElem? (getElem?_position hl)
    rw [step_eq]
    dsimp only
    rw [Style.speed_after_eq]
    cases i with
    | speed ms => exact Or.inr ⟨ms, hmem, rfl⟩
    | reset => exact Or.inl rfl
    | _ => exact h ha
  | finishPage hb hp hl =>
    rw [finishPage_eq]
    exact h
  | turnPage hw he => exact h
  | close => exact fun ha => absurd ha Bool.false_ne_true

theorem Paced.move (hm : Move p q) (h : p.Paced) : q.Paced := by
  cases hm with
  | step hb hp hl hw =>
    rw [step_eq]
    exact ⟨h.settings, h.script⟩
  | finishPage hb hp hl =>
    rw [finishPage_eq]
    exact ⟨h.settings, h.script⟩
  | close =>
    refine ⟨h.settings, fun ms hms => ?_⟩
    rw [show p.close.script.instructions = [.next 0] from rfl] at hms
    simp at hms
  | _ => exact ⟨h.settings, h.script⟩

theorem PaceGiven.call (hc : p.Coherent) (h : p.PaceGiven) (c : Call) : (c.run p).PaceGiven := by
  cases c with
  | update elapsed wish =>
    exact (moves_update p elapsed wish).induction (fun _ _ hm hk => hk.move hm) h
  | next =>
    show p.next.PaceGiven
    by_cases ha : p.playhead.active = true
    · exact (moves_next ha).induction (fun _ _ hm hk => hk.move hm) h
    · rw [hc.next_of_inactive (by simpa using ha)]
      exact h
  | takeEvent =>
    show p.takeEvent.2.PaceGiven
    rw [takeEvent_eq]
    exact h

theorem Paced.call (hc : p.Coherent) (h : p.Paced) (c : Call) : (c.run p).Paced := by
  cases c with
  | update elapsed wish =>
    exact (moves_update p elapsed wish).induction (fun _ _ hm hk => hk.move hm) h
  | next =>
    show p.next.Paced
    by_cases ha : p.playhead.active = true
    · exact (moves_next ha).induction (fun _ _ hm hk => hk.move hm) h
    · rw [hc.next_of_inactive (by simpa using ha)]
      exact h
  | takeEvent =>
    show p.takeEvent.2.Paced
    rw [takeEvent_eq]
    exact ⟨h.settings, h.script⟩

theorem Reachable.paceGiven (h : p.Reachable) : p.PaceGiven := by
  induction h with
  | start m s => exact fun ha => absurd ha Bool.false_ne_true
  | @after p o hp ih =>
    cases o with
    | call c => exact ih.call hp.coherent c
    | present source => exact fun _ => Or.inl rfl
    | presentSection source label =>
      show (p.presentSection source label).1.PaceGiven
      rw [presentSection_eq]
      exact fun _ => Or.inl rfl
    | load s => exact fun _ => Or.inl rfl
    | close => exact fun ha => absurd ha Bool.false_ne_true
    | clear => exact ih
    | measure m => exact ih

/-- The timer for characters can hold the time of a character. -/
theorem Reachable.speed_le (h : p.Reachable) (hp : p.Paced) (ha : p.playhead.active = true) :
    p.style.speed ≤ Playhead.timerLimit := by
  have hone : 1 < UInt32.size := by decide
  unfold Playhead.timerLimit
  rcases h.paceGiven ha with hs | ⟨ms, hms, hs⟩
  · have := hp.settings
    omega
  · have := hp.script ms hms
    omega

/-! ## Budgets -/

/-- What is left of the current page, as far as it costs or pauses. -/
def pageRest (p : Player) : List Instruction := p.ahead.takeWhile fun i => !i.endsPage

/-- The time that what is left of the page costs and pauses for. -/
def pageTime (p : Player) : Nat :=
  Instruction.total Instruction.pauseTime p.settings.speed p.style.speed p.pageRest

/-- The time that all that is left of the script costs and holds up. -/
def scriptTime (p : Player) : Nat :=
  Instruction.total Instruction.holdTime p.settings.speed p.style.speed p.ahead

/-- What a complete page leaves to be done: its timed wait, and the first frame of the next page. -/
def timeAfter (p : Player) : Nat :=
  p.scriptTime + p.playhead.timedWait + if p.atEnd then 0 else 1

/-- A budget for frames: `fill` while a page is put out, `after` when it is complete. -/
structure Budget (fill after : Player → Nat) : Prop where
  retime : ∀ (p : Player) (clock charTimer pause : Nat),
    fill (p.retime clock charTimer pause) = fill p
  /-- An instruction takes off what it costs and pauses for. -/
  goOn : ∀ {p : Player} {i : Instruction} {rest : List Instruction}, p.ahead = i :: rest →
    i.endsPage = false → fill (p.step false i) + p.cost i + i.pauseTime ≤ fill p
  pageEnd : ∀ {p : Player} {i : Instruction} {rest : List Instruction}, p.ahead = i :: rest →
    i.endsPage = true → p.playhead.timedWait = 0 → after (p.step false i) ≤ fill p
  exhausted : ∀ {p : Player}, p.ahead = [] → p.playhead.timedWait = 0 →
    after p.finishPage ≤ fill p

/-- The total of instructions, the first of which is carried out. -/
theorem total_step (hold : Instruction → Nat) (p : Player) (i : Instruction)
    (is : List Instruction) :
    Instruction.total hold p.settings.speed p.style.speed (i :: is) = p.cost i + hold i +
      Instruction.total hold (p.step false i).settings.speed (p.step false i).style.speed is := by
  rw [Instruction.total_cons, step_eq]
  dsimp only
  rw [Style.speed_after_eq]
  rfl

theorem scriptTime_step {i : Instruction} {rest : List Instruction} (hl : p.ahead = i :: rest) :
    p.scriptTime = p.cost i + i.holdTime + (p.step false i).scriptTime := by
  unfold scriptTime
  rw [ahead_step hl, hl, total_step]

/-- For the page alone nothing has to be left when it is complete. -/
theorem budget_page : Budget pageTime fun _ => 0 where
  retime := fun _ _ _ _ => rfl
  goOn := by
    intro p i rest hl he
    unfold pageTime pageRest
    rw [ahead_step hl, hl, List.takeWhile_cons_of_pos (by simp [he]), total_step]
    omega
  pageEnd := fun _ _ _ => Nat.zero_le _
  exhausted := fun _ _ => Nat.zero_le _

theorem budget_script : Budget scriptTime timeAfter where
  retime := fun _ _ _ _ => rfl
  goOn := by
    intro p i rest hl _
    have hhold := i.pauseTime_le_holdTime
    rw [scriptTime_step hl]
    omega
  pageEnd := by
    intro p i rest hl he ht
    rw [scriptTime_step hl]
    cases i with
    | next ms =>
      have hwait : (p.step false (.next ms)).playhead.timedWait = ms := by rw [step_eq]; rfl
      have hhold : (Instruction.next ms).holdTime = ms + 1 := rfl
      unfold timeAfter
      rw [hwait, hhold]
      split <;> omega
    | finish =>
      have hwait : (p.step false .finish).playhead.timedWait = 0 := by rw [step_eq]; exact ht
      have hend : (p.step false .finish).atEnd = true := by
        rw [step_eq]
        rfl
      unfold timeAfter
      rw [hwait, if_pos hend]
      omega
    | _ => simp [Instruction.endsPage, Instruction.isNext, Instruction.isFinish] at he
  exhausted := by
    intro p hl ht
    have hend : p.finishPage.atEnd = true := by
      rw [finishPage_eq]
      unfold atEnd
      rw [Bool.or_eq_true, decide_eq_true_eq]
      exact Or.inr (length_le_position hl)
    unfold timeAfter
    rw [if_pos hend, finishPage_eq]
    show p.scriptTime + p.playhead.timedWait + 0 ≤ p.scriptTime
    omega

/-! ## Frames of one page -/

/-- What a frame may leave of a page when at most `m` is left of a budget. -/
inductive Within (fill after : Player → Nat) (m : Nat) (p : Player) : Prop
  | complete (hw : p.playhead.waiting = true) (h : after p ≤ m)
  | pauses (hb : p.playhead.busy = true) (hpos : 0 < p.playhead.pause)
      (ht : p.playhead.charTimer = 0) (h : fill p + p.playhead.pause ≤ m)
  /-- The time that is gathered for the next character counts as left. -/
  | gathers {i : Instruction} {rest : List Instruction} (hb : p.playhead.busy = true)
      (hpause : p.playhead.pause = 0) (hl : p.ahead = i :: rest)
      (hlt : p.playhead.charTimer < p.cost i) (h : fill p ≤ m + p.playhead.charTimer)

theorem Coherent.retime (hc : p.Coherent) (hb : p.playhead.busy = true)
    (clock charTimer pause : Nat) : (p.retime clock charTimer pause).Coherent := by
  have hm := hc.playing hb
  refine ⟨hc.speed_pos, hc.page_clear, Or.inr (Or.inl ?_), ?_⟩
  · exact ⟨hm.active, hm.busy, hm.waiting, hm.ended, hm.timedWait, hm.position_le, hm.heeds⟩
  · exact fun hi => absurd hi (Playhead.not_idle_of_active hm.active)

namespace Budget

variable {fill after : Player → Nat} {m : Nat}

/-- **Draining keeps to a budget.** -/
theorem within_drain (hB : Budget fill after) (hc : p.Coherent) (hb : p.playhead.busy = true)
    (hpause : p.playhead.pause = 0) (h : fill p ≤ m) :
    Within fill after m (p.drain false p.ahead) := by
  refine drain_induction
    (P := fun q => q.Coherent ∧ q.playhead.busy = true ∧ q.playhead.pause = 0 ∧ fill q ≤ m)
    ?_ ?_ ?_ ?_ ⟨hc, hb, hpause, h⟩
  · rintro q i rest hl ⟨hc, hb, hpause, h⟩ - hh
    obtain ⟨-, hb', -, -, hpause', -⟩ := playhead_step_of_not_halts (p := q) hh
    have hstep := hB.goOn hl (Instruction.endsPage_of_not_halts hh)
    exact ⟨hc.step hb hpause hl, hb'.trans hb, hpause'.trans hpause, by omega⟩
  · rintro q i rest hl ⟨-, hb, hpause, h⟩ hw
    exact .gathers hb hpause hl (mustWait_iff.mp hw) (by omega)
  · rintro q i rest hl ⟨hc, hb, hpause, h⟩ - hh
    by_cases he : i.endsPage = true
    · refine .complete ?_ (Nat.le_trans (hB.pageEnd hl he (hc.playing hb).timedWait) h)
      rw [waiting_step, he, Bool.or_true]
    · -- at a pause the gathered time is lost
      have he' : i.endsPage = false := by simpa using he
      obtain ⟨ms, rfl, hms⟩ := Instruction.eq_wait_of_halts hh he'
      have hstep : fill (q.step false (.wait ms)) + q.cost (.wait ms) + ms ≤ fill q :=
        hB.goOn hl he'
      have hafter : (q.step false (.wait ms)).playhead =
          { (q.pass false (.wait ms)).playhead with pause := ms, charTimer := 0 } := by
        rw [step_eq]
        exact if_neg (by simp [hms])
      refine .pauses ?_ ?_ ?_ ?_
      · rw [hafter]
        exact hb
      · rw [hafter]
        exact Nat.pos_of_ne_zero hms
      · rw [hafter]
      · rw [hafter]
        show _ + ms ≤ m
        omega
  · rintro q hl ⟨hc, hb, -, h⟩
    refine .complete ?_ (Nat.le_trans (hB.exhausted hl (hc.playing hb).timedWait) h)
    rw [finishPage_eq]
    rfl

theorem within_resume (hB : Budget fill after) (hc : p.Coherent) (hb : p.playhead.busy = true)
    (h : fill p ≤ m) (clock charTimer : Nat) :
    Within fill after m ((p.retime clock charTimer 0).drain false p.ahead) :=
  hB.within_drain (hc.retime hb clock charTimer 0) hb rfl (by rwa [hB.retime])

/-- **The first frame of a page keeps to its budget.** -/
theorem within_update (hB : Budget fill after) (hc : p.Coherent) (ht : p.Timely)
    (hb : p.playhead.busy = true) (h : fill p + p.playhead.pause ≤ m) (elapsed : Nat) :
    Within fill after m (p.update elapsed false) := by
  rw [update_eq_of_playing (hc.playing hb)]
  split
  · next hlt =>
    refine .pauses hb (Nat.sub_pos_of_lt hlt) ((ht hb).2 (Nat.zero_lt_of_lt hlt)) ?_
    rw [hB.retime]
    show fill p + (p.playhead.pause - elapsed) ≤ m
    omega
  · exact hB.within_resume hc hb (by omega) _ _

/-- While time is gathered for a character, a frame takes something off the budget. -/
theorem exists_within_gathering (hB : Budget fill after) (hc : p.Coherent)
    (hb : p.playhead.busy = true) (hspeed : p.style.speed ≤ Playhead.timerLimit)
    {i : Instruction} {rest : List Instruction} (hpause : p.playhead.pause = 0)
    (hl : p.ahead = i :: rest) (hlt : p.playhead.charTimer < p.cost i)
    (h : fill p ≤ m + p.playhead.charTimer) :
    ∃ n, m = n + 1 ∧ ∀ elapsed, 1 ≤ elapsed → Within fill after n (p.update elapsed false) := by
  have htakes : i.takesTime = true := by
    by_contra hi
    rw [cost, if_neg hi] at hlt
    exact absurd hlt (Nat.not_lt_zero _)
  have hh : i.halts false = false := by
    by_contra hh
    rw [Instruction.takesTime_of_halts (by simpa using hh)] at htakes
    exact absurd htakes Bool.false_ne_true
  have hcost : p.cost i = p.style.speed := if_pos htakes
  have hpays := hB.goOn hl (Instruction.endsPage_of_not_halts hh)
  refine ⟨m - 1, by omega, fun elapsed he => ?_⟩
  rw [update_eq_of_playing (hc.playing hb), if_neg (by omega), hl]
  generalize hr : p.retime ((p.clock + elapsed) % UInt64.size)
    (min (p.playhead.charTimer + elapsed) Playhead.timerLimit) 0 = r
  have hfill : fill r = fill p := by rw [← hr, hB.retime]
  have hlr : r.ahead = i :: rest := by rw [← hr]; exact hl
  have hcostr : r.cost i = p.cost i := by rw [← hr]; rfl
  have htimer : r.playhead.charTimer =
      min (p.playhead.charTimer + elapsed) Playhead.timerLimit := by rw [← hr]; rfl
  have hpauser : r.playhead.pause = 0 := by rw [← hr]; rfl
  have hbr : r.playhead.busy = true := by rw [← hr]; exact hb
  have hcr : r.Coherent := by rw [← hr]; exact hc.retime hb _ _ _
  rw [drain_cons]
  by_cases hmust : r.mustWait false i = true
  · -- more time is gathered, since the timer does not stand still below the time of a character
    rw [if_pos hmust]
    exact .gathers hbr hpauser hlr (mustWait_iff.mp hmust) (by omega)
  · -- the character is paid for, and it cost more than what had been gathered before
    rw [if_neg hmust, if_neg (by simp [hh])]
    obtain ⟨-, hb', -, -, hpause', -⟩ := playhead_step_of_not_halts (p := r) hh
    have hpaysr := hB.goOn hlr (Instruction.endsPage_of_not_halts hh)
    rw [← ahead_step hlr]
    exact hB.within_drain (hcr.step hbr hpauser hlr) (hb'.trans hbr) (hpause'.trans hpauser)
      (by omega)

/-- **Every other frame takes something off it.** -/
theorem exists_within_update (hB : Budget fill after) (hc : p.Coherent)
    (hb : p.playhead.busy = true) (hspeed : p.style.speed ≤ Playhead.timerLimit)
    (h : Within fill after m p) :
    ∃ n, m = n + 1 ∧ ∀ elapsed, 1 ≤ elapsed → Within fill after n (p.update elapsed false) := by
  have hm := hc.playing hb
  cases h with
  | complete hw _ =>
    rw [hm.waiting] at hw
    exact absurd hw Bool.false_ne_true
  | pauses _ hpos ht h =>
    refine ⟨m - 1, by omega, fun elapsed he => ?_⟩
    rw [update_eq_of_playing hm]
    split
    · next hlt =>
      refine .pauses hb (Nat.sub_pos_of_lt hlt) ht ?_
      rw [hB.retime]
      show fill p + (p.playhead.pause - elapsed) ≤ m - 1
      omega
    · exact hB.within_resume hc hb (by omega) _ _
  | gathers _ hpause hl hlt h => exact hB.exists_within_gathering hc hb hspeed hpause hl hlt h

/-- A player within a budget waits on a complete page, or something is left to be taken off. -/
theorem waiting_or_within (hB : Budget fill after) (hp : p.Reachable) (hpace : p.Paced)
    (h : Within fill after m p) : p.playhead.waiting = true ∨
      ∃ n, m = n + 1 ∧ ∀ elapsed, 1 ≤ elapsed → Within fill after n (p.update elapsed false) := by
  have hnext : p.playhead.busy = true →
      ∃ n, m = n + 1 ∧ ∀ elapsed, 1 ≤ elapsed → Within fill after n (p.update elapsed false) :=
    fun hb => hB.exists_within_update hp.coherent hb
      (hp.speed_le hpace (hp.coherent.playing hb).active) h
  cases h with
  | complete hw _ => exact Or.inl hw
  | pauses hb => exact Or.inr (hnext hb)
  | gathers hb => exact Or.inr (hnext hb)

/-- **Frames complete the page before its budget is used up.** -/
theorem exists_waiting_frames (hB : Budget fill after) (hp : p.Reachable) (hpace : p.Paced)
    (h : Within fill after m p) {es : List Nat} (hes : ∀ e ∈ es, 1 ≤ e) (hlen : m ≤ es.length) :
    ∃ n ≤ m, (p.frames (es.take n)).phase.isWaiting = true := by
  induction es generalizing p m with
  | nil =>
    rcases hB.waiting_or_within hp hpace h with hw | ⟨n, rfl, -⟩
    · exact ⟨0, Nat.zero_le m, hp.coherent.isWaiting_phase.trans hw⟩
    · exact absurd hlen (Nat.not_succ_le_zero n)
  | cons e es ih =>
    rcases hB.waiting_or_within hp hpace h with hw | ⟨n, rfl, hnext⟩
    · exact ⟨0, Nat.zero_le m, hp.coherent.isWaiting_phase.trans hw⟩
    · obtain ⟨k, hk, hwaits⟩ := ih (hp.after (.call (.update e false)))
        (hpace.call hp.coherent (.update e false)) (hnext e (hes e List.mem_cons_self))
        (fun e' he' => hes e' (List.mem_cons_of_mem e he')) (Nat.le_of_succ_le_succ hlen)
      exact ⟨k + 1, Nat.succ_le_succ hk, hwaits⟩

end Budget

/-! ## Rounds -/

/-- A round of a host: a frame, and then a wish to go on if the page waits for one. -/
def round (p : Player) (elapsed : Nat) : List Call :=
  .update elapsed false :: if (p.update elapsed false).phase = .waiting then [.next] else []

/-- The calls of rounds, one for each length of a frame. -/
def rounds : Player → List Nat → List Call
  | _, [] => []
  | p, e :: es => p.round e ++ rounds (p.calls (p.round e)) es

theorem Paced.calls (hp : p.Reachable) (hpace : p.Paced) (cs : List Call) :
    (p.calls cs).Paced := by
  induction cs generalizing p with
  | nil => exact hpace
  | cons c cs ih => exact ih (hp.after (.call c)) (hpace.call hp.coherent c)

/-- A page that waits for a wish is complete, and no time of it is left. -/
theorem Coherent.of_phase_waiting (hc : p.Coherent) (hphase : p.phase = .waiting) :
    p.playhead.waiting = true ∧ p.playhead.timedWait = 0 := by
  have hw : p.playhead.waiting = true := by rw [← hc.isWaiting_phase, hphase]; rfl
  refine ⟨hw, Nat.eq_zero_of_not_pos fun hpos => ?_⟩
  rw [hc.phase_of_waiting hw, if_pos hpos] at hphase
  simp at hphase

/-- At most `m` rounds are left. -/
inductive Remains (m : Nat) (p : Player) : Prop
  | closed (ha : p.playhead.active = false)
  | begins (hb : p.playhead.busy = true) (h : p.scriptTime + p.playhead.pause + 1 ≤ m)
  | waits (hphase : p.phase = .waiting) (h : p.scriptTime + 2 ≤ m)
  | goesOn (hphase : p.phase ≠ .waiting) (h : Within scriptTime timeAfter m p)

theorem scriptTime_turnPage_le (p : Player) : p.turnPage.scriptTime ≤ p.scriptTime := by
  unfold scriptTime
  rw [ahead_turnPage]
  exact Instruction.total_dropWhile_le ..

/-- A page that goes on closes the box, or else the next one begins. -/
theorem remains_advance {m : Nat} (hc : p.Coherent) (hw : p.playhead.waiting = true)
    (h : p.atEnd = false → p.scriptTime + 1 ≤ m) : Remains m p.advance := by
  rw [hc.advance_of_waiting hw]
  split
  · exact .closed rfl
  · next he =>
    refine .begins rfl (Nat.le_trans (Nat.succ_le_succ p.scriptTime_turnPage_le) ?_)
    exact h (by simpa using he)

/-- What is left of a budget by a complete page. -/
theorem Within.timeAfter_le {m : Nat} (h : Within scriptTime timeAfter m p) (hc : p.Coherent)
    (hw : p.playhead.waiting = true) : p.timeAfter ≤ m := by
  have hb := (hc.waiting hw).busy
  cases h with
  | complete _ h => exact h
  | pauses hb' => exact absurd (hb.symm.trans hb') Bool.false_ne_true
  | gathers hb' => exact absurd (hb.symm.trans hb') Bool.false_ne_true

/-- After the frame of a round the page goes on if it waits for a wish. -/
theorem remains_round_of_within {m elapsed : Nat} (hp : p.Reachable)
    (h : Within scriptTime timeAfter m (p.update elapsed false)) :
    Remains m (p.calls (p.round elapsed)) := by
  have hc := hp.coherent.update elapsed false
  unfold round
  by_cases hphase : (p.update elapsed false).phase = .waiting
  · obtain ⟨hw, ht⟩ := hc.of_phase_waiting hphase
    have hleft := h.timeAfter_le hc hw
    rw [if_pos hphase]
    show Remains m (p.update elapsed false).next
    unfold next
    rw [if_neg (by omega)]
    refine remains_advance hc hw fun he => ?_
    rw [timeAfter, if_neg (by simp [he])] at hleft
    omega
  · rw [if_neg hphase]
    exact .goesOn hphase h

/-- A page that waits for a wish does nothing in a frame but let the time pass. -/
theorem update_of_waiting (hc : p.Coherent) (hphase : p.phase = .waiting) (elapsed : Nat) :
    p.update elapsed false = p.tick elapsed := by
  obtain ⟨hw, ht⟩ := hc.of_phase_waiting hphase
  unfold update
  rw [if_neg (by simp [(hc.waiting hw).active])]
  dsimp only
  rw [if_neg (by simp [tick, ht]), Bool.false_and, if_neg Bool.false_ne_true]
  unfold reveal
  rw [if_pos (by simp [tick, hw])]

/-- A frame in a timed wait takes some of it off, and ends it by going on. -/
theorem remains_round_of_timedWait {m elapsed : Nat} (hp : p.Reachable) (he : 1 ≤ elapsed)
    (hw : p.playhead.waiting = true) (hpos : 0 < p.playhead.timedWait) (h : p.timeAfter ≤ m) :
    Remains (m - 1) (p.calls (p.round elapsed)) := by
  have hc := hp.coherent
  have hwaited : (p.waited elapsed 0).Coherent := hc.waited elapsed 0
  have hupdate := update_of_timedWait (hc.waiting hw).active hpos elapsed false
  by_cases hover : (p.waited elapsed 0).playhead.timedWait = 0
  · rw [if_pos hover] at hupdate
    have hphase : (p.update elapsed false).phase ≠ .waiting := by
      intro hphase
      have hadvance := Session.isWaiting_phase_advance hwaited hw
      rw [← hupdate, hphase] at hadvance
      simp [Phase.isWaiting] at hadvance
    unfold round
    rw [if_neg hphase]
    show Remains _ (p.update elapsed false)
    rw [hupdate]
    refine remains_advance hwaited hw fun hend => ?_
    have hend' : p.atEnd = false := hend
    rw [timeAfter, if_neg (by simp [hend'])] at h
    show p.scriptTime + 1 ≤ m - 1
    omega
  · rw [if_neg hover] at hupdate
    refine remains_round_of_within hp ?_
    rw [hupdate]
    refine .complete hw ?_
    have hafter : (p.waited elapsed 0).timeAfter =
        p.scriptTime + (p.playhead.timedWait - elapsed) + if p.atEnd then 0 else 1 := rfl
    rw [hafter]
    unfold timeAfter at h
    omega

/-- **A round leaves less than before.** -/
theorem remains_round {m elapsed : Nat} (hp : p.Reachable) (hpace : p.Paced) (he : 1 ≤ elapsed)
    (h : Remains m p) : Remains (m - 1) (p.calls (p.round elapsed)) := by
  have hc := hp.coherent
  cases h with
  | closed ha =>
    have hupdate : p.update elapsed false = p := by
      unfold update
      rw [if_pos (by simp [ha])]
    have hphase : p.phase ≠ .waiting := by simp [phase, Playhead.phase, ha]
    unfold round
    rw [hupdate, if_neg hphase]
    show Remains _ (p.update elapsed false)
    rw [hupdate]
    exact .closed ha
  | begins hb h =>
    exact remains_round_of_within hp
      (budget_script.within_update hc hp.timely hb (by omega) elapsed)
  | waits hphase h =>
    obtain ⟨hw, ht⟩ := hc.of_phase_waiting hphase
    refine remains_round_of_within hp ?_
    rw [update_of_waiting hc hphase]
    refine .complete hw ?_
    have hafter : (p.tick elapsed).timeAfter =
        p.scriptTime + p.playhead.timedWait + if p.atEnd then 0 else 1 := rfl
    rw [hafter]
    split <;> omega
  | goesOn hphase h =>
    rcases budget_script.waiting_or_within hp hpace h with hw | ⟨n, rfl, hnext⟩
    · refine remains_round_of_timedWait hp he hw (Nat.pos_of_ne_zero fun ht => hphase ?_)
        (h.timeAfter_le hc hw)
      rw [hc.phase_of_waiting hw, ht, if_neg (Nat.lt_irrefl 0)]
    · exact remains_round_of_within hp (hnext elapsed he)

/-- With no rounds left the box is closed. -/
theorem phase_of_remains_zero (hp : p.Reachable) (hpace : p.Paced) (h : Remains 0 p) :
    p.phase = .idle := by
  have hc := hp.coherent
  cases h with
  | closed ha => simp [phase, Playhead.phase, ha]
  | begins _ h => exact absurd h (Nat.not_succ_le_zero _)
  | waits _ h => exact absurd h (Nat.not_succ_le_zero _)
  | goesOn hphase h =>
    rcases budget_script.waiting_or_within hp hpace h with hw | ⟨n, hn, -⟩
    · have hleft := h.timeAfter_le hc hw
      have ht : p.playhead.timedWait = 0 := by
        unfold timeAfter at hleft
        omega
      rw [hc.phase_of_waiting hw, ht, if_neg (Nat.lt_irrefl 0)] at hphase
      exact absurd rfl hphase
    · exact absurd hn (Nat.succ_ne_zero n).symm

/-- **As many rounds as are left close the box.** -/
theorem phase_rounds {m : Nat} (hp : p.Reachable) (hpace : p.Paced) (h : Remains m p)
    {es : List Nat} (hes : ∀ e ∈ es, 1 ≤ e) (hlen : m ≤ es.length) :
    (p.calls (p.rounds es)).phase = .idle := by
  induction es generalizing p m with
  | nil =>
    have hm : m = 0 := Nat.le_zero.mp hlen
    subst hm
    exact phase_of_remains_zero hp hpace h
  | cons e es ih =>
    rw [rounds, calls_append]
    refine ih (hp.calls _) (hpace.calls hp _)
      (remains_round hp hpace (hes e List.mem_cons_self) h)
      (fun e' he' => hes e' (List.mem_cons_of_mem e he')) ?_
    rw [List.length_cons] at hlen
    omega

/-- How many rounds are left of every player. -/
theorem remains_of_coherent (hc : p.Coherent) :
    Remains (p.scriptTime + p.playhead.pause + p.playhead.timedWait + 2) p := by
  rcases hc.mode with hm | hm | hm
  · exact .closed hm.active
  · exact .begins hm.busy (by omega)
  · by_cases hphase : p.phase = .waiting
    · exact .waits hphase (by omega)
    · refine .goesOn hphase (.complete hm.waiting ?_)
      unfold timeAfter
      split <;> omega

/--
**Playing always finishes.**

While a page is put out, frames of any length but zero complete it, in at most as many frames as
there are milliseconds in what is left of the page, and one. Where a host plays in rounds, a frame
each and a wish to go on whenever the page waits for one, the box closes, in at most as many rounds
as there are milliseconds in what is left of the script, one for each `next`, and two. On the way it
completes at most one page for each `next` or end that is ahead, and one for the end of the script.
-/
theorem playing_finishes (hp : p.Reachable) (hpace : p.Paced) :
    (p.phase = .playing → ∀ es : List Nat, (∀ e ∈ es, 1 ≤ e) →
      1 + p.playhead.pause + p.pageTime ≤ es.length →
        ∃ n ≤ 1 + p.playhead.pause + p.pageTime,
          (p.frames (es.take n)).phase.isWaiting = true) ∧
    ∀ es : List Nat, (∀ e ∈ es, 1 ≤ e) →
      (p.scriptTime + p.playhead.pause + p.playhead.timedWait + 2 ≤ es.length →
        (p.calls (p.rounds es)).phase = .idle) ∧
      (p.chronicle (p.rounds es)).countP PageEvent.isCompleted ≤ p.pagesAhead := by
  have hc := hp.coherent
  refine ⟨fun hphase es hes hlen => ?_, fun es hes => ⟨fun hlen => ?_, ?_⟩⟩
  · have hb := (hc.playing_of_phase hphase).busy
    cases es with
    | nil => exact absurd hlen (by rw [List.length_nil]; omega)
    | cons e es =>
      have hfirst := budget_page.within_update hc hp.timely hb
        (m := p.pageTime + p.playhead.pause) (Nat.le_refl _) e
      obtain ⟨n, hn, hwaits⟩ := budget_page.exists_waiting_frames
        (hp.after (.call (.update e false))) (hpace.call hc (.update e false)) hfirst
        (fun e' he' => hes e' (List.mem_cons_of_mem e he'))
        (by rw [List.length_cons] at hlen; omega)
      exact ⟨n + 1, by omega, hwaits⟩
  · exact phase_rounds hp hpace (remains_of_coherent hc) hes hlen
  · have hcount := p.completed_add_pagesAhead_le (p.rounds es)
    omega

/-- Two pages with a pause and a change of speed; the script ends without saying so. -/
theorem playing_finishes_unended :
    let p := (ofSettings ({ cell := ⟨8, 16⟩ } : MetricTable).toMetrics {}).operate
      [.load ⟨[.char 'a', .speed 50, .wait 20, .char 'b', .next 5, .char 'c'], []⟩]
    p.Reachable ∧ p.Paced ∧ p.phase = .playing ∧ p.pageTime = 100 ∧ p.scriptTime = 156 ∧
      p.pagesAhead = 2 ∧
      (∃ n ≤ 101, (p.frames ((List.replicate 101 1).take n)).phase.isWaiting = true) ∧
      (p.calls (p.rounds (List.replicate 158 1))).phase = .idle ∧
      (p.chronicle (p.rounds (List.replicate 158 1))).countP PageEvent.isCompleted ≤
        p.pagesAhead := by
  intro p
  have hp : p.Reachable := (Reachable.start _ _).operate _
  have hpace : p.Paced := by
    refine ⟨by decide, fun ms hms => ?_⟩
    have hms' : ms = 50 := by simpa [p, operate, Operation.run, load] using hms
    rw [hms']
    decide
  have hlength : ∀ n, ∀ e ∈ List.replicate n 1, 1 ≤ e :=
    fun n e he => Nat.le_of_eq (List.eq_of_mem_replicate he).symm
  obtain ⟨hpage, hscript⟩ := playing_finishes hp hpace
  have hrounds := hscript (List.replicate 158 1) (hlength 158)
  exact ⟨hp, hpace, by decide, by decide, by decide, by decide,
    hpage (by decide) (List.replicate 101 1) (hlength 101) (by decide),
    hrounds.1 (by decide), hrounds.2⟩

end Player

end DialogueBox
