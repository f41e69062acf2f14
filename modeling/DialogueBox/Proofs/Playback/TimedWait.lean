import DialogueBox.Proofs.Playback.Chronicle
import DialogueBox.Proofs.Playback.Log

/-!
# Timed waits

A complete page that goes on by itself cannot be hurried, disturbed or missed
(`timedWait_runs_down`). Until its time is over, calls of the host do nothing but let time pass and
hand out events, whatever they wish for. The frame in which the time is over goes on once, just as
the host would by itself at that moment: it closes the box at the end of the script, or turns the
page. In that frame nothing of the next page is put out, and whether input is heeded has no say.

`waited` is the player after some time in a timed wait. Calls lead from one such player to another
(`run_waited`) as long as some of the time is left.
-/

namespace DialogueBox

namespace Call

/-- The time that a call reports. -/
def elapsed : Call → Nat
  | update elapsed _ => elapsed
  | next | takeEvent => 0

/-- How many events a call asks for. -/
def asks : Call → Nat
  | takeEvent => 1
  | update _ _ | next => 0

/-- The time that calls report together. -/
def totalElapsed (cs : List Call) : Nat := (cs.map elapsed).sum

/-- How many events calls ask for together. -/
def totalAsks (cs : List Call) : Nat := (cs.map asks).sum

end Call

namespace Player

variable {p q : Player}

/-! ## The clock of reachable players -/

theorem clock_lt_run (h : p.clock < UInt64.size) (o : Operation) :
    (o.run p).clock < UInt64.size := by
  have hzero : 0 < UInt64.size := by decide
  by_cases ho : o.loads = true
  · rw [clock_run_of_loads ho]
    exact hzero
  · cases o with
    | call c =>
      cases c with
      | update elapsed wish =>
        show (p.update elapsed wish).clock < _
        rw [clock_update]
        split
        · exact Nat.mod_lt _ hzero
        · exact h
      | next =>
        show p.next.clock < _
        rwa [clock_next]
      | takeEvent =>
        show p.takeEvent.2.clock < _
        rwa [takeEvent_eq]
    | present source => exact absurd rfl ho
    | presentSection source label => exact absurd rfl ho
    | load s => exact absurd rfl ho
    | _ => exact h

theorem Reachable.clock_lt (h : p.Reachable) : p.clock < UInt64.size := by
  induction h with
  | start m s => exact show 0 < UInt64.size by decide
  | after o _ ih => exact clock_lt_run ih o

/-! ## While time is left -/

/-- The player after some time in a timed wait, when the host has asked for some events. The clock
begins anew at 2⁶⁴. -/
def waited (p : Player) (t asked : Nat) : Player :=
  { p with
    clock := (p.clock + t) % UInt64.size
    playhead := { p.playhead with timedWait := p.playhead.timedWait - t }
    events := p.events.drop asked }

theorem waited_zero (h : p.clock < UInt64.size) : p.waited 0 0 = p := by
  unfold waited
  rw [Nat.add_zero, Nat.mod_eq_of_lt h]
  rfl

theorem Coherent.waited (h : p.Coherent) (t asked : Nat) : (p.waited t asked).Coherent := by
  have h' := (h.move (.tick p t)).move (.timedWait (p.tick t) _ (Nat.sub_le _ t))
  exact ⟨h'.speed_pos, h'.page_clear, h'.mode, h'.idle⟩

theorem waited_waited (p : Player) (t u m n : Nat) :
    (p.waited t m).waited u n = p.waited (t + u) (m + n) := by
  simp only [waited, Nat.mod_add_mod, Nat.add_assoc, Nat.sub_sub, List.drop_drop]

/-- A frame in a timed wait lets time pass, and goes on if the wait is over. -/
theorem update_of_timedWait (ha : p.playhead.active = true) (hpos : 0 < p.playhead.timedWait)
    (elapsed : Nat) (wish : Bool) :
    p.update elapsed wish =
      if (p.waited elapsed 0).playhead.timedWait = 0 then (p.waited elapsed 0).advance
      else p.waited elapsed 0 := by
  unfold update
  rw [if_neg (by simp [ha])]
  dsimp only
  rw [if_pos (show 0 < (p.tick elapsed).playhead.timedWait from hpos)]
  rfl

/-- **A call in a timed wait lets time pass and hands out events, and does nothing else.** -/
theorem run_waited (ha : p.playhead.active = true) (hclock : p.clock < UInt64.size) (c : Call)
    (ht : c.elapsed < p.playhead.timedWait) : c.run p = p.waited c.elapsed c.asks := by
  have hpos : 0 < p.playhead.timedWait := Nat.zero_lt_of_lt ht
  cases c with
  | update elapsed wish =>
    show p.update elapsed wish = _
    rw [update_of_timedWait ha hpos, if_neg]
    · rfl
    · exact Nat.sub_ne_zero_of_lt ht
  | next =>
    show p.next = p.waited 0 0
    unfold next
    rw [if_pos hpos, waited_zero hclock]
  | takeEvent =>
    show p.takeEvent.2 = p.waited 0 1
    have hclock' : (p.clock + 0) % UInt64.size = p.clock := Nat.mod_eq_of_lt hclock
    rw [takeEvent_eq, waited, hclock', List.drop_one]
    rfl

/-- The events that a call hands out are the oldest ones. -/
theorem taken_eq_take (c : Call) (p : Player) : c.taken p = p.events.take c.asks := by
  cases c with
  | takeEvent =>
    show p.takeEvent.1.toList = p.events.take 1
    rw [takeEvent_eq]
    cases p.events <;> rfl
  | _ => rfl

/-- **So do calls, as long as some of the time is left.** -/
theorem calls_of_timedWait (ha : p.playhead.active = true) (hclock : p.clock < UInt64.size)
    {cs : List Call} (ht : Call.totalElapsed cs < p.playhead.timedWait) :
    p.calls cs = p.waited (Call.totalElapsed cs) (Call.totalAsks cs) ∧
      p.taken cs = p.events.take (Call.totalAsks cs) := by
  induction cs generalizing p with
  | nil => exact ⟨(waited_zero hclock).symm, rfl⟩
  | cons c cs ih =>
    have helapsed : Call.totalElapsed (c :: cs) = c.elapsed + Call.totalElapsed cs := List.sum_cons
    have hasks : Call.totalAsks (c :: cs) = c.asks + Call.totalAsks cs := List.sum_cons
    rw [helapsed] at ht ⊢
    rw [hasks]
    have hrun : c.run p = p.waited c.elapsed c.asks := run_waited ha hclock c (by omega)
    obtain ⟨hcalls, htaken⟩ := ih (p := p.waited c.elapsed c.asks) ha
      (Nat.mod_lt _ (by decide)) (show _ < p.playhead.timedWait - c.elapsed by omega)
    refine ⟨?_, ?_⟩
    · show (c.run p).calls cs = _
      rw [hrun, hcalls, waited_waited]
    · show c.taken p ++ (c.run p).taken cs = _
      rw [hrun, htaken, taken_eq_take, List.take_add]
      rfl

/-! ## When the time is over -/

/-- The player in the frame that ends its timed wait, before it goes on. -/
def timeOver (p : Player) (elapsed : Nat) : Player :=
  (p.tick elapsed).movePlayhead { p.playhead with timedWait := 0 }

theorem waited_eq_timeOver {elapsed : Nat} (h : p.playhead.timedWait ≤ elapsed) :
    p.waited elapsed 0 = p.timeOver elapsed := by
  unfold waited timeOver
  rw [Nat.sub_eq_zero_of_le h]
  rfl

theorem Coherent.timeOver (h : p.Coherent) (elapsed : Nat) : (p.timeOver elapsed).Coherent :=
  (h.move (.tick p elapsed)).move (.timedWait (p.tick elapsed) 0 (Nat.zero_le _))

/-- The page is turned, and nothing of the next one is put out. -/
structure TurnsTo (p q : Player) : Prop where
  phase : q.phase = .playing
  page : q.page = .ofSettings p.settings
  style : q.style = p.style
  events : q.events = p.events
  backlog : q.backlog = p.backlog
  script : q.script = p.script
  inputEnabled : q.playhead.inputEnabled = p.playhead.inputEnabled
  /-- Only the line breaks at the beginning of the page are gone past. -/
  ahead : q.ahead = p.ahead.dropWhile (· == .lineBreak)

/-- The box is closed, and what the host can still ask for is there. -/
structure ClosesTo (p q : Player) : Prop where
  phase : q.phase = .idle
  page : q.page = .ofSettings p.settings
  style : q.style = p.style
  events : q.events = p.events
  backlog : q.backlog = p.backlog
  script : q.script = .blank
  inputEnabled : q.playhead.inputEnabled = p.playhead.inputEnabled

theorem Coherent.turnsTo (h : p.Coherent) (hw : p.playhead.waiting = true) :
    TurnsTo p p.turnPage where
  phase := by simp [Player.phase, Playhead.phase, Player.turnPage, Playhead.startPage,
    (h.waiting hw).active]
  page := h.page_clear
  style := rfl
  events := rfl
  backlog := rfl
  script := rfl
  inputEnabled := rfl
  ahead := ahead_turnPage p

theorem Coherent.closesTo (h : p.Coherent) : ClosesTo p p.close where
  phase := rfl
  page := h.page_clear
  style := rfl
  events := rfl
  backlog := rfl
  script := rfl
  inputEnabled := rfl

/-- Neither page, style, events nor script depend on the clock and the timers. -/
theorem TurnsTo.of_timeOver {elapsed : Nat} (h : (p.timeOver elapsed).TurnsTo q) : p.TurnsTo q :=
  ⟨h.phase, h.page, h.style, h.events, h.backlog, h.script, h.inputEnabled, h.ahead⟩

theorem ClosesTo.of_timeOver {elapsed : Nat} (h : (p.timeOver elapsed).ClosesTo q) :
    p.ClosesTo q :=
  ⟨h.phase, h.page, h.style, h.events, h.backlog, h.script, h.inputEnabled⟩

/-- What is noted when a complete page goes on. -/
theorem log_advance {c : Chronicle} (ha : c.player.playhead.active = true)
    (hw : c.player.playhead.waiting = true) :
    c.advance.log = c.log ++ [if c.player.atEnd then .closed else .turned] := by
  unfold Chronicle.advance
  rw [if_neg (by simp [ha]), if_pos hw]
  split <;> rfl

/-- All that happens to pages in the frame in which the time is over is that the page is taken
off. -/
theorem chronicle_of_timedWait (ha : p.playhead.active = true) (hw : p.playhead.waiting = true)
    (hpos : 0 < p.playhead.timedWait) {elapsed : Nat} (he : p.playhead.timedWait ≤ elapsed)
    (wish : Bool) :
    (Call.update elapsed wish).chronicle p = [if p.atEnd then .closed else .turned] := by
  have hover : (p.waited elapsed 0).playhead.timedWait = 0 := Nat.sub_eq_zero_of_le he
  show (Chronicle.update elapsed wish { player := p }).log = _
  unfold Chronicle.update
  rw [if_neg (by simp [ha])]
  dsimp only [Chronicle.apply]
  rw [if_pos (show 0 < (p.tick elapsed).playhead.timedWait from hpos)]
  unfold Chronicle.countDown
  dsimp only
  rw [if_pos]
  · exact log_advance ha hw
  · exact hover

/-- What is left of a timed wait, and that the page is complete. -/
theorem Coherent.of_timedWait (h : p.Coherent) {remaining : Nat}
    (hphase : p.phase = .timedWait remaining) :
    p.playhead.Waiting p.script.instructions ∧ p.playhead.timedWait = remaining ∧
      0 < remaining := by
  have hw : p.playhead.waiting = true := by
    rw [← h.isWaiting_phase, hphase]
    rfl
  rw [h.phase_of_waiting hw] at hphase
  split at hphase
  · next hpos =>
    cases hphase
    exact ⟨h.waiting hw, rfl, hpos⟩
  · cases hphase

/--
**A timed wait cannot be hurried, disturbed or missed.**

Some time is left on a complete page, and calls of the host follow that report less than that. They
change the clock and the time that is left, and hand out the oldest events; all else stays as it is.
Then a frame follows in which the time is over. It goes on once, as the host would by itself if no
time were left: at the end of the script the box is closed, else the page is turned, and no
instruction is carried out. Wishes to go on have no say in any of this, and neither has the switch
for input.
-/
theorem timedWait_runs_down (hp : p.Reachable) {remaining : Nat}
    (hphase : p.phase = .timedWait remaining) {cs : List Call}
    (hcs : Call.totalElapsed cs < remaining) :
    (p.calls cs = p.waited (Call.totalElapsed cs) (Call.totalAsks cs) ∧
      p.taken cs = p.events.take (Call.totalAsks cs) ∧
      (p.calls cs).phase = .timedWait (remaining - Call.totalElapsed cs)) ∧
    ∀ elapsed wish, remaining ≤ Call.totalElapsed cs + elapsed →
      p.calls (cs ++ [.update elapsed wish]) = ((p.calls cs).timeOver elapsed).next ∧
      (Call.update elapsed wish).chronicle (p.calls cs) =
        [if p.atEnd then .closed else .turned] ∧
      if p.atEnd then ClosesTo (p.calls cs) (p.calls (cs ++ [.update elapsed wish]))
      else TurnsTo (p.calls cs) (p.calls (cs ++ [.update elapsed wish])) := by
  have hc := hp.coherent
  obtain ⟨hm, rfl, -⟩ := hc.of_timedWait hphase
  obtain ⟨hcalls, htaken⟩ := calls_of_timedWait hm.active hp.clock_lt hcs
  have hatEnd : (p.calls cs).atEnd = p.atEnd := by rw [hcalls]; rfl
  have hcq : (p.calls cs).Coherent := by rw [hcalls]; exact hc.waited _ _
  have hactive : (p.calls cs).playhead.active = true := by rw [hcalls]; exact hm.active
  have hwaits : (p.calls cs).playhead.waiting = true := by rw [hcalls]; exact hm.waiting
  have htimer : (p.calls cs).playhead.timedWait =
      p.playhead.timedWait - Call.totalElapsed cs := by rw [hcalls]; rfl
  have hleft : 0 < (p.calls cs).playhead.timedWait := by omega
  refine ⟨⟨hcalls, htaken, ?_⟩, fun elapsed wish he => ?_⟩
  · rw [hcq.phase_of_waiting hwaits, if_pos hleft, htimer]
  rw [calls_append, ← hatEnd]
  generalize p.calls cs = q at hatEnd hcq hactive hwaits htimer hleft ⊢
  have hle : q.playhead.timedWait ≤ elapsed := by omega
  have hnext : (q.timeOver elapsed).next = (q.timeOver elapsed).advance := if_neg (Nat.lt_irrefl 0)
  have hgoOn : q.calls [.update elapsed wish] = (q.timeOver elapsed).next := by
    show q.update elapsed wish = _
    rw [hnext, update_of_timedWait hactive hleft, waited_eq_timeOver hle, if_pos]
    rfl
  refine ⟨hgoOn, chronicle_of_timedWait hactive hwaits hleft hle wish, ?_⟩
  have hover := hcq.timeOver elapsed
  have hend : (q.timeOver elapsed).atEnd = q.atEnd := rfl
  rw [hgoOn, hnext, hover.advance_of_waiting hwaits, hend]
  split
  · exact hover.closesTo.of_timeOver
  · exact (hover.turnsTo hwaits).of_timeOver

/-- Two frames and a wish of the host in a timed wait, with input off, and the frame that ends
it. -/
theorem timedWait_runs_down_inputOff :
    let p := (ofSettings ({ cell := ⟨8, 16⟩ } : MetricTable).toMetrics {}).operate
      [.load (.ofInstructions
          [.input false, .event "x", .char 'a', .next 100, .lineBreak, .char 'b']),
        .call (.update 60 false)]
    let cs := [Call.update 60 true, .next, .takeEvent, .update 39 false]
    p.Reachable ∧ p.phase = .timedWait 100 ∧ Call.totalElapsed cs = 99 ∧
      (p.calls cs).phase = .timedWait 1 ∧ p.taken cs = ["x"] ∧
      TurnsTo (p.calls cs) (p.calls (cs ++ [.update 1 false])) := by
  intro p cs
  have hp : p.Reachable := (Reachable.start _ _).operate _
  obtain ⟨⟨-, htaken, hphase⟩, hover⟩ := timedWait_runs_down hp
    (show p.phase = .timedWait 100 by decide) (show Call.totalElapsed cs < 100 by decide)
  obtain ⟨-, -, hturns⟩ := hover 1 false (by decide)
  exact ⟨hp, by decide, by decide, hphase, htaken, hturns⟩

end Player

end DialogueBox
