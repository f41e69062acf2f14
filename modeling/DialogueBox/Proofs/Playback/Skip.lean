import DialogueBox.Proofs.Playback.Reachable

/-!
# Skipping a page and playing it out

A page that is skipped and a page that is played out in frames of any lengths show the same and
halt at the same instruction (`alike_skip_of_frames`). Only times may differ: the clock, the time
gathered for the next character, and the times of entries in the backlog.

## How the proof goes

The two ways of putting out a page run side by side. A frame that stops in the middle of the page,
at a pause or for want of time, is matched by the same steps of the other player, put out at once
(`drain_or_match`); what is left to put out is then the same. The frame that completes the page
takes the remaining steps on both sides.
-/

namespace DialogueBox

/-- The flags and timers without those timers that only say when the page goes on. -/
def Playhead.timeless (h : Playhead) : Playhead := { h with charTimer := 0, pause := 0 }

theorem Playhead.timeless_after (instant : Bool) (h : Playhead) (i : Instruction) :
    (h.after instant i).timeless = h.timeless.after true i := by
  cases i with
  | wait ms => simp only [after, Bool.true_or, if_true]; split <;> rfl
  | _ => rfl

/-- Where playing goes on at once if it goes on in time. -/
theorem Instruction.not_halts_instant {i : Instruction} (h : i.halts false = false) :
    i.halts true = false := by
  cases i with
  | next ms => exact h
  | finish => exact h
  | _ => rfl

namespace Player

/-- Two players agree in everything but the clock, the timers of the page, and the times of the
entries that were pushed to the backlog `b`. -/
structure Alike (b : Backlog) (p q : Player) : Prop where
  settings : p.settings = q.settings
  metrics : p.metrics = q.metrics
  script : p.script = q.script
  dropped : p.dropped = q.dropped
  playhead : p.playhead.timeless = q.playhead.timeless
  style : p.style = q.style
  page : p.page = q.page
  events : p.events = q.events
  backlog : ∃ es fs, p.backlog = b.pushAll es ∧ q.backlog = b.pushAll fs ∧
    es.map Entry.untimed = fs.map Entry.untimed

/-- The player after frames of the given lengths without a wish to go on. -/
def frames (p : Player) (es : List Nat) : Player := es.foldl (fun q e => q.update e false) p

theorem Coherent.frames {p : Player} (h : p.Coherent) (es : List Nat) : (p.frames es).Coherent := by
  induction es generalizing p with
  | nil => exact h
  | cons e es ih => exact ih (h.update e false)

namespace Alike

variable {b : Backlog} {p q : Player}

/-- Alike players stay so under changes of the clock and of the timers of the page. -/
theorem of_timers (h : Alike b p q) {r s : Player}
    (hr : r = { p with clock := r.clock, playhead := r.playhead })
    (hrp : r.playhead.timeless = p.playhead.timeless)
    (hs : s = { q with clock := s.clock, playhead := s.playhead })
    (hsq : s.playhead.timeless = q.playhead.timeless) : Alike b r s := by
  have hplayhead : r.playhead.timeless = s.playhead.timeless := by rw [hrp, hsq, h.playhead]
  rw [hr, hs]
  exact
    { settings := h.settings
      metrics := h.metrics
      script := h.script
      dropped := h.dropped
      playhead := hplayhead
      style := h.style
      page := h.page
      events := h.events
      backlog := h.backlog }

theorem position_eq (h : Alike b p q) : p.playhead.position = q.playhead.position := by
  have hp := congrArg Playhead.position h.playhead
  exact hp

theorem ahead_eq (h : Alike b p q) : p.ahead = q.ahead := by
  unfold ahead
  rw [h.script, h.position_eq]

theorem phase_eq (h : Alike b p q) : p.phase = q.phase := by
  have hp := congrArg Playhead.phase h.playhead
  exact hp

/-- Pushing the same entries at different times. -/
theorem pushAll {c d : Backlog}
    (h : ∃ es fs, c = b.pushAll es ∧ d = b.pushAll fs ∧ es.map Entry.untimed = fs.map Entry.untimed)
    {es fs : List Entry} (hes : es.map Entry.untimed = fs.map Entry.untimed) :
    ∃ es' fs', c.pushAll es = b.pushAll es' ∧ d.pushAll fs = b.pushAll fs' ∧
      es'.map Entry.untimed = fs'.map Entry.untimed := by
  obtain ⟨es₀, fs₀, hc, hd, h₀⟩ := h
  refine ⟨es₀ ++ es, fs₀ ++ fs, ?_, ?_, ?_⟩
  · rw [hc, Backlog.pushAll_append]
  · rw [hd, Backlog.pushAll_append]
  · rw [List.map_append, List.map_append, h₀, hes]

/-- **Alike players stay so with the same instruction**, also if only one of them pauses. -/
theorem step (h : Alike b p q) (j k : Bool) (i : Instruction) :
    Alike b (p.step j i) (q.step k i) := by
  have hpass : (p.pass j i).playhead.timeless = (q.pass k i).playhead.timeless := by
    have hp := congrArg (fun g : Playhead => { g with position := g.position + 1 }) h.playhead
    exact hp
  rw [step_eq, step_eq]
  refine
    { settings := h.settings
      metrics := h.metrics
      script := h.script
      dropped := h.dropped
      playhead := ?_
      style := ?_
      page := ?_
      events := ?_
      backlog := pushAll h.backlog ?_ }
  · dsimp only
    rw [Playhead.timeless_after, Playhead.timeless_after, hpass]
  · dsimp only
    rw [h.style, h.metrics, h.settings]
  · dsimp only
    rw [h.style, h.metrics, h.page]
  · dsimp only
    rw [h.events]
  · rw [Instruction.map_untimed_entries, Instruction.map_untimed_entries, h.page]

theorem finishPage (h : Alike b p q) : Alike b p.finishPage q.finishPage := by
  have hf := congrArg Playhead.finishPage h.playhead
  rw [finishPage_eq, finishPage_eq]
  refine
    { settings := h.settings
      metrics := h.metrics
      script := h.script
      dropped := h.dropped
      playhead := hf
      style := h.style
      page := h.page
      events := h.events
      backlog := pushAll h.backlog ?_ }
  rw [Page.map_untimed_entries, Page.map_untimed_entries, h.page]

end Alike

variable {b : Backlog} {p q : Player}

/-- Putting out a page at once goes on after an instruction at which it does not halt. -/
theorem drain_instant_step {i : Instruction} {rest : List Instruction} (hl : q.ahead = i :: rest)
    (hh : i.halts true = false) :
    q.drain true q.ahead = (q.step true i).drain true (q.step true i).ahead := by
  rw [ahead_step hl, hl, drain_cons, if_neg (by simp [mustWait]), if_neg (by simp [hh])]

/-- What is left of a page is the same as for an alike player that becomes `r` at once. -/
def CompletesTo (b : Backlog) (r p : Player) : Prop :=
  ∃ q, Alike b p q ∧ q.drain true q.ahead = r

/-- A page is on its way to that of `r`, or there already. -/
def Nears (b : Backlog) (r p : Player) : Prop :=
  p.playhead.active = true ∧
    (p.playhead.busy = true ∧ CompletesTo b r p ∨ p.playhead.busy = false ∧ Alike b p r)

/-- **Putting out a page in time nears what putting it out at once leads to.** -/
theorem nears_drain {r : Player} (h : CompletesTo b r p) (ha : p.playhead.active = true)
    (hb : p.playhead.busy = true) : Nears b r (p.drain false p.ahead) := by
  refine drain_induction
    (P := fun p' => p'.playhead.active = true ∧ p'.playhead.busy = true ∧ CompletesTo b r p')
    (Q := Nears b r) ?_ ?_ ?_ ?_ ⟨ha, hb, h⟩
  · rintro p' i rest hl ⟨ha, hb, q, h, hq⟩ - hh
    obtain ⟨ha', hb', -⟩ := playhead_step_of_not_halts (p := p') hh
    have hl' : q.ahead = i :: rest := by rw [← h.ahead_eq, hl]
    refine ⟨ha'.trans ha, hb'.trans hb, q.step true i, h.step false true i, ?_⟩
    rw [← drain_instant_step hl' (Instruction.not_halts_instant hh), hq]
  · rintro p' i rest - ⟨ha, hb, h⟩ -
    exact ⟨ha, Or.inl ⟨hb, h⟩⟩
  · rintro p' i rest hl ⟨ha, hb, q, h, hq⟩ - hh
    have hl' : q.ahead = i :: rest := by rw [← h.ahead_eq, hl]
    have hs := h.step false true i
    refine ⟨by rw [active_step, ha], ?_⟩
    -- both players halt at the end of the page, but only the one in time halts at a pause
    by_cases hi : i.halts true = true
    · right
      rw [← hq, hl', drain_cons, if_neg (by simp [mustWait]), if_pos hi]
      exact ⟨busy_step_of_halts_instant _ _ hi, hs⟩
    · left
      have hi' : i.halts true = false := by simpa using hi
      refine ⟨by rw [busy_step_of_not_halts_instant _ _ hi', hb], q.step true i, hs, ?_⟩
      rw [← drain_instant_step hl' hi', hq]
  · rintro p' hl ⟨ha, -, q, h, hq⟩
    have hl' : q.ahead = [] := by rw [← h.ahead_eq, hl]
    rw [← hq, hl']
    exact ⟨by rw [finishPage_eq]; exact ha, Or.inr ⟨by rw [finishPage_eq]; rfl, h.finishPage⟩⟩

/-- **A frame nears what putting out the page at once leads to.** -/
theorem nears_update {r : Player} {is : List Instruction} (hm : p.playhead.Playing is)
    (h : CompletesTo b r p) (elapsed : Nat) : Nears b r (p.update elapsed false) := by
  obtain ⟨q, halike, hq⟩ := h
  obtain ⟨clock, charTimer, pause, hu⟩ := update_of_playing hm elapsed
  have h' : CompletesTo b r (p.retime clock charTimer pause) :=
    ⟨q, halike.of_timers rfl rfl rfl rfl, hq⟩
  rcases hu with hu | hu
  · rw [hu]
    exact ⟨hm.active, Or.inl ⟨hm.busy, h'⟩⟩
  · rw [hu]
    exact nears_drain h' hm.active hm.busy

/-- The frames up to the one that completes the page. -/
theorem alike_of_frames {r : Player} (es : List Nat) (hc : p.Coherent)
    (hb : p.playhead.busy = true) (h : CompletesTo b r p)
    (hbefore : ∀ n < es.length, (p.frames (es.take n)).phase.isWaiting = false)
    (hwait : (p.frames es).phase.isWaiting = true) : Alike b (p.frames es) r := by
  induction es generalizing p with
  | nil =>
    have hw : p.playhead.waiting = true := by rw [← hc.isWaiting_phase]; exact hwait
    rw [(hc.playing hb).waiting] at hw
    simp at hw
  | cons e es ih =>
    have hc' : (p.update e false).Coherent := hc.update e false
    obtain ⟨ha, ⟨hb', h'⟩ | ⟨hb', h'⟩⟩ := nears_update (hc.playing hb) h e
    -- the page goes on, or else this was the last frame
    · exact ih hc' hb' h' (fun n hn => hbefore (n + 1) (Nat.succ_lt_succ hn)) hwait
    · have hw : (p.update e false).phase.isWaiting = true := by
        rw [hc'.isWaiting_phase, (hc'.waiting_of_not_busy ha hb').waiting]
      cases es with
      | nil => exact h'
      | cons e' es =>
        have hf := hbefore 1 (Nat.succ_lt_succ (Nat.zero_lt_succ es.length))
        exact absurd hw (by rw [show (p.update e false).phase.isWaiting = false from hf]; simp)

/--
**Skipping a page and playing it out give the same page.**

The player puts out a page, and frames of any lengths follow, until for the first time the page is
complete. Then it is alike the player that skips the page. No pause is left in either of them, and
they are in the same phase, also with the same time left of a timed wait.
-/
theorem alike_next_of_frames (hp : p.Reachable) (hphase : p.phase = .playing) (es : List Nat)
    (hbefore : ∀ n < es.length, (p.frames (es.take n)).phase.isWaiting = false)
    (hwait : (p.frames es).phase.isWaiting = true) :
    Alike p.backlog (p.frames es) p.next ∧ (p.frames es).playhead.pause = 0 ∧
      p.next.playhead.pause = 0 ∧ (p.frames es).phase = p.next.phase := by
  have hc := hp.coherent
  have hm := hc.playing_of_phase hphase
  have hnext : p.next = p.skip := by
    unfold next advance
    rw [hm.timedWait, if_neg (Nat.lt_irrefl 0), if_neg (by simp [hm.active]),
      if_neg (by simp [hm.waiting]), if_pos hm.busy]
  have hstart : Alike p.backlog p (p.movePlayhead { p.playhead with pause := 0 }) :=
    { settings := rfl
      metrics := rfl
      script := rfl
      dropped := rfl
      playhead := rfl
      style := rfl
      page := rfl
      events := rfl
      backlog := ⟨[], [], rfl, rfl, rfl⟩ }
  have halike : Alike p.backlog (p.frames es) p.next := by
    rw [hnext]
    exact (alike_of_frames es hc hm.busy ⟨_, hstart, rfl⟩ hbefore hwait).of_timers rfl rfl rfl rfl
  -- a page that waits is not in a pause
  have hpause : ∀ {q : Player}, q.Coherent → q.phase.isWaiting = true → q.playhead.pause = 0 := by
    intro q hq hw
    rw [hq.isWaiting_phase] at hw
    exact (hq.waiting hw).pause
  refine ⟨halike, hpause (hp.coherent.frames es) hwait, hpause hc.next ?_, halike.phase_eq⟩
  rw [← halike.phase_eq]
  exact hwait

/-- A page with a pause in it, skipped and played out in frames of three lengths. -/
theorem alike_next_of_frames_pause :
    let p := (ofSettings ({ cell := ⟨8, 16⟩ } : MetricTable).toMetrics {}).operate
      [.load (.ofInstructions [.char 'a', .wait 20, .char 'b', .event "x", .next 250, .char 'c']),
        .call (.update 35 false)]
    p.Reachable ∧ p.phase = .playing ∧ 0 < p.playhead.pause ∧
      Alike p.backlog (p.frames [10, 15, 40]) p.next ∧
      (p.frames [10, 15, 40]).phase = .timedWait 250 := by
  intro p
  have hp : p.Reachable := (Reachable.start _ _).operate _
  have h := alike_next_of_frames hp (by decide) [10, 15, 40] (by decide) (by decide)
  exact ⟨hp, by decide, by decide, h.1, by decide⟩

end Player

end DialogueBox
