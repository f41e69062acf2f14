import DialogueBox.Proofs.Playback.Finishing
import DialogueBox.Proofs.Playback.Log

/-!
# The limit of a session

Nothing but its limit cuts a session short. Left alone, a session plays frames until its box closes,
and every session that was loaded takes some number of frames for that (`exists_takes`). A limit
lets it play the first of these frames and no others: as many as there are whole frames in the
limit, and the one that passes it (`framesPlayed_of_takes`). A session that is cut short earlier has
noted the first of the pages that it would have noted later (`pages_iterate_prefix`).

## How the proof goes

A frame of a session is a round of a host who then takes the events (`player_frame_eq_round`), so
that a session finishes as rounds do. Every frame moves the clock by its length, also in a timed
wait, and also the frame in which the box closes; the limit is met or passed accordingly. Both
bounds come from one induction on the number of frames that are allowed for, which have only to be
more than there are whole frames in the limit.
-/

namespace DialogueBox

namespace Player

variable {p : Player}

/-! ## Taking the events -/

theorem takeEvents_of_events (he : p.events = []) : p.takeEvents.2 = p := by
  obtain ⟨_, _, _, _, _, _, _, events, _, _⟩ := p
  cases he
  rfl

/-- Taking all events is taking the oldest one again and again. -/
theorem Reachable.takeEvents (h : p.Reachable) : p.takeEvents.2.Reachable := by
  induction hes : p.events generalizing p with
  | nil => rwa [takeEvents_of_events hes]
  | cons e es ih =>
    have htail : (Call.takeEvent.run p).events = es := by
      show p.takeEvent.2.events = es
      rw [takeEvent_eq, hes]
      rfl
    have hall : (Call.takeEvent.run p).takeEvents.2 = p.takeEvents.2 := by
      show p.takeEvent.2.takeEvents.2 = p.takeEvents.2
      rw [takeEvent_eq]
      rfl
    rw [← hall]
    exact ih (h.after (.call .takeEvent)) htail

theorem Paced.takeEvents (h : p.Paced) : p.takeEvents.2.Paced := ⟨h.settings, h.script⟩

/-- A page is turned, or the box closed, whatever events there are. -/
theorem Coherent.next_takeEvents (hc : p.Coherent) (hphase : p.phase = .waiting) :
    p.takeEvents.2.next = p.next.takeEvents.2 := by
  obtain ⟨hw, ht⟩ := hc.of_phase_waiting hphase
  have hnext : p.next = p.advance := if_neg (by omega)
  have hnext' : p.takeEvents.2.next = p.takeEvents.2.advance :=
    if_neg (show ¬0 < p.playhead.timedWait by omega)
  rw [hnext, hnext', hc.advance_of_waiting hw, hc.takeEvents.advance_of_waiting hw]
  show (if p.atEnd = true then _ else _) = _
  split <;> rfl

theorem Remains.takeEvents {m : Nat} (h : Remains m p) : Remains m p.takeEvents.2 := by
  cases h with
  | closed ha => exact .closed ha
  | begins hb h => exact .begins hb h
  | waits hphase h => exact .waits hphase h
  | goesOn hphase h =>
    refine .goesOn hphase ?_
    cases h with
    | complete hw h => exact .complete hw h
    | pauses hb hpos ht h => exact .pauses hb hpos ht h
    | gathers hb hpause hl hlt h => exact .gathers hb hpause hl hlt h

end Player

namespace Session

variable {s : Session} {length : Nat}

/-! ## Frames as rounds -/

/-- **A frame of a session is a round**, after which the events are taken. -/
theorem player_frame_eq_round (hc : s.player.Coherent) (length : Nat) :
    (s.frame length).player = (s.player.calls (s.player.round length)).takeEvents.2 := by
  have hu := hc.update length false
  unfold frame goOn Player.round
  rw [player_note]
  -- the events have no say in the phase
  show Session.player (if (s.player.update length false).phase = .waiting then _ else _) = _
  by_cases hphase : (s.player.update length false).phase = .waiting
  · rw [if_pos hphase, if_pos hphase]
    exact hu.next_takeEvents hphase
  · rw [if_neg hphase, if_neg hphase, player_note]
    rfl

theorem reachable_frame (hp : s.player.Reachable) (length : Nat) :
    (s.frame length).player.Reachable := by
  rw [player_frame_eq_round hp.coherent]
  exact (hp.calls _).takeEvents

/-! ## The frames of a session that is left alone -/

/-- A session takes a number of frames: with the last of them its box closes, and not before. -/
structure Takes (length : Nat) (s : Session) (n : Nat) : Prop where
  idle : ((frame length)^[n] s).player.phase = .idle
  ne_idle : ∀ k < n, ((frame length)^[k] s).player.phase ≠ .idle

theorem takes_zero (hphase : s.player.phase = .idle) : s.Takes length 0 :=
  ⟨hphase, fun k hk => absurd hk (Nat.not_lt_zero k)⟩

theorem Takes.succ {n : Nat} (hphase : s.player.phase ≠ .idle)
    (h : (s.frame length).Takes length n) : s.Takes length (n + 1) := by
  refine ⟨h.idle, fun k hk => ?_⟩
  cases k with
  | zero => exact hphase
  | succ k => exact h.ne_idle k (Nat.lt_of_succ_lt_succ hk)

theorem Takes.frame {n : Nat} (h : s.Takes length (n + 1)) : (s.frame length).Takes length n :=
  ⟨h.idle, fun k hk => h.ne_idle (k + 1) (Nat.succ_lt_succ hk)⟩

theorem Takes.unique {m n : Nat} (hm : s.Takes length m) (hn : s.Takes length n) : m = n := by
  rcases Nat.lt_trichotomy m n with hlt | heq | hlt
  · exact absurd hm.idle (hn.ne_idle m hlt)
  · exact heq
  · exact absurd hn.idle (hm.ne_idle n hlt)

/-- **A session takes at most as many frames as there are rounds left.** -/
theorem exists_takes_of_remains {m : Nat} (hlength : 1 ≤ length) (hp : s.player.Reachable)
    (hpace : s.player.Paced) (h : s.player.Remains m) : ∃ n ≤ m, s.Takes length n := by
  induction m generalizing s with
  | zero => exact ⟨0, Nat.le_refl 0, takes_zero (Player.phase_of_remains_zero hp hpace h)⟩
  | succ m ih =>
    by_cases hphase : s.player.phase = .idle
    · exact ⟨0, Nat.zero_le _, takes_zero hphase⟩
    · have hleft := (Player.remains_round hp hpace hlength h).takeEvents
      have hpaced := (hpace.calls hp (s.player.round length)).takeEvents
      rw [← player_frame_eq_round hp.coherent] at hleft hpaced
      obtain ⟨n, hn, htakes⟩ := ih (reachable_frame hp length) hpaced hleft
      exact ⟨n + 1, Nat.succ_le_succ hn, htakes.succ hphase⟩

/-- Every session takes some number of frames. -/
theorem exists_takes (hlength : 1 ≤ length) (hp : s.player.Reachable) (hpace : s.player.Paced) :
    ∃ n, s.Takes length n := by
  obtain ⟨n, -, hn⟩ :=
    exists_takes_of_remains hlength hp hpace (Player.remains_of_coherent hp.coherent)
  exact ⟨n, hn⟩

/-- **Every frame moves the clock by its length**, as long as the box has not closed before. -/
theorem clock_frame (hphase : s.player.phase ≠ .idle) (length : Nat) :
    (s.frame length).player.clock = (s.player.clock + length) % UInt64.size := by
  have ha : s.player.playhead.active = true := by simpa [Player.phase_eq_idle_iff] using hphase
  have hu : (s.player.update length false).takeEvents.2.clock =
      (s.player.clock + length) % UInt64.size := by
    show (s.player.update length false).clock = _
    rw [Player.clock_update, if_pos ha]
  rcases s.player_frame length with h | h
  · rw [h, hu]
  · rw [h, Player.clock_next, hu]

/-! ## The frames that a limit allows for -/

/-- The number of frames that `play` plays. -/
def framesPlayed (length limit : Nat) : Nat → Session → Nat
  | 0, _ => 0
  | n + 1, s =>
    if s.player.isBusy then
      let t := s.frame length
      if limit < t.player.clock then 1 else framesPlayed length limit n t + 1
    else 0

/-- Playing is nothing but playing frames. -/
theorem play_eq_iterate (length limit fuel : Nat) (s : Session) :
    (play length limit fuel s).1 = (frame length)^[framesPlayed length limit fuel s] s := by
  induction fuel generalizing s with
  | zero => rfl
  | succ fuel ih =>
    unfold play framesPlayed
    dsimp only
    by_cases hb : s.player.isBusy = true
    · rw [if_pos hb, if_pos hb]
      by_cases hover : limit < (s.frame length).player.clock
      · rw [if_pos hover, if_pos hover]
        rfl
      · rw [if_neg hover, if_neg hover, ih]
        rfl
    · rw [if_neg hb, if_neg hb]
      rfl

/--
**A limit allows for the frames that do not pass it, and for the one that does.**

A session that takes `n` frames plays them all, or else as many as there are whole frames in what is
left to the limit, and one. It is played to its end just when its last frame does not pass the
limit. For how many frames `play` allows makes no difference, as long as they are enough.
-/
theorem framesPlayed_of_takes {n : Nat} (fuel limit : Nat) (hlength : 0 < length)
    (hp : s.player.Reachable) (h : s.Takes length n)
    (hsize : s.player.clock + n * length < UInt64.size) (hclock : s.player.clock ≤ limit)
    (hfuel : (limit - s.player.clock) / length < fuel) :
    framesPlayed length limit fuel s = min n ((limit - s.player.clock) / length + 1) ∧
      ((play length limit fuel s).2 = .closed ↔ s.player.clock + n * length ≤ limit) := by
  induction fuel generalizing n s with
  | zero => exact absurd hfuel (Nat.not_lt_zero _)
  | succ fuel ih =>
    unfold play framesPlayed
    dsimp only
    cases n with
    | zero =>
      have hb : ¬s.player.isBusy = true := by
        rw [hp.coherent.isBusy_iff, not_not]
        exact h.idle
      rw [if_neg hb, if_neg hb]
      refine ⟨(Nat.zero_min _).symm, iff_of_true rfl ?_⟩
      omega
    | succ n =>
      have hphase : s.player.phase ≠ .idle := h.ne_idle 0 (Nat.succ_pos n)
      have hb : s.player.isBusy = true := hp.coherent.isBusy_iff.mpr hphase
      rw [Nat.succ_mul] at hsize ⊢
      have hframe : (s.frame length).player.clock = s.player.clock + length := by
        rw [clock_frame hphase, Nat.mod_eq_of_lt (by omega)]
      rw [if_pos hb, if_pos hb, hframe]
      by_cases hover : limit < s.player.clock + length
      · rw [if_pos hover, if_pos hover, Nat.div_eq_of_lt (by omega)]
        refine ⟨by omega, iff_of_false (by simp) ?_⟩
        omega
      · have hquotient : (limit - s.player.clock) / length =
            (limit - (s.player.clock + length)) / length + 1 := by
          rw [← Nat.add_div_right _ hlength]
          congr 1
          omega
        have ih' := ih (reachable_frame hp length) h.frame
        rw [hframe] at ih'
        obtain ⟨hcount, hended⟩ := ih' (by omega) (by omega) (by omega)
        rw [if_neg hover, if_neg hover, hcount, hended, hquotient]
        refine ⟨by omega, ?_⟩
        omega

/-! ## The pages that a limit leaves -/

/-- **Later frames note further pages**, and leave those that were noted as they are. -/
theorem pages_iterate_prefix {i j : Nat} (hij : i ≤ j) (length : Nat) (s : Session) :
    ((frame length)^[i] s).pages <+: ((frame length)^[j] s).pages := by
  induction hij with
  | refl => exact List.prefix_refl _
  | @step j hij ih =>
    rw [Function.iterate_succ_apply']
    rcases ((frame length)^[j] s).pages_frame length with hp | ⟨r, -, hp⟩
    · rw [hp]
      exact ih
    · rw [hp]
      exact ih.trans (List.prefix_append _ _)

end Session

end DialogueBox
