import DialogueBox.Proofs.Playback.Step
import Mathlib.Logic.Relation

/-!
# Moves

A frame can count down a timed wait, complete a page, turn it and put out the beginning of the next
one. All that is a sequence of moves, each of which does one thing: `moves_update` and `moves_next`.
What every move keeps holds after every frame and every wish to go on.
-/

namespace DialogueBox.Player

/-- The single things that happen while a script is played. -/
inductive Move : Player → Player → Prop
  /-- The clock goes on. -/
  | tick (p : Player) (elapsed : Nat) : Move p (p.tick elapsed)
  /-- The time gathered for the next character changes. -/
  | charTimer {p : Player} (ha : p.playhead.active = true) (t : Nat) :
      Move p (p.movePlayhead { p.playhead with charTimer := t })
  /-- Less is left of a pause. -/
  | pause (p : Player) (t : Nat) (ht : t ≤ p.playhead.pause) :
      Move p (p.movePlayhead { p.playhead with pause := t })
  /-- Less is left of a timed wait. -/
  | timedWait (p : Player) (t : Nat) (ht : t ≤ p.playhead.timedWait) :
      Move p (p.movePlayhead { p.playhead with timedWait := t })
  /-- The next instruction is carried out. -/
  | step {p : Player} {instant : Bool} {i : Instruction} {rest : List Instruction}
      (hb : p.playhead.busy = true) (hp : p.playhead.pause = 0) (hl : p.ahead = i :: rest)
      (hw : p.mustWait instant i = false) : Move p (p.step instant i)
  /-- No instruction is left for the page. -/
  | finishPage {p : Player} (hb : p.playhead.busy = true) (hp : p.playhead.pause = 0)
      (hl : p.ahead = []) : Move p p.finishPage
  /-- The page is turned. -/
  | turnPage {p : Player} (hw : p.playhead.waiting = true) (he : p.atEnd = false) :
      Move p p.turnPage
  /-- The box closes. -/
  | close (p : Player) : Move p p.close

/-- Any number of moves. -/
abbrev Moves : Player → Player → Prop := Relation.ReflTransGen Move

/-- What every move keeps, any number of moves keeps. -/
theorem Moves.induction {P : Player → Prop} (hstep : ∀ p q, Move p q → P p → P q)
    {p q : Player} (h : Moves p q) (hp : P p) : P q := by
  induction h with
  | refl => exact hp
  | tail _ hm ih => exact hstep _ _ hm ih

/-! ## Putting out a page -/

/-- An instruction at which playing goes on keeps all flags and timers of a page that is put out. -/
theorem playhead_step_of_not_halts {instant : Bool} {i : Instruction} {p : Player}
    (h : i.halts instant = false) :
    (p.step instant i).playhead.active = p.playhead.active ∧
      (p.step instant i).playhead.busy = p.playhead.busy ∧
      (p.step instant i).playhead.waiting = p.playhead.waiting ∧
      (p.step instant i).playhead.ended = p.playhead.ended ∧
      (p.step instant i).playhead.pause = p.playhead.pause ∧
      (p.step instant i).playhead.timedWait = p.playhead.timedWait := by
  rw [step_eq]
  dsimp only
  rw [Playhead.after_of_not_halts h]
  exact ⟨rfl, rfl, rfl, rfl, rfl, rfl⟩

/-- No instruction closes the box. -/
theorem active_step (instant : Bool) (i : Instruction) (p : Player) :
    (p.step instant i).playhead.active = p.playhead.active := by
  rw [step_eq]
  cases i with
  | wait ms => simp only [Playhead.after]; split <;> rfl
  | _ => rfl

theorem active_drain (instant : Bool) (p : Player) :
    (p.drain instant p.ahead).playhead.active = p.playhead.active :=
  drain_keeps (fun q => q.playhead.active) (fun q i => active_step instant i q)
    (fun q => by rw [finishPage_eq]; rfl) p

theorem moves_drain (instant : Bool) {p : Player} (hb : p.playhead.busy = true)
    (hp : p.playhead.pause = 0) : Moves p (p.drain instant p.ahead) := by
  refine drain_induction
    (P := fun q => Moves p q ∧ q.playhead.busy = true ∧ q.playhead.pause = 0)
    (Q := fun q => Moves p q) ?_ ?_ ?_ ?_ ⟨.refl, hb, hp⟩
  · rintro q i rest hl ⟨hm, hb, hp⟩ hw hh
    obtain ⟨-, hb', -, -, hp', -⟩ := playhead_step_of_not_halts (p := q) hh
    exact ⟨hm.tail (.step hb hp hl hw), hb'.trans hb, hp'.trans hp⟩
  · rintro q i rest - ⟨hm, -, -⟩ -
    exact hm
  · rintro q i rest hl ⟨hm, hb, hp⟩ hw -
    exact hm.tail (.step hb hp hl hw)
  · rintro q hl ⟨hm, hb, hp⟩
    exact hm.tail (.finishPage hb hp hl)

theorem moves_skip {p : Player} (ha : p.playhead.active = true) (hb : p.playhead.busy = true) :
    Moves p p.skip := by
  have hq : Move p (p.movePlayhead { p.playhead with pause := 0 }) := .pause p 0 (Nat.zero_le _)
  have hm := moves_drain true (p := p.movePlayhead { p.playhead with pause := 0 }) hb rfl
  have hr := active_drain true (p.movePlayhead { p.playhead with pause := 0 })
  exact (Relation.ReflTransGen.head hq hm).tail (.charTimer (hr.trans ha) 0)

/-! ## Going on -/

theorem moves_advance {p : Player} (ha : p.playhead.active = true) : Moves p p.advance := by
  unfold advance
  rw [if_neg (by simp [ha])]
  by_cases hw : p.playhead.waiting = true
  · rw [if_pos hw]
    by_cases he : p.atEnd = true
    · rw [if_pos he]
      exact .single (.close p)
    · rw [if_neg he]
      exact .single (.turnPage hw (by simpa using he))
  · rw [if_neg hw]
    by_cases hb : p.playhead.busy = true
    · rw [if_pos hb]
      exact moves_skip ha hb
    · rw [if_neg hb]

/-- **A wish of the host to go on is a sequence of moves.** -/
theorem moves_next {p : Player} (ha : p.playhead.active = true) : Moves p p.next := by
  unfold next
  split
  · exact .refl
  · exact moves_advance ha

/-! ## Frames -/

theorem moves_countDown {p : Player} (ha : p.playhead.active = true) (elapsed : Nat) :
    Moves p (p.countDown elapsed) := by
  have hq := Move.timedWait p (p.playhead.timedWait - elapsed) (Nat.sub_le _ _)
  unfold countDown
  dsimp only
  split
  · exact .head hq (moves_advance ha)
  · exact .single hq

theorem moves_reveal (p : Player) (elapsed : Nat) : Moves p (p.reveal elapsed) := by
  unfold reveal
  split
  · exact .refl
  · next hp =>
    simp only [Bool.or_eq_true, Bool.not_eq_eq_eq_not, Bool.not_true, not_or,
      Bool.not_eq_false, Bool.not_eq_true] at hp
    have hq := Move.pause p (p.playhead.pause - elapsed) (Nat.sub_le _ _)
    have ha : (p.movePlayhead { p.playhead with
      pause := p.playhead.pause - elapsed }).playhead.active = true := hp.1
    generalize p.movePlayhead { p.playhead with pause := p.playhead.pause - elapsed } = q at hq ha ⊢
    dsimp only
    split
    · exact .single hq
    · next h0 =>
      split
      · next hb =>
        -- the pause is over, and the whole frame counts for the characters
        have hr : Move q (q.movePlayhead (q.playhead.gather elapsed)) := .charTimer ha _
        have hd := moves_drain false
          (p := q.movePlayhead (q.playhead.gather elapsed)) hb (Nat.eq_zero_of_not_pos h0)
        exact .head hq (.head hr hd)
      · exact .single hq

/-- **A frame is a sequence of moves.** -/
theorem moves_update (p : Player) (elapsed : Nat) (wish : Bool) :
    Moves p (p.update elapsed wish) := by
  unfold update
  by_cases ha : p.playhead.active = true
  · rw [if_neg (by simp [ha])]
    refine .head (.tick p elapsed) ?_
    dsimp only
    split
    · exact moves_countDown (p := p.tick elapsed) ha elapsed
    · refine Relation.ReflTransGen.trans ?_ (moves_reveal _ elapsed)
      split
      · exact moves_advance (p := p.tick elapsed) ha
      · exact .refl
  · rw [if_pos (by simpa using ha)]

end DialogueBox.Player
