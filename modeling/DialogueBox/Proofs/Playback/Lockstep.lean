import DialogueBox.Proofs.Playback.Chronicle
import DialogueBox.Proofs.Playback.Exhaustion

/-!
# Players in lockstep

What a player does next depends on its script, on its playhead and on the time between characters,
and on nothing else. So two players that agree in these do the same single acts in every operation,
and what every act keeps of the two is kept by whole runs of operations (`Lockstep.operate`).

More may hold of two players once both have started a page. So the relation between them has a
proposition beside it, which is true from there on. Whether an operation starts a page can be read
off the chronicle of its calls (`Operation.startsPage`).
-/

namespace DialogueBox

/-! ## Acts -/

/-- The single things that a player does. -/
inductive Act
  /-- Go past an instruction and carry it out. -/
  | step (instant : Bool) (i : Instruction)
  | finishPage
  | movePlayhead (f : Playhead → Playhead)
  | tick (elapsed : Nat)
  | close
  | takeEvent
  | clear
  | measure (m : Metrics)
  /-- Note the tags that compiling dropped. -/
  | noteDropped (ds : List Markup.DroppedTag)

/-- The player after an act. -/
def Act.run : Act → Player → Player
  | step instant i, p => p.step instant i
  | finishPage, p => p.finishPage
  | movePlayhead f, p => p.movePlayhead (f p.playhead)
  | tick elapsed, p => p.tick elapsed
  | close, p => p.close
  | takeEvent, p => p.takeEvent.2
  | clear, p => p.clear
  | measure m, p => { p with metrics := m }
  | noteDropped ds, p => { p with dropped := ds }

/-- Whether an operation starts a page: it turns one, or loads a script. -/
def Operation.startsPage : Operation → Player → Prop
  | call k, p => .turned ∈ k.chronicle p
  | present _, _ | presentSection _ _, _ | load _, _ => True
  | close, _ | clear, _ | measure _, _ => False

/-- Whether operations start a page. -/
def Player.startsPage : Player → List Operation → Prop
  | _, [] => False
  | p, o :: os => o.startsPage p ∨ (o.run p).startsPage os

/-- A wish of the host to go on starts a page where one waits that is not the last. -/
theorem Operation.startsPage_next {p : Player} (hp : p.phase = .waiting) (he : p.atEnd = false) :
    (call .next).startsPage p := by
  obtain ⟨ha, hw, ht⟩ : p.playhead.active = true ∧ p.playhead.waiting = true ∧
      ¬0 < p.playhead.timedWait := by
    unfold Player.phase Playhead.phase at hp
    split at hp
    · cases hp
    · next ha =>
      split at hp
      · next hw =>
        split at hp
        · cases hp
        · next ht => exact ⟨by simpa using ha, hw, ht⟩
      · cases hp
  show PageEvent.turned ∈ (Chronicle.next { player := p }).log
  unfold Chronicle.next Chronicle.advance
  rw [if_neg ht, if_neg (by simp [ha]), if_pos hw, he]
  exact List.mem_singleton_self _

/-- A relation between two players, one of them in step with the other: they agree in what decides
what they do, and what they do keeps the relation. The proposition holds once a page has been
started. -/
structure Lockstep (S : Prop → Player → Player → Prop) : Prop where
  script : ∀ {b p q}, S b p q → q.script = p.script
  playhead : ∀ {b p q}, S b p q → q.playhead = p.playhead
  speed : ∀ {b p q}, S b p q → q.style.speed = p.style.speed
  events : ∀ {b p q}, S b p q → q.events = p.events
  act : ∀ {b p q}, S b p q → ∀ a : Act, S b (a.run p) (a.run q)
  turnPage : ∀ {b p q}, S b p q → S True p.turnPage q.turnPage
  load : ∀ {b p q}, S b p q → ∀ s, S True (p.load s) (q.load s)

namespace Lockstep

variable {S : Prop → Player → Player → Prop} {b : Prop} {p q : Player}

theorem ahead (hS : Lockstep S) (h : S b p q) : q.ahead = p.ahead := by
  unfold Player.ahead
  rw [hS.script h, hS.playhead h]

theorem mustWait (hS : Lockstep S) (h : S b p q) (instant : Bool) (i : Instruction) :
    q.mustWait instant i = p.mustWait instant i := by
  unfold Player.mustWait
  rw [hS.playhead h, hS.speed h]

theorem atEnd (hS : Lockstep S) (h : S b p q) : q.atEnd = p.atEnd := by
  unfold Player.atEnd
  rw [hS.playhead h, hS.script h]

/-! ## Calls -/

/-- Two chronicles whose players are in step, and have started a page if it is noted. -/
def Noted (S : Prop → Player → Player → Prop) (b : Prop) (c d : Chronicle) : Prop :=
  S (b ∨ .turned ∈ c.log) c.player d.player

namespace Noted

variable {c d : Chronicle}

theorem apply (hS : Lockstep S) (h : Noted S b c d) (a : Act) :
    Noted S b (c.apply a.run) (d.apply a.run) := hS.act h a

theorem movePlayhead (hS : Lockstep S) (h : Noted S b c d) (f : Playhead → Playhead) :
    Noted S b (c.apply fun p => p.movePlayhead (f p.playhead))
      (d.apply fun p => p.movePlayhead (f p.playhead)) := h.apply hS (.movePlayhead f)

theorem tick (hS : Lockstep S) (h : Noted S b c d) (elapsed : Nat) :
    Noted S b (c.apply fun p => p.tick elapsed) (d.apply fun p => p.tick elapsed) :=
  h.apply hS (.tick elapsed)

/-- What is noted starts no page, unless it says so. -/
theorem note (hS : Lockstep S) (h : Noted S b c d) (a : Act) {e e' : PageEvent}
    (he : e ≠ .turned) : Noted S b (c.note e a.run) (d.note e' a.run) := by
  have hlog : (.turned ∈ c.log ++ [e]) = (.turned ∈ c.log) := by simp [he.symm]
  show S (b ∨ .turned ∈ c.log ++ [e]) _ _
  rw [hlog]
  exact hS.act h a

theorem turnPage (hS : Lockstep S) (h : Noted S b c d) :
    Noted S b (c.note .turned Player.turnPage) (d.note .turned Player.turnPage) := by
  have hlog : (b ∨ PageEvent.turned ∈ c.log ++ [.turned]) = True := by simp
  show S (b ∨ .turned ∈ c.log ++ [.turned]) _ _
  rw [hlog]
  exact hS.turnPage h

theorem step (hS : Lockstep S) (h : Noted S b c d) (instant : Bool) (i : Instruction) :
    Noted S b (c.step instant i) (d.step instant i) := by
  unfold Chronicle.step
  split
  · exact h.note hS (.step instant i) (by simp)
  · exact h.apply hS (.step instant i)

theorem drain (hS : Lockstep S) (h : Noted S b c d) (instant : Bool) (left : List Instruction) :
    Noted S b (c.drain instant left) (d.drain instant left) := by
  induction left generalizing c d with
  | nil => exact h.note hS .finishPage (by simp)
  | cons i rest ih =>
    rw [Chronicle.drain, Chronicle.drain, hS.mustWait h]
    split
    · exact h
    · split
      · exact h.step hS instant i
      · exact ih (h.step hS instant i)

theorem skip (hS : Lockstep S) (h : Noted S b c d) : Noted S b c.skip d.skip := by
  have hp := h.movePlayhead hS fun k => { k with pause := 0 }
  unfold Chronicle.skip
  dsimp only
  rw [hS.ahead hp]
  exact (hp.drain hS true _).movePlayhead hS fun k => { k with charTimer := 0 }

theorem advance (hS : Lockstep S) (h : Noted S b c d) : Noted S b c.advance d.advance := by
  unfold Chronicle.advance
  rw [hS.playhead h, hS.atEnd h]
  split
  · exact h.movePlayhead hS Playhead.close
  · split
    · split
      · exact h.note hS .close (by simp)
      · exact h.turnPage hS
    · split
      · exact h.skip hS
      · exact h

theorem next (hS : Lockstep S) (h : Noted S b c d) : Noted S b c.next d.next := by
  unfold Chronicle.next
  rw [hS.playhead h]
  split
  · exact h
  · exact h.advance hS

theorem countDown (hS : Lockstep S) (h : Noted S b c d) (elapsed : Nat) :
    Noted S b (c.countDown elapsed) (d.countDown elapsed) := by
  have hp := h.movePlayhead hS fun k => { k with timedWait := k.timedWait - elapsed }
  unfold Chronicle.countDown
  dsimp only
  rw [hS.playhead hp]
  split
  · exact hp.advance hS
  · exact hp

theorem reveal (hS : Lockstep S) (h : Noted S b c d) (elapsed : Nat) :
    Noted S b (c.reveal elapsed) (d.reveal elapsed) := by
  have hp := h.movePlayhead hS fun k => { k with pause := k.pause - elapsed }
  have hg := hp.movePlayhead hS fun k => k.gather elapsed
  unfold Chronicle.reveal
  dsimp only
  rw [hS.playhead h, hS.playhead hp, hS.ahead hg]
  split
  · exact h
  · split
    · exact hp
    · split
      · exact hg.drain hS false _
      · exact hp

theorem update (hS : Lockstep S) (h : Noted S b c d) (elapsed : Nat) (wish : Bool) :
    Noted S b (c.update elapsed wish) (d.update elapsed wish) := by
  have ht := h.tick hS elapsed
  unfold Chronicle.update
  dsimp only
  rw [hS.playhead h, hS.playhead ht]
  split
  · exact h
  · split
    · exact ht.countDown hS elapsed
    · split
      · exact (ht.advance hS).reveal hS elapsed
      · exact ht.reveal hS elapsed

theorem call (hS : Lockstep S) (h : Noted S b c d) (k : Call) :
    Noted S b (c.call k) (d.call k) := by
  cases k with
  | update elapsed wish => exact h.update hS elapsed wish
  | next => exact h.next hS
  | takeEvent => exact h.apply hS .takeEvent

end Noted

/-! ## Operations -/

/-- **Every operation keeps two players in step,** and starts a page for both if it does so for
one. -/
theorem run (hS : Lockstep S) (h : S b p q) (o : Operation) :
    S (b ∨ o.startsPage p) (o.run p) (o.run q) := by
  have hsame : ∀ a : Act, S (b ∨ False) (a.run p) (a.run q) := by
    intro a
    rw [or_false]
    exact hS.act h a
  have hload : ∀ ds s, S (b ∨ True) ({ p with dropped := ds }.load s)
      ({ q with dropped := ds }.load s) := by
    intro ds s
    rw [or_true]
    exact hS.load (hS.act h (.noteDropped ds)) s
  cases o with
  | call k =>
    have hnoted : Noted S b { player := p } { player := q } := by
      show S (b ∨ PageEvent.turned ∈ []) p q
      rw [eq_false List.not_mem_nil, or_false]
      exact h
    have hcall := hnoted.call hS k
    unfold Noted at hcall
    rwa [Chronicle.player_call, Chronicle.player_call] at hcall
  | present source => exact hload _ _
  | presentSection source label =>
    show S (b ∨ True) (p.presentSection source label).1 (q.presentSection source label).1
    rw [Player.presentSection_eq, Player.presentSection_eq]
    exact hload _ _
  | load s =>
    show S (b ∨ True) _ _
    rw [or_true]
    exact hS.load h s
  | close => exact hsame .close
  | clear => exact hsame .clear
  | measure m => exact hsame (.measure m)

/-- **So does every run of operations.** -/
theorem operate (hS : Lockstep S) (h : S b p q) (os : List Operation) :
    S (b ∨ p.startsPage os) (p.operate os) (q.operate os) := by
  induction os generalizing b p q with
  | nil =>
    show S (b ∨ False) p q
    rwa [or_false]
  | cons o os ih =>
    have ho := ih (hS.run h o)
    rwa [or_assoc] at ho

/-- The host gets the same events from both. -/
theorem answers (hS : Lockstep S) (h : S b p q) (os : List Operation) :
    q.answers os = p.answers os := by
  induction os generalizing b p q with
  | nil => rfl
  | cons o os ih =>
    show (o.answer? q).toList ++ (o.run q).answers os = (o.answer? p).toList ++ (o.run p).answers os
    rw [Player.answer?_congr (hS.events h), ih (hS.run h o)]

end Lockstep

end DialogueBox
