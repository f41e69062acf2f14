import DialogueBox.Proofs.Playback.Mode

/-!
# The players that a host can meet

A host makes a player from metrics and settings, and then uses its operations in any order. What
holds of every player it can meet follows from two invariants: coherence, which every move keeps,
and a bound on the character timer, which a whole frame restores (`Timely`).

* `Reachable.coherent` — every reachable player is in one of the three modes
* `Reachable.timely` — between two operations the character timer is below the time between
  characters, and at zero during a pause
* `lawful_of_reachable` — what that means for the flags, timers and queries of the host
-/

namespace DialogueBox

/-- The text that is played for a label. -/
def Markup.playedText (source : List Char) (label : Option String) : List Char :=
  match Markup.section? source label with
  | .ok s => s
  | .error e => Markup.errorPage e

/-! ## Operations -/

/-- What a host does while a script is played. -/
inductive Call
  /-- One frame. -/
  | update (elapsed : Nat) (wish : Bool)
  | next
  | takeEvent

/-- What a host does with a player. -/
inductive Operation
  | call (c : Call)
  | present (source : List Char)
  | presentSection (source : List Char) (label : Option String)
  | load (s : Script)
  | close
  | clear
  /-- The drawing side gets other sizes, icons or fonts. -/
  | measure (m : Metrics)

/-- The player after a call. -/
def Call.run : Call → Player → Player
  | update elapsed wish, p => p.update elapsed wish
  | next, p => p.next
  | takeEvent, p => p.takeEvent.2

/-- The names of the events that a call hands out. -/
def Call.taken : Call → Player → List String
  | takeEvent, p => p.takeEvent.1.toList
  | _, _ => []

/-- The player after an operation. -/
def Operation.run : Operation → Player → Player
  | call c, p => c.run p
  | present source, p => p.present source
  | presentSection source label, p => (p.presentSection source label).1
  | load s, p => p.load s
  | close, p => p.close
  | clear, p => p.clear
  | measure m, p => { p with metrics := m }

namespace Player

/-- The players that operations lead to from a player without a script. -/
inductive Reachable : Player → Prop
  | start (m : Metrics) (s : Settings) : Reachable (ofSettings m s)
  | after {p : Player} (o : Operation) (h : Reachable p) : Reachable (o.run p)

/-- The player after calls, the first one first. -/
def calls (p : Player) (cs : List Call) : Player := cs.foldl (fun q c => c.run q) p

/-- The names of the events that calls hand out, in the order of the calls. -/
def taken : Player → List Call → List String
  | _, [] => []
  | p, c :: cs => c.taken p ++ taken (c.run p) cs

/-- The player after operations, the first one first. -/
def operate (p : Player) (os : List Operation) : Player := os.foldl (fun q o => o.run q) p

theorem Reachable.operate {p : Player} (h : p.Reachable) (os : List Operation) :
    (p.operate os).Reachable := by
  induction os generalizing p with
  | nil => exact h
  | cons o os ih => exact ih (h.after o)

theorem calls_append (p : Player) (cs ds : List Call) :
    p.calls (cs ++ ds) = (p.calls cs).calls ds := List.foldl_append

theorem Reachable.calls {p : Player} (h : p.Reachable) (cs : List Call) :
    (p.calls cs).Reachable := by
  induction cs generalizing p with
  | nil => exact h
  | cons c cs ih => exact ih (h.after (.call c))

/-- A section is played like any other text, or else the text that says that there is none. -/
theorem presentSection_eq (p : Player) (source : List Char) (label : Option String) :
    (p.presentSection source label).1 = p.present (Markup.playedText source label) := by
  unfold presentSection Markup.playedText
  cases Markup.section? source label <;> rfl

/-! ## Coherence -/

namespace Coherent

variable {p : Player}

/-- In a closed box a wish to go on changes nothing. -/
theorem next_of_inactive (h : p.Coherent) (ha : p.playhead.active = false) : p.next = p := by
  have hi : p.playhead = p.playhead.close := h.idle_of_inactive ha
  unfold Player.next advance
  split
  · rfl
  · rw [if_pos (by simp [ha]), ← hi]
    rfl

theorem advance (h : p.Coherent) : p.advance.Coherent := by
  by_cases ha : p.playhead.active = true
  · exact (moves_advance ha).induction (fun _ _ hm hc => hc.move hm) h
  · have hi : p.playhead = p.playhead.close := h.idle_of_inactive (by simpa using ha)
    unfold Player.advance
    rw [if_pos (by simpa using ha), ← hi]
    exact h

theorem next (h : p.Coherent) : p.next.Coherent := by
  unfold Player.next
  split
  · exact h
  · exact h.advance

theorem update (h : p.Coherent) (elapsed : Nat) (wish : Bool) :
    (p.update elapsed wish).Coherent :=
  (moves_update p elapsed wish).induction (fun _ _ hm hc => hc.move hm) h

theorem present (h : p.Coherent) (source : List Char) : (p.present source).Coherent := by
  have hd : ({ p with dropped := (Markup.compile source).dropped } : Player).Coherent :=
    ⟨h.speed_pos, h.page_clear, h.mode, h.idle⟩
  exact hd.load _

theorem run_call (h : p.Coherent) (c : Call) : (c.run p).Coherent := by
  cases c with
  | update elapsed wish => exact h.update elapsed wish
  | next => exact h.next
  | takeEvent =>
    show p.takeEvent.2.Coherent
    unfold takeEvent
    split
    · exact h
    · exact ⟨h.speed_pos, h.page_clear, h.mode, h.idle⟩

theorem run (h : p.Coherent) (o : Operation) : (o.run p).Coherent := by
  cases o with
  | call c => exact h.run_call c
  | present source => exact h.present source
  | presentSection source label =>
    show (p.presentSection source label).1.Coherent
    rw [presentSection_eq]
    exact h.present _
  | load s => exact h.load s
  | close => exact h.close
  | clear => exact ⟨h.speed_pos, h.page_clear, h.mode, fun hi => ⟨(h.idle hi).1, h.page_clear⟩⟩
  | measure m => exact ⟨h.speed_pos, h.page_clear, h.mode, h.idle⟩

end Coherent

/-- **Every reachable player is coherent.** -/
theorem Reachable.coherent {p : Player} (h : p.Reachable) : p.Coherent := by
  induction h with
  | start m s => exact Coherent.ofSettings m s
  | after o _ ih => exact ih.run o

/-! ## The character timer -/

/-- Between two operations less time is gathered than a character takes, and during a pause none. -/
def Timely (p : Player) : Prop :=
  p.playhead.busy = true →
    p.playhead.charTimer < p.style.speed ∧ (0 < p.playhead.pause → p.playhead.charTimer = 0)

theorem timely_of_not_busy {p : Player} (hb : p.playhead.busy = false) : p.Timely := by
  intro h
  rw [hb] at h
  simp at h

/-- At an instruction at which playing halts, the page is complete or a pause begins. -/
theorem step_of_halts {instant : Bool} {i : Instruction} {p : Player}
    (hh : i.halts instant = true) :
    (p.step instant i).playhead.busy = false ∨
      instant = false ∧ (p.step instant i).playhead.charTimer = 0 := by
  rw [step_eq]
  cases i with
  | wait ms =>
    simp only [Instruction.halts, Bool.and_eq_true, Bool.not_eq_eq_eq_not, Bool.not_true] at hh
    right
    refine ⟨hh.1, ?_⟩
    simp only [Playhead.after]
    rw [if_neg (by simpa [hh.1] using hh.2)]
  | next ms => exact Or.inl rfl
  | finish => exact Or.inl rfl
  | _ => simp [Instruction.halts] at hh

/-- A page that is put out at once is completed. -/
theorem busy_drain_instant (p : Player) : (p.drain true p.ahead).playhead.busy = false := by
  refine drain_induction (P := fun _ => True) (Q := fun q => q.playhead.busy = false)
    ?_ ?_ ?_ ?_ trivial
  · intro q i rest _ _ _ _
    trivial
  · intro q i rest _ _ hw
    simp [mustWait] at hw
  · intro q i rest _ _ _ hh
    exact busy_step_of_halts_instant q true hh
  · intro q _ _
    rw [finishPage_eq]
    rfl

theorem timely_drain {p : Player} (hp : p.playhead.pause = 0) (hs : 0 < p.style.speed) :
    (p.drain false p.ahead).Timely := by
  refine drain_induction (P := fun q => q.playhead.pause = 0 ∧ 0 < q.style.speed) ?_ ?_ ?_ ?_
    ⟨hp, hs⟩
  · rintro q i rest - ⟨hp, hs⟩ - hh
    obtain ⟨-, -, -, -, hp', -⟩ := playhead_step_of_not_halts (p := q) hh
    refine ⟨hp'.trans hp, ?_⟩
    rw [step_eq]
    exact Style.speed_after hs _ _ _
  · rintro q i rest - ⟨hp, -⟩ hw -
    -- playing stops here because the time does not suffice
    simp only [mustWait, Bool.and_eq_true, decide_eq_true_eq] at hw
    exact ⟨hw.2, fun h => absurd h (by rw [hp]; exact Nat.lt_irrefl 0)⟩
  · rintro q i rest - ⟨-, hs⟩ - hh
    rcases step_of_halts (p := q) hh with hb | ⟨-, hc⟩
    · exact timely_of_not_busy hb
    · intro _
      refine ⟨?_, fun _ => hc⟩
      rw [hc, step_eq]
      exact Style.speed_after hs _ _ _
  · rintro q - -
    exact timely_of_not_busy (by rw [finishPage_eq]; rfl)

theorem timely_advance {p : Player} (hs : 0 < p.style.speed) (h : p.Timely) :
    p.advance.Timely := by
  unfold advance
  split
  · exact timely_of_not_busy rfl
  · split
    · split
      · exact timely_of_not_busy rfl
      · exact fun _ => ⟨hs, fun _ => rfl⟩
    · split
      · exact timely_of_not_busy (busy_drain_instant _)
      · exact h

theorem timely_reveal {p : Player} (hs : 0 < p.style.speed) (h : p.Timely) (elapsed : Nat) :
    (p.reveal elapsed).Timely := by
  unfold reveal
  dsimp only
  split
  · exact h
  · split
    · next hpause =>
      intro hb
      have hlt : 0 < p.playhead.pause - elapsed := hpause
      have h0 : p.playhead.charTimer = 0 := (h hb).2 (by omega)
      exact ⟨(h hb).1, fun _ => h0⟩
    · next hpause =>
      split
      · exact timely_drain (Nat.eq_zero_of_not_pos hpause) hs
      · next hb => exact timely_of_not_busy (by simpa using hb)

/-- **A frame keeps the character timer below the time between characters.** -/
theorem timely_update {p : Player} (hc : p.Coherent) (h : p.Timely) (elapsed : Nat) (wish : Bool) :
    (p.update elapsed wish).Timely := by
  have hct : (p.tick elapsed).Coherent := hc.move (.tick p elapsed)
  unfold update
  dsimp only
  split
  · exact h
  · split
    · next ht =>
      have hw := Playhead.Waiting.of_timedWait hct.mode ht
      unfold countDown
      dsimp only
      split
      · exact timely_advance hc.speed_pos (timely_of_not_busy hw.busy)
      · exact timely_of_not_busy hw.busy
    · split
      · exact timely_reveal hct.advance.speed_pos (timely_advance hct.speed_pos h) elapsed
      · exact timely_reveal hct.speed_pos h elapsed

theorem timely_run {p : Player} (hc : p.Coherent) (h : p.Timely) (o : Operation) :
    (o.run p).Timely := by
  have hload : ∀ (d : List Markup.DroppedTag) (s : Script),
      (({ p with dropped := d }).load s).Timely :=
    fun _ _ _ => ⟨Style.speed_initial p.settings.speed, fun _ => rfl⟩
  cases o with
  | call c =>
    cases c with
    | update elapsed wish => exact timely_update hc h elapsed wish
    | next =>
      show p.next.Timely
      unfold next
      split
      · exact h
      · exact timely_advance hc.speed_pos h
    | takeEvent =>
      show p.takeEvent.2.Timely
      unfold takeEvent
      split <;> exact h
  | present source => exact hload _ _
  | presentSection source label =>
    show (p.presentSection source label).1.Timely
    rw [presentSection_eq]
    exact hload _ _
  | load s => exact hload p.dropped s
  | close => exact timely_of_not_busy rfl
  | clear => exact h
  | measure m => exact h

theorem Reachable.timely {p : Player} (h : p.Reachable) : p.Timely := by
  induction h with
  | start m s => exact timely_of_not_busy rfl
  | after o hp ih => exact timely_run hp.coherent ih o

/-! ## What a host can rely on -/

/-- What holds of a player between two operations. -/
structure Lawful (p : Player) : Prop where
  /-- An active player either puts out a page or waits on a complete one. -/
  one_mode : p.playhead.active = true → p.playhead.busy = !p.playhead.waiting
  no_mode : p.playhead.active = false → p.playhead.busy = false ∧ p.playhead.waiting = false
  isBusy_iff : p.isBusy = true ↔ p.phase ≠ .idle
  isTimedWait_iff : p.isTimedWait = true ↔ ∃ remaining, p.phase = .timedWait remaining
  /-- The indicator is shown only while the reader may go on. -/
  indicator : p.indicatorVisible = true → p.phase = .waiting
  /-- A closed box shows nothing, and nothing is left of what was played. -/
  closed : p.playhead.active = false →
    p.playhead.ended = false ∧ p.playhead.position = 0 ∧ p.playhead.charTimer = 0 ∧
      p.playhead.pause = 0 ∧ p.playhead.timedWait = 0 ∧ p.page.glyphs = #[] ∧ p.page.text = "" ∧
      p.page.typesetter.cursor = p.settings.window.origin ∧ p.script.instructions = [.next 0]
  /-- A timed wait is one of the `next` that was carried out last. -/
  timedWait : 0 < p.playhead.timedWait → p.playhead.waiting = true ∧
    ∃ n ms, p.playhead.position = n + 1 ∧ p.script.instructions[n]? = some (.next ms) ∧
      p.playhead.timedWait ≤ ms
  pause : 0 < p.playhead.pause → p.playhead.busy = true ∧ p.playhead.charTimer = 0
  /-- The script has ended if the instruction that ends it was carried out last. -/
  ended : p.playhead.ended = true → p.playhead.waiting = true ∧ p.playhead.timedWait = 0 ∧
    ∃ n, p.playhead.position = n + 1 ∧ p.script.instructions[n]? = some .finish
  position_le : p.playhead.position ≤ p.script.length
  one_le_speed : 1 ≤ p.style.speed
  charTimer_lt : p.playhead.busy = true → p.playhead.charTimer < p.style.speed
  /-- A page waits at a `next`, at the end of the script, or where no instruction is left. -/
  waiting : p.playhead.waiting = true → p.playhead.ended = false →
    p.playhead.position = p.script.length ∨
      ∃ n ms, p.playhead.position = n + 1 ∧ p.script.instructions[n]? = some (.next ms)
  /-- Input is heeded as the script has said last, and at first. -/
  inputEnabled : p.playhead.active = true →
    p.playhead.inputEnabled =
      Playhead.heedsAfter (p.script.instructions.take p.playhead.position)

theorem lawful_of_idle {p : Player} (hc : p.Coherent) (hi : p.playhead.Idle) : p.Lawful := by
  obtain ⟨hs, hp⟩ := hc.idle hi
  have hphase : p.phase = .idle := by simp [phase, Playhead.phase, hi.active]
  refine
    { one_mode := by simp [hi.active]
      no_mode := fun _ => ⟨hi.busy, hi.waiting⟩
      isBusy_iff := by simp [isBusy, hi.active, hphase]
      isTimedWait_iff := by simp [isTimedWait, hi.active, hphase]
      indicator := by simp [indicatorVisible, hi.active]
      closed := ?_
      timedWait := by simp [hi.timedWait]
      pause := by simp [hi.pause]
      ended := by simp [hi.ended]
      position_le := by simp [hi.position]
      one_le_speed := hc.speed_pos
      charTimer_lt := by simp [hi.busy]
      waiting := by simp [hi.waiting]
      inputEnabled := by simp [hi.active] }
  rw [hs, hp]
  exact fun _ => ⟨hi.ended, hi.position, hi.charTimer, hi.pause, hi.timedWait, rfl, rfl, rfl, rfl⟩

theorem lawful_of_playing {p : Player} (hc : p.Coherent) (ht : p.Timely)
    (hm : p.playhead.Playing p.script.instructions) : p.Lawful := by
  have hphase : p.phase = .playing := by simp [phase, Playhead.phase, hm.active, hm.waiting]
  exact
    { one_mode := by simp [hm.busy, hm.waiting]
      no_mode := by simp [hm.active]
      isBusy_iff := by simp [isBusy, hm.active, hm.busy, hphase]
      isTimedWait_iff := by simp [isTimedWait, hm.timedWait, hphase]
      indicator := by simp [indicatorVisible, hm.waiting]
      closed := by simp [hm.active]
      timedWait := by simp [hm.timedWait]
      pause := fun hp => ⟨hm.busy, (ht hm.busy).2 hp⟩
      ended := by simp [hm.ended]
      position_le := hm.position_le
      one_le_speed := hc.speed_pos
      charTimer_lt := fun hb => (ht hb).1
      waiting := by simp [hm.waiting]
      inputEnabled := fun _ => hm.heeds }

theorem lawful_of_waiting {p : Player} (hc : p.Coherent)
    (hm : p.playhead.Waiting p.script.instructions) : p.Lawful := by
  have hphase : p.phase =
      if 0 < p.playhead.timedWait then .timedWait p.playhead.timedWait else .waiting := by
    simp [phase, Playhead.phase, hm.active, hm.waiting]
  refine
    { one_mode := by simp [hm.busy, hm.waiting]
      no_mode := by simp [hm.active]
      isBusy_iff := ?_
      isTimedWait_iff := ?_
      indicator := ?_
      closed := by simp [hm.active]
      timedWait := fun ht => ⟨hm.waiting, ?_⟩
      pause := by simp [hm.pause]
      ended := fun he => ⟨hm.waiting, ?_⟩
      position_le := hm.position_le
      one_le_speed := hc.speed_pos
      charTimer_lt := by simp [hm.busy]
      waiting := fun _ he => ?_
      inputEnabled := fun _ => hm.heeds }
  · rw [hphase]
    by_cases ht : 0 < p.playhead.timedWait <;> simp [isBusy, hm.active, hm.waiting, ht]
  · rw [hphase]
    by_cases ht : 0 < p.playhead.timedWait <;> simp [isTimedWait, hm.active, ht]
  · intro hv
    simp only [indicatorVisible, Bool.and_eq_true, beq_iff_eq] at hv
    rw [hphase, if_neg (by omega)]
  · cases hm.stopped with
    | exhausted _ h0 _ => exact absurd h0 (Nat.ne_of_gt ht)
    | next hp hi hle _ => exact ⟨_, _, hp, hi, hle⟩
    | finish _ _ h0 _ => exact absurd h0 (Nat.ne_of_gt ht)
  · cases hm.stopped with
    | exhausted _ _ h => rw [he] at h; simp at h
    | next _ _ _ h => rw [he] at h; simp at h
    | finish hp hi h0 _ => exact ⟨h0, _, hp, hi⟩
  · cases hm.stopped with
    | exhausted hp _ _ => exact Or.inl hp
    | next hp hi _ _ => exact Or.inr ⟨_, _, hp, hi⟩
    | finish _ _ _ h => rw [he] at h; simp at h

/-- **Every player that a host can meet is lawful**, whatever scripts, sizes and settings it was
given and in whatever order its operations were used. -/
theorem lawful_of_reachable {p : Player} (h : p.Reachable) : p.Lawful := by
  have hc := h.coherent
  rcases hc.mode with hi | hm | hm
  · exact lawful_of_idle hc hi
  · exact lawful_of_playing hc h.timely hm
  · exact lawful_of_waiting hc hm

/-- A player in a timed wait that one frame leads to. -/
theorem lawful_of_reachable_timedWait :
    let p := (ofSettings ({ cell := ⟨8, 16⟩ } : MetricTable).toMetrics {}).operate
      [.load (.ofInstructions [.char 'a', .next 250, .char 'b']), .call (.update 60 false)]
    p.Reachable ∧ p.playhead.timedWait = 250 ∧ p.Lawful := by
  intro p
  have hp : p.Reachable := (Reachable.start _ _).operate _
  exact ⟨hp, by decide, lawful_of_reachable hp⟩

end Player

end DialogueBox
