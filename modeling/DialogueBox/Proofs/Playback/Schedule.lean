import DialogueBox.Proofs.Playback.Pace

/-!
# The schedule of a page

From the time of the frames since a page began it can be said what cannot have been put out yet
(`due_add_pauses_le`). By the times between characters alone nothing is ahead of schedule, and by
the pauses alone neither. But the two run in parallel for a while: the frame that ends a pause
gathers all of its time for the characters, also the part that the pause has used up. So what
follows a pause may be ahead of what the pauses and the times between characters say together, by
what was left of the pauses when those frames began (`overlap`).

`OnSchedule` is what holds of a player on its way through the page. An instruction keeps it
(`OnSchedule.step`), and so does a frame (`OnSchedule.update`).
-/

namespace DialogueBox.Player

variable {p q : Player} {s o n : Nat} {i : Instruction} {rest : List Instruction}

/-- The time for which the next `n` instructions pause. -/
def pauses (p : Player) (n : Nat) : Nat := ((p.ahead.take n).map Instruction.pauseTime).sum

/-- The time that frames spend on a pause and gather for characters as well: what is left of a pause
in the frame that ends it. -/
def overlap : Player → List Nat → Nat
  | _, [] => 0
  | p, e :: es =>
    (if p.playhead.pause ≤ e then p.playhead.pause else 0) + overlap (p.update e false) es

/-! ## One instruction -/

theorem pauses_zero (p : Player) : p.pauses 0 = 0 := rfl

theorem pauses_add_one (p : Player) (n : Nat) :
    p.pauses (n + 1) = p.pauses n + (p.ahead[n]?.map Instruction.pauseTime).getD 0 := by
  unfold pauses
  rw [List.take_add_one, List.map_append, List.sum_append]
  cases p.ahead[n]? <;> simp

theorem pauses_mono (p : Player) {m n : Nat} (h : m ≤ n) : p.pauses m ≤ p.pauses n := by
  induction h with
  | refl => exact Nat.le_refl _
  | step _ ih =>
    rw [pauses_add_one]
    omega

theorem due_mono (p : Player) {m n : Nat} (h : m ≤ n) : p.due m ≤ p.due n := by
  obtain ⟨k, rfl⟩ := Nat.exists_eq_add_of_le h
  unfold due
  rw [List.take_add, List.sum_append]
  exact Nat.le_add_right _ _

/-- A pause begins with all of its time. -/
theorem pause_step (h : p.playhead.pause = 0) (i : Instruction) :
    (p.step false i).playhead.pause = i.pauseTime := by
  rw [step_eq]
  cases i with
  | wait ms =>
    show (if false || ms == 0 then _ else _ : Playhead).pause = ms
    by_cases hms : ms = 0
    · rw [if_pos (by simp [hms]), hms]
      exact h
    · rw [if_neg (by simp [hms])]
  | _ => exact h

/-- At a pause the gathered time is lost. -/
theorem charTimer_step_le (p : Player) (i : Instruction) :
    (p.step false i).playhead.charTimer ≤ p.playhead.charTimer - p.cost i := by
  by_cases hh : i.halts false = true
  · have hcost : p.cost i = 0 := by rw [cost, Instruction.takesTime_of_halts hh]; rfl
    rw [step_eq, hcost]
    cases i with
    | wait ms =>
      show (if false || ms == 0 then _ else _ : Playhead).charTimer ≤ _
      split
      · exact Nat.le_refl _
      · exact Nat.zero_le _
    | next ms => exact Nat.le_refl _
    | finish => exact Nat.le_refl _
    | _ => simp [Instruction.halts] at hh
  · exact Nat.le_of_eq (charTimer_step (by simpa using hh))

/-! ## On the way through a page -/

/-- For the time `s`, of which `o` counts twice, the player has come past `n` instructions. -/
structure OnSchedule (p : Player) (s o n : Nat) (q : Player) : Prop where
  position : q.playhead.position = p.playhead.position + n
  ahead : q.ahead = p.ahead.drop n
  due : ∀ k, p.due (n + k) = p.due n + q.due k
  /-- What is left of a pause is left of the last instruction. -/
  pause : p.pauses (n - 1) + q.playhead.pause ≤ p.pauses n
  chars : p.due n + q.playhead.charTimer ≤ s
  pauses : p.pauses n ≤ s + q.playhead.pause
  both : p.due n + p.pauses n + q.playhead.charTimer ≤ s + o + q.playhead.pause

namespace OnSchedule

theorem refl (htimer : p.playhead.charTimer = 0) (hpause : p.playhead.pause = 0) :
    OnSchedule p 0 0 0 p where
  position := rfl
  ahead := rfl
  due := fun k => by rw [Nat.zero_add, due_zero, Nat.zero_add]
  pause := by rw [pauses_zero, hpause]
  chars := by rw [due_zero, htimer]
  pauses := by rw [pauses_zero]; exact Nat.zero_le _
  both := by rw [pauses_zero, due_zero, htimer]; exact Nat.zero_le _

/-- **An instruction that is paid for keeps to the schedule.** -/
theorem step (h : OnSchedule p s o n q) (hpause : q.playhead.pause = 0) (hl : q.ahead = i :: rest)
    (hcost : q.cost i ≤ q.playhead.charTimer) : OnSchedule p s o (n + 1) (q.step false i) := by
  have hahead : p.ahead.drop n = i :: rest := h.ahead.symm.trans hl
  have hi : p.ahead[n]? = some i := by rw [← List.head?_drop, hahead]; rfl
  have hpauses : p.pauses (n + 1) = p.pauses n + i.pauseTime := by rw [pauses_add_one, hi]; rfl
  have hdue : p.due (n + 1) = p.due n + q.cost i := by
    rw [h.due, due_step hl, due_zero, Nat.add_zero]
  have hleft := pause_step hpause i
  have htimer := q.charTimer_step_le i
  have hchars := h.chars
  have hpaused := h.pauses
  have hboth := h.both
  refine ⟨?_, ?_, fun k => ?_, ?_, by omega, by omega, by omega⟩
  · rw [position_step, h.position, Nat.add_assoc]
  · rw [ahead_step hl, ← List.drop_drop, hahead]
    rfl
  · rw [Nat.add_assoc, Nat.add_comm 1 k, h.due, due_step hl, hdue]
    omega
  · rw [Nat.add_sub_cancel, hpauses, hleft]

theorem finishPage (h : OnSchedule p s o n q) : OnSchedule p s o n q.finishPage := by
  rw [finishPage_eq]
  exact ⟨h.position, h.ahead, h.due, h.pause, h.chars, h.pauses, h.both⟩

theorem drain (h : OnSchedule p s o n q) (hpause : q.playhead.pause = 0) :
    ∃ m, OnSchedule p s o m (q.drain false q.ahead) := by
  refine drain_induction (P := fun r => ∃ m, OnSchedule p s o m r ∧ r.playhead.pause = 0)
    (Q := fun r => ∃ m, OnSchedule p s o m r) ?_ ?_ ?_ ?_ ⟨n, h, hpause⟩
  · rintro r i rest hl ⟨m, h, hpause⟩ hw hh
    obtain ⟨-, -, -, -, hpause', -⟩ := playhead_step_of_not_halts (p := r) hh
    exact ⟨m + 1, h.step hpause hl (by rw [← Nat.not_lt, ← mustWait_iff]; simp [hw]),
      hpause'.trans hpause⟩
  · rintro r i rest - ⟨m, h, -⟩ -
    exact ⟨m, h⟩
  · rintro r i rest hl ⟨m, h, hpause⟩ hw -
    exact ⟨m + 1, h.step hpause hl (by rw [← Nat.not_lt, ← mustWait_iff]; simp [hw])⟩
  · rintro r - ⟨m, h, -⟩
    exact ⟨m, h.finishPage⟩

/-- **So does a frame**; if it ends a pause, what was left of the pause counts twice. -/
theorem update {is : List Instruction} (hm : q.playhead.Playing is) (h : OnSchedule p s o n q)
    (elapsed : Nat) :
    ∃ m, OnSchedule p (s + elapsed)
      (o + if q.playhead.pause ≤ elapsed then q.playhead.pause else 0) m
      (q.update elapsed false) := by
  have hpause := h.pause
  have hchars := h.chars
  have hpaused := h.pauses
  have hboth := h.both
  rw [update_eq_of_playing hm]
  by_cases hlt : elapsed < q.playhead.pause
  · rw [if_pos hlt, if_neg (by omega)]
    refine ⟨n, h.position, h.ahead, h.due, ?_, ?_, ?_, ?_⟩
    all_goals
      simp only [retime]
      omega
  · rw [if_neg hlt, if_pos (by omega)]
    refine drain (q := q.retime _ _ 0) (n := n) ⟨h.position, h.ahead, h.due, ?_, ?_, ?_, ?_⟩ rfl
    all_goals
      simp only [retime]
      omega

theorem frames {es : List Nat} (hc : q.Coherent) (h : OnSchedule p s o n q)
    (hes : ∀ k < es.length, (q.frames (es.take k)).phase = .playing) :
    ∃ m, OnSchedule p (s + es.sum) (o + q.overlap es) m (q.frames es) := by
  induction es generalizing q s o n with
  | nil => exact ⟨n, h⟩
  | cons e es ih =>
    have hm := hc.playing_of_phase (hes 0 (Nat.zero_lt_succ _))
    obtain ⟨m, h'⟩ := h.update hm e
    obtain ⟨k, h''⟩ := ih (hc.update e false) h' fun k hk =>
      hes (k + 1) (Nat.succ_lt_succ hk)
    rw [List.sum_cons, overlap, ← Nat.add_assoc, ← Nat.add_assoc]
    exact ⟨k, h''⟩

end OnSchedule

/--
**What cannot have been put out yet.**

A page begins with no time gathered, and frames follow while it is put out. If they have carried out
an instruction, they have lasted for the times of all characters up to it, and they have lasted for
all pauses before it. They have lasted for both together but for the overlap.
-/
theorem due_add_pauses_le (hp : p.Reachable) (htimer : p.playhead.charTimer = 0)
    (hpause : p.playhead.pause = 0) {es : List Nat}
    (hes : ∀ k < es.length, (p.frames (es.take k)).phase = .playing) {n : Nat}
    (hn : p.playhead.position + n < (p.frames es).playhead.position) :
    p.due (n + 1) ≤ es.sum ∧ p.pauses n ≤ es.sum ∧
      p.due (n + 1) + p.pauses n ≤ es.sum + p.overlap es := by
  obtain ⟨m, h⟩ := (OnSchedule.refl htimer hpause).frames hp.coherent hes
  rw [Nat.zero_add, Nat.zero_add] at h
  have hposition := h.position
  have hdue := p.due_mono (show n + 1 ≤ m by omega)
  have hpauses := p.pauses_mono (show n ≤ m - 1 by omega)
  have hleft := h.pause
  have hchars := h.chars
  have hpaused := h.pauses
  have hboth := h.both
  exact ⟨by omega, by omega, by omega⟩

/-- A pause and three characters in two frames: the second frame ends the pause, and its time is
gathered for the characters from the beginning of the frame. -/
theorem due_add_pauses_le_wait :
    let p := (ofSettings ({ cell := ⟨8, 16⟩ } : MetricTable).toMetrics {}).operate
      [.load (.ofInstructions [.wait 100, .char 'a', .char 'b', .char 'c'])]
    p.Reachable ∧ p.phase = .playing ∧ p.playhead.charTimer = 0 ∧ p.playhead.pause = 0 ∧
      (p.frames [0, 100]).playhead.position = 5 ∧
      p.due 4 = 90 ∧ p.pauses 3 = 100 ∧ p.overlap [0, 100] = 100 ∧
      p.due 4 ≤ [0, 100].sum ∧ p.pauses 3 ≤ [0, 100].sum ∧
      p.due 4 + p.pauses 3 ≤ [0, 100].sum + p.overlap [0, 100] := by
  intro p
  have hp : p.Reachable := (Reachable.start _ _).operate _
  exact ⟨hp, by decide, by decide, by decide, by decide, by decide, by decide, by decide,
    due_add_pauses_le (n := 3) hp (by decide) (by decide) (by decide) (by decide)⟩

/-- So all of them are there after 100 milliseconds, though the pause and the characters take
190. -/
theorem ahead_of_schedule :
    ¬∀ (p : Player) (es : List Nat) (n : Nat), p.Reachable → p.playhead.charTimer = 0 →
      p.playhead.pause = 0 →
      (∀ k < es.length, (p.frames (es.take k)).phase = .playing) →
      p.playhead.position + n < (p.frames es).playhead.position →
      p.due (n + 1) + p.pauses n ≤ es.sum := by
  intro h
  have hp := (Reachable.start ({ cell := ⟨8, 16⟩ } : MetricTable).toMetrics {}).operate
    [.load (.ofInstructions [.wait 100, .char 'a', .char 'b', .char 'c'])]
  have hsum := h _ [0, 100] 3 hp (by decide) (by decide) (by decide) (by decide)
  exact absurd hsum (by decide)

end DialogueBox.Player
