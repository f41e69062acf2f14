import DialogueBox.Proofs.Playback.Move

/-!
# The three modes of a player

A player is closed, puts out a page, or waits on a complete one. Which it is, and what flags,
timers and position then have to be, is said here for the flags and timers over the instructions of
the script (`Playhead.Idle`, `Playhead.Playing`, `Playhead.Waiting`).

A player is coherent if it is in one of the modes, and every move keeps it so (`Coherent.move`).
The time gathered for the next character is not part of this: within a frame it may be any.
-/

namespace DialogueBox

/-! ## Modes -/

namespace Playhead

/-- The flags and timers of a closed box: all are off but whether input is heeded. -/
def Idle (h : Playhead) : Prop := h = h.close

/-- Whether input is heeded after instructions: what the last of them that says it has said. -/
def heedsAfter (is : List Instruction) : Bool :=
  (is.filterMap Instruction.inputSetting?).getLast?.getD true

/-- A page is put out. -/
structure Playing (h : Playhead) (is : List Instruction) : Prop where
  active : h.active = true
  busy : h.busy = true
  waiting : h.waiting = false
  ended : h.ended = false
  timedWait : h.timedWait = 0
  position_le : h.position ≤ is.length
  heeds : h.inputEnabled = heedsAfter (is.take h.position)

/-- Where a page came to its end. -/
inductive Stopped (is : List Instruction) (position timedWait : Nat) (ended : Bool) : Prop
  /-- No instruction was left. -/
  | exhausted (hp : position = is.length) (ht : timedWait = 0) (he : ended = false)
  /-- At a `next`; what is left of its time is no more than it had. -/
  | next {n ms : Nat} (hp : position = n + 1) (hi : is[n]? = some (.next ms))
      (ht : timedWait ≤ ms) (he : ended = false)
  /-- At the end of the script. -/
  | finish {n : Nat} (hp : position = n + 1) (hi : is[n]? = some .finish) (ht : timedWait = 0)
      (he : ended = true)

/-- A complete page waits. -/
structure Waiting (h : Playhead) (is : List Instruction) : Prop where
  active : h.active = true
  busy : h.busy = false
  waiting : h.waiting = true
  pause : h.pause = 0
  position_le : h.position ≤ is.length
  heeds : h.inputEnabled = heedsAfter (is.take h.position)
  stopped : Stopped is h.position h.timedWait h.ended

variable {h : Playhead} {is : List Instruction}

namespace Idle

theorem active (hi : h.Idle) : h.active = false := congrArg Playhead.active hi

theorem busy (hi : h.Idle) : h.busy = false := congrArg Playhead.busy hi

theorem waiting (hi : h.Idle) : h.waiting = false := congrArg Playhead.waiting hi

theorem ended (hi : h.Idle) : h.ended = false := congrArg Playhead.ended hi

theorem position (hi : h.Idle) : h.position = 0 := congrArg Playhead.position hi

theorem charTimer (hi : h.Idle) : h.charTimer = 0 := congrArg Playhead.charTimer hi

theorem pause (hi : h.Idle) : h.pause = 0 := congrArg Playhead.pause hi

theorem timedWait (hi : h.Idle) : h.timedWait = 0 := congrArg Playhead.timedWait hi

end Idle

theorem not_idle_of_active (ha : h.active = true) : ¬h.Idle := by
  intro hi
  rw [hi.active] at ha
  simp at ha

/-- Where a page came to its end, less may be left of its time. -/
theorem Stopped.mono {position t u : Nat} {ended : Bool} (hs : Stopped is position t ended)
    (hu : u ≤ t) : Stopped is position u ended := by
  cases hs with
  | exhausted hp ht he => exact .exhausted hp (Nat.le_zero.mp (ht ▸ hu)) he
  | next hp hi ht he => exact .next hp hi (Nat.le_trans hu ht) he
  | finish hp hi ht he => exact .finish hp hi (Nat.le_zero.mp (ht ▸ hu)) he

theorem Playing.start (is : List Instruction) : start.Playing is :=
  ⟨rfl, rfl, rfl, rfl, rfl, Nat.zero_le _, rfl⟩

/-- A timed wait shows that the page is complete. -/
theorem Waiting.of_timedWait (hm : h.Idle ∨ h.Playing is ∨ h.Waiting is) (ht : 0 < h.timedWait) :
    h.Waiting is := by
  rcases hm with hm | hm | hm
  · rw [hm.timedWait] at ht
    exact absurd ht (Nat.lt_irrefl 0)
  · rw [hm.timedWait] at ht
    exact absurd ht (Nat.lt_irrefl 0)
  · exact hm

theorem heedsAfter_append_of_none {js : List Instruction} (hj : ∀ j ∈ js, j.inputSetting? = none) :
    heedsAfter (is ++ js) = heedsAfter is := by
  unfold heedsAfter
  rw [List.filterMap_append, List.filterMap_eq_nil_iff.mpr hj, List.append_nil]

theorem heedsAfter_append_singleton (is : List Instruction) (i : Instruction) :
    heedsAfter (is ++ [i]) = i.inputSetting?.getD (heedsAfter is) := by
  unfold heedsAfter
  rw [List.filterMap_append]
  cases hi : i.inputSetting? with
  | none => simp [hi]
  | some b => simp [hi]

/-- **An instruction keeps a page going or completes it.** `t` is the time that is left once the
instruction is paid for. -/
theorem Playing.mode_after (hk : h.Playing is) (hpause : h.pause = 0) {i : Instruction}
    (hi : is[h.position]? = some i) (instant : Bool) (t : Nat) :
    ({ h with position := h.position + 1, charTimer := t }.after instant i).Playing is ∨
      ({ h with position := h.position + 1, charTimer := t }.after instant i).Waiting is := by
  have hle : h.position + 1 ≤ is.length := (List.getElem?_eq_some_iff.mp hi).1
  -- the instruction has become the last of those that were carried out
  have hheeds : ({ h with position := h.position + 1, charTimer := t }.after instant
      i).inputEnabled = heedsAfter (is.take (h.position + 1)) := by
    rw [inputEnabled_after, List.take_add_one, hi, Option.toList_some,
      heedsAfter_append_singleton, ← hk.heeds]
  cases i with
  | wait ms =>
    left
    rw [inputEnabled_after] at hheeds
    simp only [Playhead.after]
    split <;> exact ⟨hk.active, hk.busy, hk.waiting, hk.ended, hk.timedWait, hle, hheeds⟩
  | next ms =>
    right
    exact ⟨hk.active, rfl, rfl, hpause, hle, hheeds, .next rfl hi (Nat.le_refl ms) hk.ended⟩
  | finish =>
    right
    exact ⟨hk.active, rfl, rfl, hpause, hle, hheeds, .finish rfl hi hk.timedWait rfl⟩
  | _ => exact Or.inl ⟨hk.active, hk.busy, hk.waiting, hk.ended, hk.timedWait, hle, hheeds⟩

end Playhead

/-! ## Pages that can be cleared -/

theorem Typesetter.reset_place (t : Typesetter) (size : Size) (fallback : Float32) :
    (t.place size fallback).2.reset = t.reset := by
  unfold place
  dsimp only
  split <;> rfl

/-- Clearing a page forgets what an instruction has put on it. -/
theorem Page.clear_after (m : Metrics) (s : Style) (p : Page) (i : Instruction) :
    (p.after m s i).clear = p.clear := by
  have hplace : ∀ (k : GlyphKind) (size : Size) (fallback : Float32),
      (p.place k size s fallback).clear = p.clear := by
    intro k size fallback
    show Page.mk (p.typesetter.place size fallback).2.reset #[] "" = _
    rw [Typesetter.reset_place]
    rfl
  cases i with
  | char c => exact hplace (.char c) _ _
  | icon id =>
    simp only [Page.after, Page.withIcon]
    split
    · exact hplace (.icon id) _ _
    · rfl
  | _ => rfl

/-- Every style has a positive time between characters. -/
theorem Style.speed_after {s : Style} (hs : 0 < s.speed) (hasFont : String → Bool) (speed : Nat)
    (i : Instruction) : 0 < (s.after hasFont speed i).speed := by
  cases i with
  | speed ms => exact Nat.lt_of_lt_of_le Nat.zero_lt_one (Nat.le_max_left 1 ms)
  | reset => exact Nat.lt_of_lt_of_le Nat.zero_lt_one (Nat.le_max_left 1 speed)
  | font id =>
    cases id with
    | none => exact hs
    | some id => simp only [Style.after]; split <;> exact hs
  | _ => exact hs

theorem Style.speed_initial (speed : Nat) : 0 < (Style.initial speed).speed :=
  Nat.lt_of_lt_of_le Nat.zero_lt_one (Nat.le_max_left 1 speed)

namespace Player

/-! ## Frames of a page that is put out -/

/-- The player at another time. -/
def retime (p : Player) (clock charTimer pause : Nat) : Player :=
  { p with
    clock := clock
    playhead := { p.playhead with charTimer := charTimer, pause := pause } }

/-- **A frame without a wish passes in a pause, or else gathers its time and puts out more of the
page.** The frame that ends a pause gathers all of its time. -/
theorem update_eq_of_playing {p : Player} {is : List Instruction} (hm : p.playhead.Playing is)
    (elapsed : Nat) : p.update elapsed false =
      if elapsed < p.playhead.pause then
        p.retime ((p.clock + elapsed) % UInt64.size) p.playhead.charTimer
          (p.playhead.pause - elapsed)
      else
        (p.retime ((p.clock + elapsed) % UInt64.size)
          (min (p.playhead.charTimer + elapsed) Playhead.timerLimit) 0).drain false p.ahead := by
  have hreveal : p.update elapsed false = (p.tick elapsed).reveal elapsed := by
    have ht : ¬0 < (p.tick elapsed).playhead.timedWait := by
      show ¬0 < p.playhead.timedWait
      rw [hm.timedWait]
      exact Nat.lt_irrefl 0
    unfold update
    rw [if_neg (by simp [hm.active])]
    dsimp only
    rw [if_neg ht, Bool.false_and, if_neg Bool.false_ne_true]
  rw [hreveal]
  unfold reveal
  rw [if_neg (by simp [tick, hm.active, hm.waiting])]
  dsimp only
  by_cases hlt : elapsed < p.playhead.pause
  · rw [if_pos hlt]
    exact if_pos (Nat.sub_pos_of_lt hlt)
  · have hpause : p.playhead.pause - elapsed = 0 := by omega
    rw [if_neg hlt]
    refine (if_neg (show ¬0 < p.playhead.pause - elapsed by omega)).trans
      ((if_pos hm.busy).trans ?_)
    simp only [tick, movePlayhead, hpause]
    rfl

/-- Either way it goes on from the same player at another time. -/
theorem update_of_playing {p : Player} {is : List Instruction} (hm : p.playhead.Playing is)
    (elapsed : Nat) : ∃ clock charTimer pause,
      p.update elapsed false = p.retime clock charTimer pause ∨
        p.update elapsed false = (p.retime clock charTimer pause).drain false
          (p.retime clock charTimer pause).ahead := by
  rw [update_eq_of_playing hm]
  split
  · exact ⟨_, p.playhead.charTimer, p.playhead.pause - elapsed, Or.inl rfl⟩
  · exact ⟨_, min (p.playhead.charTimer + elapsed) Playhead.timerLimit, 0, Or.inr rfl⟩

theorem active_update_of_playing {p : Player} {is : List Instruction}
    (hm : p.playhead.Playing is) (elapsed : Nat) :
    (p.update elapsed false).playhead.active = true := by
  obtain ⟨clock, charTimer, pause, hu⟩ := update_of_playing hm elapsed
  rcases hu with hu | hu
  · rw [hu]
    exact hm.active
  · rw [hu, active_drain]
    exact hm.active

/-! ## Coherence -/

/-- A player in one of the three modes. -/
structure Coherent (p : Player) : Prop where
  speed_pos : 0 < p.style.speed
  page_clear : p.page.clear = .ofSettings p.settings
  mode : p.playhead.Idle ∨ p.playhead.Playing p.script.instructions ∨
    p.playhead.Waiting p.script.instructions
  /-- A closed box has an empty page and the script that shows nothing. -/
  idle : p.playhead.Idle → p.script = .blank ∧ p.page = .ofSettings p.settings

theorem phase_eq_idle_iff {p : Player} : p.phase = .idle ↔ p.playhead.active = false := by
  unfold phase Playhead.phase
  cases p.playhead.active
  · simp
  · cases p.playhead.waiting
    · simp
    · simp only [Bool.not_true, Bool.false_eq_true, if_false, if_true, reduceCtorEq, iff_false]
      split <;> simp

namespace Coherent

variable {p : Player}

/-- A player that is active and not waiting puts out a page. -/
theorem playing (h : p.Coherent) (hb : p.playhead.busy = true) :
    p.playhead.Playing p.script.instructions := by
  rcases h.mode with hm | hm | hm
  · rw [hm.busy] at hb
    simp at hb
  · exact hm
  · rw [hm.busy] at hb
    simp at hb

theorem waiting (h : p.Coherent) (hw : p.playhead.waiting = true) :
    p.playhead.Waiting p.script.instructions := by
  rcases h.mode with hm | hm | hm
  · rw [hm.waiting] at hw
    simp at hw
  · rw [hm.waiting] at hw
    simp at hw
  · exact hm

theorem waiting_of_not_busy (h : p.Coherent) (ha : p.playhead.active = true)
    (hb : p.playhead.busy = false) : p.playhead.Waiting p.script.instructions := by
  rcases h.mode with hm | hm | hm
  · exact absurd hm (Playhead.not_idle_of_active ha)
  · rw [hm.busy] at hb
    simp at hb
  · exact hm

theorem idle_of_inactive (h : p.Coherent) (ha : p.playhead.active = false) : p.playhead.Idle := by
  rcases h.mode with hm | hm | hm
  · exact hm
  · rw [hm.active] at ha
    simp at ha
  · rw [hm.active] at ha
    simp at ha

/-- The phase tells whether a page waits. -/
theorem isWaiting_phase (h : p.Coherent) : p.phase.isWaiting = p.playhead.waiting := by
  rcases h.mode with hm | hm | hm
  · simp [phase, Playhead.phase, hm.active, hm.waiting, Phase.isWaiting]
  · simp [phase, Playhead.phase, hm.active, hm.waiting, Phase.isWaiting]
  · by_cases ht : 0 < p.playhead.timedWait <;>
      simp [phase, Playhead.phase, hm.active, hm.waiting, ht, Phase.isWaiting]

/-- A player is busy unless its box is closed. -/
theorem isBusy_iff (h : p.Coherent) : p.isBusy = true ↔ p.phase ≠ .idle := by
  rw [ne_eq, phase_eq_idle_iff]
  rcases h.mode with hm | hm | hm
  · simp [isBusy, hm.active]
  · simp [isBusy, hm.active, hm.busy]
  · simp [isBusy, hm.active, hm.waiting]

theorem playing_of_phase (h : p.Coherent) (hp : p.phase = .playing) :
    p.playhead.Playing p.script.instructions := by
  rcases h.mode with hm | hm | hm
  · simp [phase, Playhead.phase, hm.active] at hp
  · exact hm
  · have hw := h.isWaiting_phase
    rw [hp, hm.waiting] at hw
    simp [Phase.isWaiting] at hw

/-- What is left of the time of a complete page tells what it waits for. -/
theorem phase_of_waiting (h : p.Coherent) (hw : p.playhead.waiting = true) :
    p.phase =
      if 0 < p.playhead.timedWait then .timedWait p.playhead.timedWait else .waiting := by
  unfold phase Playhead.phase
  rw [if_neg (by simp [(h.waiting hw).active]), if_pos hw]

/-- Coherence of a player that is active after a change of its playhead alone. -/
theorem movePlayhead (h : p.Coherent) {k : Playhead} (ha : k.active = true)
    (hm : k.Playing p.script.instructions ∨ k.Waiting p.script.instructions) :
    (p.movePlayhead k).Coherent :=
  ⟨h.speed_pos, h.page_clear, Or.inr hm, fun hi => absurd hi (Playhead.not_idle_of_active ha)⟩

theorem ofSettings (m : Metrics) (s : Settings) : (Player.ofSettings m s).Coherent :=
  ⟨Style.speed_initial s.speed, rfl, Or.inl rfl, fun _ => ⟨rfl, rfl⟩⟩

theorem load (h : p.Coherent) (s : Script) : (p.load s).Coherent :=
  ⟨Style.speed_initial p.settings.speed, h.page_clear, Or.inr (Or.inl (Playhead.Playing.start _)),
    fun hi => absurd hi (Playhead.not_idle_of_active rfl)⟩

theorem close (h : p.Coherent) : p.close.Coherent :=
  ⟨h.speed_pos, h.page_clear, Or.inl rfl, fun _ => ⟨rfl, h.page_clear⟩⟩

theorem step (h : p.Coherent) {instant : Bool} {i : Instruction} {rest : List Instruction}
    (hb : p.playhead.busy = true) (hp : p.playhead.pause = 0) (hl : p.ahead = i :: rest) :
    (p.step instant i).Coherent := by
  have hk := h.playing hb
  have hm := hk.mode_after hp (getElem?_position hl) instant
    (p.pass instant i).playhead.charTimer
  have ha : (p.step instant i).playhead.active = true := by rw [active_step, hk.active]
  rw [step_eq] at ha ⊢
  refine ⟨Style.speed_after h.speed_pos _ _ _, ?_, Or.inr hm, ?_⟩
  · exact (Page.clear_after _ _ _ _).trans h.page_clear
  · exact fun hi => absurd hi (Playhead.not_idle_of_active ha)

theorem finishPage (h : p.Coherent) (hb : p.playhead.busy = true) (hp : p.playhead.pause = 0)
    (hl : p.ahead = []) : p.finishPage.Coherent := by
  have hk := h.playing hb
  have hpos : p.playhead.position = p.script.instructions.length :=
    Nat.le_antisymm hk.position_le (length_le_position hl)
  rw [finishPage_eq]
  refine ⟨h.speed_pos, h.page_clear, Or.inr (Or.inr ?_), ?_⟩
  · exact ⟨hk.active, rfl, rfl, hp, hk.position_le, hk.heeds,
      .exhausted hpos hk.timedWait hk.ended⟩
  · exact fun hi => absurd hi (Playhead.not_idle_of_active hk.active)

theorem turnPage (h : p.Coherent) (hw : p.playhead.waiting = true) (he : p.atEnd = false) :
    p.turnPage.Coherent := by
  have hk := h.waiting hw
  rw [atEnd_eq_false_iff] at he
  have hpos : p.turnPage.playhead.position ≤ p.script.instructions.length := by
    have hlen := (List.takeWhile_prefix (l := p.ahead) (· == .lineBreak)).length_le
    rw [show p.ahead.length = p.script.instructions.length - p.playhead.position from
      List.length_drop] at hlen
    show p.playhead.position + _ ≤ _
    have := hk.position_le
    omega
  -- the line breaks that are skipped say nothing about input
  have hheeds : p.playhead.inputEnabled =
      Playhead.heedsAfter (p.script.instructions.take p.turnPage.playhead.position) := by
    rw [take_position_turnPage, Playhead.heedsAfter_append_of_none, hk.heeds]
    intro i hi
    have hb := List.all_eq_true.mp List.all_takeWhile i hi
    rw [show i = .lineBreak from by simpa using hb]
    rfl
  refine ⟨h.speed_pos, h.page_clear, Or.inr (Or.inl ?_), ?_⟩
  · exact ⟨hk.active, rfl, rfl, he.1, rfl, hpos, hheeds⟩
  · exact fun hi => absurd hi (Playhead.not_idle_of_active hk.active)

/-- **Every move keeps a player coherent.** -/
theorem move {q : Player} (hm : Move p q) (h : p.Coherent) : q.Coherent := by
  cases hm with
  | tick elapsed => exact ⟨h.speed_pos, h.page_clear, h.mode, h.idle⟩
  | charTimer ha t =>
    refine h.movePlayhead ha ?_
    rcases h.mode with hk | hk | hk
    · exact absurd hk (Playhead.not_idle_of_active ha)
    · exact Or.inl ⟨ha, hk.busy, hk.waiting, hk.ended, hk.timedWait, hk.position_le, hk.heeds⟩
    · exact Or.inr ⟨ha, hk.busy, hk.waiting, hk.pause, hk.position_le, hk.heeds, hk.stopped⟩
  | pause t ht =>
    rcases h.mode with hk | hk | hk
    · rw [show t = p.playhead.pause from by have := hk.pause; omega]
      exact h
    · exact h.movePlayhead hk.active
        (Or.inl ⟨hk.active, hk.busy, hk.waiting, hk.ended, hk.timedWait, hk.position_le, hk.heeds⟩)
    · rw [show t = p.playhead.pause from by have := hk.pause; omega]
      exact h
  | timedWait t ht =>
    rcases h.mode with hk | hk | hk
    · rw [show t = p.playhead.timedWait from by have := hk.timedWait; omega]
      exact h
    · rw [show t = p.playhead.timedWait from by have := hk.timedWait; omega]
      exact h
    · exact h.movePlayhead hk.active (Or.inr ⟨hk.active, hk.busy, hk.waiting, hk.pause,
        hk.position_le, hk.heeds, hk.stopped.mono ht⟩)
  | step hb hp hl _ => exact h.step hb hp hl
  | finishPage hb hp hl => exact h.finishPage hb hp hl
  | turnPage hw he => exact h.turnPage hw he
  | close => exact h.close

end Coherent

end Player

end DialogueBox
