import DialogueBox.Proofs.Playback.Chronicle
import DialogueBox.Proofs.Playback.Skip
import Mathlib.Algebra.GroupWithZero.Nat
import Mathlib.Data.Nat.Find

/-!
# When each instruction is carried out

Until playing halts next, the time that has passed says exactly which instructions have been carried
out: as many as it pays for (`position_of_frames`). How it is divided into frames makes no
difference, and no part of it is lost where the speed changes.

The price of an instruction is the time between characters that is in force there, if it takes time
(`Instruction.costs`). `due p n` is the price of the next `n` instructions, and `Paid p t n q` says
that the player `q` has come past them for the time `t`. The frame that pays for all instructions up
to the one that halts carries it out (`Reaches`).
-/

namespace DialogueBox

namespace Instruction

/-- The time between characters after an instruction, when it was `pace` before; `initial` is what a
reset goes back to. It is at least 1. -/
def paceAfter (initial pace : Nat) : Instruction → Nat
  | speed ms => max 1 ms
  | reset => max 1 initial
  | _ => pace

/-- The times that instructions take, one after the other. -/
def costs (initial : Nat) : Nat → List Instruction → List Nat
  | _, [] => []
  | pace, i :: rest =>
    (if i.takesTime then pace else 0) :: costs initial (i.paceAfter initial pace) rest

/-- The time for which an instruction pauses. -/
def pauseTime : Instruction → Nat
  | wait ms => ms
  | _ => 0

/-- What halts takes no time. -/
theorem takesTime_of_halts {i : Instruction} (h : i.halts false = true) : i.takesTime = false := by
  cases i <;> first | rfl | simp [halts] at h

end Instruction

theorem Style.speed_after_eq (s : Style) (hasFont : String → Bool) (initial : Nat)
    (i : Instruction) : (s.after hasFont initial i).speed = i.paceAfter initial s.speed := by
  cases i with
  | font id =>
    cases id with
    | none => rfl
    | some id => simp only [after]; split <;> rfl
  | _ => rfl

namespace Player

variable {p q r : Player} {i : Instruction} {rest : List Instruction}

/-! ## Prices -/

/-- The times that the instructions take that are left. -/
def costs (p : Player) : List Nat := Instruction.costs p.settings.speed p.style.speed p.ahead

/-- The time that the next `n` instructions take together. -/
def due (p : Player) (n : Nat) : Nat := (p.costs.take n).sum

/-- The instructions up to the next one at which playing halts. -/
def stretch (p : Player) : List Instruction := p.ahead.takeWhile fun i => !i.halts false

/-- The time that an instruction takes if it is carried out next. -/
def cost (p : Player) (i : Instruction) : Nat := if i.takesTime then p.style.speed else 0

theorem due_zero (p : Player) : p.due 0 = 0 := by
  unfold due
  rw [List.take_zero, List.sum_nil]

theorem mustWait_iff : p.mustWait false i = true ↔ p.playhead.charTimer < p.cost i := by
  unfold mustWait cost
  cases i.takesTime with
  | true => simp
  | false => simp

theorem costs_step (hl : p.ahead = i :: rest) :
    p.costs = p.cost i :: (p.step false i).costs := by
  have hspeed : (p.step false i).style.speed = i.paceAfter p.settings.speed p.style.speed := by
    rw [step_eq]
    exact Style.speed_after_eq ..
  have hsettings : (p.step false i).settings = p.settings := by rw [step_eq]
  unfold costs
  rw [ahead_step hl, hl, hspeed, hsettings]
  rfl

theorem due_step (hl : p.ahead = i :: rest) (n : Nat) :
    p.due (n + 1) = p.cost i + (p.step false i).due n := by
  unfold due
  rw [costs_step hl, List.take_succ_cons, List.sum_cons]

theorem stretch_step (hl : p.ahead = i :: rest) (hh : i.halts false = false) :
    p.stretch = i :: (p.step false i).stretch := by
  unfold stretch
  rw [ahead_step hl, hl, List.takeWhile_cons_of_pos (by simp [hh])]

/-- An instruction at which playing goes on is paid for, no more and no less. -/
theorem charTimer_step (hh : i.halts false = false) :
    (p.step false i).playhead.charTimer = p.playhead.charTimer - p.cost i := by
  rw [step_eq]
  dsimp only
  rw [Playhead.after_of_not_halts hh]
  show (if !false && i.takesTime then _ else _) = _
  unfold cost
  cases i.takesTime <;> rfl

/-! ## Where the time suffices for a part -/

/-- For the time `t` in all the player has come past `n` instructions, and what is left of it is
gathered for the next one. -/
structure Paid (p : Player) (t n : Nat) (q : Player) : Prop where
  position : q.playhead.position = p.playhead.position + n
  ahead : q.ahead = p.ahead.drop n
  stretch : p.stretch.length = n + q.stretch.length
  due : ∀ k, p.due (n + k) = p.due n + q.due k
  charTimer : p.due n + q.playhead.charTimer = t
  phase : q.phase = p.phase
  pause : q.playhead.pause = p.playhead.pause

theorem Paid.refl (p : Player) : Paid p p.playhead.charTimer 0 p where
  position := rfl
  ahead := rfl
  stretch := (Nat.zero_add _).symm
  due := fun k => by rw [Nat.zero_add, due_zero, Nat.zero_add]
  charTimer := by rw [due_zero, Nat.zero_add]
  phase := rfl
  pause := rfl

/-- What is left of a time counts for the instructions that follow, together with time that is
gathered later. -/
theorem Paid.trans {t m e n : Nat} (h : Paid p t m q)
    (h' : Paid q (q.playhead.charTimer + e) n r) : Paid p (t + e) (m + n) r where
  position := by rw [h'.position, h.position, Nat.add_assoc]
  ahead := by rw [h'.ahead, h.ahead, List.drop_drop]
  stretch := by rw [h.stretch, h'.stretch, Nat.add_assoc]
  due := fun k => by rw [Nat.add_assoc, h.due, h'.due, h.due, Nat.add_assoc]
  charTimer := by
    have htimer := h.charTimer
    have htimer' := h'.charTimer
    rw [h.due]
    omega
  phase := h'.phase.trans h.phase
  pause := h'.pause.trans h.pause

/-- An instruction that the time pays for and at which playing does not halt. -/
theorem Paid.step (hl : p.ahead = i :: rest) (hh : i.halts false = false)
    (hcost : p.cost i ≤ p.playhead.charTimer) :
    Paid p p.playhead.charTimer 1 (p.step false i) := by
  obtain ⟨hactive, -, hwaiting, -, hpause, htimedWait⟩ := playhead_step_of_not_halts (p := p) hh
  have hdue : p.due 1 = p.cost i := by rw [due_step hl, due_zero, Nat.add_zero]
  refine ⟨position_step false i p, ?_, ?_, fun k => ?_, ?_, ?_, hpause⟩
  · rw [ahead_step hl, hl, List.drop_one, List.tail_cons]
  · rw [stretch_step hl hh, List.length_cons, Nat.add_comm]
  · rw [Nat.add_comm, due_step hl, hdue]
  · rw [hdue, charTimer_step hh]
    omega
  · unfold Player.phase Playhead.phase
    rw [hactive, hwaiting, htimedWait]

/-- **Draining stops at the first instruction that the time does not pay for.** -/
theorem paid_drain {n : Nat} (hn : n < p.stretch.length)
    (hlt : p.playhead.charTimer < p.due (n + 1))
    (hle : ∀ m < n, p.due (m + 1) ≤ p.playhead.charTimer) :
    Paid p p.playhead.charTimer n (p.drain false p.ahead) := by
  induction n generalizing p with
  | zero =>
    cases hl : p.ahead with
    | nil => simp [stretch, hl] at hn
    | cons i rest =>
      rw [due_step hl, due_zero, Nat.add_zero] at hlt
      rw [drain_cons, if_pos (mustWait_iff.mpr hlt)]
      exact .refl p
  | succ n ih =>
    cases hl : p.ahead with
    | nil => simp [stretch, hl] at hn
    | cons i rest =>
      have hh : i.halts false = false := by
        cases hh : i.halts false with
        | false => rfl
        | true => simp [stretch, hl, hh] at hn
      have hcost : p.cost i ≤ p.playhead.charTimer := by
        have h := hle 0 (Nat.zero_lt_succ n)
        rwa [due_step hl, due_zero, Nat.add_zero] at h
      have htimer := charTimer_step (p := p) hh
      rw [drain_cons, if_neg (by rw [mustWait_iff]; omega), if_neg (by simp [hh]), Nat.add_comm]
      refine (Paid.step hl hh hcost).trans (e := 0) ?_
      have hahead : (p.step false i).ahead = rest := ahead_step hl
      rw [← hahead]
      refine ih ?_ ?_ fun m hm => ?_
      · rw [stretch_step hl hh, List.length_cons] at hn
        omega
      · rw [due_step hl] at hlt
        omega
      · have h := hle (m + 1) (Nat.succ_lt_succ hm)
        rw [due_step hl] at h
        omega

/-! ## Where it suffices for all -/

/-- The instruction at which playing halts next has been carried out, or the end of the script has
been reached. -/
inductive Reaches (p q : Player) : Prop
  /-- A pause has begun. -/
  | pause {ms : Nat} (hi : p.ahead[p.stretch.length]? = some (.wait ms)) (hms : ms ≠ 0)
      (hpos : q.playhead.position = p.playhead.position + p.stretch.length + 1)
      (hphase : q.phase = .playing) (hpause : q.playhead.pause = ms)
  /-- The page is complete. -/
  | pageEnd {i : Instruction} (hi : p.ahead[p.stretch.length]? = some i) (he : i.endsPage = true)
      (hpos : q.playhead.position = p.playhead.position + p.stretch.length + 1)
      (hphase : q.phase.isWaiting = true)
  /-- No instruction is left, and the page is complete. -/
  | exhausted (hi : p.ahead[p.stretch.length]? = none)
      (hpos : q.playhead.position = p.playhead.position + p.stretch.length)
      (hphase : q.phase.isWaiting = true)

/-- It is the same instruction for a player that is on its way to it. -/
theorem Paid.reaches {t n : Nat} (hpaid : Paid p t n r) (h : Reaches r q) : Reaches p q := by
  have hpos := hpaid.position
  have hstretch := hpaid.stretch
  have hi : p.ahead[p.stretch.length]? = r.ahead[r.stretch.length]? := by
    rw [hpaid.ahead, List.getElem?_drop, hstretch]
  cases h with
  | pause hi' hms hpos' hphase hpause =>
    exact .pause (hi.trans hi') hms (by omega) hphase hpause
  | pageEnd hi' he hpos' hphase => exact .pageEnd (hi.trans hi') he (by omega) hphase
  | exhausted hi' hpos' hphase => exact .exhausted (hi.trans hi') (by omega) hphase

theorem active_of_playing (h : p.phase = .playing) :
    p.playhead.active = true ∧ p.playhead.waiting = false := by
  unfold phase Playhead.phase at h
  split at h
  · simp at h
  · next ha =>
    split at h
    · split at h <;> simp at h
    · next hw => exact ⟨by simpa using ha, by simpa using hw⟩

theorem reaches_step (hphase : p.phase = .playing) (hl : p.ahead = i :: rest)
    (hh : i.halts false = true) : Reaches p (p.step false i) := by
  have hstretch : p.stretch = [] := by
    unfold stretch
    rw [hl, List.takeWhile_cons_of_neg (by simp [hh])]
  have hi : p.ahead[p.stretch.length]? = some i := by
    rw [hstretch, hl]
    rfl
  have hpos : (p.step false i).playhead.position =
      p.playhead.position + p.stretch.length + 1 := by
    rw [position_step, hstretch]
    rfl
  obtain ⟨ha, hw⟩ := active_of_playing hphase
  have hactive := active_step false i p
  have hwaiting := waiting_step false i p
  rw [ha] at hactive
  rw [hw, Bool.false_or] at hwaiting
  by_cases he : i.endsPage = true
  · exact .pageEnd hi he hpos (by rw [isWaiting_phase_eq, hactive, hwaiting, he]; rfl)
  · cases i with
    | wait ms =>
      have hms : ms ≠ 0 := by simpa [Instruction.halts] using hh
      refine .pause hi hms hpos ?_ ?_
      · unfold phase Playhead.phase
        rw [hactive, hwaiting]
        rfl
      · rw [step_eq]
        simp [Playhead.after, hms]
    | next ms => exact absurd rfl he
    | finish => exact absurd rfl he
    | _ => simp [Instruction.halts] at hh

/-- **Draining comes to the next halt if the time pays for all instructions before it.** -/
theorem reaches_drain (hphase : p.phase = .playing)
    (hle : p.due p.stretch.length ≤ p.playhead.charTimer) :
    Reaches p (p.drain false p.ahead) := by
  generalize hl : p.ahead = left
  induction left generalizing p with
  | nil =>
    have hstretch : p.stretch = [] := by rw [stretch, hl, List.takeWhile_nil]
    have hactive := (active_of_playing hphase).1
    show Reaches p p.finishPage
    rw [finishPage_eq]
    refine .exhausted (by rw [hl]; rfl) (by rw [hstretch]; rfl) ?_
    rw [isWaiting_phase_eq]
    simp [Playhead.finishPage, hactive]
  | cons i rest ih =>
    rw [drain_cons]
    by_cases hh : i.halts false = true
    · have hcost : p.cost i = 0 := by rw [cost, Instruction.takesTime_of_halts hh]; rfl
      rw [if_neg (by rw [mustWait_iff, hcost]; omega), if_pos hh]
      exact reaches_step hphase hl hh
    · have hh' : i.halts false = false := by simpa using hh
      rw [stretch_step hl hh', List.length_cons, due_step hl] at hle
      have htimer := charTimer_step (p := p) hh'
      have hpaid := Paid.step hl hh' (by omega)
      rw [if_neg (by rw [mustWait_iff]; omega), if_neg hh]
      exact hpaid.reaches (ih (hpaid.phase.trans hphase) (by omega) (ahead_step hl))

/-! ## Frames -/

/-- A frame of a page that is put out and does not pause gathers its time and drains. -/
theorem update_eq_drain (hc : p.Coherent) (hphase : p.phase = .playing)
    (hpause : p.playhead.pause = 0) {elapsed : Nat}
    (hlimit : p.playhead.charTimer + elapsed < UInt32.size) : ∃ clock,
      p.update elapsed false =
        (p.retime clock (p.playhead.charTimer + elapsed) 0).drain false p.ahead := by
  have hm := hc.playing_of_phase hphase
  have hgather : min (p.playhead.charTimer + elapsed) Playhead.timerLimit =
      p.playhead.charTimer + elapsed := by
    unfold Playhead.timerLimit
    omega
  exact ⟨_, by rw [update_eq_of_playing hm, if_neg (by omega), hgather]⟩

section Frame

variable (hc : p.Coherent) (hphase : p.phase = .playing) (hpause : p.playhead.pause = 0)
  {elapsed : Nat} (hlimit : p.playhead.charTimer + elapsed < UInt32.size)

include hc hphase hpause hlimit

theorem paid_update {n : Nat} (hn : n < p.stretch.length)
    (hlt : p.playhead.charTimer + elapsed < p.due (n + 1))
    (hle : ∀ m < n, p.due (m + 1) ≤ p.playhead.charTimer + elapsed) :
    Paid p (p.playhead.charTimer + elapsed) n (p.update elapsed false) := by
  obtain ⟨clock, hu⟩ := update_eq_drain hc hphase hpause hlimit
  have h := paid_drain (p := p.retime clock (p.playhead.charTimer + elapsed) 0) hn hlt hle
  rw [hu]
  exact ⟨h.position, h.ahead, h.stretch, h.due, h.charTimer, h.phase, h.pause.trans hpause.symm⟩

theorem reaches_update (hle : p.due p.stretch.length ≤ p.playhead.charTimer + elapsed) :
    Reaches p (p.update elapsed false) := by
  obtain ⟨clock, hu⟩ := update_eq_drain hc hphase hpause hlimit
  have h := reaches_drain (p := p.retime clock (p.playhead.charTimer + elapsed) 0) hphase hle
  rw [hu]
  cases h with
  | pause hi hms hpos hphase hpause => exact .pause hi hms hpos hphase hpause
  | pageEnd hi he hpos hphase => exact .pageEnd hi he hpos hphase
  | exhausted hi hpos hphase => exact .exhausted hi hpos hphase

end Frame

/-- Of the instructions that a time does not pay for there is a first one. -/
theorem exists_first_unpaid (p : Player) {t n : Nat} (h : t < p.due (n + 1)) :
    ∃ m ≤ n, t < p.due (m + 1) ∧ ∀ k < m, p.due (k + 1) ≤ t := by
  have hex : ∃ m, t < p.due (m + 1) := ⟨n, h⟩
  refine ⟨Nat.find hex, Nat.find_min' hex h, Nat.find_spec hex, fun k hk => ?_⟩
  exact Nat.not_lt.mp (Nat.find_min hex hk)

/-- **Frames come as far as their time in all pays.** -/
theorem paid_frames (hc : p.Coherent) (hphase : p.phase = .playing) (hpause : p.playhead.pause = 0)
    {es : List Nat} (hes : es ≠ []) (hlimit : p.playhead.charTimer + es.sum < UInt32.size) {n : Nat}
    (hn : n < p.stretch.length) (hlt : p.playhead.charTimer + es.sum < p.due (n + 1))
    (hle : ∀ m < n, p.due (m + 1) ≤ p.playhead.charTimer + es.sum) :
    Paid p (p.playhead.charTimer + es.sum) n (p.frames es) := by
  induction es generalizing p n with
  | nil => exact absurd rfl hes
  | cons e es ih =>
    rw [List.sum_cons] at hlimit hlt hle ⊢
    by_cases hnil : es = []
    · subst hnil
      exact paid_update hc hphase hpause hlimit hn hlt hle
    · -- the first frame comes as far as its own time pays, which is no farther
      obtain ⟨m, hmn, hmlt, hmle⟩ :=
        p.exists_first_unpaid (t := p.playhead.charTimer + e) (n := n) (by omega)
      have h₁ := paid_update hc hphase hpause (by omega) (by omega) hmlt hmle
      obtain ⟨k, rfl⟩ := Nat.exists_eq_add_of_le hmn
      have htimer := h₁.charTimer
      have hstretch := h₁.stretch
      have hdue := h₁.due
      have h₂ : Paid (p.update e false) ((p.update e false).playhead.charTimer + es.sum) k
          ((p.update e false).frames es) := by
        refine ih (hc.update e false) (h₁.phase.trans hphase) (h₁.pause.trans hpause) hnil
          (by omega) (by omega) ?_ fun j hj => ?_
        · have h := hdue (k + 1)
          rw [show m + (k + 1) = m + k + 1 from rfl] at h
          omega
        · have h := hdue (j + 1)
          have h' := hle (m + j) (by omega)
          rw [show m + (j + 1) = m + j + 1 from rfl] at h
          omega
      have h := h₁.trans h₂
      rwa [Nat.add_assoc] at h

/-- **The frame that pays for all comes to the next halt**, and none before it does. -/
theorem reaches_frames (hc : p.Coherent) (hphase : p.phase = .playing)
    (hpause : p.playhead.pause = 0) {es : List Nat} (hes : es ≠ [])
    (hlimit : p.playhead.charTimer + es.sum < UInt32.size)
    (hle : p.due p.stretch.length ≤ p.playhead.charTimer + es.sum) :
    ∃ before e after, es = before ++ e :: after ∧
      (before ≠ [] → p.playhead.charTimer + before.sum < p.due p.stretch.length) ∧
      p.due p.stretch.length ≤ p.playhead.charTimer + (before ++ [e]).sum ∧
      Reaches p (p.frames (before ++ [e])) := by
  induction es generalizing p with
  | nil => exact absurd rfl hes
  | cons e es ih =>
    rw [List.sum_cons] at hlimit hle
    by_cases hfirst : p.due p.stretch.length ≤ p.playhead.charTimer + e
    · refine ⟨[], e, es, rfl, fun h => absurd rfl h, by simpa using hfirst, ?_⟩
      exact reaches_update hc hphase hpause (by omega) hfirst
    · have hnil : es ≠ [] := by
        rintro rfl
        rw [List.sum_nil, Nat.add_zero] at hle
        exact hfirst hle
      obtain ⟨l, hl⟩ : ∃ l, p.stretch.length = l + 1 := by
        refine Nat.exists_eq_succ_of_ne_zero fun h => hfirst ?_
        rw [h, due_zero]
        exact Nat.zero_le _
      obtain ⟨m, hml, hmlt, hmle⟩ :=
        p.exists_first_unpaid (t := p.playhead.charTimer + e) (n := l) (by rw [← hl]; omega)
      have h₁ := paid_update hc hphase hpause (by omega) (by omega) hmlt hmle
      have htimer := h₁.charTimer
      have hdue := h₁.due (p.update e false).stretch.length
      rw [← h₁.stretch] at hdue
      obtain ⟨before, e', after, rfl, hbefore, hlast, hreaches⟩ :=
        ih (hc.update e false) (h₁.phase.trans hphase) (h₁.pause.trans hpause) hnil
          (by omega) (by omega)
      refine ⟨e :: before, e', after, rfl, fun _ => ?_, ?_,
        h₁.reaches hreaches⟩
      · rw [List.sum_cons]
        by_cases hb : before = []
        · subst hb
          simpa using hfirst
        · have h := hbefore hb
          omega
      · rw [List.cons_append, List.sum_cons]
        omega

/--
**Time says exactly which instructions have been carried out.**

The player puts out a page and does not pause. Frames follow whose time, with what was gathered
before, is `t` in all. If `t` does not pay for all instructions before the next halt, playing stands
at the first instruction that it does not pay for, and what is left of it is gathered for that one.
Otherwise playing has come to the halt, in the first frame up to which the time paid for all.
-/
theorem position_of_frames (hp : p.Reachable) (hphase : p.phase = .playing)
    (hpause : p.playhead.pause = 0) {es : List Nat} (hes : es ≠ [])
    (hlimit : p.playhead.charTimer + es.sum < UInt32.size) :
    (∀ n < p.stretch.length, p.playhead.charTimer + es.sum < p.due (n + 1) →
      (∀ m < n, p.due (m + 1) ≤ p.playhead.charTimer + es.sum) →
        (p.frames es).playhead.position = p.playhead.position + n ∧
        (p.frames es).playhead.charTimer = p.playhead.charTimer + es.sum - p.due n ∧
        (p.frames es).phase = .playing ∧ (p.frames es).playhead.pause = 0) ∧
    ((∀ n < p.stretch.length, p.due (n + 1) ≤ p.playhead.charTimer + es.sum) →
      ∃ before e after, es = before ++ e :: after ∧
        (before ≠ [] → p.playhead.charTimer + before.sum < p.due p.stretch.length) ∧
        p.due p.stretch.length ≤ p.playhead.charTimer + (before ++ [e]).sum ∧
        Reaches p (p.frames (before ++ [e]))) := by
  have hc := hp.coherent
  refine ⟨fun n hn hlt hle => ?_, fun hle => reaches_frames hc hphase hpause hes hlimit ?_⟩
  · have h := paid_frames hc hphase hpause hes hlimit hn hlt hle
    have htimer := h.charTimer
    exact ⟨h.position, by omega, h.phase.trans hphase, h.pause.trans hpause⟩
  · cases hl : p.stretch.length with
    | zero =>
      rw [due_zero]
      exact Nat.zero_le _
    | succ l => exact hle l (by omega)

/-- Frames of three lengths on a page whose speed changes: they stop at the third instruction, and
one more frame comes to the pause. -/
theorem position_of_frames_speed :
    let p := (ofSettings ({ cell := ⟨8, 16⟩ } : MetricTable).toMetrics {}).operate
      [.load (.ofInstructions [.char 'a', .speed 50, .char 'b', .lineBreak, .wait 20, .char 'c'])]
    p.Reachable ∧ p.phase = .playing ∧ p.stretch.length = 4 ∧
      [p.due 1, p.due 2, p.due 3, p.due 4] = [30, 30, 80, 130] ∧
      (p.frames [25, 30, 10]).playhead.position = 2 ∧
      (p.frames [25, 30, 10]).playhead.charTimer = 35 ∧
      ∃ before e after, [25, 30, 10, 65, 1] = before ++ e :: after ∧
        Reaches p (p.frames (before ++ [e])) := by
  intro p
  have hp : p.Reachable := (Reachable.start _ _).operate _
  have hstop := (position_of_frames hp (by decide) (by decide)
    (show [25, 30, 10] ≠ [] by decide) (by decide)).1 2 (by decide) (by decide) (by decide)
  obtain ⟨before, e, after, hes, -, -, hreaches⟩ :=
    (position_of_frames hp (by decide) (by decide)
      (show [25, 30, 10, 65, 1] ≠ [] by decide) (by decide)).2 (by decide)
  exact ⟨hp, by decide, by decide, by decide, hstop.1, hstop.2.1, before, e, after, hes, hreaches⟩

end Player

end DialogueBox
