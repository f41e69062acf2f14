import DialogueBox.Proofs.Playback.Reachable

/-!
# Running off the end of a script

A script that is made here ends with a `next`; one that was stored may lack it. Playing a script
that lacks it is the same as playing the script with a `next` added, for a host that cannot look at
the script and at the position in it (`operate_load_ofInstructions`).

## How the proof goes

The two players run side by side (`Beside`). Up to the end of the script they are at the same
position, and do the same. There one of them runs out of instructions while the other carries out
the added `next`, and both have completed the page; from then on they are one position apart.
Neither has a page after that one, so the next wish to go on closes both boxes, and nothing is left
of the difference.

That nothing follows is clear for the player that carries out the `next` only because it comes
right after the last instruction, and for the other one only because a page that waits before the
end of the script has come to a `next` in it or to the instruction that ends the script
(`BeforeEnd`).
-/

namespace DialogueBox

theorem Playhead.after_position (instant : Bool) (h : Playhead) (n : Nat) (i : Instruction) :
    { h with position := n }.after instant i = { h.after instant i with position := n } := by
  cases i with
  | wait ms => simp only [after]; split <;> rfl
  | _ => rfl

/-! ## Changes of the timers -/

/-- A change of the timers, which does not look at the position and begins no timed wait. -/
structure Playhead.Retiming (f : Playhead → Playhead) : Prop where
  position : ∀ h n, f { h with position := n } = { f h with position := n }
  waiting : ∀ h, (f h).waiting = h.waiting
  ended : ∀ h, (f h).ended = h.ended
  timedWait : ∀ h : Playhead, h.timedWait = 0 → (f h).timedWait = 0

namespace Playhead.Retiming

theorem position_eq {f : Playhead → Playhead} (hf : Retiming f) (h : Playhead) :
    (f h).position = h.position := by
  have hp := congrArg Playhead.position (hf.position h h.position)
  exact hp

theorem ofPause (g : Nat → Nat) : Retiming fun h => { h with pause := g h.pause } :=
  ⟨fun _ _ => rfl, fun _ => rfl, fun _ => rfl, fun _ ht => ht⟩

theorem ofCharTimer (g : Nat → Nat) : Retiming fun h => { h with charTimer := g h.charTimer } :=
  ⟨fun _ _ => rfl, fun _ => rfl, fun _ => rfl, fun _ ht => ht⟩

theorem ofTimedWait {g : Nat → Nat} (hg : g 0 = 0) :
    Retiming fun h => { h with timedWait := g h.timedWait } :=
  ⟨fun _ _ => rfl, fun _ => rfl, fun _ => rfl, fun h ht => by
    show g h.timedWait = 0
    rw [ht, hg]⟩

end Playhead.Retiming

/-! ## What a host gets -/

/-- What a host gets from an operation, if it is one that takes an event. -/
def Operation.answer? : Operation → Player → Option (Option String)
  | call .takeEvent, p => some p.takeEvent.1
  | _, _ => none

namespace Player

/-- What a host gets from taking events, in the order of the operations. -/
def answers : Player → List Operation → List (Option String)
  | _, [] => []
  | p, o :: os => (o.answer? p).toList ++ answers (o.run p) os

/-- What a host gets depends on the events alone. -/
theorem answer?_congr {p q : Player} (h : q.events = p.events) (o : Operation) :
    o.answer? q = o.answer? p := by
  cases o with
  | call c =>
    cases c with
    | takeEvent =>
      show some q.takeEvent.1 = some p.takeEvent.1
      rw [takeEvent_eq, takeEvent_eq, h]
    | _ => rfl
  | _ => rfl

/-! ## Another script in the place of the script -/

/-- The player at a position of another script, with other dropped tags. -/
def onto (p : Player) (s : Script) (d : List Markup.DroppedTag) (n : Nat) : Player :=
  { p with script := s, dropped := d, playhead := { p.playhead with position := n } }

/-- The second player is the first one but for the script, the dropped tags and the position. -/
def SameOffScript (p q : Player) : Prop := q = p.onto q.script q.dropped q.playhead.position

variable {p q : Player} {s : Script} {d : List Markup.DroppedTag} {e : List Instruction} {n : Nat}

theorem finishPage_onto : (p.onto s d n).finishPage = p.finishPage.onto s d n := by
  rw [finishPage_eq, finishPage_eq]
  rfl

theorem step_onto (instant : Bool) (i : Instruction) :
    (p.onto s d n).step instant i = (p.step instant i).onto s d (n + 1) := by
  have hpass : ((p.onto s d n).pass instant i).playhead =
      { (p.pass instant i).playhead with position := n + 1 } := rfl
  rw [step_eq, step_eq, hpass, Playhead.after_position]
  rfl

theorem mustWait_of_timeless {i : Instruction} (h : i.takesTime = false) (instant : Bool) :
    p.mustWait instant i = false := by
  rw [mustWait, h, Bool.and_false, Bool.false_and]

theorem playhead_pass_of_timeless {i : Instruction} (h : i.takesTime = false) (instant : Bool) :
    (p.pass instant i).playhead = { p.playhead with position := p.playhead.position + 1 } := by
  unfold pass
  rw [h, Bool.and_false]
  rfl

/-- **A `next` without a time completes the page like a missing instruction.** -/
theorem step_next_onto (instant : Bool) (ht : p.playhead.timedWait = 0) :
    (p.onto s d n).step instant (.next 0) = p.finishPage.onto s d (n + 1) := by
  rw [step_onto, step_eq, finishPage_eq, playhead_pass_of_timeless rfl]
  simp only [onto, Playhead.after, Playhead.finishPage, Style.after, Page.after,
    Instruction.eventName?, Instruction.entries, Option.toList_none, List.append_nil, ht]

/-! ## Before the end of the script -/

/-- A player whose script lacks a `next` at its end, while that `next` would still be ahead. -/
structure BeforeEnd (p : Player) : Prop where
  last : p.script.instructions.getLast?.any Instruction.isNext = false
  position_le : p.playhead.position ≤ p.script.length
  timedWait : p.playhead.waiting = false → p.playhead.timedWait = 0
  lt_length : p.playhead.waiting = true → p.playhead.ended = false →
    p.playhead.position < p.script.length

namespace BeforeEnd

/-- An instruction that completes a page is not the last one, or else it ends the script. -/
theorem step (h : p.BeforeEnd) (hw : p.playhead.waiting = false) {i : Instruction}
    {rest : List Instruction} (hl : p.ahead = i :: rest) (instant : Bool) :
    (p.step instant i).BeforeEnd := by
  have hi := getElem?_position hl
  have hlt : p.playhead.position < p.script.length := (List.getElem?_eq_some_iff.mp hi).1
  have hscript : (p.step instant i).script = p.script := by rw [step_eq]
  refine ⟨by rw [hscript]; exact h.last, by rw [hscript, position_step]; exact hlt, ?_, ?_⟩
  · rw [waiting_step, hw, Bool.false_or]
    intro he
    rw [step_eq]
    cases i with
    | wait ms => simp only [Playhead.after]; split <;> exact h.timedWait hw
    | next ms => simp [Instruction.endsPage, Instruction.isNext] at he
    | _ => exact h.timedWait hw
  · rw [waiting_step, hw, Bool.false_or, ended_step, hscript, position_step]
    intro he hend
    simp only [Bool.or_eq_false_iff] at hend
    have hn : i.isNext = true := by simpa [Instruction.endsPage, hend.2] using he
    refine Nat.lt_of_le_of_ne hlt fun hlast => ?_
    have hgl : p.script.instructions.getLast? = some i := by
      rw [List.getLast?_eq_getElem?, ← show _ = p.script.instructions.length from hlast]
      exact hi
    have hno := h.last
    rw [hgl, Option.any_some, hn] at hno
    simp at hno

theorem turnPage (h : p.BeforeEnd) : p.turnPage.BeforeEnd where
  last := h.last
  position_le := by
    have hle : p.playhead.position ≤ p.script.instructions.length := h.position_le
    have hlen := (List.takeWhile_prefix (l := p.ahead) (· == .lineBreak)).length_le
    rw [show p.ahead.length = p.script.instructions.length - p.playhead.position from
      List.length_drop] at hlen
    show p.playhead.position + _ ≤ p.script.instructions.length
    omega
  timedWait := fun _ => rfl
  lt_length := fun hw => by simp [Player.turnPage, Playhead.startPage] at hw

theorem retiming {f : Playhead → Playhead} (hf : Playhead.Retiming f) (h : p.BeforeEnd) :
    (p.movePlayhead (f p.playhead)).BeforeEnd where
  last := h.last
  position_le := by
    show (f p.playhead).position ≤ _
    rw [hf.position_eq]
    exact h.position_le
  timedWait := fun hw => hf.timedWait _ (h.timedWait ((hf.waiting _).symm.trans hw))
  lt_length := fun hw he => by
    show (f p.playhead).position < _
    rw [hf.position_eq]
    exact h.lt_length ((hf.waiting _).symm.trans hw) ((hf.ended _).symm.trans he)

/-- At the beginning of a script, or in a closed box. -/
theorem ofPosition (hl : p.script.instructions.getLast?.any Instruction.isNext = false)
    (hp : p.playhead.position = 0) (ht : p.playhead.timedWait = 0)
    (hw : p.playhead.waiting = false) : p.BeforeEnd where
  last := hl
  position_le := by rw [hp]; exact Nat.zero_le _
  timedWait := fun _ => ht
  lt_length := fun hw' => by rw [hw] at hw'; simp at hw'

end BeforeEnd

/-! ## Side by side -/

/-- Two players that are the same off their scripts, with what is known of the scripts and of the
positions. -/
inductive Beside (p : Player) : Player → Prop
  /-- At the same position. The instructions are the same, or a `next` is ahead of the second player
  where the script of the first one ends. -/
  | level {s : Script} {d : List Markup.DroppedTag} {e : List Instruction}
      (hs : s.instructions = p.script.instructions ++ e)
      (he : e = [] ∨ e = [.next 0] ∧ p.BeforeEnd) : Beside p (p.onto s d p.playhead.position)
  /-- The first player has run out of instructions, the second one has carried out the `next`. -/
  | past {s : Script} {d : List Markup.DroppedTag}
      (hs : s.instructions = p.script.instructions ++ [.next 0])
      (hl : p.script.instructions.getLast?.any Instruction.isNext = false)
      (hw : p.playhead.waiting = true) (hp : p.playhead.position = p.script.length) :
      Beside p (p.onto s d (p.playhead.position + 1))

theorem ahead_onto (hs : s.instructions = p.script.instructions ++ e)
    (he : e = [] ∨ e = [.next 0] ∧ p.BeforeEnd) :
    (p.onto s d p.playhead.position).ahead = p.ahead ++ e := by
  show s.instructions.drop p.playhead.position = p.script.instructions.drop _ ++ e
  rw [hs]
  rcases he with rfl | ⟨-, h⟩
  · rw [List.append_nil, List.append_nil]
  · exact List.drop_append_of_le_length h.position_le

/-- **Putting out a page keeps two players side by side.** -/
theorem beside_drain_onto (instant : Bool) (hw : p.playhead.waiting = false)
    (hs : s.instructions = p.script.instructions ++ e)
    (he : e = [] ∨ e = [.next 0] ∧ p.BeforeEnd) :
    Beside (p.drain instant p.ahead) ((p.onto s d p.playhead.position).drain instant
      (p.onto s d p.playhead.position).ahead) := by
  rw [ahead_onto hs he]
  generalize hl : p.ahead = left
  induction left generalizing p with
  | nil =>
    have hscript : p.finishPage.script = p.script := by rw [finishPage_eq]
    have hpos : p.finishPage.playhead.position = p.playhead.position := by rw [finishPage_eq]; rfl
    rw [show p.drain instant [] = p.finishPage from rfl]
    rcases he with rfl | ⟨rfl, h⟩
    · show Beside p.finishPage (p.onto s d p.playhead.position).finishPage
      rw [finishPage_onto, ← hpos]
      exact .level (by rw [hscript]; exact hs) (Or.inl rfl)
    · have hm : ¬(p.onto s d p.playhead.position).mustWait instant (.next 0) = true := by
        rw [mustWait_of_timeless rfl]
        exact Bool.false_ne_true
      rw [List.nil_append, drain_cons, if_neg hm, if_pos (by rfl),
        step_next_onto _ (h.timedWait hw), ← hpos]
      refine .past (by rw [hscript]; exact hs) (by rw [hscript]; exact h.last) ?_ ?_
      · rw [finishPage_eq]
        rfl
      · rw [hscript, hpos]
        exact Nat.le_antisymm h.position_le (length_le_position hl)
  | cons i rest ih =>
    have hscript : (p.step instant i).script = p.script := by rw [step_eq]
    have hpos := position_step instant i p
    have he' : e = [] ∨ e = [.next 0] ∧ (p.step instant i).BeforeEnd :=
      he.imp_right fun h => ⟨h.1, h.2.step hw hl instant⟩
    have hm' : (p.onto s d p.playhead.position).mustWait instant i = p.mustWait instant i := rfl
    rw [List.cons_append, drain_cons, drain_cons, hm']
    by_cases hm : p.mustWait instant i = true
    · rw [if_pos hm, if_pos hm]
      exact .level hs he
    · rw [if_neg hm, if_neg hm, step_onto, ← hpos]
      by_cases hh : i.halts instant = true
      · rw [if_pos hh, if_pos hh]
        exact .level (by rw [hscript]; exact hs) he'
      · rw [if_neg hh, if_neg hh]
        obtain ⟨-, -, hw', -⟩ := playhead_step_of_not_halts (p := p) (by simpa using hh)
        exact ih (hw'.trans hw) (by rw [hscript]; exact hs) he' (ahead_step hl)

theorem atEnd_onto (hw : p.playhead.waiting = true)
    (hs : s.instructions = p.script.instructions ++ e)
    (he : e = [] ∨ e = [.next 0] ∧ p.BeforeEnd) :
    (p.onto s d p.playhead.position).atEnd = p.atEnd := by
  have hlen : s.length = p.script.length + e.length :=
    (congrArg List.length hs).trans List.length_append
  show (p.playhead.ended || decide (s.length ≤ p.playhead.position)) =
    (p.playhead.ended || decide (p.script.length ≤ p.playhead.position))
  rcases he with rfl | ⟨rfl, h⟩
  · rw [hlen, List.length_nil, Nat.add_zero]
  · cases hend : p.playhead.ended with
    | true => rfl
    | false =>
      have hlt := h.lt_length hw hend
      rw [hlen, decide_eq_false (by simp only [List.length_singleton]; omega),
        decide_eq_false (by omega)]

/-- A `next` after the instructions is no line break that is skipped at the top of a page. -/
theorem takeWhile_lineBreak_append (is : List Instruction) (he : e = [] ∨ e = [.next 0]) :
    (is ++ e).takeWhile (· == .lineBreak) = is.takeWhile (· == .lineBreak) := by
  rcases he with rfl | rfl
  · rw [List.append_nil]
  · induction is with
    | nil => rfl
    | cons i is ih => rw [List.cons_append, List.takeWhile_cons, List.takeWhile_cons, ih]

theorem beside_turnPage_onto (hs : s.instructions = p.script.instructions ++ e)
    (he : e = [] ∨ e = [.next 0] ∧ p.BeforeEnd) :
    Beside p.turnPage (p.onto s d p.playhead.position).turnPage := by
  have hq : (p.onto s d p.playhead.position).turnPage =
      p.turnPage.onto s d p.turnPage.playhead.position := by
    unfold turnPage
    rw [ahead_onto hs he, takeWhile_lineBreak_append _ (he.imp_right And.left)]
    rfl
  rw [hq]
  exact .level hs (he.imp_right fun h => ⟨h.1, h.2.turnPage⟩)

namespace Beside

theorem sameOffScript (h : Beside p q) : SameOffScript p q := by
  cases h <;> rfl

theorem playhead_eq (h : Beside p q) :
    q.playhead = { p.playhead with position := q.playhead.position } := by
  cases h <;> rfl

theorem active_eq (h : Beside p q) : q.playhead.active = p.playhead.active := by
  rw [h.playhead_eq]

theorem busy_eq (h : Beside p q) : q.playhead.busy = p.playhead.busy := by rw [h.playhead_eq]

theorem waiting_eq (h : Beside p q) : q.playhead.waiting = p.playhead.waiting := by
  rw [h.playhead_eq]

theorem inputEnabled_eq (h : Beside p q) : q.playhead.inputEnabled = p.playhead.inputEnabled := by
  rw [h.playhead_eq]

theorem pause_eq (h : Beside p q) : q.playhead.pause = p.playhead.pause := by rw [h.playhead_eq]

theorem timedWait_eq (h : Beside p q) : q.playhead.timedWait = p.playhead.timedWait := by
  rw [h.playhead_eq]

theorem atEnd_eq (h : Beside p q) (hw : p.playhead.waiting = true) : q.atEnd = p.atEnd := by
  cases h with
  | level hs he => exact atEnd_onto hw hs he
  | @past s d hs _ _ hp =>
    have hlen : s.length = p.script.length + 1 :=
      (congrArg List.length hs).trans List.length_append
    show (p.playhead.ended || decide (s.length ≤ p.playhead.position + 1)) =
      (p.playhead.ended || decide (p.script.length ≤ p.playhead.position))
    rw [decide_eq_true (by omega), decide_eq_true (by omega)]

/-! ### What keeps two players side by side -/

/-- What looks only at other parts than the script and the playhead, and changes only such. -/
theorem of_parts {f : Player → Player} (h : Beside p q)
    (honto : ∀ p s d n, f (onto p s d n) = (f p).onto s d n)
    (hscript : ∀ p, (f p).script = p.script) (hplayhead : ∀ p, (f p).playhead = p.playhead) :
    Beside (f p) (f q) := by
  cases h with
  | level hs he =>
    rw [honto, ← hplayhead p]
    refine .level (by rw [hscript]; exact hs) (he.imp_right fun h => ⟨h.1, ?_⟩)
    refine ⟨by rw [hscript]; exact h.2.last, ?_, ?_, ?_⟩
    · rw [hscript, hplayhead]
      exact h.2.position_le
    · rw [hplayhead]
      exact h.2.timedWait
    · rw [hscript, hplayhead]
      exact h.2.lt_length
  | past hs hl hw hp =>
    rw [honto, ← hplayhead p]
    refine .past (by rw [hscript]; exact hs) (by rw [hscript]; exact hl) ?_ ?_
    · rw [hplayhead]
      exact hw
    · rw [hscript, hplayhead]
      exact hp

theorem retiming {f : Playhead → Playhead} (h : Beside p q) (hf : Playhead.Retiming f) :
    Beside (p.movePlayhead (f p.playhead)) (q.movePlayhead (f q.playhead)) := by
  have honto : ∀ s d n, (p.onto s d n).movePlayhead (f (p.onto s d n).playhead) =
      (p.movePlayhead (f p.playhead)).onto s d n := by
    intro s d n
    show movePlayhead _ (f { p.playhead with position := n }) = _
    rw [hf.position]
    rfl
  have hpos : (p.movePlayhead (f p.playhead)).playhead.position = p.playhead.position :=
    hf.position_eq p.playhead
  cases h with
  | level hs he =>
    rw [honto, ← hpos]
    exact .level hs (he.imp_right fun h => ⟨h.1, h.2.retiming hf⟩)
  | past hs hl hw hp =>
    rw [honto, ← hpos]
    exact .past hs hl ((hf.waiting _).trans hw) (hpos.trans hp)

/-- A script loaded into both, or a closed box. -/
theorem same (p : Player) (d : List Markup.DroppedTag) : Beside p { p with dropped := d } :=
  .level (s := p.script) (d := d) (List.append_nil _).symm (Or.inl rfl)

theorem close (h : Beside p q) : Beside p.close q.close := by
  cases h with
  | @level s d => exact same p.close d
  | @past s d => exact same p.close d

theorem drain (h : Beside p q) (hw : p.playhead.waiting = false) (instant : Bool) :
    Beside (p.drain instant p.ahead) (q.drain instant q.ahead) := by
  cases h with
  | level hs he => exact beside_drain_onto instant hw hs he
  | past _ _ hw' _ =>
    rw [hw] at hw'
    simp at hw'

theorem skip (h : Beside p q) (hw : p.playhead.waiting = false) : Beside p.skip q.skip := by
  have hd := (h.retiming (.ofPause fun _ => 0)).drain hw true
  exact hd.retiming (.ofCharTimer fun _ => 0)

/-- In a closed box all flags and timers go back to their beginning, also the position. -/
theorem restart (h : Beside p q) :
    Beside (p.movePlayhead p.playhead.close) (q.movePlayhead q.playhead.close) := by
  cases h with
  | @level s d e hs he =>
    exact .level (s := s) (d := d) hs
      (he.imp_right fun h => ⟨h.1, .ofPosition h.2.last rfl rfl rfl⟩)
  | @past s d hs hl =>
    exact .level (s := s) (d := d) hs (Or.inr ⟨rfl, .ofPosition hl rfl rfl rfl⟩)

theorem advance (h : Beside p q) : Beside p.advance q.advance := by
  unfold Player.advance
  rw [h.active_eq, h.waiting_eq, h.busy_eq]
  split
  · exact h.restart
  · split
    · next hw =>
      rw [h.atEnd_eq hw]
      split
      · exact h.close
      · next he =>
        cases h with
        | level hs hne => exact beside_turnPage_onto hs hne
        | past _ _ _ hp => exact absurd (by simp [atEnd, hp]) he
    · next hw =>
      split
      · exact h.skip (by simpa using hw)
      · exact h

theorem next (h : Beside p q) : Beside p.next q.next := by
  unfold Player.next
  rw [h.timedWait_eq]
  split
  · exact h
  · exact h.advance

theorem tick (h : Beside p q) (elapsed : Nat) : Beside (p.tick elapsed) (q.tick elapsed) :=
  h.of_parts (f := fun p => p.tick elapsed) (fun _ _ _ _ => rfl) (fun _ => rfl) fun _ => rfl

theorem countDown (h : Beside p q) (elapsed : Nat) :
    Beside (p.countDown elapsed) (q.countDown elapsed) := by
  have hd := h.retiming (.ofTimedWait (g := (· - elapsed)) (Nat.zero_sub _))
  unfold Player.countDown
  dsimp only
  rw [hd.timedWait_eq]
  split
  · exact hd.advance
  · exact hd

theorem reveal (h : Beside p q) (elapsed : Nat) : Beside (p.reveal elapsed) (q.reveal elapsed) := by
  have hd := h.retiming (.ofPause (· - elapsed))
  have hg := hd.retiming (.ofCharTimer fun t => min (t + elapsed) Playhead.timerLimit)
  unfold Player.reveal
  rw [h.active_eq, h.waiting_eq]
  split
  · exact h
  · next hw =>
    simp only [Bool.or_eq_true, not_or, Bool.not_eq_true] at hw
    dsimp only
    rw [hd.pause_eq, hd.busy_eq]
    split
    · exact hd
    · split
      · exact hg.drain hw.2 false
      · exact hd

theorem update (h : Beside p q) (elapsed : Nat) (wish : Bool) :
    Beside (p.update elapsed wish) (q.update elapsed wish) := by
  have ht := h.tick elapsed
  unfold Player.update
  rw [h.active_eq]
  split
  · exact h
  · dsimp only
    rw [ht.timedWait_eq, ht.inputEnabled_eq]
    split
    · exact ht.countDown elapsed
    · split
      · exact ht.advance.reveal elapsed
      · exact ht.reveal elapsed

theorem takeEvent (h : Beside p q) : Beside p.takeEvent.2 q.takeEvent.2 := by
  rw [takeEvent_eq, takeEvent_eq]
  exact h.of_parts (f := fun p => { p with events := p.events.tail }) (fun _ _ _ _ => rfl)
    (fun _ => rfl) fun _ => rfl

/-- **Every operation keeps two players side by side.** -/
theorem run (h : Beside p q) (o : Operation) : Beside (o.run p) (o.run q) := by
  have hload : ∀ (d d' : List Markup.DroppedTag) (s : Script),
      Beside ({ p with dropped := d }.load s) ({ q with dropped := d' }.load s) := by
    intro d d' s
    cases h <;> exact same (Player.load { p with dropped := d } s) d'
  cases o with
  | call c =>
    cases c with
    | update elapsed wish => exact h.update elapsed wish
    | next => exact h.next
    | takeEvent => exact h.takeEvent
  | present source => exact hload _ _ _
  | presentSection source label =>
    show Beside (p.presentSection source label).1 (q.presentSection source label).1
    rw [presentSection_eq, presentSection_eq]
    exact hload _ _ _
  | load s => exact hload p.dropped q.dropped s
  | close => exact h.close
  | clear => exact h.of_parts (fun _ _ _ _ => rfl) (fun _ => rfl) fun _ => rfl
  | measure m =>
    exact h.of_parts (f := fun p => { p with metrics := m }) (fun _ _ _ _ => rfl)
      (fun _ => rfl) fun _ => rfl

theorem operate (h : Beside p q) (os : List Operation) : Beside (p.operate os) (q.operate os) := by
  induction os generalizing p q with
  | nil => exact h
  | cons o os ih => exact ih (h.run o)

theorem events_eq (h : Beside p q) : q.events = p.events := by cases h <;> rfl

theorem answers_eq (h : Beside p q) (os : List Operation) : q.answers os = p.answers os := by
  induction os generalizing p q with
  | nil => rfl
  | cons o os ih =>
    show (o.answer? q).toList ++ (o.run q).answers os = (o.answer? p).toList ++ (o.run p).answers os
    rw [answer?_congr h.events_eq, ih (h.run o)]

/-- A script and the script with a `next` at its end, loaded into players that are alike as far as
loading keeps them. -/
theorem load (hsettings : p.settings = q.settings) (hmetrics : p.metrics = q.metrics)
    (hpage : p.page = q.page) (hbacklog : p.backlog = q.backlog) (s : Script) :
    Beside (p.load s) (q.load (.ofInstructions s.instructions)) := by
  have hq : q.load (.ofInstructions s.instructions) =
      (p.load s).onto (.ofInstructions s.instructions) q.dropped (p.load s).playhead.position := by
    unfold Player.load onto
    rw [hsettings, hmetrics, hpage, hbacklog]
  rw [hq]
  by_cases hl : s.instructions.getLast?.any Instruction.isNext = true
  · refine .level (e := []) ?_ (Or.inl rfl)
    rw [List.append_nil]
    exact if_pos hl
  · have hl' : s.instructions.getLast?.any Instruction.isNext = false := by simpa using hl
    exact .level (e := [.next 0]) (if_neg hl) (Or.inr ⟨rfl, .ofPosition hl' rfl rfl rfl⟩)

end Beside

/-! ## Dropped tags -/

theorem dropped_move (hm : Move p q) : q.dropped = p.dropped := by
  cases hm with
  | step => rw [step_eq]
  | finishPage => rw [finishPage_eq]
  | _ => rfl

theorem dropped_moves (hm : Moves p q) : q.dropped = p.dropped :=
  hm.induction (P := fun r => r.dropped = p.dropped) (fun _ _ hm hr => (dropped_move hm).trans hr)
    rfl

/-- What an operation does to the dropped tags depends on them alone. -/
theorem dropped_run (h : p.dropped = q.dropped) (o : Operation) :
    (o.run p).dropped = (o.run q).dropped := by
  have hnext : ∀ r : Player, r.next.dropped = r.dropped := by
    intro r
    by_cases ha : r.playhead.active = true
    · exact dropped_moves (moves_next ha)
    · unfold next advance
      split
      · rfl
      · rw [if_pos (by simpa using ha)]
        rfl
  cases o with
  | call c =>
    cases c with
    | update elapsed wish =>
      exact (dropped_moves (moves_update p elapsed wish)).trans
        (h.trans (dropped_moves (moves_update q elapsed wish)).symm)
    | next => exact (hnext p).trans (h.trans (hnext q).symm)
    | takeEvent =>
      show p.takeEvent.2.dropped = q.takeEvent.2.dropped
      rw [takeEvent_eq, takeEvent_eq]
      exact h
  | presentSection source label =>
    show (p.presentSection source label).1.dropped = (q.presentSection source label).1.dropped
    rw [presentSection_eq, presentSection_eq]
    rfl
  | present source => rfl
  | load s => exact h
  | close => exact h
  | clear => exact h
  | measure m => exact h

theorem dropped_operate (h : p.dropped = q.dropped) (os : List Operation) :
    (p.operate os).dropped = (q.operate os).dropped := by
  induction os generalizing p q with
  | nil => exact h
  | cons o os ih => exact ih (dropped_run h o)

/-! ## The end of a script -/

/--
**Running off the end of a script is the same as a `next` at its end.**

Two players have the same settings, metrics, page and backlog. One plays a script as it is, the
other one its instructions with a `next` added if it is missing. After any operations the second
player is the first one but for the script, the dropped tags of earlier texts, and the position,
and the host has got the same events from both. The positions differ, by one, only where the first
player waits at the end of its script.
-/
theorem operate_load_ofInstructions (hsettings : p.settings = q.settings)
    (hmetrics : p.metrics = q.metrics) (hpage : p.page = q.page) (hbacklog : p.backlog = q.backlog)
    (s : Script) (os : List Operation) :
    let r := (p.load s).operate os
    let t := (q.load (.ofInstructions s.instructions)).operate os
    SameOffScript r t ∧
      t.phase = r.phase ∧
      (q.load (.ofInstructions s.instructions)).answers os = (p.load s).answers os ∧
      (t.playhead.position = r.playhead.position ∨
        r.playhead.waiting = true ∧ r.playhead.position = r.script.length ∧
          t.playhead.position = r.playhead.position + 1) ∧
      (t.script.instructions = r.script.instructions ∨
        t.script.instructions = r.script.instructions ++ [.next 0]) ∧
      (p.dropped = q.dropped → r.dropped = t.dropped) := by
  intro r t
  have hload := Beside.load hsettings hmetrics hpage hbacklog s
  have hb : Beside r t := hload.operate os
  have hdropped : p.dropped = q.dropped → r.dropped = t.dropped := fun hd =>
    dropped_operate (p := p.load s) (q := q.load (.ofInstructions s.instructions)) hd os
  refine ⟨?_, ?_, hload.answers_eq os, ?_, ?_, hdropped⟩
  all_goals clear_value r t
  · exact hb.sameOffScript
  · have hphase := congrArg Playhead.phase hb.playhead_eq
    exact hphase
  · cases hb with
    | level => exact Or.inl rfl
    | past _ _ hw hp => exact Or.inr ⟨hw, hp, rfl⟩
  · cases hb with
    | level hs he =>
      rcases he with rfl | ⟨rfl, -⟩
      · exact Or.inl (hs.trans (List.append_nil _))
      · exact Or.inr hs
    | past hs => exact Or.inr hs

/-- A script with only a line break after its last `next`, once its first page has turned by
itself. -/
theorem operate_load_ofInstructions_lineBreak :
    let p := ofSettings ({ cell := ⟨8, 16⟩ } : MetricTable).toMetrics {}
    let q := p.load (.ofInstructions [.wait 10])
    let s : Script := ⟨[.char 'a', .event "x", .next 250, .lineBreak], []⟩
    let os : List Operation :=
      [.call (.update 40 false), .call .takeEvent, .call (.update 300 false),
        .call (.update 0 false)]
    let r := (p.load s).operate os
    let t := (q.load (.ofInstructions s.instructions)).operate os
    (p.settings = q.settings ∧ p.metrics = q.metrics ∧ p.page = q.page ∧ p.backlog = q.backlog) ∧
      r.playhead.position = 4 ∧ t.playhead.position = 5 ∧ (p.load s).answers os = [some "x"] ∧
      SameOffScript r t := by
  intro p q s os r t
  have hpage : p.page = q.page := rfl
  have h := operate_load_ofInstructions (p := p) (q := q) rfl rfl hpage rfl s os
  exact ⟨⟨rfl, rfl, hpage, rfl⟩, by decide, by decide, by decide, h.1⟩

end Player

end DialogueBox
