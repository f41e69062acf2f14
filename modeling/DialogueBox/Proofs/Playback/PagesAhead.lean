import DialogueBox.Proofs.Playback.Chronicle

/-!
# The pages that are left

Every page that is completed is paid for by something of the script that has not been reached yet:
an instruction that ends a page, or the end of the script. `pagesAhead` counts those. Whatever the
host calls, in any order, the pages completed so far and those still ahead never become more
(`completed_add_pagesAhead_le`).

The count is kept by the parts of a call first, then by calls one after the other. Pages are
completed within a call, so the parts are those of a chronicle, which notes them.
-/

namespace DialogueBox

/-- Whether a page has become complete. -/
def PageEvent.isCompleted : PageEvent → Bool
  | completed _ => true
  | turned | closed | read _ => false

namespace Player

/-- How many pages may still be completed: one at each instruction ahead that ends a page, and one
at the end of the script. None is left once the last page is complete, and in a closed box. -/
def pagesAhead (p : Player) : Nat :=
  if !p.playhead.active || p.playhead.waiting && p.atEnd then 0
  else p.ahead.countP Instruction.endsPage + 1

variable {p q : Player}

theorem pagesAhead_le (p : Player) : p.pagesAhead ≤ p.ahead.countP Instruction.endsPage + 1 := by
  unfold pagesAhead
  split
  · exact Nat.zero_le _
  · exact Nat.le_refl _

/-- While a page is put out, its own end is among those ahead. -/
theorem pagesAhead_of_not_waiting (ha : p.playhead.active = true)
    (hw : p.playhead.waiting = false) :
    p.pagesAhead = p.ahead.countP Instruction.endsPage + 1 := by
  unfold pagesAhead
  rw [if_neg (by simp [ha, hw])]

theorem pagesAhead_of_inactive (ha : p.playhead.active = false) : p.pagesAhead = 0 := by
  unfold pagesAhead
  rw [if_pos (by simp [ha])]

/-- An instruction that ends a page is taken off the count, any other one is not. -/
theorem pagesAhead_step_le (instant : Bool) {i : Instruction} {rest : List Instruction}
    (ha : p.playhead.active = true) (hw : p.playhead.waiting = false) (hl : p.ahead = i :: rest) :
    (p.step instant i).pagesAhead + (if i.endsPage then 1 else 0) ≤ p.pagesAhead := by
  have hle := (p.step instant i).pagesAhead_le
  rw [ahead_step hl] at hle
  rw [pagesAhead_of_not_waiting ha hw, hl, List.countP_cons]
  omega

/-- After the end of the script no page is left. -/
theorem pagesAhead_finishPage (hl : p.ahead = []) : p.finishPage.pagesAhead = 0 := by
  have hend : p.finishPage.atEnd = true := by
    rw [finishPage_eq]
    unfold atEnd
    rw [Bool.or_eq_true, decide_eq_true_eq]
    exact Or.inr (length_le_position hl)
  have hwait : p.finishPage.playhead.waiting = true := by rw [finishPage_eq]; rfl
  unfold pagesAhead
  rw [if_pos (by simp [hend, hwait])]

/-- The line breaks that are skipped end no page. -/
theorem pagesAhead_turnPage (ha : p.playhead.active = true) (he : p.atEnd = false) :
    p.turnPage.pagesAhead = p.pagesAhead := by
  have hskipped : (p.ahead.takeWhile (· == .lineBreak)).countP Instruction.endsPage = 0 := by
    refine List.countP_eq_zero.mpr fun i hi => ?_
    have hb := List.all_eq_true.mp List.all_takeWhile i hi
    rw [show i = .lineBreak by simpa using hb]
    exact Bool.false_ne_true
  have hcount : p.turnPage.ahead.countP Instruction.endsPage =
      p.ahead.countP Instruction.endsPage := by
    rw [ahead_turnPage, p.ahead_eq_append, List.countP_append, hskipped, Nat.zero_add,
      ← p.ahead_eq_append]
  rw [pagesAhead_of_not_waiting (p := p.turnPage) ha rfl, hcount]
  unfold pagesAhead
  rw [if_neg (by simp [ha, he])]

end Player

namespace Chronicle

/-- The pages that have been completed, and those that may still be. -/
def prospects (c : Chronicle) : Nat :=
  c.log.countP PageEvent.isCompleted + c.player.pagesAhead

variable {c d : Chronicle}

theorem prospects_note_completed (c : Chronicle) (f : Player → Player) (page : Page) :
    (c.note (.completed page) f).prospects =
      c.log.countP PageEvent.isCompleted + 1 + (f c.player).pagesAhead := by
  unfold prospects note
  rw [List.countP_append]
  rfl

theorem prospects_step_le (instant : Bool) {i : Instruction} {rest : List Instruction}
    (ha : c.player.playhead.active = true) (hw : c.player.playhead.waiting = false)
    (hl : c.player.ahead = i :: rest) : (c.step instant i).prospects ≤ c.prospects := by
  have h := Player.pagesAhead_step_le instant ha hw hl
  unfold step
  by_cases he : i.endsPage = true
  · rw [if_pos he] at h ⊢
    rw [prospects_note_completed, prospects]
    omega
  · rw [if_neg he] at h ⊢
    exact Nat.add_le_add_left h _

theorem prospects_drain_le (instant : Bool) (ha : c.player.playhead.active = true)
    (hw : c.player.playhead.waiting = false) :
    (c.drain instant c.player.ahead).prospects ≤ c.prospects := by
  generalize hl : c.player.ahead = left
  induction left generalizing c with
  | nil =>
    rw [drain, prospects_note_completed, Player.pagesAhead_finishPage hl, prospects,
      Player.pagesAhead_of_not_waiting ha hw]
    omega
  | cons i rest ih =>
    have hstep := prospects_step_le instant ha hw hl
    rw [drain]
    split
    · exact Nat.le_refl _
    · split
      · exact hstep
      · next hh =>
        -- the instruction did not halt, so the page is still put out
        obtain ⟨hactive, -, hwaiting, -⟩ :=
          Player.playhead_step_of_not_halts (p := c.player) (by simpa using hh)
        rw [← player_step] at hactive hwaiting
        refine Nat.le_trans (ih (hactive.trans ha) (hwaiting.trans hw) ?_) hstep
        rw [player_step]
        exact Player.ahead_step hl

theorem prospects_skip_le (ha : c.player.playhead.active = true)
    (hw : c.player.playhead.waiting = false) : c.skip.prospects ≤ c.prospects :=
  prospects_drain_le
    (c := c.apply fun p => p.movePlayhead { p.playhead with pause := 0 }) true ha hw

theorem prospects_advance_le (c : Chronicle) : c.advance.prospects ≤ c.prospects := by
  have hclosed : ∀ p : Player, p.close.pagesAhead = 0 :=
    fun p => Player.pagesAhead_of_inactive rfl
  unfold advance
  split
  · exact Nat.add_le_add_left (Nat.zero_le _) _
  · next ha =>
    have ha' : c.player.playhead.active = true := by simpa using ha
    split
    · split
      · unfold prospects note
        rw [List.countP_append, hclosed]
        exact Nat.add_le_add_left (Nat.zero_le _) _
      · next he =>
        unfold prospects note
        rw [List.countP_append, Player.pagesAhead_turnPage ha' (by simpa using he)]
        exact Nat.le_refl _
    · next hw =>
      split
      · exact prospects_skip_le ha' (by simpa using hw)
      · exact Nat.le_refl _

theorem prospects_countDown_le (elapsed : Nat) (c : Chronicle) :
    (c.countDown elapsed).prospects ≤ c.prospects := by
  unfold countDown
  dsimp only
  split
  · exact prospects_advance_le (c.apply _)
  · exact Nat.le_refl _

theorem prospects_reveal_le (elapsed : Nat) (c : Chronicle) :
    (c.reveal elapsed).prospects ≤ c.prospects := by
  unfold reveal
  split
  · exact Nat.le_refl _
  · next h =>
    simp only [Bool.or_eq_true, Bool.not_eq_true', not_or, Bool.not_eq_false,
      Bool.not_eq_true] at h
    dsimp only
    split
    · exact Nat.le_refl _
    · split
      · exact prospects_drain_le (c := (c.apply _).apply _) false h.1 h.2
      · exact Nat.le_refl _

theorem prospects_update_le (elapsed : Nat) (wish : Bool) (c : Chronicle) :
    (c.update elapsed wish).prospects ≤ c.prospects := by
  unfold update
  split
  · exact Nat.le_refl _
  · dsimp only
    split
    · exact prospects_countDown_le elapsed (c.apply _)
    · refine Nat.le_trans (prospects_reveal_le elapsed _) ?_
      split
      · exact prospects_advance_le (c.apply _)
      · exact Nat.le_refl _

/-- **No call completes a page that was not ahead.** -/
theorem prospects_call_le (c : Chronicle) (k : Call) : (c.call k).prospects ≤ c.prospects := by
  cases k with
  | update elapsed wish => exact prospects_update_le elapsed wish c
  | next =>
    show c.next.prospects ≤ _
    unfold next
    split
    · exact Nat.le_refl _
    · exact prospects_advance_le c
  | takeEvent =>
    show (c.apply fun p => p.takeEvent.2).prospects ≤ _
    unfold prospects apply
    dsimp only
    rw [Player.takeEvent_eq]
    exact Nat.le_refl _

end Chronicle

/-- **Calls complete at most as many pages as were ahead.** What is left of them is still ahead. -/
theorem Player.completed_add_pagesAhead_le (p : Player) (ks : List Call) :
    (p.chronicle ks).countP PageEvent.isCompleted + (p.calls ks).pagesAhead ≤ p.pagesAhead := by
  induction ks generalizing p with
  | nil => exact Nat.le_of_eq (Nat.zero_add _)
  | cons k ks ih =>
    have hrest := ih (k.run p)
    have hcall : (k.chronicle p).countP PageEvent.isCompleted + (k.run p).pagesAhead ≤
        p.pagesAhead := by
      have h := Chronicle.prospects_call_le { player := p } k
      unfold Chronicle.prospects at h
      rwa [Chronicle.player_call, List.countP_nil, Nat.zero_add] at h
    rw [chronicle, List.countP_append, List.countP_cons_of_neg Bool.false_ne_true]
    show _ + _ + ((k.run p).calls ks).pagesAhead ≤ _
    omega

end DialogueBox
