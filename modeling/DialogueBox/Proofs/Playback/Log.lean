import DialogueBox.Proofs.Playback.Exhaustion
import DialogueBox.Proofs.Playback.Transcript
import DialogueBox.Proofs.Text.Cut
import Mathlib.Algebra.GroupWithZero.Nat

/-!
# The backlog is a log

Everything that a player does adds some entries to its backlog, in the order of time, and looks at
the backlog nowhere (`Writes`). So what is added does not depend on how many entries are kept, and
the limit says only how much of the log is still there (`backlog_keeps_log`). In particular every
player remembers the end of some log, and no more than its settings say (`Reachable.exists_ofLog`).

A limit is one of the settings, too, but no operation reads it there; so it is changed together with
the backlog (`Player.remembering`).
-/

namespace DialogueBox

/-! ## Time in operations -/

namespace Operation

/-- The time that an operation reports. -/
def elapsed : Operation → Nat
  | call (.update elapsed _) => elapsed
  | _ => 0

/-- The time that operations report. -/
def totalElapsed (os : List Operation) : Nat := (os.map elapsed).sum

/-- Whether an operation loads a script. -/
def loads : Operation → Bool
  | present _ | presentSection _ _ | load _ => true
  | _ => false

end Operation

/-! ## What is left of a log -/

/-- What a limit leaves of a log: its last entries. -/
def Backlog.ofLog (limit : Nat) (log : List Entry) : Backlog :=
  ⟨log.drop (log.length - limit), limit⟩

namespace Backlog

theorem push_ofLog (limit : Nat) (log : List Entry) (e : Entry) :
    (ofLog limit log).push e = ofLog limit (log ++ [e]) := by
  unfold push
  by_cases h : limit = 0
  · rw [if_pos (show (ofLog limit log).limit = 0 from h)]
    simp [ofLog, h]
  · rw [if_neg (show ¬(ofLog limit log).limit = 0 from h)]
    have happ : log.drop (log.length - limit) ++ [e] =
        (log ++ [e]).drop (log.length - limit) :=
      (List.drop_append_of_le_length (Nat.sub_le _ _)).symm
    simp only [ofLog, happ, List.drop_drop, List.length_drop, List.length_append,
      List.length_singleton]
    congr 2
    omega

/-- **Pushing entries onto what is left of a log leaves the end of the longer log.** -/
theorem pushAll_ofLog (limit : Nat) (log es : List Entry) :
    (ofLog limit log).pushAll es = ofLog limit (log ++ es) := by
  induction es generalizing log with
  | nil => rw [List.append_nil]; rfl
  | cons e es ih =>
    show ((ofLog limit log).push e).pushAll es = _
    rw [push_ofLog, ih, List.append_assoc]
    rfl

theorem pushAll_empty (limit : Nat) (log : List Entry) :
    (empty limit).pushAll log = ofLog limit log := by
  have h := pushAll_ofLog limit [] log
  simpa [ofLog, empty] using h

/-- A log is known by what is left of it under every limit. -/
theorem eq_of_pushAll_empty {a b : List Entry}
    (h : ∀ limit, (empty limit).pushAll a = (empty limit).pushAll b) : a = b := by
  have hmax := congrArg entries (h (max a.length b.length))
  rw [pushAll_empty, pushAll_empty] at hmax
  simp only [ofLog] at hmax
  rwa [Nat.sub_eq_zero_of_le (Nat.le_max_left ..), Nat.sub_eq_zero_of_le (Nat.le_max_right ..)]
    at hmax

theorem length_ofLog_le (limit : Nat) (log : List Entry) :
    (ofLog limit log).entries.length ≤ limit := by
  simp only [ofLog, List.length_drop]
  omega

/-- What a limit leaves of two logs, it leaves of what it leaves of each of them. -/
theorem ofLog_append (limit : Nat) (a b : List Entry) :
    ofLog limit ((ofLog limit a).entries ++ (ofLog limit b).entries) = ofLog limit (a ++ b) := by
  simp only [ofLog, List.length_append, List.length_drop, List.drop_append, List.drop_drop,
    mk.injEq, and_true]
  rcases Nat.le_total limit b.length with hb | hb
  · -- the second log fills the limit, and nothing is left of the first one
    have ha : ∀ n, a.length ≤ n → a.drop n = [] := fun _ => List.drop_eq_nil_of_le
    rw [ha _ (by omega), ha _ (by omega), List.nil_append, List.nil_append]
    congr 1
    omega
  · congr 2
    · omega
    · omega

end Backlog

/-- Whether an entry is worth keeping: a page has text, and it ends with something visible. -/
def Entry.IsSound : Entry → Prop
  | page text _ => text ≠ "" ∧ ∀ c ∈ text.toList.getLast?, Text.isBlank c = false
  | event _ _ => True

theorem Page.isSound_of_mem_entries {p : Page} {clock : Nat} {e : Entry}
    (h : e ∈ p.entries clock) : e.IsSound ∧ e.clock = clock := by
  unfold entries at h
  split at h
  · simp at h
  · next hne =>
    rw [List.mem_singleton] at h
    subst h
    refine ⟨⟨hne, ?_⟩, rfl⟩
    unfold keptText
    rw [String.toList_ofList]
    exact Text.last_trimEnd _

theorem Instruction.isSound_of_mem_entries {p : Page} {clock : Nat} {i : Instruction} {e : Entry}
    (h : e ∈ i.entries p clock) : e.IsSound ∧ e.clock = clock := by
  cases i with
  | event name =>
    simp only [entries, List.mem_singleton] at h
    subst h
    exact ⟨trivial, rfl⟩
  | next ms => exact Page.isSound_of_mem_entries h
  | finish => exact Page.isSound_of_mem_entries h
  | _ => simp [entries] at h

namespace Player

/-! ## The clock -/

theorem clock_countDown (p : Player) (elapsed : Nat) : (p.countDown elapsed).clock = p.clock := by
  unfold countDown
  dsimp only
  split
  · exact clock_advance _
  · rfl

/-- What a frame does once its time is noted takes no time. -/
theorem clock_frame (p : Player) (elapsed : Nat) (wish : Bool) :
    (if 0 < p.playhead.timedWait then p.countDown elapsed
      else (if wish && p.playhead.inputEnabled then p.advance else p).reveal elapsed).clock =
        p.clock := by
  split
  · exact clock_countDown p elapsed
  · rw [clock_reveal]
    split
    · exact clock_advance p
    · rfl

/-- A frame moves the clock by its length, if the box is open. -/
theorem clock_update (p : Player) (elapsed : Nat) (wish : Bool) :
    (p.update elapsed wish).clock =
      if p.playhead.active then (p.clock + elapsed) % UInt64.size else p.clock := by
  unfold update
  by_cases ha : p.playhead.active = true
  · rw [if_neg (by simp [ha]), if_pos ha]
    exact clock_frame (p.tick elapsed) elapsed wish
  · rw [if_pos (by simpa using ha), if_neg ha]

/-- As long as no script is loaded, the clock goes on by the time that is reported. -/
theorem clock_run {o : Operation} (ho : o.loads = false) (p : Player)
    (hlt : p.clock + o.elapsed < UInt64.size) :
    p.clock ≤ (o.run p).clock ∧ (o.run p).clock ≤ p.clock + o.elapsed := by
  cases o with
  | call c =>
    cases c with
    | update elapsed wish =>
      show p.clock ≤ (p.update elapsed wish).clock ∧ (p.update elapsed wish).clock ≤ _
      rw [clock_update]
      split
      · rw [show (p.clock + elapsed) % UInt64.size = p.clock + elapsed from Nat.mod_eq_of_lt hlt]
        exact ⟨Nat.le_add_right _ _, Nat.le_refl _⟩
      · exact ⟨Nat.le_refl _, Nat.le_add_right _ _⟩
    | next =>
      show p.clock ≤ p.next.clock ∧ p.next.clock ≤ _
      rw [clock_next]
      exact ⟨Nat.le_refl _, Nat.le_add_right _ _⟩
    | takeEvent =>
      show p.clock ≤ p.takeEvent.2.clock ∧ p.takeEvent.2.clock ≤ _
      rw [takeEvent_eq]
      exact ⟨Nat.le_refl _, Nat.le_add_right _ _⟩
  | present source => simp [Operation.loads] at ho
  | presentSection source label => simp [Operation.loads] at ho
  | load s => simp [Operation.loads] at ho
  | _ => exact ⟨Nat.le_refl _, Nat.le_add_right _ _⟩

theorem clock_run_of_loads {o : Operation} (ho : o.loads = true) (p : Player) :
    (o.run p).clock = 0 := by
  cases o with
  | present source => rfl
  | presentSection source label =>
    show (p.presentSection source label).1.clock = 0
    rw [presentSection_eq]
    rfl
  | load s => rfl
  | _ => simp [Operation.loads] at ho

/-! ## Writing to the backlog -/

/-- The player with another backlog and another limit in its settings. -/
def remembering (p : Player) (b : Backlog) (limit : Nat) : Player :=
  { p with backlog := b, settings := { p.settings with backlogLimit := limit } }

/-- Loading a script leaves the backlog as it is. -/
theorem run_remembering_of_loads {o : Operation} (ho : o.loads = true) (p : Player) (b : Backlog)
    (limit : Nat) : o.run (p.remembering b limit) = (o.run p).remembering b limit := by
  cases o with
  | present source => rfl
  | presentSection source label =>
    show ((p.remembering b limit).presentSection source label).1 =
      (p.presentSection source label).1.remembering b limit
    rw [presentSection_eq, presentSection_eq]
    rfl
  | load s => rfl
  | _ => simp [Operation.loads] at ho

/-- What a player does adds entries to its backlog, at the time at which it is done, and has no
other use for the backlog and its limit. -/
def Writes (f : Player → Player) : Prop :=
  ∀ p, ∃ es : List Entry, (∀ e ∈ es, e.IsSound ∧ e.clock = (f p).clock) ∧
    ∀ b limit, f (p.remembering b limit) = (f p).remembering (b.pushAll es) limit

namespace Writes

variable {f g : Player → Player}

/-- Nothing is written. -/
theorem of_nothing (h : ∀ p b limit, f (p.remembering b limit) = (f p).remembering b limit) :
    Writes f := fun p => ⟨[], by simp, fun b limit => h p b limit⟩

/-- Two things one after the other, of which the second takes no time. -/
theorem comp (hf : Writes f) (hg : Writes g) (hclock : ∀ p, (g p).clock = p.clock) :
    Writes fun p => g (f p) := by
  intro p
  obtain ⟨es, hes, hrun⟩ := hf p
  obtain ⟨fs, hfs, hrun'⟩ := hg (f p)
  refine ⟨es ++ fs, ?_, ?_⟩
  · intro e he
    rcases List.mem_append.mp he with h | h
    · exact ⟨(hes e h).1, by rw [hclock]; exact (hes e h).2⟩
    · exact hfs e h
  · intro b limit
    show g (f (p.remembering b limit)) = (g (f p)).remembering _ limit
    rw [hrun, hrun', Backlog.pushAll_append]

/-- One of two things, if the choice does not look at the backlog. -/
theorem ite {c : Player → Prop} [DecidablePred c] (hf : Writes f) (hg : Writes g)
    (hc : ∀ p b limit, c (p.remembering b limit) ↔ c p) :
    Writes fun p => if c p then f p else g p := by
  intro p
  by_cases h : c p
  · obtain ⟨es, hes, hrun⟩ := hf p
    refine ⟨es, by simpa only [if_pos h] using hes, fun b limit => ?_⟩
    dsimp only
    rw [if_pos ((hc p b limit).mpr h), if_pos h, hrun]
  · obtain ⟨es, hes, hrun⟩ := hg p
    refine ⟨es, by simpa only [if_neg h] using hes, fun b limit => ?_⟩
    dsimp only
    rw [if_neg (mt (hc p b limit).mp h), if_neg h, hrun]

/-- A thing that is chosen by what does not look at the backlog. -/
theorem choose {α : Type} {f : α → Player → Player} {a : Player → α} (hf : ∀ x, Writes (f x))
    (ha : ∀ p b limit, a (p.remembering b limit) = a p) : Writes fun p => f (a p) p := by
  intro p
  obtain ⟨es, hes, hrun⟩ := hf (a p) p
  refine ⟨es, hes, fun b limit => ?_⟩
  dsimp only
  rw [ha, hrun]

theorem movePlayhead (f : Playhead → Playhead) :
    Writes fun p => p.movePlayhead (f p.playhead) := of_nothing fun _ _ _ => rfl

/-! ### Putting out a page -/

theorem step (instant : Bool) (i : Instruction) : Writes (Player.step instant i) := by
  intro p
  refine ⟨i.entries p.page p.clock, ?_, ?_⟩
  · intro e he
    rw [step_eq]
    exact Instruction.isSound_of_mem_entries he
  · intro b limit
    rw [step_eq, step_eq]
    rfl

theorem finishPage : Writes Player.finishPage := by
  intro p
  refine ⟨p.page.entries p.clock, ?_, ?_⟩
  · intro e he
    rw [finishPage_eq]
    exact Page.isSound_of_mem_entries he
  · intro b limit
    rw [finishPage_eq, finishPage_eq]
    rfl

theorem drain (instant : Bool) (left : List Instruction) :
    Writes (Player.drain instant left) ∧
      ∀ p, (Player.drain instant left p).clock = p.clock := by
  induction left with
  | nil => exact ⟨finishPage, fun p => by rw [Player.drain, finishPage_eq]⟩
  | cons i rest ih =>
    refine ⟨?_, fun p => ?_⟩
    · refine ite (c := fun p => p.mustWait instant i = true) (of_nothing fun _ _ _ => rfl) ?_
        fun _ _ _ => Iff.rfl
      refine ite (c := fun _ => i.halts instant = true) (step instant i) ?_ fun _ _ _ => Iff.rfl
      exact (step instant i).comp ih.1 ih.2
    · have hstep : (p.step instant i).clock = p.clock := by rw [step_eq]
      rw [drain_cons]
      split
      · rfl
      · split
        · exact hstep
        · rw [ih.2, hstep]

/-- What is left of the page is put out. -/
theorem drainAhead (instant : Bool) : Writes fun p => p.drain instant p.ahead :=
  choose (fun left => (drain instant left).1) fun _ _ _ => rfl

theorem skip : Writes Player.skip := by
  have hpause := movePlayhead fun h => { h with pause := 0 }
  have htimer := movePlayhead fun h => { h with charTimer := 0 }
  exact (hpause.comp (drainAhead true) (clock_drain true)).comp htimer fun _ => rfl

/-! ### Calls -/

theorem advance : Writes Player.advance := by
  refine ite (movePlayhead Playhead.close) ?_ fun _ _ _ => Iff.rfl
  refine ite ?_ ?_ fun _ _ _ => Iff.rfl
  · exact ite (of_nothing fun _ _ _ => rfl) (of_nothing fun _ _ _ => rfl) fun _ _ _ => Iff.rfl
  · exact ite skip (of_nothing fun _ _ _ => rfl) fun _ _ _ => Iff.rfl

theorem next : Writes Player.next :=
  ite (of_nothing fun _ _ _ => rfl) advance fun _ _ _ => Iff.rfl

theorem countDown (elapsed : Nat) : Writes fun p => p.countDown elapsed := by
  have hend : Writes fun p : Player => if p.playhead.timedWait = 0 then p.advance else p :=
    ite advance (of_nothing fun _ _ _ => rfl) fun _ _ _ => Iff.rfl
  refine (movePlayhead fun h => { h with timedWait := h.timedWait - elapsed }).comp hend ?_
  intro p
  split
  · exact clock_advance p
  · rfl

theorem reveal (elapsed : Nat) : Writes fun p => p.reveal elapsed := by
  have hdrain : Writes fun p : Player =>
      let r := p.movePlayhead (p.playhead.gather elapsed)
      r.drain false r.ahead :=
    (movePlayhead fun h => h.gather elapsed).comp (drainAhead false) (clock_drain false)
  have hend : Writes fun p : Player => if 0 < p.playhead.pause then p
      else if p.playhead.busy then
        let r := p.movePlayhead (p.playhead.gather elapsed)
        r.drain false r.ahead
      else p := by
    refine ite (of_nothing fun _ _ _ => rfl) ?_ fun _ _ _ => Iff.rfl
    exact ite hdrain (of_nothing fun _ _ _ => rfl) fun _ _ _ => Iff.rfl
  refine ite (of_nothing fun _ _ _ => rfl) ?_ fun _ _ _ => Iff.rfl
  refine (movePlayhead fun h => { h with pause := h.pause - elapsed }).comp hend ?_
  intro p
  split
  · rfl
  · split
    · exact clock_drain false (p.movePlayhead (p.playhead.gather elapsed))
    · rfl

theorem update (elapsed : Nat) (wish : Bool) : Writes fun p => p.update elapsed wish := by
  have hadvance : Writes fun p : Player =>
      if wish && p.playhead.inputEnabled then p.advance else p :=
    ite advance (of_nothing fun _ _ _ => rfl) fun _ _ _ => Iff.rfl
  have hframe : Writes fun p : Player => if 0 < p.playhead.timedWait then p.countDown elapsed
      else (if wish && p.playhead.inputEnabled then p.advance else p).reveal elapsed := by
    refine ite (countDown elapsed) ?_ fun _ _ _ => Iff.rfl
    exact hadvance.comp (reveal elapsed) fun p => clock_reveal p elapsed
  have htick : Writes fun p => p.tick elapsed := of_nothing fun _ _ _ => rfl
  refine ite (of_nothing fun _ _ _ => rfl) (htick.comp hframe ?_) fun _ _ _ => Iff.rfl
  exact fun p => clock_frame p elapsed wish

/-- **Every operation writes to the backlog, and makes no other use of it.** -/
theorem run (o : Operation) : Writes o.run := by
  cases o with
  | call c =>
    cases c with
    | update elapsed wish => exact update elapsed wish
    | next => exact next
    | takeEvent =>
      refine of_nothing fun p b limit => ?_
      show (p.remembering b limit).takeEvent.2 = p.takeEvent.2.remembering b limit
      rw [takeEvent_eq, takeEvent_eq]
      rfl
  | presentSection source label =>
    exact of_nothing fun p b limit => run_remembering_of_loads rfl p b limit
  | _ => exact of_nothing fun _ _ _ => rfl

end Writes

/-! ## Backlogs that a host can meet -/

/-- The backlog of a player that a host can meet is what its limit leaves of a log. -/
theorem Reachable.exists_ofLog {p : Player} (h : p.Reachable) :
    ∃ log, p.backlog = Backlog.ofLog p.settings.backlogLimit log := by
  induction h with
  | start m s => exact ⟨[], Backlog.pushAll_empty s.backlogLimit []⟩
  | @after p o _ ih =>
    obtain ⟨log, hlog⟩ := ih
    obtain ⟨es, -, hrun⟩ := Writes.run o p
    have hself : o.run p =
        (o.run p).remembering (p.backlog.pushAll es) p.settings.backlogLimit :=
      hrun p.backlog p.settings.backlogLimit
    have hlimit : (o.run p).settings.backlogLimit = p.settings.backlogLimit :=
      congrArg (fun q => q.settings.backlogLimit) hself
    have hbacklog : (o.run p).backlog = p.backlog.pushAll es := congrArg backlog hself
    exact ⟨log ++ es, by rw [hbacklog, hlimit, hlog, Backlog.pushAll_ofLog]⟩

/-- Such a backlog has no entry too many for its limit. -/
theorem Reachable.backlog_eq_ofLog {p : Player} (h : p.Reachable) :
    p.backlog = Backlog.ofLog p.settings.backlogLimit p.backlog.entries := by
  obtain ⟨log, hlog⟩ := h.exists_ofLog
  have hempty : (Backlog.ofLog p.settings.backlogLimit []).entries = [] := List.drop_nil
  have hkept := Backlog.ofLog_append p.settings.backlogLimit log []
  rw [hempty, List.append_nil, List.append_nil, ← hlog] at hkept
  exact hkept.symm

/-! ## Runs -/

theorem operate_append (p : Player) (os os' : List Operation) :
    p.operate (os ++ os') = (p.operate os).operate os' := List.foldl_append

/-- **Operations write a log**, the same on every backlog. -/
theorem exists_log (p : Player) (os : List Operation) :
    ∃ log : List Entry, (∀ e ∈ log, e.IsSound) ∧ ∀ b limit,
      (p.remembering b limit).operate os = (p.operate os).remembering (b.pushAll log) limit := by
  induction os generalizing p with
  | nil => exact ⟨[], by simp, fun _ _ => rfl⟩
  | cons o os ih =>
    obtain ⟨es, hes, hrun⟩ := Writes.run o p
    obtain ⟨log, hlog, hruns⟩ := ih (o.run p)
    refine ⟨es ++ log, ?_, ?_⟩
    · intro e he
      rcases List.mem_append.mp he with h | h
      · exact (hes e h).1
      · exact hlog e h
    · intro b limit
      show (o.run (p.remembering b limit)).operate os = _
      rw [hrun, hruns, Backlog.pushAll_append]
      rfl

/-- **As long as no script is loaded, the log is in the order of time.** -/
theorem exists_ordered_log (p : Player) (os : List Operation)
    (hloads : ∀ o ∈ os, o.loads = false)
    (hlt : p.clock + Operation.totalElapsed os < UInt64.size) :
    ∃ log : List Entry, (∀ b limit,
        (p.remembering b limit).operate os = (p.operate os).remembering (b.pushAll log) limit) ∧
      log.Pairwise (fun d e => d.clock ≤ e.clock) ∧
      p.clock ≤ (p.operate os).clock ∧
      ∀ e ∈ log, p.clock ≤ e.clock ∧ e.clock ≤ (p.operate os).clock := by
  induction os generalizing p with
  | nil => exact ⟨[], fun _ _ => rfl, .nil, Nat.le_refl _, by simp⟩
  | cons o os ih =>
    have htotal : Operation.totalElapsed (o :: os) = o.elapsed + Operation.totalElapsed os :=
      List.sum_cons
    obtain ⟨hle, hle'⟩ := clock_run (hloads o List.mem_cons_self) p (by omega)
    obtain ⟨es, hes, hrun⟩ := Writes.run o p
    obtain ⟨log, hruns, hsorted, hend, hlog⟩ :=
      ih (o.run p) (fun o' ho' => hloads o' (List.mem_cons_of_mem _ ho')) (by omega)
    refine ⟨es ++ log, ?_, ?_, Nat.le_trans hle hend, ?_⟩
    · intro b limit
      show (o.run (p.remembering b limit)).operate os = _
      rw [hrun, hruns, Backlog.pushAll_append]
      rfl
    · -- the entries of one operation are written at the same time, and those that follow later
      refine List.pairwise_append.mpr ⟨?_, hsorted, ?_⟩
      · refine List.pairwise_of_forall_mem_list fun d hd e he => ?_
        rw [(hes d hd).2, (hes e he).2]
      · intro d hd e he
        rw [(hes d hd).2]
        exact (hlog e he).1
    · intro e he
      rcases List.mem_append.mp he with h | h
      · rw [(hes e h).2]
        exact ⟨hle, hend⟩
      · exact ⟨Nat.le_trans hle (hlog e h).1, (hlog e h).2⟩

/-- What the host gets does not depend on the backlog. -/
theorem answers_remembering (p : Player) (b : Backlog) (limit : Nat) (os : List Operation) :
    (p.remembering b limit).answers os = p.answers os := by
  induction os generalizing p b with
  | nil => rfl
  | cons o os ih =>
    obtain ⟨es, -, hrun⟩ := Writes.run o p
    have hanswer : o.answer? (p.remembering b limit) = o.answer? p :=
      answer?_congr (p := p) (q := p.remembering b limit) rfl o
    show (o.answer? (p.remembering b limit)).toList ++ (o.run (p.remembering b limit)).answers os =
      (o.answer? p).toList ++ (o.run p).answers os
    rw [hanswer, hrun, ih]

/--
**The backlog is a bounded log that influences nothing.**

Operations from a new player on write a log, and a limit leaves the last entries of it, as many as
it says. Players that differ in the limit alone differ in nothing but it and the backlog, and the
host gets the same from them. A page in the log has text, which does not end with a blank. What has
been written since a script was loaded last is in the order of time, and nothing of it lies after
the time of the player, if the time that was reported since then fits the clock.
-/
theorem backlog_keeps_log (m : Metrics) (s : Settings) (os : List Operation) :
    let start (limit : Nat) := ofSettings m { s with backlogLimit := limit }
    ∃ log : List Entry,
      (∀ limit,
        ((start limit).operate os).backlog = (Backlog.empty limit).pushAll log ∧
        ((start limit).operate os).backlog.entries = log.drop (log.length - limit) ∧
        ((start limit).operate os).backlog.entries.length ≤ limit) ∧
      (∀ limit limit',
        (start limit').operate os =
          ((start limit).operate os).remembering ((start limit').operate os).backlog limit' ∧
        (start limit').answers os = (start limit).answers os) ∧
      (∀ text clock, .page text clock ∈ log →
        text ≠ "" ∧ ∀ c ∈ text.toList.getLast?, Text.isBlank c = false) ∧
      ∀ before o later, os = before ++ o :: later → o.loads = true →
        (∀ o' ∈ later, o'.loads = false) → Operation.totalElapsed later < UInt64.size →
        ∃ old new, log = old ++ new ∧
          (∀ limit, ((start limit).operate before).backlog = (Backlog.empty limit).pushAll old) ∧
          new.Pairwise (fun d e => d.clock ≤ e.clock) ∧
          ∀ e ∈ new, ∀ limit, e.clock ≤ ((start limit).operate os).clock := by
  intro start
  have hstart : ∀ limit, start limit = (ofSettings m s).remembering (.empty limit) limit :=
    fun _ => rfl
  obtain ⟨log, hsound, hruns⟩ := exists_log (ofSettings m s) os
  have hrun : ∀ limit, (start limit).operate os =
      ((ofSettings m s).operate os).remembering ((Backlog.empty limit).pushAll log) limit :=
    fun limit => hruns _ _
  refine ⟨log, fun limit => ?_, fun limit limit' => ⟨?_, ?_⟩, fun text clock h => hsound _ h, ?_⟩
  · rw [hrun]
    refine ⟨rfl, ?_, ?_⟩
    · show ((Backlog.empty limit).pushAll log).entries = _
      rw [Backlog.pushAll_empty]
      rfl
    · show ((Backlog.empty limit).pushAll log).entries.length ≤ limit
      rw [Backlog.pushAll_empty]
      exact Backlog.length_ofLog_le limit log
  · rw [hrun limit', hrun limit]
    rfl
  · rw [hstart, hstart, answers_remembering, answers_remembering]
  · intro before o later hos ho hlater hlt
    obtain ⟨old, -, hold⟩ := exists_log (ofSettings m s) before
    have hclock := clock_run_of_loads ho ((ofSettings m s).operate before)
    obtain ⟨new, hnew, hsorted, -, hle⟩ :=
      exists_ordered_log (o.run ((ofSettings m s).operate before)) later hlater (by omega)
    have hcut : ∀ limit, (start limit).operate os =
        ((o.run ((ofSettings m s).operate before)).operate later).remembering
          ((Backlog.empty limit).pushAll (old ++ new)) limit := by
      intro limit
      rw [hos, operate_append, hstart, hold]
      show (o.run _).operate later = _
      rw [run_remembering_of_loads ho, hnew, Backlog.pushAll_append]
    refine ⟨old, new, ?_, fun limit => ?_, hsorted, fun e he limit => ?_⟩
    · refine Backlog.eq_of_pushAll_empty fun limit => ?_
      have hboth := congrArg backlog ((hrun limit).symm.trans (hcut limit))
      exact hboth
    · rw [hstart, hold]
      rfl
    · rw [hcut]
      exact (hle e he).2

/-- A script is played, and another one loaded in the middle of its second page; the backlog keeps
two entries. -/
theorem backlog_keeps_log_reloaded :
    let m := ({ cell := ⟨8, 16⟩ } : MetricTable).toMetrics
    let before : List Operation :=
      [.load (.ofInstructions [.char 'a', .event "x", .char ' ', .next 0, .char 'b', .next 0]),
        .call (.update 70 false), .call .next, .call (.update 10 false)]
    let later : List Operation :=
      [.call (.update 25 false), .call (.update 10 true), .call .takeEvent, .clear]
    let load := Operation.load (.ofInstructions [.event "y", .char 'c', .next 0])
    let p := (ofSettings m { backlogLimit := 2 }).operate (before ++ load :: later)
    p.backlog.entries = [.event "y" 25, .page "c" 35] ∧
      ∃ old new, (∀ limit, ((ofSettings m { backlogLimit := limit }).operate before).backlog =
          (Backlog.empty limit).pushAll old) ∧
        p.backlog = (Backlog.empty 2).pushAll (old ++ new) ∧
        new.Pairwise (fun d e => d.clock ≤ e.clock) ∧ ∀ e ∈ new, e.clock ≤ p.clock := by
  intro m before later load p
  obtain ⟨log, hlog, -, -, hsince⟩ := backlog_keeps_log m {} (before ++ load :: later)
  obtain ⟨old, new, rfl, hold, hsorted, hle⟩ :=
    hsince before load later rfl rfl (by simp [later, Operation.loads]) (by decide)
  exact ⟨by decide +kernel, old, new, hold, (hlog 2).1, hsorted, fun e he => hle e he 2⟩

end Player

end DialogueBox
