import DialogueBox.Proofs.Playback.Lockstep

/-!
# Drawing has no say

Sizes of glyphs, known icons and fonts, the window and the wrapping of lines decide how a page
looks, and nothing else; nor does it matter whether the host takes the glyphs off a page
(`Player.drawing_has_no_say`). An icon that does not exist is not drawn, but takes its time like one
that does; a font that does not exist is not chosen, and all else of the style is as if it were.

Both are relations that keep two players in lockstep. In the first one the pages of the two players
have the same text (`SameButDrawn`), in the second one they have the same window, so that they are
the same as soon as a page is started (`SameOffPage`).
-/

namespace DialogueBox

/-! ## What does not depend on drawing -/

/-- A style without its font. -/
def Style.fontless (s : Style) : Style := { s with font := none }

/-- Which fonts there are has no say in anything but the font. -/
theorem Style.fontless_after (hasFont : String → Bool) (speed : Nat) (s : Style)
    (i : Instruction) :
    (s.after hasFont speed i).fontless = (s.fontless.after (fun _ => false) speed i).fontless := by
  cases i with
  | font id =>
    cases id with
    | none => rfl
    | some id => simp only [after]; split <;> rfl
  | _ => rfl

theorem Page.entries_congr {p q : Page} (h : q.text = p.text) (clock : Nat) :
    q.entries clock = p.entries clock := by
  unfold entries keptText
  rw [h]

theorem Instruction.entries_congr {p q : Page} (h : q.text = p.text) (clock : Nat)
    (i : Instruction) : i.entries q clock = i.entries p clock := by
  cases i with
  | next ms => exact Page.entries_congr h clock
  | finish => exact Page.entries_congr h clock
  | _ => rfl

theorem Page.text_after_congr {p q : Page} (h : q.text = p.text) (m m' : Metrics) (s s' : Style)
    (i : Instruction) : (q.after m' s' i).text = (p.after m s i).text := by
  rw [← String.toList_inj, toList_text_after, toList_text_after, h]

namespace Player

/-- Two players are the same but for what is drawn: settings of the layout, metrics, glyphs, and the
font. -/
structure SameButDrawn (p q : Player) : Prop where
  speed : q.settings.speed = p.settings.speed
  script : q.script = p.script
  dropped : q.dropped = p.dropped
  playhead : q.playhead = p.playhead
  style : q.style.fontless = p.style.fontless
  text : q.page.text = p.page.text
  events : q.events = p.events
  backlog : q.backlog = p.backlog
  clock : q.clock = p.clock

namespace SameButDrawn

variable {p q : Player}

theorem style_speed (h : SameButDrawn p q) : q.style.speed = p.style.speed := by
  have hspeed := congrArg Style.speed h.style
  exact hspeed

theorem ahead (h : SameButDrawn p q) : q.ahead = p.ahead := by
  unfold Player.ahead
  rw [h.script, h.playhead]

theorem step (h : SameButDrawn p q) (instant : Bool) (i : Instruction) :
    SameButDrawn (p.step instant i) (q.step instant i) := by
  have hpass : (q.pass instant i).playhead = (p.pass instant i).playhead := by
    simp only [pass, movePlayhead, h.playhead, h.style_speed]
  rw [step_eq, step_eq]
  refine ⟨h.speed, h.script, h.dropped, ?_, ?_, ?_, ?_, ?_, h.clock⟩
  · exact congrArg (Playhead.after instant · i) hpass
  · dsimp only
    rw [Style.fontless_after q.metrics.hasFont, Style.fontless_after p.metrics.hasFont, h.style,
      h.speed]
  · exact Page.text_after_congr h.text _ _ _ _ i
  · exact congrArg (· ++ _) h.events
  · dsimp only
    rw [h.backlog, h.clock, Instruction.entries_congr h.text]

theorem finishPage (h : SameButDrawn p q) : SameButDrawn p.finishPage q.finishPage := by
  rw [finishPage_eq, finishPage_eq]
  refine ⟨h.speed, h.script, h.dropped, ?_, h.style, h.text, h.events, ?_, h.clock⟩
  · exact congrArg Playhead.finishPage h.playhead
  · dsimp only
    rw [h.backlog, h.clock, Page.entries_congr h.text]

theorem act (h : SameButDrawn p q) (a : Act) : SameButDrawn (a.run p) (a.run q) := by
  cases a with
  | step instant i => exact h.step instant i
  | finishPage => exact h.finishPage
  | movePlayhead f => exact { h with playhead := congrArg f h.playhead }
  | tick elapsed =>
    exact { h with clock := congrArg (fun n => (n + elapsed) % UInt64.size) h.clock }
  | close =>
    exact { h with playhead := congrArg Playhead.close h.playhead, script := rfl, text := rfl }
  | takeEvent =>
    show SameButDrawn p.takeEvent.2 q.takeEvent.2
    rw [takeEvent_eq, takeEvent_eq]
    exact { h with events := congrArg List.tail h.events }
  | clear => exact { h with text := rfl }
  | measure m => exact { h with }
  | noteDropped ds => exact { h with dropped := rfl }

theorem turnPage (h : SameButDrawn p q) : SameButDrawn p.turnPage q.turnPage := by
  refine { h with text := rfl, playhead := ?_ }
  show ({ q.playhead with position := _ } : Playhead).startPage = _
  rw [h.playhead, h.ahead]
  rfl

theorem load (h : SameButDrawn p q) (s : Script) : SameButDrawn (p.load s) (q.load s) :=
  { h with
    script := rfl
    playhead := rfl
    style := congrArg (fun n => (Style.initial n).fontless) h.speed
    text := rfl
    events := rfl
    clock := rfl }

theorem lockstep : Lockstep fun _ => SameButDrawn where
  script h := h.script
  playhead h := h.playhead
  speed h := h.style_speed
  events h := h.events
  act h a := h.act a
  turnPage h := h.turnPage
  load h s := h.load s

end SameButDrawn

/-! ## Taking glyphs off the page -/

/-- Two players are the same off their pages and their backlogs, and the pages are the same once one
has been started. -/
structure SameOffPage (started : Prop) (p q : Player) : Prop where
  off : q = { p with page := q.page, backlog := q.backlog }
  clear : q.page.clear = p.page.clear
  page : started → q.page = p.page

namespace SameOffPage

variable {p q : Player} {b : Prop}

theorem act (h : SameOffPage b p q) (a : Act) : SameOffPage b (a.run p) (a.run q) := by
  obtain ⟨hoff, hclear, hpage⟩ := h
  -- the second player is the first one with some page and some backlog
  generalize q.page = g at hoff hclear hpage
  generalize q.backlog = l at hoff
  subst hoff
  cases a with
  | step instant i =>
    show SameOffPage b (p.step instant i) (Player.step instant i { p with page := g, backlog := l })
    rw [step_eq, step_eq]
    refine ⟨rfl, ?_, fun hb => congrArg (Page.after p.metrics p.style · i) (hpage hb)⟩
    show (g.after _ _ i).clear = (p.page.after _ _ i).clear
    rw [Page.clear_after, Page.clear_after, hclear]
  | finishPage =>
    show SameOffPage b p.finishPage (Player.finishPage { p with page := g, backlog := l })
    rw [finishPage_eq, finishPage_eq]
    exact ⟨rfl, hclear, hpage⟩
  | close => exact ⟨rfl, congrArg Page.clear hclear, fun _ => hclear⟩
  | clear => exact ⟨rfl, congrArg Page.clear hclear, fun _ => hclear⟩
  | takeEvent =>
    show SameOffPage b p.takeEvent.2 (Player.takeEvent { p with page := g, backlog := l }).2
    rw [takeEvent_eq, takeEvent_eq]
    exact ⟨rfl, hclear, hpage⟩
  | _ => exact ⟨rfl, hclear, hpage⟩

/-- A new page has nothing on it, and nothing of the old one but its window. -/
theorem lockstep : Lockstep SameOffPage where
  script h := by rw [h.off]
  playhead h := by rw [h.off]
  speed h := by rw [h.off]
  events h := by rw [h.off]
  act h a := h.act a
  turnPage h := by
    obtain ⟨hoff, hclear, -⟩ := h
    refine ⟨?_, congrArg Page.clear hclear, fun _ => hclear⟩
    rw [hoff]
    rfl
  load h s := by
    obtain ⟨hoff, hclear, -⟩ := h
    refine ⟨?_, congrArg Page.clear hclear, fun _ => hclear⟩
    rw [hoff]
    rfl

theorem weaken (h : SameOffPage b p q) : SameOffPage False p q := ⟨h.off, h.clear, False.elim⟩

theorem clear_right (h : SameOffPage False p q) : SameOffPage False p q.clear := by
  have hoff := congrArg Player.clear h.off
  exact ⟨hoff, h.clear, False.elim⟩

end SameOffPage

/-- The second list of operations is the first one with clears put in. -/
inductive Cleared : List Operation → List Operation → Prop
  | nil : Cleared [] []
  | keep {os os' : List Operation} (o : Operation) (h : Cleared os os') :
      Cleared (o :: os) (o :: os')
  | clear {os os' : List Operation} (h : Cleared os os') : Cleared os (.clear :: os')

theorem Cleared.append {os os' : List Operation} (h : Cleared os os') (later : List Operation) :
    Cleared (os ++ later) (os' ++ later) := by
  induction h with
  | nil =>
    induction later with
    | nil => exact .nil
    | cons o later ih => exact .keep o ih
  | keep o _ ih => exact .keep o ih
  | clear _ ih => exact .clear ih

theorem sameOffPage_cleared {os os' : List Operation} (h : Cleared os os') {p q : Player}
    (hpq : SameOffPage False p q) :
    SameOffPage False (p.operate os) (q.operate os') ∧ q.answers os' = p.answers os := by
  induction h generalizing p q with
  | nil => exact ⟨hpq, rfl⟩
  | keep o _ ih =>
    obtain ⟨hrun, hanswers⟩ := ih (SameOffPage.lockstep.run hpq o).weaken
    refine ⟨hrun, ?_⟩
    show (o.answer? q).toList ++ _ = (o.answer? p).toList ++ _
    rw [answer?_congr (SameOffPage.lockstep.events hpq), hanswers]
  | clear _ ih => exact ih hpq.clear_right

/-! ## The result -/

/--
**Drawing has no say in what happens.**

Two players have the same speed and keep as many entries in their backlogs. Whatever else their
settings and their metrics are, after any operations they differ in nothing but what is drawn, and
the host has got the same events from both.

If clears are put in between the operations of a player, it differs off its page in nothing but the
backlog, and its page is the same from the first one on that is started after the last clear.
-/
theorem drawing_has_no_say {s t : Settings} (hspeed : t.speed = s.speed)
    (hlimit : t.backlogLimit = s.backlogLimit) (m n : Metrics) :
    (∀ os, SameButDrawn ((ofSettings m s).operate os) ((ofSettings n t).operate os) ∧
      (ofSettings n t).answers os = (ofSettings m s).answers os) ∧
    ∀ (p : Player) (os os' later : List Operation), Cleared os os' →
      let r := p.operate (os ++ later)
      let r' := p.operate (os' ++ later)
      r' = { r with page := r'.page, backlog := r'.backlog } ∧
        p.answers (os' ++ later) = p.answers (os ++ later) ∧
        ((p.operate os).startsPage later → r'.page = r.page) := by
  refine ⟨fun os => ?_, fun p os os' later h => ?_⟩
  · have hstart : SameButDrawn (ofSettings m s) (ofSettings n t) :=
      ⟨hspeed, rfl, rfl, rfl, congrArg (fun k => (Style.initial k).fontless) hspeed, rfl, rfl,
        congrArg Backlog.empty hlimit, rfl⟩
    exact ⟨SameButDrawn.lockstep.operate (b := False) hstart os,
      SameButDrawn.lockstep.answers (b := False) hstart os⟩
  · have hself : SameOffPage False p p := ⟨rfl, rfl, False.elim⟩
    obtain ⟨hoff, hanswers⟩ := sameOffPage_cleared (h.append later) hself
    refine ⟨hoff.off, hanswers, fun hstarts => ?_⟩
    have hpages := SameOffPage.lockstep.operate (sameOffPage_cleared h hself).1 later
    rw [operate, operate, List.foldl_append, List.foldl_append]
    exact hpages.page (.inr hstarts)

/-- An icon and a font that only the second player has, and a page from which glyphs are taken. -/
theorem drawing_has_no_say_icon :
    let m := ({ cell := ⟨8, 16⟩ } : MetricTable).toMetrics
    let n := ({ cell := ⟨9, 5⟩, icons := [("i", ⟨99, 5⟩)], fonts := ["f"] } : MetricTable).toMetrics
    let p := ofSettings m {}
    let q := ofSettings n { wrap := false, kerning := 3 }
    let s := Script.ofInstructions
      [.font (some "f"), .icon "i", .char 'a', .char 'b', .event "e", .next 0, .char 'c']
    let os : List Operation := [.load s, .call (.update 70 false)]
    let later : List Operation := [.call (.update 50 false), .call .takeEvent, .call .next]
    let r := p.operate (os ++ later)
    let r' := p.operate ((os ++ [.clear]) ++ later)
    SameButDrawn r (q.operate (os ++ later)) ∧ q.answers (os ++ later) = p.answers (os ++ later) ∧
      p.answers (os ++ later) = [some "e"] ∧ r.backlog.pages = ["ab"] ∧ r'.backlog.pages = ["b"] ∧
      r'.page = r.page := by
  intro m n p q s os later r r'
  obtain ⟨hdrawn, hcleared⟩ :=
    drawing_has_no_say (s := {}) (t := { wrap := false, kerning := 3 }) rfl rfl m n
  obtain ⟨hsame, hanswers⟩ := hdrawn (os ++ later)
  have hclear : Cleared os (os ++ [.clear]) := .keep _ (.keep _ (.clear .nil))
  have hstarts : (p.operate os).startsPage later :=
    .inr (.inr (.inl (Operation.startsPage_next (by decide +kernel) (by decide +kernel))))
  exact ⟨hsame, hanswers, by decide +kernel, by decide +kernel, by decide +kernel,
    (hcleared p os _ later hclear).2.2 hstarts⟩

end Player

end DialogueBox
