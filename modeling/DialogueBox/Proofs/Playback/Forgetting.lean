import DialogueBox.Proofs.Playback.Log

/-!
# Presenting a text forgets the past

A text that is presented is played from its beginning, whatever the player has done before. Nothing
of the past is left but the backlog: a player that has been used and a new one with the same
settings and metrics do the same from there on (`present_forgets`).

## How the proof goes

Presenting a text sets every part of a player but its settings, its metrics, the backlog, and the
window of the page, which follows the settings in every player that a host can meet. So the used
player is the new one with another backlog (`present_eq_remembering`), and a backlog has no say in
what is done (`exists_log`). What is added to it is the same, and a limit leaves the same of two
logs side by side, whether or not it has been applied to each of them before
(`Backlog.ofLog_append`).
-/

namespace DialogueBox

namespace Player

/-- **A player that presents a text is a new one that presents it,** but for the backlog. -/
theorem present_eq_remembering {p : Player} (hc : p.Coherent) (source : List Char) :
    p.present source = ((ofSettings p.metrics p.settings).present source).remembering p.backlog
      p.settings.backlogLimit := by
  let c := Markup.compile source
  have hclear : p.page.clear = (Page.ofSettings p.settings).clear := hc.page_clear
  show ({ p with
    script := c.script, dropped := c.dropped, playhead := .start, style := .initial p.settings.speed
    page := p.page.clear, events := [], clock := 0 } : Player) = _
  rw [hclear]
  rfl

/--
**Presenting a text forgets the past.**

A host uses a player in any way, presents a text, and does something more; and it does the same with
a new player that has the same settings and metrics. Then the two players differ in nothing but the
backlog, whenever it looks; it has got the same events from them, and the indicator shows the same.
The backlog of the first player is its old one followed by that of the new player, as far as the
limit leaves it.
-/
theorem present_forgets {p : Player} (hp : p.Reachable) (source : List Char)
    (os : List Operation) :
    let fresh := ofSettings p.metrics p.settings
    let r := (p.present source).operate os
    let r' := (fresh.present source).operate os
    r = { r' with backlog := r.backlog } ∧
      (p.present source).answers os = (fresh.present source).answers os ∧
      r.indicatorVisible = r'.indicatorVisible ∧
      r.backlog =
        Backlog.ofLog p.settings.backlogLimit (p.backlog.entries ++ r'.backlog.entries) := by
  intro fresh r r'
  obtain ⟨old, hold⟩ := hp.exists_ofLog
  obtain ⟨log, -, hlog⟩ := exists_log (fresh.present source) os
  have hpresent := present_eq_remembering hp.coherent source
  have hr : r = r'.remembering (p.backlog.pushAll log) p.settings.backlogLimit := by
    show (p.present source).operate os = _
    rw [hpresent]
    exact hlog p.backlog p.settings.backlogLimit
  have hr' : r' = r'.remembering ((Backlog.empty p.settings.backlogLimit).pushAll log)
      p.settings.backlogLimit := hlog (.empty p.settings.backlogLimit) p.settings.backlogLimit
  have hsame : r = { r' with backlog := r.backlog } := by
    rw [hr]
    conv_rhs => rw [hr']
    rfl
  refine ⟨hsame, ?_, ?_, ?_⟩
  · rw [hpresent]
    exact answers_remembering _ _ _ os
  · rw [hsame]
    rfl
  · have hbacklog : r.backlog = p.backlog.pushAll log := congrArg backlog hr
    have hbacklog' : r'.backlog = Backlog.ofLog p.settings.backlogLimit log :=
      (congrArg backlog hr').trans (Backlog.pushAll_empty _ _)
    rw [hbacklog, hbacklog', hold, Backlog.pushAll_ofLog, Backlog.ofLog_append]

/-- A text is presented to a player in a timed wait, which has raised an event, heeds no input and
writes in red; its backlog keeps three entries. -/
theorem present_forgets_timedWait :
    let m := ({ cell := ⟨8, 16⟩ } : MetricTable).toMetrics
    let s : Settings := { backlogLimit := 3 }
    let p := (ofSettings m s).operate
      [.load (.ofInstructions
        [.color .red, .speed 5, .input false, .char 'a', .event "x", .next 90, .char 'b']),
        .call (.update 60 false)]
    let source := "c[event:y]d[next]e".toList
    let os : List Operation :=
      [.call (.update 95 true), .call .takeEvent, .call (.update 0 true), .call .next]
    let fresh := ofSettings p.metrics p.settings
    let r := (p.present source).operate os
    let r' := (fresh.present source).operate os
    p.phase = .timedWait 90 ∧ p.events = ["x"] ∧ p.playhead.inputEnabled = false ∧
      p.backlog.entries = [.event "x" 60, .page "a" 60] ∧
      r'.backlog.entries = [.event "y" 95, .page "cd" 95, .page "e" 95] ∧
      r = { r' with backlog := r.backlog } ∧
      (p.present source).answers os = (fresh.present source).answers os ∧
      r.backlog =
        Backlog.ofLog p.settings.backlogLimit (p.backlog.entries ++ r'.backlog.entries) := by
  intro m s p source os fresh r r'
  have hp : p.Reachable := (Reachable.start m s).operate _
  obtain ⟨hsame, hanswers, -, hbacklog⟩ := present_forgets hp source os
  exact ⟨by decide +kernel, by decide +kernel, by decide +kernel, by decide +kernel,
    by decide +kernel, hsame, hanswers, hbacklog⟩

end Player

end DialogueBox
