import DialogueBox.Proofs.Markup.Compile
import DialogueBox.Proofs.Playback.Chronicle

/-!
# Glyphs are snapshots

A glyph that is on the page stays as it is until the page is taken off (`glyphs_are_snapshots`). In
a call of the host that takes no page off, instructions are carried out on the page that is there,
and all they do is to set more glyphs after those that it has. In a call that turns the page they
are carried out on an empty one. A chronicle (`Chronicle`) tells the three cases apart:
`Course.Shows`.

The characters that the glyphs show, one after the other, spell the text of the page without its
line breaks (`Page.Spells`), because a script that comes from a source text breaks its lines by
instructions of their own (`char_lineFeed_not_mem_compile`).
-/

namespace DialogueBox

namespace Page

/-! ## Pages that spell their text -/

/-- The characters of the glyphs are the text without its line breaks. -/
def Spells (p : Page) : Prop :=
  p.glyphs.toList.filterMap Glyph.char? = p.text.toList.filter (· ≠ '\n')

theorem spells_clear (p : Page) : p.clear.Spells := rfl

theorem spells_ofSettings (s : Settings) : (Page.ofSettings s).Spells := rfl

/-- The glyphs that are set are followed by those of an instruction. -/
theorem exists_toList_glyphs_place (p : Page) (k : GlyphKind) (size : Size) (s : Style)
    (fallback : Float32) : ∃ g : Glyph, g.kind = k ∧
      (p.place k size s fallback).glyphs.toList = p.glyphs.toList ++ [g] :=
  ⟨⟨k, (p.typesetter.place size fallback).1, size, s⟩, rfl, Array.toList_push⟩

/-- **An instruction keeps a page spelled**, unless it sets a line feed like a character. -/
theorem Spells.after {p : Page} (h : p.Spells) {i : Instruction} (hi : i ≠ .char '\n')
    (m : Metrics) (s : Style) : (p.after m s i).Spells := by
  unfold Spells at h ⊢
  rw [toList_text_after, List.filter_append, ← h]
  cases i with
  | char c =>
    have hc : c ≠ '\n' := fun hc => hi (congrArg Instruction.char hc)
    obtain ⟨g, hg, hglyphs⟩ := p.exists_toList_glyphs_place (.char c) (m.glyph c s.font s.scale) s
      (m.glyph ' ' s.font s.scale).height
    have hchar : g.char? = some c := by rw [Glyph.char?, hg]
    have hnew : [g].filterMap Glyph.char? = [c] := List.filterMap_cons_some hchar
    have htext : [c].filter (· ≠ '\n') = [c] := List.filter_cons_of_pos (decide_eq_true hc)
    show (p.place ..).glyphs.toList.filterMap Glyph.char? = _ ++ [c].filter (· ≠ '\n')
    rw [hglyphs, List.filterMap_append, hnew, htext]
  | icon id =>
    show (p.withIcon m s id).glyphs.toList.filterMap Glyph.char? = _ ++ []
    rw [List.append_nil]
    unfold withIcon
    split
    · next size _ =>
      obtain ⟨g, hg, hglyphs⟩ := p.exists_toList_glyphs_place (.icon id) size s
        (m.glyph ' ' s.font s.scale).height
      have hchar : g.char? = none := by rw [Glyph.char?, hg]
      have hnew : [g].filterMap Glyph.char? = [] := List.filterMap_cons_none hchar
      rw [hglyphs, List.filterMap_append, hnew, List.append_nil]
    · rfl
  | lineBreak => exact (List.append_nil _).symm
  | _ => exact (List.append_nil _).symm

end Page

/-! ## Scripts that break lines by instructions -/

/-- No script of a source text sets a line feed like a character. -/
theorem Markup.char_lineFeed_not_mem_compile (t : List Char) :
    .char '\n' ∉ (compile t).script.instructions := by
  rw [script_compile]
  intro h
  rcases Script.mem_closed h with h | h
  · obtain ⟨⟨i, n⟩, hi, rfl⟩ := List.mem_map.mp h
    obtain ⟨y, hy, hemitted⟩ := List.mem_filterMap.mp hi
    obtain ⟨item, -, hitem⟩ := List.mem_filterMap.mp hy
    cases item with
    | char c line =>
      simp only [Item.yield?] at hitem
      split at hitem
      · cases hitem
      · cases hitem
        simp only [Yield.emitted?, Option.some.injEq, Prod.mk.injEq] at hemitted
        split at hemitted
        · simp at hemitted
        · next hc => exact hc (by simpa using hemitted.1)
    | tag inner line =>
      -- what stands for a tag is no plain text
      cases hitem
      unfold tagYield at hemitted
      split at hemitted
      · next j hj =>
        simp only [Yield.emitted?, Option.some.injEq, Prod.mk.injEq] at hemitted
        have hplain := plainChar?_of_readTag hj
        rw [hemitted.1] at hplain
        cases hplain
      · cases hemitted
  · cases h

namespace Player

variable {p q r : Player}

/-! ## What is carried out on a page -/

/-- The style and the page after an instruction. -/
def carry (m : Metrics) (speed : Nat) (x : Style × Page) (i : Instruction) : Style × Page :=
  (x.1.after m.hasFont speed i, x.2.after m x.1 i)

/-- Of the instructions that were left to a player, `done` have been carried out, and nothing else
has happened to its style and its page. -/
structure Sets (p : Player) (done : List Instruction) (q : Player) : Prop where
  settings : q.settings = p.settings
  metrics : q.metrics = p.metrics
  ahead : p.ahead = done ++ q.ahead
  shown : (q.style, q.page) = done.foldl (carry p.metrics p.settings.speed) (p.style, p.page)

namespace Sets

variable {done done' : List Instruction}

/-- A change of flags and timers alone carries nothing out. -/
theorem of_playhead (hq : q = { p with clock := q.clock, playhead := q.playhead })
    (hp : q.playhead.position = p.playhead.position) : p.Sets [] q := by
  have hahead : p.ahead = q.ahead := by
    unfold Player.ahead
    rw [hp, hq]
  rw [hq] at hahead ⊢
  exact ⟨rfl, rfl, hahead, rfl⟩

theorem refl (p : Player) : p.Sets [] p := .of_playhead rfl rfl

theorem trans (h : p.Sets done q) (h' : q.Sets done' r) : p.Sets (done ++ done') r where
  settings := h'.settings.trans h.settings
  metrics := h'.metrics.trans h.metrics
  ahead := by rw [h.ahead, h'.ahead, List.append_assoc]
  shown := by rw [h'.shown, List.foldl_append, ← h.shown, h.metrics, h.settings]

theorem step (instant : Bool) {i : Instruction} {rest : List Instruction}
    (hl : p.ahead = i :: rest) : p.Sets [i] (p.step instant i) where
  settings := by rw [step_eq]
  metrics := by rw [step_eq]
  ahead := by rw [ahead_step hl, hl, List.singleton_append]
  shown := by rw [step_eq]; rfl

theorem finishPage (p : Player) : p.Sets [] p.finishPage := by
  rw [finishPage_eq]
  exact ⟨rfl, rfl, rfl, rfl⟩

/-- Draining carries out a part of what is left. -/
theorem drain (instant : Bool) (p : Player) :
    ∃ done, p.Sets done (p.drain instant p.ahead) := by
  refine drain_induction (P := fun q => ∃ done, p.Sets done q)
    (Q := fun q => ∃ done, p.Sets done q) ?_ ?_ ?_ ?_ ⟨[], refl p⟩
  · rintro q i rest hl ⟨done, h⟩ - -
    exact ⟨_, h.trans (.step instant hl)⟩
  · rintro q i rest - h -
    exact h
  · rintro q i rest hl ⟨done, h⟩ - -
    exact ⟨_, h.trans (.step instant hl)⟩
  · rintro q - ⟨done, h⟩
    exact ⟨_, h.trans (.finishPage q)⟩

theorem skip (p : Player) : ∃ done, p.Sets done p.skip := by
  obtain ⟨done, h⟩ := drain true (p.movePlayhead { p.playhead with pause := 0 })
  have hbefore : p.Sets [] (p.movePlayhead { p.playhead with pause := 0 }) := .of_playhead rfl rfl
  exact ⟨_, (hbefore.trans h).trans (.of_playhead rfl rfl)⟩

theorem reveal (p : Player) (elapsed : Nat) : ∃ done, p.Sets done (p.reveal elapsed) := by
  unfold Player.reveal
  split
  · exact ⟨[], refl p⟩
  · dsimp only
    generalize hq : p.movePlayhead { p.playhead with pause := p.playhead.pause - elapsed } = q
    have hpq : p.Sets [] q := by
      rw [← hq]
      exact .of_playhead rfl rfl
    split
    · exact ⟨[], hpq⟩
    · split
      · have hgather : q.Sets [] (q.movePlayhead (q.playhead.gather elapsed)) :=
          .of_playhead rfl rfl
        obtain ⟨done, h⟩ := drain false (q.movePlayhead (q.playhead.gather elapsed))
        exact ⟨_, (hpq.trans hgather).trans h⟩
      · exact ⟨[], hpq⟩

/-- Turning the page does the same before and after a change of flags and timers. -/
theorem turnPage (h : p.Sets [] q) : p.turnPage.Sets [] q.turnPage where
  settings := h.settings
  metrics := h.metrics
  ahead := by rw [ahead_turnPage, ahead_turnPage, h.ahead, List.nil_append, List.nil_append]
  shown := by
    have hs : (q.style, q.page) = (p.style, p.page) := h.shown
    rw [Prod.mk.injEq] at hs
    show (q.style, q.page.clear) = (p.style, p.page.clear)
    rw [hs.1, hs.2]

/-- **Carrying out instructions leaves the glyphs that are set as they are.** -/
theorem extends_page (h : p.Sets done q) : q.page.Extends p.page := by
  have hfold : ∀ (x : Style × Page),
      (done.foldl (carry p.metrics p.settings.speed) x).2.Extends x.2 := by
    clear h
    induction done with
    | nil => exact fun x => .refl _
    | cons i rest ih =>
      intro x
      exact (ih _).trans (Page.extends_after _ _ _ i)
  have hpage : q.page = (done.foldl (carry p.metrics p.settings.speed) (p.style, p.page)).2 :=
    congrArg Prod.snd h.shown
  rw [hpage]
  exact hfold _

end Sets

end Player

/-! ## The three ways of a call -/

namespace Chronicle

variable {p q : Player} {c d : Chronicle}

/-- What a chronicle has come to since a player: its page is still there, it has been turned, or
the box has closed. -/
inductive Shows (p : Player) (d : Chronicle) : Prop
  | kept (ht : .turned ∉ d.log) (hc : .closed ∉ d.log) (h : ∃ done, p.Sets done d.player)
  | turned (ht : .turned ∈ d.log) (hc : .closed ∉ d.log)
      (h : ∃ done, p.turnPage.Sets done d.player)
  | closed (hc : .closed ∈ d.log) (ha : d.player.playhead.active = false)
      (h : d.player.page = p.page.clear)

/-- Flags and timers may have changed before. -/
theorem Shows.of_sets_nil (h : p.Sets [] q) (hs : Shows q d) : Shows p d := by
  cases hs with
  | kept ht hc hd =>
    obtain ⟨done, hd⟩ := hd
    exact .kept ht hc ⟨_, h.trans hd⟩
  | turned ht hc hd =>
    obtain ⟨done, hd⟩ := hd
    exact .turned ht hc ⟨_, h.turnPage.trans hd⟩
  | closed hc ha hd =>
    have hpage : q.page = p.page := congrArg Prod.snd h.shown
    exact .closed hc ha (hd.trans (by rw [hpage]))

/-- Putting out a page takes none off. -/
theorem Fills.mem_log_iff {l : List PageEvent} {page : Page} (h : Fills l page d) {e : PageEvent}
    (he : ∀ page, e ≠ .completed page) : e ∈ d.log ↔ e ∈ l := by
  rcases h with ⟨hl, -, -⟩ | ⟨hl, -, -⟩
  · rw [hl]
  · rw [hl, List.mem_append, List.mem_singleton]
    exact or_iff_left (he _)

theorem mem_log_reveal (c : Chronicle) (elapsed : Nat) {e : PageEvent}
    (he : ∀ page, e ≠ .completed page) : e ∈ (c.reveal elapsed).log ↔ e ∈ c.log := by
  by_cases h : c.player.playhead.active = false ∨ c.player.playhead.waiting = true
  · rw [reveal_eq elapsed h]
  · simp only [not_or, Bool.not_eq_false, Bool.not_eq_true] at h
    exact (fills_reveal elapsed h.1 h.2).1.mem_log_iff he

theorem Shows.reveal (h : Shows p d) (elapsed : Nat) : Shows p (d.reveal elapsed) := by
  have hturned := d.mem_log_reveal elapsed (e := .turned) (by simp)
  have hclosed := d.mem_log_reveal elapsed (e := .closed) (by simp)
  obtain ⟨done', hreveal⟩ := Player.Sets.reveal d.player elapsed
  rw [← player_reveal] at hreveal
  cases h with
  | kept ht hc h =>
    obtain ⟨done, h⟩ := h
    exact .kept (fun h => ht (hturned.mp h)) (fun h => hc (hclosed.mp h)) ⟨_, h.trans hreveal⟩
  | turned ht hc h =>
    obtain ⟨done, h⟩ := h
    exact .turned (hturned.mpr ht) (fun h => hc (hclosed.mp h)) ⟨_, h.trans hreveal⟩
  | closed hc ha h =>
    rw [reveal_eq elapsed (Or.inl ha)]
    exact .closed hc ha h

theorem shows_self (hl : c.log = []) : Shows c.player c :=
  .kept (by simp [hl]) (by simp [hl]) ⟨[], .refl _⟩

theorem shows_advance (ha : c.player.playhead.active = true) (hl : c.log = []) :
    Shows c.player c.advance := by
  unfold advance
  rw [if_neg (by simp [ha])]
  split
  · split
    · exact .closed (by simp [note]) rfl rfl
    · exact .turned (by simp [note, hl]) (by simp [note, hl]) ⟨[], .refl _⟩
  · next hw =>
    split
    · have hf := (fills_skip ha (by simpa using hw)).1
      obtain ⟨done, h⟩ := Player.Sets.skip c.player
      rw [← player_skip] at h
      refine .kept ?_ ?_ ⟨done, h⟩
      · rw [hf.mem_log_iff (by simp), hl]
        exact List.not_mem_nil
      · rw [hf.mem_log_iff (by simp), hl]
        exact List.not_mem_nil
    · exact shows_self hl

theorem shows_countDown (elapsed : Nat) (ha : c.player.playhead.active = true) (hl : c.log = []) :
    Shows c.player (c.countDown elapsed) := by
  unfold countDown
  dsimp only
  have hset : c.player.Sets [] (c.player.movePlayhead { c.player.playhead with
      timedWait := c.player.playhead.timedWait - elapsed }) := .of_playhead rfl rfl
  split
  · exact .of_sets_nil hset (shows_advance (c := c.apply fun p =>
      p.movePlayhead { p.playhead with timedWait := p.playhead.timedWait - elapsed }) ha hl)
  · exact .kept (by simp [apply, hl]) (by simp [apply, hl]) ⟨[], hset⟩

theorem shows_update (elapsed : Nat) (wish : Bool) (hl : c.log = []) :
    Shows c.player (c.update elapsed wish) := by
  unfold update
  by_cases ha : c.player.playhead.active = true
  · rw [if_neg (by simp [ha])]
    have htick : c.player.Sets [] (c.player.tick elapsed) := .of_playhead rfl rfl
    refine .of_sets_nil htick ?_
    dsimp only
    split
    · exact shows_countDown (c := c.apply fun p => p.tick elapsed) elapsed ha hl
    · refine Shows.reveal ?_ elapsed
      split
      · exact shows_advance (c := c.apply fun p => p.tick elapsed) ha hl
      · exact shows_self (c := c.apply fun p => p.tick elapsed) hl
  · rw [if_pos (by simpa using ha)]
    exact shows_self hl

/-- **A call keeps the page, turns it, or closes the box.** -/
theorem shows_call (hc : p.Coherent) (k : Call) : Shows p (Chronicle.call { player := p } k) := by
  cases k with
  | update elapsed wish => exact shows_update (c := { player := p }) elapsed wish rfl
  | takeEvent =>
    refine .kept List.not_mem_nil List.not_mem_nil ⟨[], ?_⟩
    show p.Sets [] p.takeEvent.2
    rw [Player.takeEvent_eq]
    exact ⟨rfl, rfl, rfl, rfl⟩
  | next =>
    show Shows p (Chronicle.next { player := p })
    unfold next
    split
    · exact shows_self (c := { player := p }) rfl
    · by_cases ha : p.playhead.active = true
      · exact shows_advance (c := { player := p }) ha rfl
      · have hi : p.playhead = p.playhead.close := hc.idle_of_inactive (by simpa using ha)
        unfold advance
        rw [if_pos (by simpa using ha)]
        exact .kept List.not_mem_nil List.not_mem_nil
          ⟨[], .of_playhead rfl (congrArg Playhead.position hi).symm⟩

end Chronicle

/-! ## Every player spells its page -/

namespace Player

/-- The page is spelled, and so will be all pages of the script. -/
structure Spelled (p : Player) : Prop where
  page : p.page.Spells
  script : .char '\n' ∉ p.script.instructions

namespace Spelled

variable {p q : Player}

theorem not_mem_blank : .char '\n' ∉ Script.blank.instructions := by decide

theorem move (hm : Move p q) (h : p.Spelled) : q.Spelled := by
  cases hm with
  | tick elapsed => exact ⟨h.page, h.script⟩
  | charTimer _ t => exact ⟨h.page, h.script⟩
  | pause t _ => exact ⟨h.page, h.script⟩
  | timedWait t _ => exact ⟨h.page, h.script⟩
  | @step instant i rest _ _ hl _ =>
    have hi : i ≠ .char '\n' := by
      rintro rfl
      exact h.script (List.mem_of_getElem? (getElem?_position hl))
    rw [step_eq]
    exact ⟨h.page.after hi _ _, h.script⟩
  | finishPage _ _ _ =>
    rw [finishPage_eq]
    exact ⟨h.page, h.script⟩
  | turnPage _ _ => exact ⟨Page.spells_clear _, h.script⟩
  | close => exact ⟨Page.spells_clear _, not_mem_blank⟩

theorem call (h : p.Spelled) (k : Call) : (k.run p).Spelled := by
  cases k with
  | update elapsed wish => exact (moves_update p elapsed wish).induction (fun _ _ => move) h
  | next =>
    show p.next.Spelled
    by_cases ha : p.playhead.active = true
    · exact (moves_next ha).induction (fun _ _ => move) h
    · unfold next
      split
      · exact h
      · unfold advance
        rw [if_pos (by simpa using ha)]
        exact ⟨h.page, h.script⟩
  | takeEvent =>
    show p.takeEvent.2.Spelled
    rw [takeEvent_eq]
    exact ⟨h.page, h.script⟩

theorem run (h : p.Spelled) (o : Operation)
    (ho : ∀ s, o = .load s → .char '\n' ∉ s.instructions) : (o.run p).Spelled := by
  cases o with
  | call k => exact h.call k
  | present source =>
    exact ⟨Page.spells_clear _, Markup.char_lineFeed_not_mem_compile source⟩
  | presentSection source label =>
    show (p.presentSection source label).1.Spelled
    rw [presentSection_eq]
    exact ⟨Page.spells_clear _, Markup.char_lineFeed_not_mem_compile _⟩
  | load s => exact ⟨Page.spells_clear _, ho s rfl⟩
  | close => exact ⟨Page.spells_clear _, not_mem_blank⟩
  | clear => exact ⟨Page.spells_clear _, h.script⟩
  | measure m => exact ⟨h.page, h.script⟩

theorem operate (h : p.Spelled) (os : List Operation)
    (ho : ∀ s, .load s ∈ os → .char '\n' ∉ s.instructions) : (p.operate os).Spelled := by
  induction os generalizing p with
  | nil => exact h
  | cons o os ih =>
    refine ih (h.run o ?_) fun s hs => ho s (List.mem_cons_of_mem _ hs)
    rintro s rfl
    exact ho s List.mem_cons_self

end Spelled

/--
**Glyphs are snapshots, and spell the page.**

A call of the host does one of three things to the glyphs of a page. It takes no page off: then all
glyphs stay where and as they are, and instructions that were left set others after them. Or it
closes the box: then there are none. Or it turns the page: then all glyphs come from instructions
that were carried out on the empty page.

In every player that operations lead to, the characters of the glyphs are the text of the page
without its line breaks. The scripts that are loaded break their lines by instructions, as every
script of a source text does.
-/
theorem glyphs_are_snapshots :
    (∀ p : Player, p.Reachable → ∀ k : Call,
      (.turned ∉ k.chronicle p ∧ .closed ∉ k.chronicle p ∧
        p.page.glyphs.toList <+: (k.run p).page.glyphs.toList ∧
        ∃ done, p.Sets done (k.run p)) ∨
      (.closed ∈ k.chronicle p ∧ (k.run p).page.glyphs = #[]) ∨
      (.turned ∈ k.chronicle p ∧ p.turnPage.page.glyphs = #[] ∧
        ∃ done, p.turnPage.Sets done (k.run p))) ∧
    (∀ m s os, (∀ sc, .load sc ∈ os → .char '\n' ∉ sc.instructions) →
      ((ofSettings m s).operate os).page.glyphs.toList.filterMap Glyph.char? =
        ((ofSettings m s).operate os).page.text.toList.filter (· ≠ '\n')) ∧
    ∀ t, .char '\n' ∉ (Markup.compile t).script.instructions := by
  refine ⟨fun p hp k => ?_, fun m s os ho => ?_, Markup.char_lineFeed_not_mem_compile⟩
  · have hplayer : (Chronicle.call { player := p } k).player = k.run p :=
      Chronicle.player_call { player := p } k
    have hshows := Chronicle.shows_call hp.coherent k
    unfold Call.chronicle
    rw [← hplayer]
    cases hshows with
    | kept ht hc h =>
      obtain ⟨done, h⟩ := h
      exact Or.inl ⟨ht, hc, h.extends_page.glyphs, done, h⟩
    | closed hc _ h => exact Or.inr (Or.inl ⟨hc, by rw [h]; rfl⟩)
    | turned ht _ h => exact Or.inr (Or.inr ⟨ht, rfl, h⟩)
  · have hstart : (ofSettings m s).Spelled := ⟨Page.spells_ofSettings s, Spelled.not_mem_blank⟩
    exact (hstart.operate os ho).page

/-- A page with a line break and an icon on it, from a script that was loaded, and a frame that
sets one more glyph. -/
theorem glyphs_are_snapshots_icon :
    let m := ({ cell := ⟨8, 16⟩, icons := [("i", ⟨8, 8⟩)] } : MetricTable).toMetrics
    let os : List Operation := [.load (.ofInstructions
      [.char 'a', .lineBreak, .icon "i", .char 'b', .char 'c', .char 'd']),
      .call (.update 125 false)]
    let p := (ofSettings m {}).operate os
    let k := Call.update 25 false
    p.Reachable ∧ p.page.text = "a\nb" ∧
      p.page.glyphs.toList.filterMap Glyph.char? = ['a', 'b'] ∧ p.page.glyphs.size = 3 ∧
      p.page.glyphs.toList <+: (k.run p).page.glyphs.toList ∧ (k.run p).page.glyphs.size = 4 := by
  intro m os p k
  have hp : p.Reachable := (Reachable.start _ _).operate _
  have hspells := glyphs_are_snapshots.2.1 m {} os (by
    intro sc hsc
    simp only [os, List.mem_cons, Operation.load.injEq, reduceCtorEq, List.not_mem_nil, or_false]
      at hsc
    rw [hsc]
    decide)
  have hkept : p.page.glyphs.toList <+: (k.run p).page.glyphs.toList := by
    have hl : k.chronicle p = [] := List.isEmpty_iff.mp (by decide)
    have h := glyphs_are_snapshots.1 p hp k
    rw [hl] at h
    rcases h with ⟨-, -, h, -⟩ | ⟨h, -⟩ | ⟨h, -⟩
    · exact h
    · exact absurd h List.not_mem_nil
    · exact absurd h List.not_mem_nil
  refine ⟨hp, by decide, ?_, by decide, hkept, by decide⟩
  rw [hspells]
  decide

end Player

end DialogueBox
