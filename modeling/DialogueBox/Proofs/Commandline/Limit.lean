import DialogueBox.Proofs.Commandline.Play
import DialogueBox.Proofs.Markup.Grammar
import DialogueBox.Proofs.Playback.Limit
import DialogueBox.Proofs.Saved.RoundTrip

/-!
# What the time limit does to a run

A run of the command takes some number of frames to its end, whatever the script, the settings and
the sizes of cells are. The time limit decides how many of them are played, and nothing else
(`limit_only_truncates`): the run is aborted if its last frame passes the limit, and what it has
printed until then is what a longer run prints first, up to the end of a page.

Settings and scripts that were read give times that fit 32 bits (`speed_lt_of_readSettings`,
`paced_session`), so a session takes finitely many frames. How these are cut short is said for
sessions in general; here it is carried over to the outcome.
-/

namespace DialogueBox.Commandline

namespace PlayOptions

variable {o : PlayOptions} {tree : FileTree} {settings : Settings} {source : List Char}

/-- The options with another limit. -/
def within (o : PlayOptions) (limit : Nat) : PlayOptions := { o with limit := limit }

/-- What a run has to say that has passed its limit. -/
def limitComplaint (o : PlayOptions) : String := "播放超过 " ++ o.limit.repr ++ " ms，已中止"

/-- The pages that a session has noted after a number of frames. -/
def pagesAfter (o : PlayOptions) (settings : Settings) (source : List Char) (frames : Nat) :
    List PageRecord :=
  ((Session.frame o.frame)^[frames] (o.session settings source)).pages

/-! ## Sessions of the command -/

/-- The time between characters fits 32 bits in settings that were read. -/
theorem speed_lt_of_readSettings (h : o.readSettings tree = .ok settings) :
    settings.speed < UInt32.size := by
  unfold readSettings at h
  split at h
  · cases h
    decide
  · split at h
    · simp at h
    · split at h
      · next hread =>
        cases h
        unfold Settings.ofText at hread
        split at hread
        · simp at hread
        · next hform =>
          split at hread
          · simp at hread
          · cases hread
            obtain ⟨v, -, hv⟩ := Option.bind_eq_some_iff.mp hform
            exact (Saved.lawful_settings.fits_of_read hv).speed
      · simp at h

theorem reachable_session (o : PlayOptions) (settings : Settings) (source : List Char) :
    (o.session settings source).player.Reachable :=
  (Player.Reachable.start _ _).after (.presentSection source o.label)

theorem paced_session (hspeed : settings.speed < UInt32.size) (o : PlayOptions)
    (source : List Char) : (o.session settings source).player.Paced := by
  unfold session
  rw [Player.presentSection_eq]
  refine ⟨hspeed, fun ms hms => ?_⟩
  obtain ⟨-, hle⟩ := Markup.wellFormed_of_mem_compile hms
  exact Nat.lt_succ_of_le hle

theorem clock_session (o : PlayOptions) (settings : Settings) (source : List Char) :
    (o.session settings source).player.clock = 0 := by
  unfold session
  rw [Player.presentSection_eq]
  rfl

/-- How a limit cuts a session of the command short. -/
theorem framesPlayed_session {n : Nat} (hframe : 0 < o.frame)
    (h : (o.session settings source).Takes o.frame n) (hsize : n * o.frame < UInt64.size)
    (limit allowed : Nat) (hallowed : limit / o.frame < allowed) :
    Session.framesPlayed o.frame limit allowed (o.session settings source) =
        min n (limit / o.frame + 1) ∧
      ((Session.play o.frame limit allowed (o.session settings source)).2 = .closed ↔
        n * o.frame ≤ limit) := by
  have hclock := o.clock_session settings source
  have hplayed := Session.framesPlayed_of_takes allowed limit hframe
    (o.reachable_session settings source) h (by omega) (by omega) (by rwa [hclock])
  rwa [hclock, Nat.sub_zero, Nat.zero_add] at hplayed

/-! ## Transcripts -/

/-- What a limit leaves of a transcript. -/
theorem transcript_of_takes {n : Nat} (hframe : 0 < o.frame)
    (h : (o.session settings source).Takes o.frame n) (hsize : n * o.frame < UInt64.size) :
    (o.transcript settings source).pages =
        o.pagesAfter settings source (min n (o.limit / o.frame + 1)) ∧
      (o.transcript settings source).events = [] ∧
      ((o.transcript settings source).ending = .closed ↔ n * o.frame ≤ o.limit) := by
  have heq : o.transcript settings source =
      let played := Session.play o.frame o.limit (o.limit / o.frame + 1) (o.session settings source)
      ⟨played.1.pages, if played.2 = .closed then played.1.collect.events else [], played.2⟩ :=
    Player.transcript_eq _ o.frame o.limit
  obtain ⟨hcount, hended⟩ := framesPlayed_session hframe h hsize o.limit _ (Nat.lt_succ_self _)
  refine ⟨?_, ?_, ?_⟩
  · rw [heq]
    dsimp only
    rw [Session.play_eq_iterate, hcount]
    rfl
  · cases hcut : (o.transcript settings source).ending with
    | closed => exact (pages_transcript hcut).2.2
    | overLimit =>
      rw [heq] at hcut ⊢
      dsimp only at hcut ⊢
      rw [if_neg (by simp [hcut])]
  · rw [heq]
    exact hended

/-! ## Outcomes -/

/-- A complaint about a section is none about the limit. -/
theorem complaint_of_closed (h : (o.transcript settings source).ending = .closed) :
    (o.playSource settings source).complaint ≠ o.limitComplaint := by
  refine ne_of_apply_ne (fun s : String => s.toList.head?) ?_
  unfold playSource
  dsimp only
  rw [h]
  cases Markup.section? source o.label with
  | error e => simp [limitComplaint]
  | ok s => simp [limitComplaint]

theorem playSource_of_overLimit (h : (o.transcript settings source).ending = .overLimit) :
    (o.playSource settings source).complaint = o.limitComplaint ∧
      (o.playSource settings source).status = .failure := by
  unfold playSource
  dsimp only
  rw [h]
  exact ⟨rfl, rfl⟩

/-- What the limit `m` makes of a run that takes `n` frames to its end. -/
structure Truncates (o : PlayOptions) (tree : FileTree) (settings : Settings)
    (source : List Char) (n m : Nat) : Prop where
  /-- As many frames are played as there are, or else those that do not pass the limit and the one
  that does. Allowing for more of them changes nothing. -/
  frames : ∀ allowed, m / o.frame < allowed →
    Session.framesPlayed o.frame m allowed (o.session settings source) = min n (m / o.frame + 1)
  /-- The run is aborted if the last frame would pass the limit, though the box closes with it. -/
  aborted : ((o.within m).run tree).complaint = (o.within m).limitComplaint ↔ m < n * o.frame
  /-- An aborted run fails, also where it played what tells of a missing section. -/
  code : m < n * o.frame → ((o.within m).run tree).status.code = 1
  /-- The pages are printed that these frames have noted, and nothing else. -/
  output : ((o.within m).run tree).output =
    Text.ofLines ((o.pagesAfter settings source (min n (m / o.frame + 1))).flatMap
      (·.lines o.print))

theorem truncates_of_takes {text : String} {n : Nat} (hframe : 0 < o.frame)
    (htext : tree.read? o.script = some text) (hlist : o.listLabels = false)
    (hsettings : o.readSettings tree = .ok settings)
    (h : (o.session settings text.toList).Takes o.frame n) (hsize : n * o.frame < UInt64.size)
    (m : Nat) : o.Truncates tree settings text.toList n m := by
  have hrun : (o.within m).run tree = (o.within m).playSource settings text.toList :=
    run_eq_playSource htext hlist hsettings
  obtain ⟨hpages, hevents, hending⟩ := transcript_of_takes (o := o.within m) hframe h hsize
  have hclosed : ((o.within m).transcript settings text.toList).ending = .closed ↔
      n * o.frame ≤ m := hending
  have hcut : m < n * o.frame →
      ((o.within m).transcript settings text.toList).ending = .overLimit := by
    intro hlt
    cases hcase : ((o.within m).transcript settings text.toList).ending with
    | closed => exact absurd (hclosed.mp hcase) (Nat.not_le.mpr hlt)
    | overLimit => rfl
  refine ⟨?_, ?_, ?_, ?_⟩
  · exact fun allowed hallowed => (framesPlayed_session hframe h hsize m allowed hallowed).1
  · rw [hrun]
    constructor
    · intro hcomplaint
      by_contra hle
      exact complaint_of_closed (hclosed.mpr (Nat.not_lt.mp hle)) hcomplaint
    · intro hlt
      exact (playSource_of_overLimit (hcut hlt)).1
  · intro hlt
    rw [hrun, (playSource_of_overLimit (hcut hlt)).2]
    rfl
  · rw [hrun, output_playSource, Transcript.text, Transcript.lines, hevents, hpages, List.map_nil,
      List.append_nil]
    rfl

end PlayOptions

/--
**The time limit only truncates.**

Whatever the script, the section, the accepted settings and the other options are: the run takes
some number of frames until its box closes. If the clock can count them, the limit decides how many
of them are played, the run is aborted just when the limit is less than their time, and under a
lower limit a run prints the first of the pages that it prints under a higher one. Where both limits
let it come to its end, it prints the same.
-/
theorem limit_only_truncates {tree : FileTree} {o : PlayOptions} {source : String}
    {settings : Settings} (hframe : 0 < o.frame) (hsource : tree.read? o.script = some source)
    (hlist : o.listLabels = false) (hsettings : o.readSettings tree = .ok settings) :
    ∃ n, (o.session settings source.toList).Takes o.frame n ∧
      (n * o.frame < UInt64.size →
        (∀ m, o.Truncates tree settings source.toList n m) ∧
        ∀ m₁ m₂, m₁ ≤ m₂ →
          (∃ pages more : List PageRecord,
            ((o.within m₁).run tree).output = Text.ofLines (pages.flatMap (·.lines o.print)) ∧
            ((o.within m₂).run tree).output =
              Text.ofLines ((pages ++ more).flatMap (·.lines o.print))) ∧
          (n * o.frame ≤ m₁ →
            ((o.within m₁).run tree).output = ((o.within m₂).run tree).output)) := by
  have hpaced :=
    o.paced_session (PlayOptions.speed_lt_of_readSettings hsettings) source.toList
  obtain ⟨n, hn⟩ :=
    Session.exists_takes hframe (o.reachable_session settings source.toList) hpaced
  refine ⟨n, hn, fun hsize => ?_⟩
  have hcut := PlayOptions.truncates_of_takes hframe hsource hlist hsettings hn hsize
  refine ⟨hcut, fun m₁ m₂ hle => ⟨?_, fun hends => ?_⟩⟩
  · have hquotient : m₁ / o.frame ≤ m₂ / o.frame := Nat.div_le_div_right hle
    obtain ⟨more, hmore⟩ := Session.pages_iterate_prefix
      (show min n (m₁ / o.frame + 1) ≤ min n (m₂ / o.frame + 1) by omega) o.frame
      (o.session settings source.toList)
    refine ⟨o.pagesAfter settings source.toList (min n (m₁ / o.frame + 1)), more,
      (hcut m₁).output, ?_⟩
    rw [(hcut m₂).output, PlayOptions.pagesAfter, PlayOptions.pagesAfter, hmore]
  · -- both limits allow for all frames
    have hall : ∀ m, n * o.frame ≤ m → min n (m / o.frame + 1) = n := by
      intro m hm
      have := (Nat.le_div_iff_mul_le hframe).mpr hm
      omega
    rw [(hcut m₁).output, (hcut m₂).output, hall m₁ hends, hall m₂ (hends.trans hle)]

/-- A box that closes with the sixth frame. A limit just below that aborts the run after the last
page was printed, a lower one after the first page. -/
theorem limit_only_truncates_lastFrame :
    let source := "hi[event:e][next:30]\n\nyo[wait:10]![end]"
    let tree : FileTree := ({} : FileTree).addFile "a" (some source)
    let o : PlayOptions := { script := "a", frame := 50 }
    let run := fun m => (o.within m).run tree
    (o.session {} source.toList).Takes 50 6 ∧
      (run 299).complaint = "播放超过 299 ms，已中止" ∧ (run 299).status.code = 1 ∧
      (run 300).complaint ≠ "播放超过 300 ms，已中止" ∧ (run 300).output = (run 600).output ∧
      (run 49).output = "" ∧ (run 60).output = "[event] e\n── 1 ──\nhi\n" ∧
      ∃ pages more : List PageRecord,
        (run 60).output = Text.ofLines (pages.flatMap (·.lines .plain)) ∧
        (run 300).output = Text.ofLines ((pages ++ more).flatMap (·.lines .plain)) := by
  intro source tree o run
  have hsource : tree.read? o.script = some source := by decide +kernel
  have hsettings : o.readSettings tree = .ok {} := rfl
  have hsix : (o.session {} source.toList).Takes o.frame 6 :=
    ⟨by decide +kernel, by decide +kernel⟩
  obtain ⟨n, hn, hlimit⟩ := limit_only_truncates (by decide) hsource rfl hsettings
  cases hn.unique hsix
  obtain ⟨hcut, hpair⟩ := hlimit (by decide)
  have hbelow : (o.within 299).limitComplaint = "播放超过 299 ms，已中止" := by decide +kernel
  have hends : (o.within 300).limitComplaint = "播放超过 300 ms，已中止" := by decide +kernel
  refine ⟨hsix, ?_, (hcut 299).code (by decide), ?_, (hpair 300 600 (by decide)).2 (by decide),
    by decide +kernel, by decide +kernel, (hpair 60 300 (by decide)).1⟩
  · rw [← hbelow]
    exact (hcut 299).aborted.mpr (by decide)
  · rw [← hends]
    exact mt (hcut 300).aborted.mp (by decide)

end DialogueBox.Commandline
