import DialogueBox.Commandline.Play
import DialogueBox.Proofs.Json.Lawful
import DialogueBox.Proofs.Json.Texts
import DialogueBox.Proofs.Markup.Sections
import DialogueBox.Proofs.Playback.Transcript

/-!
# What playing a script prints

A script that is played to its end within the time limit is printed page by page, and the pages are
those of the compiled text (`play_prints_pages`). The length of a frame, the sizes of cells and the
settings have no say in them. In plain print, where no page tells its time, the whole output is that
of the pages (`plainPrint`). In JSON print it is a line for each page, and what the line writes by
the grammar of JSON is the number, the text, the events and the end of the page, besides a time
(`WritesPages`).

Each stage of the command has a lemma: the arguments (`PlayOptions.frame_pos`), the section
(`section?_of_hasSection`), the session (`PlayOptions.pages_transcript`), the printing
(`flatMap_lines_plain`, `writesPages_lines_json`) and the outcome (`PlayOptions.status_playSource`).
-/

namespace DialogueBox

/-! ## Labels -/

namespace Markup

/-- There is a section to play: any text is one, and one with a label needs a marker. -/
def HasSection (source : List Char) (label : Option String) : Prop :=
  ∀ l, label = some l → ∃ line ∈ Text.lines source, markerLabel? line = some l.toList

theorem section?_of_hasSection {source : List Char} {label : Option String}
    (h : HasSection source label) : ∃ s, section? source label = .ok s := by
  cases label with
  | none => exact ⟨source, rfl⟩
  | some l =>
    obtain ⟨line, hline, hmarker⟩ := h l rfl
    exact exists_section?_iff.mpr ⟨line, hline, markerLabel?_eq_some_iff.mp hmarker⟩

theorem section?_of_not_hasSection {source : List Char} {label : Option String}
    (h : ¬HasSection source label) : ∃ e, section? source label = .error e := by
  cases label with
  | none => exact absurd (fun l hl => by simp at hl) h
  | some l =>
    refine ⟨⟨l⟩, section?_of_not_marks fun line hline hmarks => h fun l' hl' => ?_⟩
    cases hl'
    exact ⟨line, hline, markerLabel?_eq_some_iff.mpr hmarks⟩

end Markup

/-! ## Plain print -/

/-- The lines of a page in plain print. -/
def PageContent.plainLines (page : PageContent) (number : Nat) : List String :=
  page.events.map ("[event] " ++ ·) ++ ["── " ++ number.repr ++ " ──", page.text]
    ++ if page.ended then ["[end]"] else []

/-- Pages in plain print, numbered from 1. -/
def plainPrint (pages : List PageContent) : String :=
  Text.ofLines ((pages.zipIdx 1).flatMap fun p => p.1.plainLines p.2)

/-- Records that are numbered from 1. -/
theorem zipIdx_map_content {records : List PageRecord}
    (h : records.map PageRecord.number = List.range' 1 records.length) :
    (records.map PageRecord.content).zipIdx 1 = records.map fun r => (r.content, r.number) := by
  rw [List.zipIdx_eq_zip_range', List.length_map, ← h, List.zip_map']

/-- In plain print a record is its content and its number. -/
theorem flatMap_lines_plain {records : List PageRecord}
    (h : records.map PageRecord.number = List.range' 1 records.length) :
    Text.ofLines (records.flatMap (·.lines .plain)) =
      plainPrint (records.map PageRecord.content) := by
  unfold plainPrint
  rw [zipIdx_map_content h, List.flatMap_map]
  rfl

/-! ## JSON print -/

/-- A line writes a page as an object: its number, its text, its events, the time at which it was
noted, and whether the script ends on it. -/
def PageContent.WritesJson (page : PageContent) (number : Nat) (line : List Char) : Prop :=
  '\n' ∉ line ∧ ∃ clock : Nat, Json.Writes line (.object [
    (some "page", .number ⟨false, Nat.toDigits 10 number, [], none⟩),
    (some "text", .string (some page.text)),
    (some "events", .array (page.events.map fun name => .string (some name))),
    (some "clock_ms", .number ⟨false, Nat.toDigits 10 clock, [], none⟩),
    (some "ended", .bool page.ended)])

/-- A text in JSON print: a line for each page, and the pages are numbered from 1. -/
def WritesPages (output : List Char) (pages : List PageContent) : Prop :=
  ∃ lines : List (List Char), output = lines.flatMap (· ++ ['\n']) ∧
    List.Forall₂ (fun line p => p.1.WritesJson p.2 line) lines (pages.zipIdx 1)

/-- **The JSON text of a record writes its content and its number.** -/
theorem PageRecord.writesJson_print (r : PageRecord) :
    r.content.WritesJson r.number r.toJson.print := by
  have hwf : r.toJson.WellFormed := by
    refine Json.wellFormed_record ?_
    simp only [List.forall_mem_cons]
    exact ⟨Json.Form.lawful_word64.wellFormed _, Json.Form.lawful_string.wellFormed _,
      (Json.Form.lawful_string.list).wellFormed _, Json.Form.lawful_word64.wellFormed _,
      Json.Form.lawful_bool.wellFormed _, fun _ h => nomatch h⟩
  exact ⟨hwf.newline_notMem_print, r.clock, Json.read_eq_some_iff.mp (Json.read_print hwf)⟩

theorem Text.toList_ofLines (lines : List String) :
    (Text.ofLines lines).toList = (lines.map String.toList).flatMap (· ++ ['\n']) := by
  simp [Text.ofLines, String.toList_join, List.flatMap_map]

/-- In JSON print a record is one line. -/
theorem writesPages_lines_json {records : List PageRecord}
    (h : records.map PageRecord.number = List.range' 1 records.length) :
    WritesPages (Text.ofLines (records.flatMap (·.lines .json))).toList
      (records.map PageRecord.content) := by
  have hlines : (records.flatMap (·.lines .json)).map String.toList =
      records.map fun r => r.toJson.print := by
    rw [List.map_flatMap]
    simp only [PageRecord.lines, List.map_cons, List.map_nil, String.toList_ofList]
    rw [← List.map_eq_flatMap]
  refine ⟨_, Text.toList_ofLines _, ?_⟩
  rw [hlines, zipIdx_map_content h, List.forall₂_map_left_iff, List.forall₂_map_right_iff,
    List.forall₂_same]
  exact fun r _ => r.writesJson_print

namespace Commandline

/-! ## The length of a frame -/

/-- What holds of the default of an option and of all that is read for it holds of its value. -/
theorem Arguments.of_valueWith {α : Type} {P : α → Prop} {a : Arguments} {name : String}
    {read : String → Option α} {default x : α} (h : a.valueWith name read default = .ok x)
    (hdefault : P default) (hread : ∀ s y, read s = some y → P y) : P x := by
  unfold valueWith at h
  split at h
  · rw [← Except.ok.inj h]
    exact hdefault
  · split at h
    · next hs =>
      rw [← Except.ok.inj h]
      exact hread _ _ hs
    · simp at h

theorem readFrame_pos {s : String} {n : Nat} (h : readFrame s = some n) : 0 < n := by
  unfold readFrame at h
  split at h
  · split at h
    · next k hk =>
      rw [← Option.some.inj h]
      omega
    · simp at h
  · simp at h

theorem bind_eq_ok {ε α β : Type} {x : Except ε α} {f : α → Except ε β} {b : β}
    (h : x >>= f = .ok b) : ∃ a, x = .ok a ∧ f a = .ok b := by
  cases x with
  | error e => simp [bind, Except.bind] at h
  | ok a => exact ⟨a, rfl, h⟩

/-- **A frame takes time**, whatever the arguments are. -/
theorem PlayOptions.frame_pos {args : List String} {o : PlayOptions}
    (h : ofArguments args = .ok o) : 0 < o.frame := by
  unfold ofArguments at h
  obtain ⟨a, -, h⟩ := bind_eq_ok h
  obtain ⟨settings, -, h⟩ := bind_eq_ok h
  obtain ⟨frame, hframe, h⟩ := bind_eq_ok h
  obtain ⟨width, -, h⟩ := bind_eq_ok h
  obtain ⟨height, -, h⟩ := bind_eq_ok h
  obtain ⟨limit, -, h⟩ := bind_eq_ok h
  have hpos : 0 < frame := Arguments.of_valueWith hframe (by decide) fun _ _ => readFrame_pos
  -- the operands make the difference between success and failure, but not for the frame
  split at h
  · simp [throw, throwThe, MonadExceptOf.throw] at h
  · dsimp only at h
    split at h
    · simp [throw, throwThe, MonadExceptOf.throw, bind, Except.bind] at h
    · rw [← Except.ok.inj h]
      exact hpos
  · simp [throw, throwThe, MonadExceptOf.throw] at h

/-! ## The command -/

/-- The pages that a script is played as. -/
def PlayOptions.pages (o : PlayOptions) (source : List Char) : List PageContent :=
  (Markup.compile (Markup.playedText source o.label)).script.pages

/-- The session that plays a source text, before its first frame. -/
def PlayOptions.session (o : PlayOptions) (settings : Settings) (source : List Char) : Session where
  player := ((Player.ofSettings (MetricTable.toMetrics { cell := o.cell }) settings).presentSection
    source o.label).1

/-- The box closes before the time limit is passed. -/
def PlayOptions.EndsInTime (o : PlayOptions) (settings : Settings) (source : List Char) : Prop :=
  ∃ n, n * o.frame ≤ o.limit ∧
    ((Session.frame o.frame)^[n] (o.session settings source)).player.isBusy = false

theorem PlayOptions.ending_transcript {o : PlayOptions} {settings : Settings} {source : List Char}
    (hframe : 0 < o.frame) (h : o.EndsInTime settings source) :
    (o.transcript settings source).ending = .closed := by
  obtain ⟨n, hn, hclosed⟩ := h
  refine Player.ending_transcript hframe hn hclosed ?_
  rw [Player.presentSection_eq]
  rfl

/-- The transcript of a session that ends by itself. -/
theorem PlayOptions.pages_transcript {o : PlayOptions} {settings : Settings} {source : List Char}
    (h : (o.transcript settings source).ending = .closed) :
    (o.transcript settings source).pages.map PageRecord.content = o.pages source ∧
      (o.transcript settings source).pages.map PageRecord.number =
        List.range' 1 (o.pages source).length ∧
      (o.transcript settings source).events = [] := by
  have hc := Player.Coherent.ofSettings (MetricTable.toMetrics { cell := o.cell }) settings
  unfold PlayOptions.transcript at h ⊢
  dsimp only at h ⊢
  rw [Player.presentSection_eq] at h ⊢
  generalize Player.ofSettings (MetricTable.toMetrics { cell := o.cell }) settings = p at hc h ⊢
  have hd : ({ p with
      dropped := (Markup.compile (Markup.playedText source o.label)).dropped } : Player).Coherent :=
    ⟨hc.speed_pos, hc.page_clear, hc.mode, hc.idle⟩
  exact Player.pages_transcript hd _ o.frame o.limit h

theorem PlayOptions.output_playSource (o : PlayOptions) (settings : Settings)
    (source : List Char) :
    (o.playSource settings source).output = (o.transcript settings source).text o.print := by
  unfold playSource
  dsimp only
  split <;> rfl

/-- Playing to the end succeeds if and only if there is a section to play. -/
theorem PlayOptions.status_playSource {o : PlayOptions} {settings : Settings} {source : List Char}
    (h : (o.transcript settings source).ending = .closed) :
    (Markup.HasSection source o.label → (o.playSource settings source).status = .success) ∧
      (¬Markup.HasSection source o.label → (o.playSource settings source).status = .failure) := by
  unfold playSource
  dsimp only
  rw [h]
  constructor
  · intro hs
    obtain ⟨s, hs⟩ := Markup.section?_of_hasSection hs
    rw [hs]
  · intro hs
    obtain ⟨e, he⟩ := Markup.section?_of_not_hasSection hs
    rw [he]

theorem PlayOptions.run_eq_playSource {tree : FileTree} {o : PlayOptions} {source : String}
    {settings : Settings} (hsource : tree.read? o.script = some source)
    (hlist : o.listLabels = false) (hsettings : o.readSettings tree = .ok settings) :
    o.run tree = o.playSource settings source.toList := by
  unfold run
  rw [hsource]
  dsimp only
  rw [hlist, if_neg Bool.false_ne_true, hsettings]

theorem play_eq_playSource {tree : FileTree} {args : List String} {o : PlayOptions}
    {source : String} {settings : Settings} (ho : PlayOptions.ofArguments args = .ok o)
    (hsource : tree.read? o.script = some source) (hlist : o.listLabels = false)
    (hsettings : o.readSettings tree = .ok settings) :
    play tree args = o.playSource settings source.toList := by
  unfold play
  rw [ho]
  exact PlayOptions.run_eq_playSource hsource hlist hsettings

/--
**Playing a script prints its pages.**

Whatever the arguments and the settings are: if the box closes before the time limit is passed, the
output is made of the lines of one record for each page of the script, in order, numbered from 1,
and of nothing else. In plain print it is the plain print of these pages, and in JSON print it has a
line for each of them that writes it. The command succeeds if there is a section to play, and fails
if not.
-/
theorem play_prints_pages {tree : FileTree} {args : List String} {o : PlayOptions}
    {source : String} {settings : Settings} (ho : PlayOptions.ofArguments args = .ok o)
    (hsource : tree.read? o.script = some source) (hlist : o.listLabels = false)
    (hsettings : o.readSettings tree = .ok settings)
    (htime : o.EndsInTime settings source.toList) :
    (∃ records : List PageRecord,
      records.map PageRecord.content = o.pages source.toList ∧
      records.map PageRecord.number = List.range' 1 (o.pages source.toList).length ∧
      (play tree args).output = Text.ofLines (records.flatMap (·.lines o.print))) ∧
    (o.print = .plain → (play tree args).output = plainPrint (o.pages source.toList)) ∧
    (o.print = .json → WritesPages (play tree args).output.toList (o.pages source.toList)) ∧
    (Markup.HasSection source.toList o.label → (play tree args).status.code = 0) ∧
    (¬Markup.HasSection source.toList o.label → (play tree args).status.code = 1) := by
  have hclosed := PlayOptions.ending_transcript (PlayOptions.frame_pos ho) htime
  obtain ⟨hcontent, hnumber, hevents⟩ := PlayOptions.pages_transcript hclosed
  obtain ⟨hsuccess, hfailure⟩ := PlayOptions.status_playSource hclosed
  rw [play_eq_playSource ho hsource hlist hsettings]
  have houtput : (o.playSource settings source.toList).output =
      Text.ofLines ((o.transcript settings source.toList).pages.flatMap (·.lines o.print)) := by
    rw [PlayOptions.output_playSource, Transcript.text, Transcript.lines, hevents, List.map_nil,
      List.append_nil]
  have hnumber' : (o.transcript settings source.toList).pages.map PageRecord.number =
      List.range' 1 (o.transcript settings source.toList).pages.length := by
    rw [hnumber, ← hcontent, List.length_map]
  refine ⟨⟨_, hcontent, hnumber, houtput⟩, ?_, ?_, ?_, ?_⟩
  · intro hprint
    rw [houtput, hprint, ← hcontent]
    exact flatMap_lines_plain hnumber'
  · intro hprint
    rw [houtput, hprint, ← hcontent]
    exact writesPages_lines_json hnumber'
  · intro hs
    rw [hsuccess hs]
    rfl
  · intro hs
    rw [hfailure hs]
    rfl

/-- A page that is turned by itself, and a page with a pause on which the script ends, in either
print. -/
theorem play_prints_pages_timed :
    let source := "hi[event:e][next:30]\n\nyo[wait:10]![end]"
    let tree : FileTree := ({} : FileTree).addFile "a" (some source)
    let o : PlayOptions := { script := "a", frame := 50 }
    let plain := play tree ["--tick-ms", "50", "a"]
    let json := play tree ["--json", "--tick-ms", "50", "a"]
    (plain.output = "[event] e\n── 1 ──\nhi\n── 2 ──\nyo!\n[end]\n" ∧
      plain.output = plainPrint (o.pages source.toList) ∧ plain.status.code = 0) ∧
    json.output = "\x7b\"page\":1,\"text\":\"hi\",\"events\":[\"e\"],\"clock_ms\":100," ++
        "\"ended\":false\x7d\n\x7b\"page\":2,\"text\":\"yo!\",\"events\":[],\"clock_ms\":300," ++
        "\"ended\":true\x7d\n" ∧
      WritesPages json.output.toList (o.pages source.toList) ∧ json.status.code = 0 := by
  intro source tree o plain json
  have hplainArgs : PlayOptions.ofArguments ["--tick-ms", "50", "a"] = .ok o := rfl
  have hjsonArgs : PlayOptions.ofArguments ["--json", "--tick-ms", "50", "a"] =
      .ok { o with print := .json } := rfl
  have hsource : tree.read? o.script = some source := by decide +kernel
  have hsettings : o.readSettings tree = .ok {} := rfl
  have htime : o.EndsInTime {} source.toList := ⟨8, by decide, by decide +kernel⟩
  have hsection : Markup.HasSection source.toList o.label := fun l hl => by simp [o] at hl
  obtain ⟨-, hplain, -, hsuccess, -⟩ :=
    play_prints_pages hplainArgs hsource rfl hsettings htime
  obtain ⟨-, -, hjson, hsuccess', -⟩ :=
    play_prints_pages hjsonArgs hsource rfl hsettings htime
  exact ⟨⟨by decide +kernel, hplain rfl, hsuccess hsection⟩, by decide +kernel, hjson rfl,
    hsuccess' hsection⟩

end Commandline

end DialogueBox
