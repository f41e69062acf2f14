import DialogueBox.Markup.Compile
import DialogueBox.Proofs.Number.Writing
import DialogueBox.Proofs.Text.Cut
import Mathlib.Data.List.Forall2

/-!
# The grammar of tags

What the inside of a tag may be, and what it then means, without a word on how it is read. The
inside is cut into a name and a value (`CutsInto`); the name is one of the vocabulary (`Tag.Named`);
and with that value the tag means an instruction (`Tag.Means`), or lacks its value
(`Tag.needsValue`), or refuses it (`Tag.Refuses`). Colours go by their names, and a text that names
none means white (`Color.MeantBy`). Reading a tag decides between these cases and gives what the tag
means (`readTag_grammar`). What tags mean is well-formed, and so is every
instruction of a compiled text (`wellFormed_of_mem_compile`).

Values are read in steps, and each step keeps to one contract: it gives what the text writes, or
else refuses the value of its tag (`Reads`). Contracts compose as the steps do (`Reads.bind`).
-/

namespace DialogueBox

open Number Text

/-- The data of an instruction keep to their ranges. Names that stand in it are not empty and have
no blanks at their ends. -/
def Instruction.WellFormed : Instruction → Prop
  | .size points => 1 ≤ points ∧ points ≤ 0x7FFFFFFF
  | .speed ms => 1 ≤ ms ∧ ms ≤ 0xFFFFFFFF
  | .wait ms | .next ms => ms ≤ 0xFFFFFFFF
  | .rotation degrees => degrees.isFinite = true
  | .shake s => s.x.isFinite = true ∧ s.y.isFinite = true ∧ s.speed.isFinite = true
  | .icon id | .event id => id.toList ≠ [] ∧ Trimmed id.toList
  | .font id => ∀ s ∈ id, s.toList ≠ [] ∧ Trimmed s.toList
  | _ => True

/-! ## Names of colours -/

namespace Color

/-- The names of a colour: that under which it is shown, and the other spelling of grey. -/
def names : Color → List String
  | gray => ["Gray", "Grey"]
  | darkGray => ["DarkGray", "DarkGrey"]
  | lightGray => ["LightGray", "LightGrey"]
  | c => [c.name]

/-- A character stands for a letter of a name: so does the letter in either case, and for the letter
`k` also the Kelvin sign, of which it is the lower-case form. -/
inductive StandsFor : Char → Char → Prop
  | letter {c l : Char} (h : c.toLower = l.toLower) : StandsFor c l
  | kelvin {l : Char} (h : l.toLower = 'k') : StandsFor '\u212a' l

/-- A text is a name of a colour, up to letter case. -/
def Named (c : Color) (v : List Char) : Prop :=
  ∃ name ∈ c.names, List.Forall₂ StandsFor v name.toList

/-- The colour that a text means: the one it names, and white if it names none. -/
inductive MeantBy (v : List Char) : Color → Prop
  | named {c : Color} (h : c.Named v) : MeantBy v c
  | unknown (h : ∀ c : Color, ¬c.Named v) : MeantBy v white

/-- **The spellings of a colour are its names in lower case.** -/
theorem spellings_eq_names (c : Color) : (spellings.filter fun p => p.2 == c).map Prod.fst =
    c.names.map fun name => String.ofList (name.toList.map Char.toLower) := by
  cases c <;> decide

theorem standsFor_iff {c l : Char} (hl : l.toLower ≠ kelvinSign) :
    StandsFor c l ↔ lowerForName c = l.toLower := by
  unfold lowerForName
  split
  · next hc =>
    subst hc
    refine ⟨?_, fun h => .kelvin h.symm⟩
    rintro (h | h)
    · exact absurd h.symm hl
    · exact h.symm
  · next hc =>
    refine ⟨?_, .letter⟩
    rintro (h | _)
    · exact h
    · exact absurd rfl hc

theorem forall₂_standsFor_iff {v name : List Char} (h : ∀ l ∈ name, l.toLower ≠ kelvinSign) :
    List.Forall₂ StandsFor v name ↔ v.map lowerForName = name.map Char.toLower := by
  induction name generalizing v with
  | nil => simp
  | cons l name ih =>
    rw [List.forall_mem_cons] at h
    cases v with
    | nil => simp
    | cons c v =>
      rw [List.forall₂_cons, standsFor_iff h.1, ih h.2, List.map_cons, List.map_cons,
        List.cons_eq_cons]

theorem named_iff {c : Color} {v : List Char} :
    c.Named v ↔ (String.ofList (v.map lowerForName), c) ∈ spellings := by
  have hall : c.names.all (fun name => name.toList.all fun l => l.toLower != kelvinSign) := by
    cases c <;> decide
  have hnames : ∀ name ∈ c.names, ∀ l ∈ name.toList, l.toLower ≠ kelvinSign := by
    simpa only [List.all_eq_true, bne_iff_ne] using hall
  have hmem : ∀ s, (s, c) ∈ spellings ↔ s ∈ (spellings.filter fun p => p.2 == c).map Prod.fst := by
    simp
  rw [hmem, spellings_eq_names, List.mem_map]
  refine exists_congr fun name => and_congr_right fun hname => ?_
  rw [forall₂_standsFor_iff (hnames name hname), String.ofList_inj, eq_comm]

/-- A text is looked up as the colour that it names. -/
theorem ofText?_eq_some_iff {c : Color} {v : List Char} (hv : Trimmed v) :
    ofText? v = some c ↔ c.Named v := by
  rw [named_iff, ofText?, hv.trim_eq]
  refine ⟨fun h => ?_, lookup_spellings _⟩
  obtain ⟨before, after, hsplit, -⟩ := List.lookup_eq_some_iff.mp h
  rw [hsplit]
  exact List.mem_append_cons_self

/-- **A text means the colour that it is read as.** -/
theorem meantBy_iff {c : Color} {v : List Char} (hv : Trimmed v) :
    MeantBy v c ↔ c = ofText v := by
  rw [ofText]
  cases hname : ofText? v with
  | some d =>
    have hd := (ofText?_eq_some_iff hv).mp hname
    constructor
    · rintro (hc | hnone)
      · exact Option.some.inj (((ofText?_eq_some_iff hv).mpr hc).symm.trans hname)
      · exact absurd hd (hnone d)
    · rintro rfl
      exact .named hd
  | none =>
    have hnone : ∀ d : Color, ¬d.Named v := fun d hd => by
      rw [(ofText?_eq_some_iff hv).mpr hd] at hname
      cases hname
    constructor
    · rintro (hc | -)
      · exact absurd hc (hnone c)
      · rfl
    · rintro rfl
      exact .unknown hnone

theorem exists_meantBy (v : List Char) : ∃ c, MeantBy v c := by
  by_cases h : ∃ c : Color, c.Named v
  · obtain ⟨c, hc⟩ := h
    exact ⟨c, .named hc⟩
  · exact ⟨white, .unknown (not_exists.mp h)⟩

end Color

namespace Markup

/-! ## The grammar -/

/-- The inside of a tag has a name and a value: what stands before and after its first colon,
without the blanks around. Without a colon there is no value. -/
inductive CutsInto : List Char → List Char → Option (List Char) → Prop
  | bare {inner : List Char} (h : ':' ∉ inner) : CutsInto inner (trim inner) none
  | valued {name value : List Char} (h : ':' ∉ name) :
      CutsInto (name ++ ':' :: value) (trim name) (some (trim value))

/-- A text writes a whole number of 64 bits. -/
def WritesWhole (v : List Char) (n : Int) : Prop :=
  WritesInteger v n ∧ -0x8000000000000000 ≤ n ∧ n ≤ 0x7FFFFFFFFFFFFFFF

/-- What one to three numbers say about shaking. -/
inductive ShakeOf : List Float32 → Shake → Prop
  | both (a : Float32) : ShakeOf [a] ⟨a, a, 20⟩
  | each (x y : Float32) : ShakeOf [x, y] ⟨x, y, 20⟩
  | paced (x y rate : Float32) : ShakeOf [x, y, rate] ⟨x, y, rate⟩

/-- The parts of a text between commas write finite numbers, with blanks around them or without, and
the numbers say how to shake. -/
def WritesShake (v : List Char) (s : Shake) : Prop :=
  ∃ xs, List.Forall₂ (fun part x => WritesFinite (trim part) x) (v.splitOn ',') xs ∧ ShakeOf xs s

namespace Tag

/-- A text is the name of a tag, up to letter case. -/
def Named (t : Tag) (key : List Char) : Prop := sameIgnoringCase t.key.toList key = true

/-- Whether a tag stands for nothing without a value. -/
def needsValue : Tag → Bool
  | size | speed | rotate | shake | wait | icon | event => true
  | _ => false

/-- The instructions that a tag stands for with a value. No value and an empty one are the same. -/
def Means : Tag → List Char → Instruction → Prop
  | size, v, i => ∃ n, (WritesWhole v n ∧ 1 ≤ n ∧ n ≤ 0x7FFFFFFF) ∧ i = .size n
  | color, v, i => ∃ c, Color.MeantBy v c ∧ i = .color c
  | speed, v, i => ∃ n, WritesWhole v n ∧ i = .speed (max 1 (min n 0xFFFFFFFF)).toNat
  | rotate, v, i => ∃ x, WritesFinite v x ∧ i = .rotation x
  | shake, v, i => ∃ s, WritesShake v s ∧ i = .shake s
  | reset, _, i => i = .reset
  | wait, v, i => ∃ n, WritesWhole v n ∧ i = .wait (max 0 (min n 0xFFFFFFFF)).toNat
  | icon, v, i => v ≠ [] ∧ i = .icon (String.ofList v)
  | next, v, i =>
    if v = [] then i = .next 0
    else ∃ n, WritesWhole v n ∧ i = .next (max 0 (min n 0xFFFFFFFF)).toNat
  | event, v, i => v ≠ [] ∧ i = .event (String.ofList v)
  | font, v, i => i = .font (if v = [] then none else some (String.ofList v))
  | input, v, i => i = .input !sameIgnoringCase v "disable".toList
  | finish, _, i => i = .finish

/-- What a tag refuses as its value. -/
def Refuses : Tag → List Char → Prop
  | size, v => ¬∃ n, WritesWhole v n ∧ 1 ≤ n ∧ n ≤ 0x7FFFFFFF
  | speed, v | wait, v | next, v => ¬∃ n, WritesWhole v n
  | rotate, v => ¬∃ x, WritesFinite v x
  | shake, v =>
    (∃ part ∈ v.splitOn ',', ¬∃ x, WritesFinite (trim part) x) ∨
      ¬(1 ≤ (v.splitOn ',').length ∧ (v.splitOn ',').length ≤ 3)
  | _, _ => False

end Tag

/-! ## Cutting -/

variable {inner key v : List Char} {value : Option (List Char)} {t : Tag}

theorem cutsInto_iff : CutsInto inner key value ↔ splitTag inner = (key, value) := by
  constructor
  · intro h
    unfold splitTag
    cases h with
    | bare h =>
      cases hs : splitAt? ':' inner with
      | none => rfl
      | some p => exact absurd (by simp [(eq_of_splitAt? hs).1]) h
    | @valued name value h =>
      rw [splitAt?_append_left h, splitAt?, if_pos rfl]
      simp
  · intro h
    unfold splitTag at h
    split at h
    · next hs =>
      cases h
      obtain ⟨rfl, hname⟩ := eq_of_splitAt? hs
      exact .valued hname
    · next hs =>
      cases h
      exact .bare (notMem_of_splitAt?_eq_none hs)

theorem CutsInto.trimmed (h : CutsInto inner key value) :
    Trimmed key ∧ Trimmed (value.getD []) := by
  cases h with
  | bare _ => exact ⟨trimmed_trim _, trimmed_trim []⟩
  | valued _ => exact ⟨trimmed_trim _, trimmed_trim _⟩

/-! ## Names -/

namespace Tag

theorem mem_all (t : Tag) : t ∈ all := by cases t <;> decide

/-- No two tags have names that differ in letter case alone. -/
theorem eq_of_sameIgnoringCase :
    ∀ t u : Tag, sameIgnoringCase t.key.toList u.key.toList = true → t = u := by
  intro t u
  cases t <;> cases u <;> decide

example : all.map Tag.key = ["size", "color", "speed", "rotate", "shake", "reset", "wait", "icon",
    "next", "event", "font", "input", "end"] := by decide

/-- A text names one tag at most. -/
theorem Named.eq {u : Tag} (ht : t.Named key) (hu : u.Named key) : t = u := by
  simp only [Named, sameIgnoringCase, beq_iff_eq] at ht hu
  exact eq_of_sameIgnoringCase t u (by simp [sameIgnoringCase, ht, hu])

/-- A tag is found just under its name. -/
theorem ofText?_eq_some_iff (hkey : Trimmed key) : ofText? key = some t ↔ t.Named key := by
  rw [ofText?, hkey.trim_eq]
  constructor
  · intro h
    have hname := List.find?_some h
    exact hname
  · intro h
    cases hfind : all.find? fun u => sameIgnoringCase u.key.toList key with
    | none => exact absurd h (List.find?_eq_none.mp hfind t (mem_all t))
    | some u =>
      have hname := List.find?_some hfind
      rw [h.eq (u := u) hname]

theorem ofText?_eq_none_iff (hkey : Trimmed key) :
    ofText? key = none ↔ ∀ t : Tag, ¬t.Named key := by
  rw [ofText?, hkey.trim_eq, List.find?_eq_none]
  exact ⟨fun h t => h t (mem_all t), fun h t _ => h t⟩

end Tag

/-! ## Reading in steps -/

/-- The contract of a step that reads the value of a tag: it gives what there is to read, and
refuses the value if there is nothing. -/
structure Reads {α : Type} (t : Tag) (P : α → Prop) (r : Except TagFault α) : Prop where
  ok_iff : ∀ a, r = .ok a ↔ P a
  refused : ∀ e, r = .error e → ∃ w f, e = .invalidValue t w f

namespace Reads

variable {α β : Type} {P Q : α → Prop} {r : Except TagFault α}

theorem congr (h : Reads t P r) (hPQ : ∀ a, P a ↔ Q a) : Reads t Q r :=
  ⟨fun a => (h.ok_iff a).trans (hPQ a), h.refused⟩

protected theorem ok (a : α) : Reads t (· = a) (.ok a) :=
  ⟨fun b => by rw [Except.ok.injEq]; exact eq_comm, fun _ h => nomatch h⟩

theorem refuse (w : String) (f : ValueFault) (hP : ∀ a, ¬P a) :
    Reads t P (.error (.invalidValue t w f)) := by
  refine ⟨fun a => ⟨?_, fun h => absurd h (hP a)⟩, ?_⟩
  · rintro ⟨⟩
  · rintro e ⟨⟩
    exact ⟨w, f, rfl⟩

/-- **Contracts compose:** a second step reads on from what the first one gave. -/
theorem bind {R : α → β → Prop} {f : α → Except TagFault β} (h : Reads t P r)
    (hf : ∀ a, P a → Reads t (R a) (f a)) : Reads t (fun b => ∃ a, P a ∧ R a b) (r >>= f) := by
  cases hr : r with
  | error e =>
    obtain ⟨w, g, rfl⟩ := h.refused e hr
    refine refuse w g ?_
    rintro b ⟨a, ha, -⟩
    rw [(h.ok_iff a).mpr ha] at hr
    cases hr
  | ok a =>
    have ha : P a := (h.ok_iff a).mp hr
    refine (hf a ha).congr fun b => ⟨fun hb => ⟨a, ha, hb⟩, ?_⟩
    -- there is nothing else that the first step could have given
    rintro ⟨a', ha', hb⟩
    have heq : r = .ok a' := (h.ok_iff a').mpr ha'
    rw [hr] at heq
    cases heq
    exact hb

theorem map (h : Reads t P r) (f : α → β) : Reads t (fun b => ∃ a, P a ∧ b = f a) (r.map f) :=
  h.bind fun a _ => Reads.ok (f a)

/-- A list is read part by part. -/
theorem mapM {γ : Type} {R : γ → α → Prop} {f : γ → Except TagFault α}
    (hf : ∀ c, Reads t (R c) (f c)) (cs : List γ) :
    Reads t (List.Forall₂ R cs) (cs.mapM f) := by
  induction cs with
  | nil =>
    rw [List.mapM_nil]
    exact (Reads.ok []).congr fun as => List.forall₂_nil_left_iff.symm
  | cons c cs ih =>
    rw [List.mapM_cons]
    refine ((hf c).bind fun a _ => ih.bind fun as _ => Reads.ok (a :: as)).congr fun bs => ?_
    rw [List.forall₂_cons_left_iff]
    constructor
    · rintro ⟨a, ha, as, has, rfl⟩
      exact ⟨a, as, ha, has, rfl⟩
    · rintro ⟨a, as, ha, has, rfl⟩
      exact ⟨a, ha, as, has, rfl⟩

/-- A value is refused just if there is nothing to read in it. -/
theorem refused_iff (h : Reads t P r) :
    (∃ w f, r = .error (.invalidValue t w f)) ↔ ∀ a, ¬P a := by
  constructor
  · rintro ⟨w, f, hr⟩ a ha
    rw [(h.ok_iff a).mpr ha] at hr
    cases hr
  · intro hP
    cases hr : r with
    | error e =>
      obtain ⟨w, f, rfl⟩ := h.refused e hr
      exact ⟨w, f, rfl⟩
    | ok a => exact absurd ((h.ok_iff a).mp hr) (hP a)

end Reads

/-! ## Values -/

namespace Tag

theorem reads_whole (t : Tag) (v : List Char) : Reads t (WritesWhole (trim v)) (t.readWhole v) := by
  have hiff : ∀ n, readInteger signed64 (trim v) = .ok n ↔ WritesWhole (trim v) n := by
    intro n
    rw [readInteger_eq_ok_iff (by decide) (by decide), IntegerRange.contains_iff]
    rfl
  unfold readWhole
  cases hr : readInteger signed64 (trim v) with
  | ok n => exact (Reads.ok n).congr fun m => by rw [← hiff, hr, Except.ok.injEq, eq_comm]
  | error f =>
    refine .refuse _ _ fun n hn => ?_
    rw [(hiff n).mpr hn] at hr
    cases hr

theorem reads_finite (t : Tag) (v : List Char) :
    Reads t (WritesFinite (trim v)) (t.readFinite v) := by
  unfold readFinite
  cases hr : readSingle (trim v) with
  | error f =>
    refine .refuse _ _ fun x hx => ?_
    rw [(readSingle_finite_iff.mpr hx).1] at hr
    cases hr
  | ok y =>
    have hiff : ∀ x, WritesFinite (trim v) x ↔ x = y ∧ x.isFinite = true := by
      intro x
      rw [← readSingle_finite_iff, hr, Except.ok.injEq, eq_comm]
    -- a text can write a number whose nearest one in single precision is infinite
    show Reads t _ (if y.isFinite = true then .ok y else .error _)
    by_cases hy : y.isFinite = true
    · rw [if_pos hy]
      refine (Reads.ok y).congr fun x => ?_
      rw [hiff]
      exact ⟨fun h => ⟨h, h ▸ hy⟩, fun h => h.1⟩
    · rw [if_neg hy]
      refine .refuse _ _ fun x hx => ?_
      obtain ⟨rfl, hfinite⟩ := (hiff x).mp hx
      exact hy hfinite

theorem reads_shake (t : Tag) (v : List Char) : Reads t (WritesShake v) (t.readShake v) := by
  unfold readShake WritesShake
  rw [splitAll_eq]
  refine (Reads.mapM t.reads_finite _).bind fun xs _ => ?_
  match xs with
  | [] => exact .refuse _ _ fun _ h => nomatch h
  | [a] => exact (Reads.ok _).congr fun s => ⟨by rintro rfl; exact .both a, by rintro ⟨⟩; rfl⟩
  | [x, y] => exact (Reads.ok _).congr fun s => ⟨by rintro rfl; exact .each x y, by rintro ⟨⟩; rfl⟩
  | [x, y, rate] =>
    exact (Reads.ok _).congr fun s => ⟨by rintro rfl; exact .paced x y rate, by rintro ⟨⟩; rfl⟩
  | _ :: _ :: _ :: _ :: _ => exact .refuse _ _ fun _ h => nomatch h

/-- A duration is brought into its range. -/
theorem reads_duration (t : Tag) (v : List Char) (make : Nat → Instruction) :
    Reads t (fun i => ∃ n, WritesWhole (trim v) n ∧ i = make (max 0 (min n 0xFFFFFFFF)).toNat)
      ((t.readDuration v).map make) := by
  refine (((t.reads_whole v).map fun n => (unsigned32.clamp n).toNat).map make).congr fun i => ?_
  constructor
  · rintro ⟨_, ⟨n, hn, rfl⟩, rfl⟩
    exact ⟨n, hn, rfl⟩
  · rintro ⟨n, hn, rfl⟩
    exact ⟨_, ⟨n, hn, rfl⟩, rfl⟩

/-! ## Values that are there, and values that are not -/

theorem bind_content?_of_absent (hv : value.getD [] = []) : value.bind content? = none := by
  cases value with
  | none => rfl
  | some v =>
    cases hv
    rfl

theorem bind_content?_of_present (hv : Trimmed (value.getD [])) (hne : value.getD [] ≠ []) :
    value.bind content? = some (value.getD []) := by
  cases value with
  | none => exact absurd rfl hne
  | some v =>
    rw [Option.getD_some] at hv hne ⊢
    rw [Option.bind_some, content?, hv.trim_eq]
    cases v with
    | nil => exact absurd rfl hne
    | cons c v => rfl

theorem required_of_absent (hv : value.getD [] = []) :
    t.required value = .error (.missingValue t) := by
  rw [required, bind_content?_of_absent hv]

theorem required_of_present (hv : Trimmed (value.getD [])) (hne : value.getD [] ≠ []) :
    t.required value = .ok (value.getD []) := by
  rw [required, bind_content?_of_present hv hne]

/-! ## Instructions -/

theorem instruction_of_absent (ht : t.needsValue = true) (hv : value.getD [] = []) :
    t.instruction value = .error (.missingValue t) := by
  have hrequired : t.required value = .error (.missingValue t) := required_of_absent hv
  unfold instruction
  cases t with
  | size =>
    dsimp only [readSize]
    rw [hrequired]
    rfl
  | speed | rotate | shake | wait | icon | event =>
    dsimp only
    rw [hrequired]
    rfl
  | color | reset | next | font | input | finish => cases ht

/-- A point size is a whole number, and then checked against its own bounds. -/
theorem reads_size (hv : Trimmed (value.getD [])) (hne : value.getD [] ≠ []) :
    Reads t (fun n => WritesWhole (value.getD []) n ∧ 1 ≤ n ∧ n ≤ 0x7FFFFFFF)
      (t.readSize value) := by
  have hwhole := t.reads_whole (value.getD [])
  rw [hv.trim_eq] at hwhole
  unfold readSize
  rw [required_of_present hv hne]
  refine (hwhole.bind (R := fun n m => m = n ∧ 1 ≤ m ∧ m ≤ 0x7FFFFFFF) fun n _ => ?_).congr
    fun m => ⟨?_, fun h => ⟨m, h.1, rfl, h.2⟩⟩
  · by_cases hleast : n ≤ 0
    · rw [if_pos hleast]
      exact .refuse _ _ fun m h => by omega
    · rw [if_neg hleast]
      by_cases hgreatest : signed32.greatest < n
      · rw [if_pos hgreatest]
        exact .refuse _ _ fun m h => absurd hgreatest (Int.not_lt.mpr (h.1 ▸ h.2.2))
      · rw [if_neg hgreatest]
        have hrange : 1 ≤ n ∧ n ≤ 0x7FFFFFFF := ⟨by omega, Int.not_lt.mp hgreatest⟩
        exact (Reads.ok n).congr fun m => ⟨fun h => ⟨h, h ▸ hrange⟩, fun h => h.1⟩
  · rintro ⟨n, hn, rfl, h⟩
    exact ⟨hn, h⟩

/-- **A tag gives the instruction that it stands for,** unless it lacks its value. -/
theorem reads_instruction (hv : Trimmed (value.getD []))
    (hneeds : t.needsValue = true → value.getD [] ≠ []) :
    Reads t (t.Means (value.getD [])) (t.instruction value) := by
  have hwhole := t.reads_whole (value.getD [])
  have hduration := t.reads_duration (value.getD [])
  have hfinite := t.reads_finite (value.getD [])
  rw [hv.trim_eq] at hwhole hduration hfinite
  have hrequired (ht : t.needsValue = true) : t.required value = .ok (value.getD []) :=
    required_of_present hv (hneeds ht)
  unfold instruction
  cases t with
  | size => exact (reads_size hv (hneeds rfl)).map Instruction.size
  | color =>
    refine (Reads.ok _).congr fun i => ?_
    simp only [Means, Color.meantBy_iff hv, exists_eq_left]
  | speed =>
    dsimp only
    rw [hrequired rfl]
    exact hwhole.map Instruction.speedOf
  | rotate =>
    dsimp only
    rw [hrequired rfl]
    exact hfinite.map Instruction.rotation
  | shake =>
    dsimp only
    rw [hrequired rfl]
    exact (reads_shake _ _).map Instruction.shake
  | reset => exact .ok _
  | wait =>
    dsimp only
    rw [hrequired rfl]
    exact hduration Instruction.wait
  | icon =>
    dsimp only
    rw [hrequired rfl]
    exact (Reads.ok _).congr fun i => (and_iff_right (hneeds rfl)).symm
  | next =>
    by_cases hne : value.getD [] = []
    · rw [bind_content?_of_absent hne]
      exact (Reads.ok _).congr fun i => by rw [Means, if_pos hne]
    · rw [bind_content?_of_present hv hne]
      exact (hduration Instruction.next).congr fun i => by rw [Means, if_neg hne]
  | event =>
    dsimp only
    rw [hrequired rfl]
    exact (Reads.ok _).congr fun i => (and_iff_right (hneeds rfl)).symm
  | font =>
    by_cases hne : value.getD [] = []
    · rw [bind_content?_of_absent hne]
      exact (Reads.ok _).congr fun i => by rw [Means, if_pos hne]; rfl
    · rw [bind_content?_of_present hv hne]
      exact (Reads.ok _).congr fun i => by rw [Means, if_neg hne]; rfl
  | input =>
    cases value with
    | none => exact .ok _
    | some v => exact .ok _
  | finish => exact .ok _

/-! ## What is refused -/

theorem exists_forall₂_iff {α β : Type} {R : α → β → Prop} {as : List α} :
    (∃ bs, List.Forall₂ R as bs) ↔ ∀ a ∈ as, ∃ b, R a b := by
  induction as with
  | nil => exact ⟨fun _ a ha => absurd ha List.not_mem_nil, fun _ => ⟨[], .nil⟩⟩
  | cons a as ih =>
    rw [List.forall_mem_cons, ← ih]
    constructor
    · rintro ⟨_, h⟩
      cases h with
      | cons hb hbs => exact ⟨⟨_, hb⟩, _, hbs⟩
    · rintro ⟨⟨b, hb⟩, bs, hbs⟩
      exact ⟨b :: bs, .cons hb hbs⟩

theorem not_exists_iff {α : Type} {P : α → Prop} {f : α → Instruction} :
    (¬∃ a, P a) ↔ ∀ i, ¬∃ a, P a ∧ i = f a := by
  constructor
  · rintro h i ⟨a, ha, -⟩
    exact h ⟨a, ha⟩
  · rintro h ⟨a, ha⟩
    exact h (f a) ⟨a, ha, rfl⟩

theorem exists_shakeOf_iff {xs : List Float32} :
    (∃ s, ShakeOf xs s) ↔ 1 ≤ xs.length ∧ xs.length ≤ 3 := by
  constructor
  · rintro ⟨s, hs⟩
    cases hs with
    | both | each | paced => simp
  · intro h
    match xs with
    | [] => exact absurd h.1 (by decide)
    | [a] => exact ⟨_, .both a⟩
    | [x, y] => exact ⟨_, .each x y⟩
    | [x, y, rate] => exact ⟨_, .paced x y rate⟩
    | _ :: _ :: _ :: _ :: _ => exact absurd h.2 (by simp)

/-- A text writes a shake if it has one to three parts, and each writes a finite number. -/
theorem exists_writesShake_iff : (∃ s, WritesShake v s) ↔
    (∀ part ∈ v.splitOn ',', ∃ x, WritesFinite (trim part) x) ∧
      1 ≤ (v.splitOn ',').length ∧ (v.splitOn ',').length ≤ 3 := by
  unfold WritesShake
  rw [← exists_forall₂_iff]
  constructor
  · rintro ⟨s, xs, hxs, hs⟩
    rw [hxs.length_eq]
    exact ⟨⟨xs, hxs⟩, exists_shakeOf_iff.mp ⟨s, hs⟩⟩
  · rintro ⟨⟨xs, hxs⟩, hlength⟩
    rw [hxs.length_eq] at hlength
    obtain ⟨s, hs⟩ := exists_shakeOf_iff.mpr hlength
    exact ⟨s, xs, hxs, hs⟩

theorem refuses_shake_iff : shake.Refuses v ↔ ¬∃ s, WritesShake v s := by
  rw [exists_writesShake_iff, not_and_or, not_forall]
  simp only [Refuses, not_forall, exists_prop]

/-- A value is refused just if the tag stands for nothing with it. -/
theorem refuses_iff (hne : v ≠ []) : t.Refuses v ↔ ∀ i, ¬t.Means v i := by
  cases t with
  | size | speed | rotate | wait => exact not_exists_iff
  | shake => exact refuses_shake_iff.trans not_exists_iff
  | next =>
    simp only [Means, if_neg hne]
    exact not_exists_iff
  | icon | event => exact ⟨False.elim, fun h => h _ ⟨hne, rfl⟩⟩
  | color =>
    obtain ⟨c, hc⟩ := Color.exists_meantBy v
    exact ⟨False.elim, fun h => h _ ⟨c, hc, rfl⟩⟩
  | reset | font | input | finish => exact ⟨False.elim, fun h => h _ rfl⟩

/-! ## What is given -/

theorem isFinite_of_writesShake {s : Shake} (h : WritesShake v s) :
    s.x.isFinite = true ∧ s.y.isFinite = true ∧ s.speed.isFinite = true := by
  obtain ⟨xs, hxs, hs⟩ := h
  have hfinite : ∀ x ∈ xs, x.isFinite = true := by
    intro x hx
    obtain ⟨part, d, -, -, h⟩ := exists_forall₂_iff.mp ⟨_, hxs.flip⟩ x hx
    exact h
  have hdefault : (20 : Float32).isFinite = true := by decide
  cases hs with
  | both a =>
    have ha := hfinite a (by simp)
    exact ⟨ha, ha, hdefault⟩
  | each x y => exact ⟨hfinite x (by simp), hfinite y (by simp), hdefault⟩
  | paced x y rate => exact ⟨hfinite x (by simp), hfinite y (by simp), hfinite rate (by simp)⟩

/-- The tags that stand for something without a value are those that need none. -/
theorem exists_means_nil_iff : (∃ i, t.Means [] i) ↔ t.needsValue = false := by
  have hinteger : ∀ n, ¬WritesInteger [] n := by
    intro n hn
    cases readExponent_eq_some_iff.mpr hn
  have hfinite : ∀ x, ¬WritesFinite [] x := by
    rintro x ⟨d, hd, -⟩
    cases readDecimal_eq_some_iff.mpr hd
  constructor
  · rintro ⟨i, h⟩
    cases t with
    | size =>
      obtain ⟨n, ⟨hn, -⟩, -⟩ := h
      exact absurd hn.1 (hinteger n)
    | speed | wait =>
      obtain ⟨n, hn, -⟩ := h
      exact absurd hn.1 (hinteger n)
    | rotate =>
      obtain ⟨x, hx, -⟩ := h
      exact absurd hx (hfinite x)
    | shake =>
      obtain ⟨s, hs, -⟩ := h
      -- an empty text has one part, and that is empty
      obtain ⟨x, hx⟩ := (exists_writesShake_iff.mp ⟨s, hs⟩).1 [] (by simp)
      exact absurd hx (hfinite x)
    | icon | event => exact absurd rfl h.1
    | color | reset | next | font | input | finish => rfl
  · intro ht
    cases t with
    | size | speed | rotate | shake | wait | icon | event => cases ht
    | color =>
      obtain ⟨c, hc⟩ := Color.exists_meantBy []
      exact ⟨_, c, hc, rfl⟩
    | reset | next | font | input | finish => exact ⟨_, rfl⟩

/-- **What a tag stands for is well-formed.** -/
theorem wellFormed_of_means {i : Instruction} (hv : Trimmed v) (h : t.Means v i) :
    i.WellFormed := by
  have hname (hne : v ≠ []) : (String.ofList v).toList ≠ [] ∧ Trimmed (String.ofList v).toList := by
    rw [String.toList_ofList]
    exact ⟨hne, hv⟩
  cases t with
  | size =>
    obtain ⟨n, ⟨-, hn⟩, rfl⟩ := h
    exact hn
  | speed =>
    obtain ⟨n, -, rfl⟩ := h
    exact ⟨by omega, by omega⟩
  | rotate =>
    obtain ⟨x, ⟨d, -, -, hx⟩, rfl⟩ := h
    exact hx
  | shake =>
    obtain ⟨s, hs, rfl⟩ := h
    exact isFinite_of_writesShake hs
  | wait =>
    obtain ⟨n, -, rfl⟩ := h
    show _ ≤ _
    omega
  | next =>
    simp only [Means] at h
    split at h
    · cases h
      exact Nat.zero_le _
    · obtain ⟨n, -, rfl⟩ := h
      show _ ≤ _
      omega
  | icon | event =>
    obtain ⟨hne, rfl⟩ := h
    exact hname hne
  | font =>
    cases h
    intro s hs
    split at hs
    · cases hs
    · next hne =>
      cases hs
      exact hname hne
  | color =>
    obtain ⟨c, -, rfl⟩ := h
    trivial
  | reset | input | finish =>
    cases h
    trivial

/-! ## What comes of a value -/

section

variable (hv : Trimmed (value.getD []))

include hv

/-- A tag lacks a value that it needs, or it keeps to the contract of reading. -/
theorem missing_or_reads (t : Tag) :
    (t.needsValue = true ∧ value.getD [] = [] ∧
      t.instruction value = .error (.missingValue t)) ∨
    ((t.needsValue = true → value.getD [] ≠ []) ∧
      Reads t (t.Means (value.getD [])) (t.instruction value)) := by
  by_cases h : t.needsValue = true ∧ value.getD [] = []
  · exact .inl ⟨h.1, h.2, instruction_of_absent h.1 h.2⟩
  · have hneeds : t.needsValue = true → value.getD [] ≠ [] := fun ht hnil => h ⟨ht, hnil⟩
    exact .inr ⟨hneeds, reads_instruction hv hneeds⟩

theorem instruction_eq_ok_iff {i : Instruction} :
    t.instruction value = .ok i ↔ t.Means (value.getD []) i := by
  rcases missing_or_reads hv t with ⟨ht, hnil, hmissing⟩ | ⟨-, hreads⟩
  · rw [hmissing, hnil]
    constructor
    · rintro ⟨⟩
    · intro h
      rw [exists_means_nil_iff.mp ⟨i, h⟩] at ht
      cases ht
  · exact hreads.ok_iff i

theorem instruction_eq_missing_iff {u : Tag} : t.instruction value = .error (.missingValue u) ↔
    u = t ∧ u.needsValue = true ∧ value.getD [] = [] := by
  rcases missing_or_reads hv t with ⟨ht, hnil, hmissing⟩ | ⟨hneeds, hreads⟩
  · rw [hmissing]
    constructor
    · rintro ⟨⟩
      exact ⟨rfl, ht, hnil⟩
    · rintro ⟨rfl, -⟩
      rfl
  · constructor
    · intro h
      obtain ⟨w, f, hf⟩ := hreads.refused _ h
      cases hf
    · rintro ⟨rfl, ht, hnil⟩
      exact absurd hnil (hneeds ht)

theorem instruction_eq_invalid_iff {u : Tag} :
    (∃ w f, t.instruction value = .error (.invalidValue u w f)) ↔
      u = t ∧ value.getD [] ≠ [] ∧ u.Refuses (value.getD []) := by
  rcases missing_or_reads hv t with ⟨-, hnil, hmissing⟩ | ⟨hneeds, hreads⟩
  · rw [hmissing]
    constructor
    · rintro ⟨w, f, ⟨⟩⟩
    · rintro ⟨-, hne, -⟩
      exact absurd hnil hne
  · constructor
    · rintro ⟨w, f, h⟩
      obtain ⟨w', f', hf⟩ := hreads.refused _ h
      cases hf
      have hmeans := hreads.refused_iff.mp ⟨w, f, h⟩
      -- a tag that reads on without a value stands for something without one
      have hne : value.getD [] ≠ [] := by
        intro hnil
        rw [hnil] at hmeans
        have ht : t.needsValue = false := by simpa [hnil] using hneeds
        obtain ⟨i, hi⟩ := exists_means_nil_iff.mpr ht
        exact hmeans i hi
      exact ⟨rfl, hne, (refuses_iff hne).mpr hmeans⟩
    · rintro ⟨rfl, hne, hrefuses⟩
      exact hreads.refused_iff.mpr ((refuses_iff hne).mp hrefuses)

theorem instruction_ne_unknown {k : String} : t.instruction value ≠ .error (.unknown k) := by
  rcases missing_or_reads hv t with ⟨-, -, hmissing⟩ | ⟨-, hreads⟩
  · rw [hmissing]
    rintro ⟨⟩
  · intro h
    obtain ⟨w, f, hf⟩ := hreads.refused _ h
    cases hf

end

end Tag

/-! ## Whole tags -/

theorem readTag_of_named (hcut : CutsInto inner key value) (ht : t.Named key) :
    readTag inner = t.instruction value := by
  rw [readTag, cutsInto_iff.mp hcut, (Tag.ofText?_eq_some_iff hcut.trimmed.1).mpr ht]

theorem readTag_of_not_named (hcut : CutsInto inner key value) (h : ∀ t : Tag, ¬t.Named key) :
    readTag inner = .error (.unknown (String.ofList key)) := by
  rw [readTag, cutsInto_iff.mp hcut, (Tag.ofText?_eq_none_iff hcut.trimmed.1).mpr h]

theorem wellFormed_of_readTag {i : Instruction} (h : readTag inner = .ok i) : i.WellFormed := by
  obtain ⟨key, value, hcut⟩ : ∃ key value, CutsInto inner key value :=
    ⟨_, _, cutsInto_iff.mpr rfl⟩
  by_cases hnamed : ∃ t : Tag, t.Named key
  · obtain ⟨t, ht⟩ := hnamed
    obtain ⟨-, hv⟩ := hcut.trimmed
    rw [readTag_of_named hcut ht, Tag.instruction_eq_ok_iff hv] at h
    exact Tag.wellFormed_of_means hv h
  · rw [readTag_of_not_named hcut (not_exists.mp hnamed)] at h
    cases h

theorem wellFormed_of_mem_instructions {s : Segment} {i : Instruction} (h : i ∈ s.instructions) :
    i.WellFormed := by
  cases s with
  | text cs n =>
    obtain ⟨c, -, hc⟩ := List.mem_filterMap.mp h
    unfold charInstruction? at hc
    split at hc
    · cases hc
    · split at hc <;> (cases hc; trivial)
  | tag inner n =>
    rw [Segment.instructions, Option.mem_toList] at h
    cases hread : readTag inner with
    | error e =>
      rw [hread] at h
      cases h
    | ok j =>
      rw [hread] at h
      cases h
      exact wellFormed_of_readTag hread

/-- **Every instruction of a compiled text is well-formed,** also the one that closes it. -/
theorem wellFormed_of_mem_compile {source : List Char} {i : Instruction}
    (h : i ∈ (compile source).script.instructions) : i.WellFormed := by
  rcases Script.mem_closed h with hsegment | rfl
  · obtain ⟨s, -, hs⟩ := List.mem_flatMap.mp hsegment
    exact wellFormed_of_mem_instructions hs
  · exact Nat.zero_le _

/-- **The grammar of tags.** The inside of a tag has one name and one value. The tag is unknown just
if no tag has the name; it lacks its value just if it needs one and has none; its value is refused
just if there is one that the tag refuses; and otherwise it is read as the instruction that it
stands for, whose data are in their ranges. -/
theorem readTag_grammar (inner : List Char) : ∃ key value,
    (∀ k v, CutsInto inner k v ↔ k = key ∧ v = value) ∧
    (∀ k, readTag inner = .error (.unknown k) ↔
      k = String.ofList key ∧ ∀ t : Tag, ¬t.Named key) ∧
    (∀ t, readTag inner = .error (.missingValue t) ↔
      t.Named key ∧ t.needsValue = true ∧ value.getD [] = []) ∧
    (∀ t, (∃ w f, readTag inner = .error (.invalidValue t w f)) ↔
      t.Named key ∧ value.getD [] ≠ [] ∧ t.Refuses (value.getD [])) ∧
    (∀ i, readTag inner = .ok i ↔ ∃ t : Tag, t.Named key ∧ t.Means (value.getD []) i) ∧
    ∀ i, readTag inner = .ok i → i.WellFormed := by
  obtain ⟨key, value, hcut⟩ : ∃ key value, CutsInto inner key value :=
    ⟨_, _, cutsInto_iff.mpr rfl⟩
  obtain ⟨-, hv⟩ := hcut.trimmed
  have hunique : ∀ k v, CutsInto inner k v ↔ k = key ∧ v = value := by
    intro k v
    rw [cutsInto_iff, cutsInto_iff.mp hcut, Prod.mk.injEq, eq_comm, eq_comm (a := value)]
  have hwell : ∀ i, readTag inner = .ok i → i.WellFormed := fun i => wellFormed_of_readTag
  refine ⟨key, value, hunique, ?_⟩
  by_cases hnamed : ∃ t : Tag, t.Named key
  · obtain ⟨t, ht⟩ := hnamed
    have hname : ∀ u : Tag, u.Named key ↔ u = t := fun u => ⟨fun hu => hu.eq ht, fun h => h ▸ ht⟩
    rw [readTag_of_named hcut ht] at hwell ⊢
    simp only [hname, exists_eq_left]
    refine ⟨fun k => ?_, fun u => Tag.instruction_eq_missing_iff hv,
      fun u => Tag.instruction_eq_invalid_iff hv, fun i => Tag.instruction_eq_ok_iff hv, hwell⟩
    exact ⟨fun h => absurd h (Tag.instruction_ne_unknown hv), fun h => absurd rfl (h.2 t)⟩
  · rw [not_exists] at hnamed
    rw [readTag_of_not_named hcut hnamed] at hwell ⊢
    refine ⟨fun k => ?_, fun u => ?_, fun u => ?_, fun i => ?_, hwell⟩
    · rw [and_iff_left hnamed, Except.error.injEq, TagFault.unknown.injEq]
      exact eq_comm
    · exact iff_of_false (by rintro ⟨⟩) fun h => hnamed u h.1
    · exact iff_of_false (by rintro ⟨w, f, ⟨⟩⟩) fun h => hnamed u h.1
    · exact iff_of_false (by rintro ⟨⟩) fun ⟨t, ht, _⟩ => hnamed t ht

/-- Letter case and blanks do not count, and a speed is at least 1. -/
example : readTag " Speed : -007 ".toList = .ok (.speed 1) := by decide

end Markup

end DialogueBox
