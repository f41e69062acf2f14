import DialogueBox.Playback.Run
import DialogueBox.Proofs.Markup.Scan

/-!
# Compiling accounts for the whole text

Every character of plain text but carriage returns, and every tag, goes into a compiled text once
(`accounts_present`). A tag either becomes an instruction or is noted as dropped (`tagYield`). What
stands in the source line by line ends up in three lists, the instructions, their lines and the
notes, and all three are read off one list (`yields`), so they cannot get out of step.

Each segment yields what it consists of (`emitted_items`, `dropped_items`), and a scan of the whole
text finds what the segments consist of (`items_keptChars`).
-/

namespace DialogueBox.Markup

/-! ## What a text yields -/

/-- What compiling makes of a part of a text: an instruction, with its line, or a note about a
dropped tag. -/
inductive Yield
  | emitted (i : Instruction) (line : Nat)
  | dropped (d : DroppedTag)

namespace Yield

/-- The instruction and its line. -/
def emitted? : Yield → Option (Instruction × Nat)
  | emitted i n => some (i, n)
  | dropped _ => none

/-- The note. -/
def dropped? : Yield → Option DroppedTag
  | emitted _ _ => none
  | dropped d => some d

/-- The line. -/
def line : Yield → Nat
  | emitted _ n => n
  | dropped d => d.line

end Yield

/-- What a tag yields. -/
def tagYield (inner : List Char) (line : Nat) : Yield :=
  match readTag inner with
  | .ok i => .emitted i line
  | .error fault => .dropped ⟨line, String.ofList (bracketed inner), fault⟩

namespace Item

/-- The line of a part of a text. -/
def line : Item → Nat
  | char _ n => n
  | tag _ n => n

/-- The character of plain text. -/
def char? : Item → Option Char
  | char c _ => some c
  | tag _ _ => none

/-- What a part of a text yields: nothing only if it is a carriage return. -/
def yield? : Item → Option Yield
  | char c n =>
    if c = '\r' then none
    else some (.emitted (if c = '\n' then .lineBreak else .char c) n)
  | tag inner n => some (tagYield inner n)

end Item

/-- What a text yields, in its order. -/
def yields (t : List Char) : List Yield := (items (keptChars t)).filterMap Item.yield?

/-- The instructions that come from a text, each with its line. -/
def emitted (t : List Char) : List (Instruction × Nat) := (yields t).filterMap Yield.emitted?

/-- A text without comment lines, tags and carriage returns. -/
def plainChars (t : List Char) : List Char :=
  ((items (keptChars t)).filterMap Item.char?).filter (· ≠ '\r')

/-! ## Each segment yields what it consists of -/

theorem emitted_items (s : Segment) :
    (s.items.filterMap Item.yield?).filterMap Yield.emitted? =
      s.instructions.map fun i => (i, s.line) := by
  cases s with
  | text cs n =>
    change ((cs.map fun c => Item.char c n).filterMap Item.yield?).filterMap Yield.emitted? =
      (cs.filterMap charInstruction?).map fun i => (i, n)
    rw [List.filterMap_map, List.filterMap_filterMap, List.map_filterMap]
    refine List.filterMap_congr fun c _ => ?_
    simp only [Function.comp_apply, Item.yield?, charInstruction?]
    split
    · rfl
    · split <;> rfl
  | tag inner n =>
    change [tagYield inner n].filterMap Yield.emitted? =
      (readTag inner).toOption.toList.map fun i => (i, n)
    unfold tagYield
    cases readTag inner <;> rfl

theorem dropped_items (s : Segment) :
    (s.items.filterMap Item.yield?).filterMap Yield.dropped? = s.dropped?.toList := by
  cases s with
  | text cs n =>
    change ((cs.map fun c => Item.char c n).filterMap Item.yield?).filterMap Yield.dropped? = []
    rw [List.filterMap_map, List.filterMap_filterMap, List.filterMap_eq_nil_iff]
    intro c _
    simp only [Function.comp_apply, Item.yield?]
    split <;> rfl
  | tag inner n =>
    change [tagYield inner n].filterMap Yield.dropped? =
      (match readTag inner with
        | .ok _ => none
        | .error fault => some ⟨n, String.ofList (bracketed inner), fault⟩ : Option _).toList
    unfold tagYield
    cases readTag inner <;> rfl

theorem filterMap_yields {α : Type} (f : Yield → Option α) (t : List Char) :
    (yields t).filterMap f =
      (segments t).flatMap fun s => (s.items.filterMap Item.yield?).filterMap f := by
  rw [yields, items_keptChars, List.filterMap_flatMap, List.filterMap_flatMap]

theorem emitted_eq (t : List Char) :
    emitted t = (segments t).flatMap fun s => s.instructions.map fun i => (i, s.line) := by
  rw [emitted, filterMap_yields]
  exact List.flatMap_congr fun s _ => emitted_items s

theorem script_compile (t : List Char) :
    (compile t).script = .ofLines ((emitted t).map Prod.fst) ((emitted t).map Prod.snd) := by
  have hinstructions : (emitted t).map Prod.fst = (segments t).flatMap Segment.instructions := by
    rw [emitted_eq, List.map_flatMap]
    refine List.flatMap_congr fun s _ => ?_
    rw [List.map_map]
    exact List.map_id _
  have hlines : (emitted t).map Prod.snd =
      (segments t).flatMap fun s => s.instructions.map fun _ => s.line := by
    rw [emitted_eq, List.map_flatMap]
    exact List.flatMap_congr fun s _ => List.map_map
  rw [hinstructions, hlines]
  rfl

theorem dropped_compile (t : List Char) :
    (compile t).dropped = (yields t).filterMap Yield.dropped? := by
  rw [filterMap_yields]
  change (segments t).filterMap Segment.dropped? = _
  rw [List.filterMap_eq_flatMap_toList]
  exact List.flatMap_congr fun s _ => (dropped_items s).symm

/-! ## Located instructions -/

/-- The instructions of a script, each with its line, if it has one. -/
def located (s : Script) : List (Instruction × Option Nat) :=
  s.instructions.zipIdx.map fun p => (p.1, s.lineOf? p.2)

/-- An instruction that was added has no line. -/
theorem located_ofLines (es : List (Instruction × Nat)) :
    ∃ added : List Instruction, (∀ i ∈ added, i = .next 0) ∧
      located (.ofLines (es.map Prod.fst) (es.map Prod.snd)) =
        es.map (fun p => (p.1, some p.2)) ++ added.map fun i => (i, none) := by
  obtain ⟨added, hadded, hclosed⟩ : ∃ added : List Instruction, (∀ i ∈ added, i = .next 0) ∧
      Script.closed (es.map Prod.fst) = es.map Prod.fst ++ added := by
    unfold Script.closed
    split
    · exact ⟨[], by simp, (List.append_nil _).symm⟩
    · exact ⟨[.next 0], by simp, rfl⟩
  refine ⟨added, hadded, ?_⟩
  unfold located Script.ofLines Script.lineOf?
  dsimp only
  rw [hclosed]
  refine List.ext_getElem? fun i => ?_
  rw [List.getElem?_map, List.getElem?_zipIdx]
  rcases Nat.lt_or_ge i es.length with hi | hi
  · rw [List.getElem?_append_left (by simpa using hi),
      List.getElem?_append_left (by simpa using hi)]
    simp [List.getElem?_eq_getElem hi]
  · rw [List.getElem?_append_right (by simpa using hi),
      List.getElem?_append_right (by simpa using hi), Option.map_map]
    simp [Function.comp_def, List.getElem?_eq_none hi]

theorem filterMap_located {α : Type} {f : Instruction × Option Nat → Option α}
    (h : f (.next 0, none) = none) (t : List Char) :
    (located (compile t).script).filterMap f =
      (emitted t).filterMap fun p => f (p.1, some p.2) := by
  obtain ⟨added, hadded, hlocated⟩ := located_ofLines (emitted t)
  have hnone : (added.map fun i => (i, none)).filterMap f = [] := by
    rw [List.filterMap_map, List.filterMap_eq_nil_iff]
    intro i hi
    rw [hadded i hi]
    exact h
  rw [script_compile, hlocated, List.filterMap_append, hnone, List.append_nil, List.filterMap_map]
  rfl

/-- An instruction of a script comes from a line, unless it was added. -/
theorem mem_emitted_of_mem_compile {i : Instruction} {t : List Char}
    (h : i ∈ (compile t).script.instructions) : (∃ n, (i, n) ∈ emitted t) ∨ i = .next 0 := by
  rw [script_compile] at h
  rcases Script.mem_closed h with hmem | hadded
  · obtain ⟨⟨j, n⟩, hj, rfl⟩ := List.mem_map.mp hmem
    exact .inl ⟨n, hj⟩
  · exact .inr hadded

theorem mem_located {i : Instruction} {n : Nat} {t : List Char} :
    (i, some n) ∈ located (compile t).script ↔ (i, n) ∈ emitted t := by
  obtain ⟨added, -, hlocated⟩ := located_ofLines (emitted t)
  rw [script_compile, hlocated]
  simp

/-! ## The instruction of a tag -/

/-- The tag that an instruction stands for. -/
def tagOf? : Instruction → Option Tag
  | .char _ => none
  | .lineBreak => none
  | .size _ => some .size
  | .color _ => some .color
  | .speed _ => some .speed
  | .rotation _ => some .rotate
  | .font _ => some .font
  | .shake _ => some .shake
  | .reset => some .reset
  | .wait _ => some .wait
  | .icon _ => some .icon
  | .next _ => some .next
  | .event _ => some .event
  | .finish => some .finish
  | .input _ => some .input

theorem plainChar?_of_tagOf? {i : Instruction} {t : Tag} (h : tagOf? i = some t) :
    i.plainChar? = none := by
  cases i <;> first | rfl | cases h

/-- An instruction that a result may have is one for a tag. -/
def Serves (t : Tag) (r : Except TagFault Instruction) : Prop := ∀ i, r = .ok i → tagOf? i = some t

theorem Serves.ok {t : Tag} {i : Instruction} (h : tagOf? i = some t) : Serves t (.ok i) := by
  intro j hj
  cases hj
  exact h

theorem Serves.map {α : Type} {t : Tag} {x : Except TagFault α} {f : α → Instruction}
    (h : ∀ a, tagOf? (f a) = some t) : Serves t (x.map f) := by
  cases x with
  | error e => intro i hi; cases hi
  | ok a => exact .ok (h a)

theorem Serves.bind {α : Type} {t : Tag} {x : Except TagFault α}
    {f : α → Except TagFault Instruction} (h : ∀ a, Serves t (f a)) : Serves t (x >>= f) := by
  cases x with
  | error e => intro i hi; cases hi
  | ok a => exact h a

theorem serves_instruction (t : Tag) (value : Option (List Char)) :
    Serves t (t.instruction value) := by
  cases t with
  | size => exact .map fun _ => rfl
  | color => exact .ok rfl
  | speed => exact .bind fun _ => .bind fun _ => .ok rfl
  | rotate => exact .bind fun _ => .bind fun _ => .ok rfl
  | shake => exact .bind fun _ => .bind fun _ => .ok rfl
  | reset => exact .ok rfl
  | wait => exact .bind fun _ => .bind fun _ => .ok rfl
  | icon => exact .map fun _ => rfl
  | next =>
    unfold Tag.instruction
    dsimp only
    split
    · exact .map fun _ => rfl
    · exact .ok rfl
  | event => exact .map fun _ => rfl
  | font => exact .ok rfl
  | input => exact .ok rfl
  | finish => exact .ok rfl

/-- The instruction that is read from a tag is one for the tag that is named. -/
theorem tagOf?_of_readTag {inner : List Char} {i : Instruction} (h : readTag inner = .ok i) :
    ∃ t, Tag.ofText? (splitTag inner).1 = some t ∧ tagOf? i = some t := by
  unfold readTag at h
  split at h
  · next t ht => exact ⟨t, ht, serves_instruction t _ i h⟩
  · cases h

/-! ## Plain text -/

theorem plainChar?_of_readTag {inner : List Char} {i : Instruction} (h : readTag inner = .ok i) :
    i.plainChar? = none := by
  obtain ⟨t, -, ht⟩ := tagOf?_of_readTag h
  exact plainChar?_of_tagOf? ht

theorem plainText_emitted (t : List Char) :
    ((emitted t).map Prod.fst).filterMap Instruction.plainChar? = plainChars t := by
  unfold emitted yields plainChars
  rw [List.map_filterMap, List.filterMap_filterMap, List.filterMap_filterMap, List.filter_filterMap]
  refine List.filterMap_congr fun item _ => ?_
  cases item with
  | char c n =>
    simp only [Item.yield?, Item.char?]
    by_cases hr : c = '\r'
    · rw [hr]
      rfl
    · have hfilter : (some c).filter (fun c => decide (c ≠ '\r')) = some c :=
        if_pos (decide_eq_true hr)
      rw [if_neg hr, hfilter]
      by_cases hc : c = '\n'
      · rw [if_pos hc, hc]
        rfl
      · rw [if_neg hc]
        rfl
  | tag inner n =>
    change ((tagYield inner n).emitted?.map Prod.fst).bind Instruction.plainChar? = none
    unfold tagYield
    cases h : readTag inner with
    | error e => rfl
    | ok i => exact plainChar?_of_readTag h

/-! ## Lines -/

theorem le_of_mem_numberedChars {n : Nat} {t : List Char} {p : Char × Nat}
    (h : p ∈ numberedChars n t) : n ≤ p.2 := by
  obtain ⟨i, hi, rfl⟩ := List.mem_mapIdx.mp h
  exact Nat.le_add_right _ _

theorem pairwise_numberedChars (n : Nat) (t : List Char) :
    (numberedChars n t).Pairwise fun p q => p.2 ≤ q.2 := by
  induction t generalizing n with
  | nil => exact List.Pairwise.nil
  | cons c r ih =>
    rw [numberedChars_cons]
    refine List.Pairwise.cons (fun p hp => ?_) (ih _)
    have hle := le_of_mem_numberedChars hp
    dsimp only
    split at hle <;> omega

theorem sublist_line_items (s : List (Char × Nat)) :
    ((items s).map Item.line).Sublist (s.map Prod.snd) := by
  fun_induction items s with
  | case1 => exact List.Sublist.slnil
  | case2 n r inner after h ih =>
    obtain ⟨mid, m, hr, -⟩ := closeTag?_eq_some_iff.mp h
    refine List.Sublist.cons_cons n (ih.trans ?_)
    rw [hr, List.map_append, List.map_cons]
    exact (List.sublist_cons_self _ _).trans (List.sublist_append_right _ _)
  | case3 n r h ih => exact List.Sublist.cons_cons n ih
  | case4 c n r hc ih => exact List.Sublist.cons_cons n ih

/-- The lines of what a text consists of do not decrease. -/
theorem pairwise_items (t : List Char) :
    (items (keptChars t)).Pairwise fun x y => x.line ≤ y.line := by
  have hkept : (keptChars t).Pairwise fun p q => p.2 ≤ q.2 :=
    (pairwise_numberedChars 1 t).filter _
  rw [← List.pairwise_map (f := Prod.snd) (R := (· ≤ ·))] at hkept
  exact List.pairwise_map.mp (hkept.sublist (sublist_line_items _))

theorem line_yield {x : Item} {y : Yield} (h : x.yield? = some y) : y.line = x.line := by
  cases x with
  | char c n =>
    rw [Item.yield?] at h
    split at h
    · cases h
    · cases h
      rfl
  | tag inner n =>
    cases h
    unfold tagYield
    cases readTag inner <;> rfl

theorem pairwise_yields (t : List Char) : (yields t).Pairwise fun x y => x.line ≤ y.line := by
  refine (pairwise_items t).filterMap _ fun x y hle a ha b hb => ?_
  rw [line_yield ha, line_yield hb]
  exact hle

/-- So do not the lines of anything that is read off what a text yields. -/
theorem pairwise_filterMap_yields {α : Type} {f : Yield → Option α} {line : α → Nat}
    (h : ∀ y a, f y = some a → line a = y.line) (t : List Char) :
    ((yields t).filterMap f).Pairwise fun a b => line a ≤ line b := by
  refine (pairwise_yields t).filterMap _ fun x y hle a ha b hb => ?_
  rw [h x a ha, h y b hb]
  exact hle

theorem line_of_emitted? {y : Yield} {p : Instruction × Nat} (h : y.emitted? = some p) :
    p.2 = y.line := by
  cases y with
  | emitted i n => cases h; rfl
  | dropped d => cases h

theorem line_of_dropped? {y : Yield} {d : DroppedTag} (h : y.dropped? = some d) :
    d.line = y.line := by
  cases y with
  | emitted i n => cases h
  | dropped d => cases h; rfl

theorem pairwise_emitted (t : List Char) : (emitted t).Pairwise fun x y => x.2 ≤ y.2 :=
  pairwise_filterMap_yields (fun _ _ => line_of_emitted?) t

theorem pairwise_dropped (t : List Char) :
    ((yields t).filterMap Yield.dropped?).Pairwise fun d e => d.line ≤ e.line :=
  pairwise_filterMap_yields (fun _ _ => line_of_dropped?) t

/-! ## The account -/

/-- A script and notes account for a text. -/
structure Accounts (t : List Char) (s : Script) (ds : List DroppedTag) : Prop where
  /-- The plain text is what the scan leaves. -/
  plainText : s.plainText = plainChars t
  /-- The instructions are those that the text yields, and at most one more. -/
  instructions : s.instructions = (emitted t).map Prod.fst ∨
    s.instructions = (emitted t).map Prod.fst ++ [.next 0]
  /-- One more is there if and only if the text yields none or ends with another one. -/
  appended : s.instructions = (emitted t).map Prod.fst ++ [.next 0] ↔
    ∀ i, ((emitted t).map Prod.fst).getLast? = some i → ¬i.isNext
  endsNext : s.instructions.getLast?.any Instruction.isNext
  /-- The notes are those that the text yields. -/
  notes : ds = (yields t).filterMap Yield.dropped?
  lineOf? : ∀ i, s.lineOf? i = (emitted t)[i]?.map Prod.snd
  /-- Only the instruction that was added has no line. -/
  lineOf?_eq_none : ∀ i, s.lineOf? i = none ↔ (emitted t).length ≤ i
  lineOf?_le : ∀ i j n m, i ≤ j → s.lineOf? i = some n → s.lineOf? j = some m → n ≤ m
  notes_le : ds.Pairwise fun d e => d.line ≤ e.line

theorem closed_cases (is : List Instruction) :
    Script.closed is = is ∧ (∃ i, is.getLast? = some i ∧ i.isNext) ∨
      Script.closed is = is ++ [.next 0] ∧ ∀ i, is.getLast? = some i → ¬i.isNext := by
  unfold Script.closed
  split
  · next h => exact .inl ⟨rfl, (Option.any_eq_true _ _).mp h⟩
  · next h => exact .inr ⟨rfl, fun i hi hn => h ((Option.any_eq_true _ _).mpr ⟨i, hi, hn⟩)⟩

/-- **Compiling accounts for every character and every tag, once.** Whatever the player did before,
the script and the notes of a text it presents account for that text: they hold what the text
yields, in its order and each with its line. -/
theorem accounts_present (p : Player) (t : List Char) :
    Accounts t (p.present t).script (p.present t).dropped := by
  have hscript : (p.present t).script =
      .ofLines ((emitted t).map Prod.fst) ((emitted t).map Prod.snd) := script_compile t
  have hlines : ∀ i, (p.present t).script.lineOf? i = (emitted t)[i]?.map Prod.snd := by
    intro i
    rw [hscript]
    exact List.getElem?_map
  have hnotes : (p.present t).dropped = (yields t).filterMap Yield.dropped? := dropped_compile t
  have hcases := closed_cases ((emitted t).map Prod.fst)
  refine ⟨?_, ?_, ?_, ?_, hnotes, hlines, fun i => ?_, fun i j n m hij hi hj => ?_, ?_⟩
  · rw [← plainText_emitted, hscript]
    change (Script.closed _).filterMap _ = _
    rcases hcases with ⟨h, -⟩ | ⟨h, -⟩
    · rw [h]
    · rw [h, List.filterMap_append]
      exact List.append_nil _
  · rw [hscript]
    exact hcases.imp And.left And.left
  · rw [hscript]
    change Script.closed _ = _ ↔ _
    rcases hcases with ⟨h, i, hi, hn⟩ | ⟨h, hn⟩
    · rw [h]
      exact ⟨fun he => absurd he (by simp), fun hnone => absurd hn (hnone i hi)⟩
    · exact ⟨fun _ => hn, fun _ => h⟩
  · rw [hscript]
    exact Script.getLast?_closed _
  · rw [hlines, Option.map_eq_none_iff, List.getElem?_eq_none_iff]
  · rw [hlines, Option.map_eq_some_iff] at hi hj
    obtain ⟨a, ha, rfl⟩ := hi
    obtain ⟨b, hb, rfl⟩ := hj
    rcases Nat.eq_or_lt_of_le hij with rfl | hlt
    · rw [ha] at hb
      exact (congrArg Prod.snd (Option.some.inj hb)).le
    · obtain ⟨hi, rfl⟩ := List.getElem?_eq_some_iff.mp ha
      obtain ⟨hj, rfl⟩ := List.getElem?_eq_some_iff.mp hb
      exact List.pairwise_iff_getElem.mp (pairwise_emitted t) i j hi hj hlt
  · rw [hnotes]
    exact pairwise_dropped t

example : (compile "; c\nab\r\n[huh][end]".toList).script =
    ⟨[.char 'a', .char 'b', .lineBreak, .finish, .next 0], [2, 2, 2, 3]⟩ := by cbv

end DialogueBox.Markup
