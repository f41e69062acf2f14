import DialogueBox.Proofs.Markup.Compile

/-!
# What a stretch of lines yields

Compiling goes line by line, so a text yields what its lines yield, one after the other
(`yields_eq_stretch`). What a stretch of whole lines yields depends on nothing that stands before it
but the number of its first line (`stretch_append`, `stretch_add`).

Blanks before the first character of a line, or behind the last one, make no difference except that
they are plain text themselves: they neither open nor close a tag, and they neither make a line a
comment nor keep it from being one (`stretch_lead`, `stretch_trail`). In a comment they yield
nothing either.
-/

namespace DialogueBox.Markup

open Text

/-! ## Line by line -/

/-- What a line yields. -/
def lineYields (l : List Char × Nat) : List Yield :=
  ((segmentsOf l).flatMap Segment.items).filterMap Item.yield?

/-- What the lines of a text yield, counted from some number. -/
def stretch (first : Nat) (t : List Char) : List Yield :=
  ((lines t).zipIdx first).flatMap lineYields

theorem yields_eq_stretch (t : List Char) : yields t = stretch 1 t := by
  rw [yields, items_keptChars, segments_eq_segmentsOf, List.flatMap_assoc, List.filterMap_flatMap]
  rfl

theorem stretch_append {a : List Char} (h : EndsFeed a) (n : Nat) (b : List Char) :
    stretch n (a ++ b) = stretch n a ++ stretch (n + a.count '\n') b := by
  rw [stretch, lines_append h, List.zipIdx_append, List.flatMap_append, length_lines h]
  rfl

/-! ## Lines of what is yielded -/

theorem line_items {s : Segment} {x : Item} (h : x ∈ s.items) : x.line = s.line := by
  cases s with
  | text cs n =>
    obtain ⟨c, -, rfl⟩ := List.mem_map.mp h
    rfl
  | tag inner n =>
    rw [List.mem_singleton.mp h]
    rfl

theorem line_lineYields {l : List Char × Nat} {y : Yield} (h : y ∈ lineYields l) :
    y.line = l.2 := by
  obtain ⟨x, hx, hy⟩ := List.mem_filterMap.mp h
  obtain ⟨s, hs, hx⟩ := List.mem_flatMap.mp hx
  rw [line_yield hy, line_items hx, line_segmentsOf hs]

theorem line_stretch {n : Nat} {t : List Char} {y : Yield} (h : y ∈ stretch n t) :
    n ≤ y.line ∧ y.line < n + (lines t).length := by
  obtain ⟨l, hl, hy⟩ := List.mem_flatMap.mp h
  rw [line_lineYields hy]
  obtain ⟨hle, hlt, -⟩ := List.mem_zipIdx hl
  exact ⟨hle, hlt⟩

/-! ## Other line numbers -/

def DroppedTag.shift (k : Nat) (d : DroppedTag) : DroppedTag := { d with line := d.line + k }

def Segment.shift (k : Nat) : Segment → Segment
  | text cs n => text cs (n + k)
  | tag inner n => tag inner (n + k)

def Item.shift (k : Nat) : Item → Item
  | char c n => char c (n + k)
  | tag inner n => tag inner (n + k)

def Yield.shift (k : Nat) : Yield → Yield
  | emitted i n => emitted i (n + k)
  | dropped d => dropped (d.shift k)

theorem lineSegments_add (n k : Nat) (s : List Char) :
    lineSegments (n + k) s = (lineSegments n s).map (Segment.shift k) := by
  have htext : ∀ cs, textSegment cs (n + k) = (textSegment cs n).map (Segment.shift k) := by
    intro cs
    unfold textSegment
    split <;> rfl
  fun_induction lineSegments n s with
  | case1 s h => rw [lineSegments_of_none h, htext]
  | case2 s t h ih =>
    rw [lineSegments_of_some h, htext, ih, List.map_append, List.map_cons]
    rfl

theorem items_shift (k : Nat) (s : Segment) : (s.shift k).items = s.items.map (Item.shift k) := by
  cases s with
  | text cs n =>
    show cs.map (fun c => Item.char c (n + k)) = (cs.map fun c => Item.char c n).map (Item.shift k)
    rw [List.map_map]
    rfl
  | tag inner n => rfl

theorem yield?_shift (k : Nat) (x : Item) : (x.shift k).yield? = x.yield?.map (Yield.shift k) := by
  cases x with
  | char c n =>
    rw [Item.shift, Item.yield?, Item.yield?]
    split <;> rfl
  | tag inner n =>
    rw [Item.shift, Item.yield?, Item.yield?, tagYield, tagYield]
    cases readTag inner <;> rfl

theorem lineYields_add (l : List Char) (n k : Nat) :
    lineYields (l, n + k) = (lineYields (l, n)).map (Yield.shift k) := by
  have hsegments : segmentsOf (l, n + k) = (segmentsOf (l, n)).map (Segment.shift k) := by
    unfold segmentsOf
    dsimp only
    rw [lineSegments_add]
    split <;> rfl
  have hyield : Item.yield? ∘ Item.shift k = fun x => x.yield?.map (Yield.shift k) :=
    funext (yield?_shift k)
  unfold lineYields
  rw [hsegments, List.flatMap_map, List.flatMap_congr fun s _ => items_shift k s,
    ← List.map_flatMap, List.filterMap_map, hyield, List.map_filterMap]

theorem stretch_add (n k : Nat) (t : List Char) :
    stretch (n + k) t = (stretch n t).map (Yield.shift k) := by
  unfold stretch
  induction lines t generalizing n with
  | nil => rfl
  | cons l ls ih =>
    rw [List.zipIdx_cons, List.zipIdx_cons, List.flatMap_cons, List.flatMap_cons, List.map_append,
      lineYields_add, Nat.add_right_comm, ih]

/-! ## Plain text at the ends of a line -/

/-- What characters of plain text yield. -/
def charYields (n : Nat) (s : List Char) : List Yield :=
  (s.map fun c => Item.char c n).filterMap Item.yield?

theorem findTag?_append_left {a : List Char} (h : '[' ∉ a) (s : List Char) :
    findTag? (a ++ s) = (findTag? s).map fun t => ⟨a ++ t.before, t.inner, t.after⟩ := by
  unfold findTag?
  rw [splitAt?_append_left h]
  cases splitAt? '[' s with
  | none => rfl
  | some p =>
    rw [Option.map_some]
    dsimp only
    cases splitAt? ']' p.2 <;> rfl

theorem findTag?_append_right {b : List Char} (hopen : '[' ∉ b) (hclose : ']' ∉ b)
    (s : List Char) :
    findTag? (s ++ b) = (findTag? s).map fun t => ⟨t.before, t.inner, t.after ++ b⟩ := by
  unfold findTag?
  rw [splitAt?_append_right hopen]
  cases splitAt? '[' s with
  | none => rfl
  | some p =>
    rw [Option.map_some]
    dsimp only
    rw [splitAt?_append_right hclose]
    cases splitAt? ']' p.2 <;> rfl

theorem items_lead {a : List Char} (h : '[' ∉ a) (n : Nat) (s : List Char) :
    (lineSegments n (a ++ s)).flatMap Segment.items =
      (a.map fun c => .char c n) ++ (lineSegments n s).flatMap Segment.items := by
  have hfind := findTag?_append_left h s
  cases hs : findTag? s with
  | none =>
    rw [hs] at hfind
    rw [lineSegments_of_none hfind, lineSegments_of_none hs, items_textSegment, items_textSegment,
      List.map_append]
  | some t =>
    rw [hs] at hfind
    rw [lineSegments_of_some hfind, lineSegments_of_some hs, List.flatMap_append,
      List.flatMap_append, items_textSegment, items_textSegment, List.map_append, List.append_assoc]

theorem items_trail {b : List Char} (hopen : '[' ∉ b) (hclose : ']' ∉ b) (n : Nat)
    (s : List Char) :
    (lineSegments n (s ++ b)).flatMap Segment.items =
      (lineSegments n s).flatMap Segment.items ++ b.map fun c => .char c n := by
  fun_induction lineSegments n s with
  | case1 s h =>
    have hfind := findTag?_append_right hopen hclose s
    rw [h] at hfind
    rw [lineSegments_of_none hfind, items_textSegment, items_textSegment, List.map_append]
  | case2 s t h ih =>
    have hfind := findTag?_append_right hopen hclose s
    rw [h] at hfind
    rw [lineSegments_of_some hfind]
    simp only [List.flatMap_append, List.flatMap_cons, List.append_assoc, ih]

/-! ## Blanks at the ends of a line -/

theorem isComment_lead {a : List Char} (h : Blank a) (l : List Char) :
    isComment (a ++ l) = isComment l := by
  rw [isComment, trimStart_append h]
  rfl

theorem isComment_trail {l : List Char} {c : Char} (hc : c ∈ l) (hblank : isBlank c = false)
    (b : List Char) : isComment (l ++ b) = isComment l := by
  have hne : trimStart l ≠ [] := by
    intro hnil
    rw [trimStart, List.dropWhile_eq_nil_iff] at hnil
    rw [hnil c hc] at hblank
    cases hblank
  have happend : trimStart (l ++ b) = trimStart l ++ b := by
    unfold trimStart at hne ⊢
    rw [List.dropWhile_append, if_neg (by simpa using hne)]
  rw [isComment, isComment, happend, List.head?_append_of_ne_nil _ hne]

theorem lineYields_lead {a : List Char} (h : Blank a) (l : List Char) (n : Nat) :
    ∃ a', a' <:+ a ∧ lineYields (a ++ l, n) = charYields n a' ++ lineYields (l, n) := by
  unfold lineYields segmentsOf
  dsimp only
  rw [isComment_lead h]
  split
  · exact ⟨[], List.nil_suffix, rfl⟩
  · refine ⟨a, List.suffix_rfl, ?_⟩
    rw [items_lead (h.notMem (by decide)), List.filterMap_append]
    rfl

theorem lineYields_trail {b : List Char} (h : Blank b) {l : List Char} {c : Char} (hc : c ∈ l)
    (hblank : isBlank c = false) (n : Nat) :
    ∃ b', b' <+: b ∧ lineYields (l ++ b, n) = lineYields (l, n) ++ charYields n b' := by
  unfold lineYields segmentsOf
  dsimp only
  rw [isComment_trail hc hblank]
  split
  · exact ⟨[], List.nil_prefix, rfl⟩
  · refine ⟨b, List.prefix_rfl, ?_⟩
    rw [items_trail (h.notMem (by decide)) (h.notMem (by decide)), List.filterMap_append]
    rfl

theorem stretch_lead {a t : List Char} (h : Blank a) (hfeed : '\n' ∉ a) (ht : t ≠ []) (n : Nat) :
    ∃ a', a' <:+ a ∧ stretch n (a ++ t) = charYields n a' ++ stretch n t := by
  obtain ⟨l, ls, hl⟩ := List.exists_cons_of_ne_nil (lines_ne_nil ht)
  obtain ⟨a', ha', hyields⟩ := lineYields_lead h l n
  refine ⟨a', ha', ?_⟩
  rw [stretch, stretch, lines_append_of_notMem hfeed hl, hl, List.zipIdx_cons, List.zipIdx_cons,
    List.flatMap_cons, List.flatMap_cons, hyields, List.append_assoc]

theorem stretch_trail {t b : List Char} (h : Blank b) (hfeed : '\n' ∉ b.dropLast) {c : Char}
    (hc : c ∈ t.getLast?) (hblank : isBlank c = false) (n : Nat) :
    ∃ b', b' <+: b ∧ stretch n (t ++ b) = stretch n t ++ charYields (n + t.count '\n') b' := by
  obtain ⟨ls, l, hl, hlength, hlines⟩ := exists_lastLine hc (ne_feed_of_not_blank hblank)
  obtain ⟨b', hb', hyields⟩ := lineYields_trail h hl hblank (n + ls.length)
  have hstretch : ∀ b, '\n' ∉ b.dropLast →
      stretch n (t ++ b) =
        (ls.zipIdx n).flatMap lineYields ++ lineYields (l ++ b, n + ls.length) := by
    intro b hb
    rw [stretch, hlines b hb, List.zipIdx_append, List.flatMap_append]
    exact congrArg _ (List.append_nil _)
  have ht := hstretch [] List.not_mem_nil
  rw [List.append_nil, List.append_nil] at ht
  refine ⟨b', hb', ?_⟩
  rw [hstretch b hfeed, hyields, ht, hlength, List.append_assoc]

end DialogueBox.Markup
