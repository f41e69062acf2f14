import DialogueBox.Proofs.Number.Order
import DialogueBox.Typesetting.Typesetter
import Mathlib.Data.List.DropRight

/-!
# Lines

A typesetter is given one glyph at a time, and of its line it knows the cursor, a height and whether
there is a glyph. What it sets are the lines into which all that was asked of it is broken at once
(`sheet_eq_lines`).

Those lines are said without a typesetter. `Broken` breaks a list of glyphs where that is asked for,
and where wrapping is on and a glyph would pass the right edge; the lines that come of it are the
only ones (`Broken.unique`). A line then gives the places of its glyphs by itself (`Line.placed`),
and its height is the greatest of those of its glyphs and zero (`IsTallest`). All sums and
comparisons are those of single precision. Nothing is used of sums, and of comparisons only that
they order; so all holds of infinite numbers as well, and of what is no number.

## How the proof goes

`Line.typesetter` is the typesetter at the end of a line that has got some of its glyphs. What is
asked leads from such a typesetter to another one: of the line with one glyph more (`run_place`), or
of a line below (`run_place_of_overflows`, `run_breakLine`). The lines are found by induction on
what is asked, from the line at hand on (`exists_broken`).
-/

namespace DialogueBox.Typesetter

open Number

/-! ## What is asked of a typesetter -/

/-- A glyph to be placed, with the height of a line that has none. -/
structure Item where
  size : Size
  fallback : Float32

/-- What is asked of a typesetter. -/
inductive Act
  | place (i : Item)
  | breakLine (fallback : Float32)
  | reset

/-- A typesetter, and the glyphs that it has placed since the window was last emptied. -/
structure Sheet where
  typesetter : Typesetter
  placed : List (Point × Size)

/-- Does what is asked. -/
def Act.run : Act → Sheet → Sheet
  | place i, h =>
    let (position, typesetter) := h.typesetter.place i.size i.fallback
    ⟨typesetter, h.placed ++ [(position, i.size)]⟩
  | breakLine fallback, h => { h with typesetter := h.typesetter.breakLine fallback }
  | reset, h => ⟨h.typesetter.reset, []⟩

/-- Whether the window is emptied. -/
def Act.isReset : Act → Bool
  | reset => true
  | _ => false

/-- The sheet after all that is asked of a new typesetter. -/
def sheet (s : Settings) (acts : List Act) : Sheet :=
  acts.foldl (fun h a => a.run h) ⟨.ofSettings s, []⟩

/-- What is asked after the window was last emptied. -/
def sinceReset (acts : List Act) : List Act := acts.rtakeWhile fun a => !a.isReset

/-! ## Lines -/

/-- A line: how far down it is, and its glyphs. -/
structure Line where
  top : Float32
  items : List Item

/-- Where the next glyph of a line goes: each glyph takes its width and the kerning. -/
def endOf (s : Settings) (items : List Item) : Float32 :=
  items.foldl (fun x i => x + (i.size.width + s.kerning)) s.window.x

/-- The greatest height of some glyphs, from zero on. -/
def tallest (items : List Item) : Float32 :=
  items.foldl (fun h i => if h < i.size.height then i.size.height else h) 0

/-- A height is the greatest of some heights and zero. -/
structure IsTallest (heights : List Float32) (h : Float32) : Prop where
  zero_or_mem : h = 0 ∨ 0 < h ∧ h ∈ heights
  not_lt : ∀ k ∈ heights, ¬h < k

namespace Line

/-- The height of a line that is broken; `fallback` is that of a line without height. -/
def height (l : Line) (fallback : Float32) : Float32 :=
  if 0 < tallest l.items then tallest l.items else fallback

/-- How far down the next line is. -/
def below (s : Settings) (l : Line) (fallback : Float32) : Float32 :=
  l.top + (l.height fallback + s.lineSpacing)

/-- Glyphs in their places: each beyond the one before by its width and the kerning, and all equally
far down. -/
def placedFrom (s : Settings) (top : Float32) : Float32 → List Item → List (Point × Size)
  | _, [] => []
  | x, i :: is => (⟨x, top⟩, i.size) :: placedFrom s top (x + (i.size.width + s.kerning)) is

/-- The glyphs of a line in their places, the first of them at the left edge. -/
def placed (s : Settings) (l : Line) : List (Point × Size) :=
  placedFrom s l.top s.window.x l.items

/-- A line with one glyph more. -/
def add (l : Line) (i : Item) : Line := { l with items := l.items ++ [i] }

/-- The typesetter at the end of a line. -/
def typesetter (s : Settings) (l : Line) : Typesetter where
  window := s.window
  lineSpacing := s.lineSpacing
  kerning := s.kerning
  wrap := s.wrap
  cursor := ⟨endOf s l.items, l.top⟩
  lineHeight := tallest l.items
  lineStarted := !l.items.isEmpty

end Line

/-- A glyph would pass the right edge behind those of a line, and wrapping is on. -/
def Overflows (s : Settings) (items : List Item) (i : Item) : Prop :=
  s.wrap = true ∧ s.window.right < endOf s items + i.size.width

/-- No glyph but the first would pass the right edge. -/
def Fits (s : Settings) (items : List Item) : Prop :=
  ∀ before i after, items = before ++ i :: after → before ≠ [] → ¬Overflows s before i

/-- What is asked after a line breaks it: with the height `fallback` of a line that has none, and
with `acts` to be done from the next line on. -/
inductive Breaks (s : Settings) (items : List Item) : List Act → Float32 → List Act → Prop
  /-- A line is broken where that is asked for, also if it has no glyph. -/
  | asked (fallback : Float32) (acts : List Act) :
      Breaks s items (.breakLine fallback :: acts) fallback acts
  /-- A line with a glyph is broken before a glyph that would pass the right edge. -/
  | wrapped {i : Item} (hne : items ≠ []) (hover : Overflows s items i) (acts : List Act) :
      Breaks s items (.place i :: acts) i.fallback (.place i :: acts)

/-- What is asked breaks into lines, from a line at `top` on: into some that are complete and a last
one. -/
inductive Broken (s : Settings) : Float32 → List Act → List Line → Line → Prop
  | last {top : Float32} {items : List Item} (hfits : Fits s items) :
      Broken s top (items.map .place) [] ⟨top, items⟩
  | next {top fallback : Float32} {items : List Item} {rest acts : List Act} {lines : List Line}
      {l : Line} (hfits : Fits s items) (hbreaks : Breaks s items rest fallback acts)
      (h : Broken s (Line.below s ⟨top, items⟩ fallback) acts lines l) :
      Broken s top (items.map .place ++ rest) (⟨top, items⟩ :: lines) l

variable {s : Settings} {l : Line} {i : Item} {items : List Item} {acts : List Act}

/-! ## Glyphs that fit -/

theorem fits_nil (s : Settings) : Fits s [] :=
  fun _ _ _ h => absurd h.symm (List.append_ne_nil_of_right_ne_nil _ (List.cons_ne_nil _ _))

theorem Fits.concat (h : Fits s items) (hi : items ≠ [] → ¬Overflows s items i) :
    Fits s (items ++ [i]) := by
  intro before j after heq hne
  rcases List.eq_nil_or_concat after with rfl | ⟨after', k, rfl⟩
  · obtain ⟨rfl, hj⟩ := List.append_inj' heq rfl
    cases hj
    exact hi hne
  · rw [List.concat_eq_append, ← List.cons_append, ← List.append_assoc] at heq
    obtain ⟨heq, -⟩ := List.append_inj' heq rfl
    exact h before j after' heq hne

theorem fits_singleton (s : Settings) (i : Item) : Fits s [i] :=
  (fits_nil s).concat fun hne => absurd rfl hne

theorem endOf_concat (s : Settings) (items : List Item) (i : Item) :
    endOf s (items ++ [i]) = endOf s items + (i.size.width + s.kerning) := by
  unfold endOf
  rw [List.foldl_append]
  rfl

theorem exists_of_mem_placedFrom {top : Float32} {before : List Item} {g : Point × Size}
    (h : g ∈ Line.placedFrom s top (endOf s before) items) :
    ∃ between i after, items = between ++ i :: after ∧
      g = (⟨endOf s (before ++ between), top⟩, i.size) := by
  induction items generalizing before with
  | nil => simp [Line.placedFrom] at h
  | cons j items ih =>
    rw [Line.placedFrom, ← endOf_concat] at h
    rcases List.mem_cons.mp h with rfl | h
    · exact ⟨[], j, items, rfl, by rw [List.append_nil]⟩
    · obtain ⟨between, i, after, rfl, hg⟩ := ih h
      exact ⟨j :: between, i, after, rfl, by rw [hg, List.append_assoc, List.singleton_append]⟩

/-- **With wrapping on, no glyph but the first of a line passes the right edge.** -/
theorem Fits.not_right_lt (h : Fits s l.items) (hwrap : s.wrap = true) {g : Point × Size}
    (hg : g ∈ (l.placed s).tail) : ¬s.window.right < g.1.x + g.2.width := by
  unfold Line.placed at hg
  cases hitems : l.items with
  | nil => simp [hitems, Line.placedFrom] at hg
  | cons j items =>
    rw [hitems] at hg h
    have hmem : g ∈ Line.placedFrom s l.top (endOf s [j]) items := hg
    obtain ⟨between, i, after, rfl, rfl⟩ := exists_of_mem_placedFrom hmem
    intro hlt
    exact h (j :: between) i after rfl (List.cons_ne_nil _ _) ⟨hwrap, hlt⟩

theorem Broken.fits {top : Float32} {lines : List Line} {last : Line}
    (h : Broken s top acts lines last) : ∀ l ∈ lines ++ [last], Fits s l.items := by
  induction h with
  | last hfits => simpa using hfits
  | next hfits _ _ ih => exact List.forall_mem_cons.mpr ⟨hfits, ih⟩

/-! ## Heights -/

/-- **The greater of the greatest so far and one more height is the greatest of all.** -/
theorem IsTallest.concat {heights : List Float32} {h : Float32} (hh : IsTallest heights h)
    (k : Float32) : IsTallest (heights ++ [k]) (higher h k) := by
  unfold higher
  split
  · next hlt =>
    -- what is above the new height is above the old one, and so is none of the heights
    have hpos : 0 < k := by
      rcases hh.zero_or_mem with rfl | ⟨hpos, -⟩
      · exact hlt
      · exact single_lt_trans hpos hlt
    refine ⟨.inr ⟨hpos, List.mem_concat_self⟩, fun j hj hkj => ?_⟩
    rcases List.mem_append.mp hj with hj | hj
    · exact hh.not_lt j hj (single_lt_trans hlt hkj)
    · rw [List.mem_singleton.mp hj] at hkj
      exact single_lt_irrefl k hkj
  · next hge =>
    refine ⟨hh.zero_or_mem.imp_right (And.imp_right (List.mem_append_left _)), fun j hj => ?_⟩
    rcases List.mem_append.mp hj with hj | hj
    · exact hh.not_lt j hj
    · rw [List.mem_singleton.mp hj]
      exact hge

theorem tallest_concat (items : List Item) (i : Item) :
    tallest (items ++ [i]) = higher (tallest items) i.size.height := by
  unfold tallest
  rw [List.foldl_append]
  rfl

theorem isTallest_tallest (items : List Item) :
    IsTallest (items.map (·.size.height)) (tallest items) := by
  induction items using List.reverseRecOn with
  | nil => exact ⟨.inl rfl, fun _ hk => nomatch hk⟩
  | append_singleton items i ih =>
    rw [List.map_append, List.map_singleton, tallest_concat]
    exact ih.concat i.size.height

/-! ## The lines are the only ones -/

/-- What follows the glyphs of a line does not belong to it. -/
def Stops (s : Settings) (items : List Item) (rest : List Act) : Prop :=
  ∀ i acts, rest = .place i :: acts → items ≠ [] ∧ Overflows s items i

theorem stops_nil (s : Settings) (items : List Item) : Stops s items [] :=
  fun _ _ h => absurd h.symm (List.cons_ne_nil _ _)

theorem Breaks.stops {rest : List Act} {fallback : Float32}
    (h : Breaks s items rest fallback acts) : Stops s items rest := by
  intro j after heq
  cases h with
  | asked => simp at heq
  | wrapped hne hover =>
    cases heq
    exact ⟨hne, hover⟩

theorem Breaks.ne_nil {rest : List Act} {fallback : Float32}
    (h : Breaks s items rest fallback acts) : rest ≠ [] := by
  cases h <;> exact List.cons_ne_nil _ _

theorem Breaks.unique {rest acts' : List Act} {fallback fallback' : Float32}
    (h : Breaks s items rest fallback acts) (h' : Breaks s items rest fallback' acts') :
    fallback = fallback' ∧ acts = acts' := by
  cases h <;> cases h' <;> exact ⟨rfl, rfl⟩

/-- A line that another one goes on from does not stop there. -/
theorem Fits.eq_nil_of_stops {between : List Item} {rest : List Act}
    (hfits : Fits s (items ++ between)) (h : Stops s items (between.map .place ++ rest)) :
    between = [] := by
  cases between with
  | nil => rfl
  | cons i between =>
    obtain ⟨hne, hover⟩ := h i _ rfl
    exact absurd hover (hfits items i between rfl hne)

/-- The glyphs of a line are as many as fit. -/
theorem Fits.unique {items' : List Item} {rest rest' : List Act} (hfits : Fits s items)
    (hfits' : Fits s items') (h : Stops s items rest) (h' : Stops s items' rest')
    (heq : items.map Act.place ++ rest = items'.map Act.place ++ rest') :
    items = items' ∧ rest = rest' := by
  have hinj : Function.Injective Act.place := fun _ _ hij => Act.place.inj hij
  rcases List.append_eq_append_iff.mp heq with ⟨between, hitems, hrest⟩ | ⟨between, hitems, hrest⟩
  · obtain ⟨first, more, rfl, hfirst, rfl⟩ := List.map_eq_append_iff.mp hitems
    cases List.map_injective_iff.mpr hinj hfirst
    rw [hrest] at h
    cases hfits'.eq_nil_of_stops h
    exact ⟨(List.append_nil _).symm, by simpa using hrest⟩
  · obtain ⟨first, more, rfl, hfirst, rfl⟩ := List.map_eq_append_iff.mp hitems
    cases List.map_injective_iff.mpr hinj hfirst
    rw [hrest] at h'
    cases hfits.eq_nil_of_stops h'
    exact ⟨List.append_nil _, by simpa using hrest.symm⟩

/-- **What is asked breaks into lines in one way only.** -/
theorem Broken.unique {top : Float32} {lines lines' : List Line} {last last' : Line}
    (h : Broken s top acts lines last) (h' : Broken s top acts lines' last') :
    lines = lines' ∧ last = last' := by
  induction h generalizing lines' last' with
  | @last top items hfits =>
    rw [← List.append_nil (items.map Act.place)] at h'
    generalize hacts : items.map Act.place ++ [] = acts at h'
    cases h' with
    | @last _ items' hfits' =>
      rw [← List.append_nil (items'.map Act.place)] at hacts
      obtain ⟨rfl, -⟩ := hfits.unique hfits' (stops_nil s _) (stops_nil s _) hacts
      exact ⟨rfl, rfl⟩
    | next hfits' hbreaks =>
      obtain ⟨-, hrest⟩ := hfits.unique hfits' (stops_nil s _) hbreaks.stops hacts
      exact absurd hrest.symm hbreaks.ne_nil
  | @next top fallback items rest acts lines l hfits hbreaks _ ih =>
    generalize hacts : items.map Act.place ++ rest = asked at h'
    cases h' with
    | @last _ items' hfits' =>
      rw [← List.append_nil (items'.map Act.place)] at hacts
      obtain ⟨-, hrest⟩ := hfits.unique hfits' hbreaks.stops (stops_nil s _) hacts
      exact absurd hrest hbreaks.ne_nil
    | next hfits' hbreaks' h' =>
      obtain ⟨rfl, rfl⟩ := hfits.unique hfits' hbreaks.stops hbreaks'.stops hacts
      obtain ⟨rfl, rfl⟩ := hbreaks.unique hbreaks'
      obtain ⟨rfl, rfl⟩ := ih h'
      exact ⟨rfl, rfl⟩

/-! ## The typesetter in a line -/

theorem breakLine_typesetter (s : Settings) (l : Line) (fallback : Float32) :
    (l.typesetter s).breakLine fallback = Line.typesetter s ⟨l.below s fallback, []⟩ := rfl

theorem set_typesetter (s : Settings) (l : Line) (i : Item) :
    (l.typesetter s).set i.size = (l.add i).typesetter s := by
  have hstarted : (l.items ++ [i]).isEmpty = false := by simp
  unfold set Line.typesetter Line.add
  dsimp only
  rw [endOf_concat, tallest_concat, hstarted]
  rfl

theorem overflows_typesetter :
    (l.typesetter s).overflows i.size.width = true ↔ l.items ≠ [] ∧ Overflows s l.items i := by
  unfold overflows Overflows Line.typesetter
  simp only [Bool.and_eq_true, Bool.not_eq_true', List.isEmpty_eq_false_iff, decide_eq_true_eq]
  exact ⟨fun ⟨⟨hwrap, hne⟩, hlt⟩ => ⟨hne, hwrap, hlt⟩, fun ⟨hne, hwrap, hlt⟩ => ⟨⟨hwrap, hne⟩, hlt⟩⟩

theorem placed_add (s : Settings) (l : Line) (i : Item) :
    (l.add i).placed s = l.placed s ++ [(⟨endOf s l.items, l.top⟩, i.size)] := by
  have hfrom : ∀ (items : List Item) (x : Float32),
      Line.placedFrom s l.top x (items ++ [i]) = Line.placedFrom s l.top x items ++
        [(⟨items.foldl (fun x i => x + (i.size.width + s.kerning)) x, l.top⟩, i.size)] := by
    intro items
    induction items with
    | nil => exact fun x => rfl
    | cons j items ih => exact fun x => congrArg _ (ih _)
  exact hfrom l.items s.window.x

/-- A glyph that does not overflow goes to the end of its line. -/
theorem run_place (h : ¬(l.items ≠ [] ∧ Overflows s l.items i)) (before : List (Point × Size)) :
    (Act.place i).run ⟨l.typesetter s, before ++ l.placed s⟩ =
      ⟨(l.add i).typesetter s, before ++ (l.add i).placed s⟩ := by
  unfold Act.run place
  dsimp only
  rw [if_neg (mt overflows_typesetter.mp h), set_typesetter, placed_add, List.append_assoc]
  rfl

/-- A glyph that overflows begins the next line. -/
theorem run_place_of_overflows (hne : l.items ≠ []) (hover : Overflows s l.items i)
    (before : List (Point × Size)) :
    (Act.place i).run ⟨l.typesetter s, before ++ l.placed s⟩ =
      ⟨Line.typesetter s ⟨l.below s i.fallback, [i]⟩,
        before ++ l.placed s ++ Line.placed s ⟨l.below s i.fallback, [i]⟩⟩ := by
  unfold Act.run place
  dsimp only
  rw [if_pos (overflows_typesetter.mpr ⟨hne, hover⟩), breakLine_typesetter, set_typesetter]
  rfl

theorem run_breakLine (s : Settings) (l : Line) (fallback : Float32)
    (before : List (Point × Size)) :
    (Act.breakLine fallback).run ⟨l.typesetter s, before ++ l.placed s⟩ =
      ⟨Line.typesetter s ⟨l.below s fallback, []⟩,
        before ++ l.placed s ++ Line.placed s ⟨l.below s fallback, []⟩⟩ := by
  rw [show Line.placed s ⟨l.below s fallback, []⟩ = [] from rfl, List.append_nil]
  rfl

/-! ## The lines of a sheet -/

/-- **From a line on, what is asked is set in the lines it breaks into.** -/
theorem exists_broken (hacts : ∀ a ∈ acts, a.isReset = false) (hfits : Fits s l.items)
    (before : List (Point × Size)) :
    ∃ lines last, Broken s l.top (l.items.map .place ++ acts) lines last ∧
      acts.foldl (fun h a => a.run h) ⟨l.typesetter s, before ++ l.placed s⟩ =
        ⟨last.typesetter s, before ++ (lines ++ [last]).flatMap (Line.placed s)⟩ := by
  induction acts generalizing l before with
  | nil =>
    refine ⟨[], l, ?_, ?_⟩
    · rw [List.append_nil]
      exact .last hfits
    · rw [List.nil_append, List.flatMap_singleton]
      rfl
  | cons a acts ih =>
    obtain ⟨ha, hrest⟩ := List.forall_mem_cons.mp hacts
    rw [List.foldl_cons]
    cases a with
    | reset => simp [Act.isReset] at ha
    | breakLine fallback =>
      obtain ⟨lines, last, hbroken, hrun⟩ := ih hrest (l := ⟨l.below s fallback, []⟩) (fits_nil s)
        (before ++ l.placed s)
      refine ⟨l :: lines, last, .next hfits (.asked fallback acts) hbroken, ?_⟩
      rw [run_breakLine, hrun, List.cons_append, List.flatMap_cons, List.append_assoc]
    | place i =>
      by_cases hover : l.items ≠ [] ∧ Overflows s l.items i
      · obtain ⟨hne, hover⟩ := hover
        obtain ⟨lines, last, hbroken, hrun⟩ := ih hrest (l := ⟨l.below s i.fallback, [i]⟩)
          (fits_singleton s i) (before ++ l.placed s)
        refine ⟨l :: lines, last, .next hfits (.wrapped hne hover acts) hbroken, ?_⟩
        rw [run_place_of_overflows hne hover, hrun, List.cons_append, List.flatMap_cons,
          List.append_assoc]
      · have hadd : Fits s (l.add i).items := hfits.concat fun hne ho => hover ⟨hne, ho⟩
        obtain ⟨lines, last, hbroken, hrun⟩ := ih hrest hadd before
        refine ⟨lines, last, ?_, ?_⟩
        · have hitems : (l.add i).items.map Act.place ++ acts =
              l.items.map Act.place ++ .place i :: acts := by
            simp [Line.add]
          rw [← hitems]
          exact hbroken
        · rw [run_place hover, hrun]

theorem sheet_append (s : Settings) (acts more : List Act) :
    sheet s (acts ++ more) = more.foldl (fun h a => a.run h) (sheet s acts) := List.foldl_append

/-- The window and the other settings stay as they are. -/
theorem reset_run (a : Act) (h : Sheet) (hreset : h.typesetter.reset = ofSettings s) :
    (a.run h).typesetter.reset = ofSettings s := by
  cases a with
  | place i =>
    rw [← hreset]
    unfold Act.run place
    dsimp only
    split <;> rfl
  | breakLine fallback => exact hreset
  | reset => exact hreset

theorem reset_sheet (s : Settings) (acts : List Act) :
    (sheet s acts).typesetter.reset = ofSettings s := by
  induction acts using List.reverseRecOn with
  | nil => rfl
  | append_singleton acts a ih =>
    rw [sheet_append]
    exact reset_run a _ ih

/-- **An emptied window is like a new one.** -/
theorem sheet_reset (s : Settings) (acts more : List Act) :
    sheet s (acts ++ .reset :: more) = sheet s more := by
  have hempty : Act.reset.run (sheet s acts) = ⟨ofSettings s, []⟩ := by
    rw [← reset_sheet s acts]
    rfl
  rw [sheet_append, List.foldl_cons, hempty]
  rfl

/-- What was asked before the window was last emptied has no say. -/
theorem sheet_sinceReset (s : Settings) (acts : List Act) :
    sheet s (sinceReset acts) = sheet s acts := by
  induction acts using List.reverseRecOn with
  | nil => rfl
  | append_singleton acts a ih =>
    unfold sinceReset at ih ⊢
    by_cases ha : a.isReset = true
    · rw [List.rtakeWhile_concat_neg _ _ _ (by simp [ha])]
      cases a with
      | reset => exact (sheet_reset s acts []).symm
      | _ => simp [Act.isReset] at ha
    · rw [List.rtakeWhile_concat_pos _ _ _ (by simp [ha]), sheet_append, sheet_append, ih]

/--
**Lines are set as if the whole text were broken at once.**

Whatever the settings and whatever is asked: the glyphs placed since the window was last emptied
stand in the lines into which what was asked since then breaks, and that in one way only. The
typesetter stands at the end of the last of these lines. A line is as high as the highest of its
glyphs. With wrapping on, no glyph but the first of its line passes the right edge. An emptied
window is like a new one.
-/
theorem sheet_eq_lines (s : Settings) (acts : List Act) :
    (∃ lines last, Broken s s.window.y (sinceReset acts) lines last ∧
      (∀ lines' last', Broken s s.window.y (sinceReset acts) lines' last' →
        lines' = lines ∧ last' = last) ∧
      sheet s acts = ⟨last.typesetter s, (lines ++ [last]).flatMap (Line.placed s)⟩ ∧
      (∀ l ∈ lines ++ [last], IsTallest (l.items.map (·.size.height)) (tallest l.items)) ∧
      (s.wrap = true → ∀ l ∈ lines ++ [last], ∀ g ∈ (l.placed s).tail,
        ¬s.window.right < g.1.x + g.2.width)) ∧
    ∀ more, sheet s (acts ++ .reset :: more) = sheet s more := by
  have hacts : ∀ a ∈ sinceReset acts, a.isReset = false := by
    intro a ha
    simpa using List.mem_rtakeWhile_imp ha
  obtain ⟨lines, last, hbroken, hrun⟩ :=
    exists_broken (l := ⟨s.window.y, []⟩) hacts (fits_nil s) []
  have hsheet : sheet s (sinceReset acts) =
      ⟨last.typesetter s, (lines ++ [last]).flatMap (Line.placed s)⟩ := hrun
  refine ⟨⟨lines, last, hbroken, fun _ _ h => h.unique hbroken, ?_, ?_, ?_⟩,
    sheet_reset s acts⟩
  · rw [← sheet_sinceReset, hsheet]
  · exact fun l _ => isTallest_tallest l.items
  · exact fun hwrap l hl g hg => (hbroken.fits l hl).not_right_lt hwrap hg

/-- The first line is as high as the higher of its glyphs. The second has no glyph and the third one
without height, so that these are as high as is asked for. -/
example :
    let s : Settings := { window := ⟨0, 0, 15, 99⟩, lineSpacing := 1 }
    let acts : List Act := [.place ⟨⟨5, 9⟩, 4⟩, .place ⟨⟨5, 7⟩, 4⟩, .breakLine 4, .breakLine 3,
      .place ⟨⟨9, 0⟩, 4⟩, .place ⟨⟨9, 8⟩, 2⟩]
    (sheet s acts).placed.map Prod.fst = [⟨0, 0⟩, ⟨5, 0⟩, ⟨0, 14⟩, ⟨0, 17⟩] := by
  decide +kernel

end DialogueBox.Typesetter
