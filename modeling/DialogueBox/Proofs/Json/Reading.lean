import DialogueBox.Json.Reader
import DialogueBox.Proofs.Json.Numerals

/-!
# Trees are read as they are written

Reading the text of a tree gives the tree back, if its numbers keep to the grammar (`read_print`).
The text stands on one line (`WellFormed.newline_notMem_print`), so texts of trees can be told apart
where each has a line of its own.

A tree has tokens of its own (`Json.toTokens`). Its text consists of them, whatever follows the
text, as long as that does not go on with a number; and the tokens are read as the tree, whatever is
still open around it. Both are said of a single tree (`Reads`) and go over to arrays and objects.
-/

namespace DialogueBox.Json

/-! ## Strings -/

theorem hexWord?_control : ∀ n < 32,
    hexWord? '0' '0' (hexDigit (n / 16)) (hexDigit (n % 16)) = some n := by decide

/-- **A character is written by the grammar**, also a control character. -/
theorem writesUnit_escape (c : Char) : WritesUnit (escape c) (.char c) := by
  unfold escape
  split
  case h_8 hquote hbackslash _ _ _ _ _ =>
    split
    · next hlt =>
      have hunit : unitOfWord c.toNat = .char c := by
        rw [unitOfWord, if_neg (by omega), Char.ofNat_toNat]
      rw [← hunit]
      exact .word (hexWord?_control _ hlt)
    · next hge => exact .plain hge hquote hbackslash
  all_goals exact .short rfl

theorem writesUnits_flatMap_escape (s : List Char) :
    WritesUnits (s.flatMap escape) (s.map .char) := by
  induction s with
  | nil => exact .nil
  | cons c s ih => exact .cons (writesUnit_escape c) ih

theorem joinHalves?_map_char (s : List Char) : joinHalves? (s.map Unit16.char) = some s := by
  induction s with
  | nil => rfl
  | cons c s ih =>
    rw [List.map_cons, joinHalves?, ih]
    rfl

theorem writesToken_quote? (s : Option String) : WritesToken (quote? s) (.string s) := by
  cases s with
  | none => exact .string (.cons (.word (n := 0xD800) rfl) .nil)
  | some s =>
    have h := WritesToken.string (writesUnits_flatMap_escape s.toList)
    rwa [joinHalves?_map_char, Option.map_some, String.ofList_toList] at h

/-! ## Tokens -/

theorem tokens_quote? (s : Option String) (r : List Char) :
    tokens (quote? s ++ r) = (tokens r).map (.string s :: ·) :=
  (writesToken_quote? s).tokens fun _ hn => nomatch hn

theorem tokens_numeral {n : Numeral} (h : n.WellFormed) {rest : List Char} (hr : Stops rest) :
    tokens (n.print ++ rest) = (tokens rest).map (.number n :: ·) :=
  (WritesToken.number (Numeral.writes_print h)).tokens fun _ _ => hr

/-! ## The tokens of a tree -/

mutual

/-- The tokens of a tree. -/
def toTokens : Json → List Token
  | null => [.null]
  | bool b => [.bool b]
  | number n => [.number n]
  | string s => [.string s]
  | array items => .openBracket :: (itemTokens items ++ [.closeBracket])
  | object fields => .openBrace :: (fieldTokens fields ++ [.closeBrace])

/-- The tokens of the items of an array. -/
def itemTokens : List Json → List Token
  | [] => []
  | [v] => v.toTokens
  | v :: r => v.toTokens ++ .comma :: itemTokens r

/-- The tokens of the fields of an object. -/
def fieldTokens : List (Option String × Json) → List Token
  | [] => []
  | [(name, v)] => .string name :: .colon :: v.toTokens
  | (name, v) :: r => .string name :: .colon :: (v.toTokens ++ .comma :: fieldTokens r)

end

/-- A tree is read as it is written. -/
structure Reads (v : Json) : Prop where
  /-- The text consists of the tokens. -/
  tokens : ∀ rest, Stops rest → tokens (v.print ++ rest) = (tokens rest).map (v.toTokens ++ ·)
  /-- The tokens are read as the tree. -/
  value : ∀ ts st, value (v.toTokens ++ ts) st = resume v ts st

/-! ## Arrays -/

theorem tokens_printItems {items : List Json} (h : ∀ v ∈ items, Reads v) {rest : List Char}
    (hr : Stops rest) :
    tokens (printItems items ++ rest) = (tokens rest).map (itemTokens items ++ ·) := by
  induction items with
  | nil => exact Option.map_id'.symm
  | cons v items ih =>
    have hv := h v List.mem_cons_self
    cases items with
    | nil => exact hv.tokens rest hr
    | cons w items =>
      have hcomma : Json.tokens (',' :: (printItems (w :: items) ++ rest)) =
          (Json.tokens (printItems (w :: items) ++ rest)).map (.comma :: ·) :=
        tokens_cons rfl rfl
      show Json.tokens (v.print ++ ',' :: printItems (w :: items) ++ rest) = _
      rw [List.append_assoc, List.cons_append, hv.tokens _ (stops_cons rfl), hcomma,
        ih fun x hx => h x (List.mem_cons_of_mem _ hx), Option.map_map, Option.map_map]
      congr 1
      funext ts
      simp [itemTokens]

theorem value_itemTokens {v : Json} {items : List Json} (h : ∀ w ∈ v :: items, Reads w)
    (front : List Json) (ts : List Token) (st : List Frame) :
    value (itemTokens (v :: items) ++ .closeBracket :: ts) (.array front :: st) =
      resume (.array (front.reverse ++ v :: items)) ts st := by
  induction items generalizing v front with
  | nil =>
    show value (v.toTokens ++ .closeBracket :: ts) _ = _
    rw [(h v List.mem_cons_self).value, resume, List.reverse_cons]
  | cons w items ih =>
    show value (v.toTokens ++ .comma :: itemTokens (w :: items) ++ .closeBracket :: ts) _ = _
    rw [List.append_assoc, (h v List.mem_cons_self).value, List.cons_append, resume,
      ih fun x hx => h x (List.mem_cons_of_mem _ hx), List.reverse_cons, List.append_assoc]
    rfl

/-- No tree begins with the end of an array. -/
theorem head?_toTokens (v : Json) : ∃ t ts, v.toTokens = t :: ts ∧ t ≠ .closeBracket := by
  cases v <;> exact ⟨_, _, rfl, by simp⟩

theorem head?_itemTokens (v : Json) (items : List Json) :
    ∃ t ts, itemTokens (v :: items) = t :: ts ∧ t ≠ .closeBracket := by
  obtain ⟨t, ts, hv, ht⟩ := head?_toTokens v
  cases items with
  | nil => exact ⟨t, ts, hv, ht⟩
  | cons w items => exact ⟨t, ts ++ .comma :: itemTokens (w :: items), by simp [itemTokens, hv], ht⟩

theorem value_openBracket {t : Token} (ht : t ≠ .closeBracket) (ts : List Token)
    (st : List Frame) : value (.openBracket :: t :: ts) st = value (t :: ts) (.array [] :: st) := by
  cases t <;> first | rfl | exact absurd rfl ht

theorem Reads.array {items : List Json} (h : ∀ v ∈ items, Reads v) : Reads (.array items) := by
  constructor
  · intro rest _
    have hopen : Json.tokens ('[' :: (printItems items ++ ']' :: rest)) =
        (Json.tokens (printItems items ++ ']' :: rest)).map (.openBracket :: ·) :=
      tokens_cons rfl rfl
    have hclose : Json.tokens (']' :: rest) = (Json.tokens rest).map (.closeBracket :: ·) :=
      tokens_cons rfl rfl
    show Json.tokens ('[' :: (printItems items ++ [']'] ++ rest)) = _
    rw [List.append_assoc, List.singleton_append, hopen, tokens_printItems h (stops_cons rfl),
      hclose, Option.map_map, Option.map_map]
    congr 1
    funext ts
    simp [toTokens]
  · intro ts st
    show Json.value (.openBracket :: (itemTokens items ++ [.closeBracket] ++ ts)) st = _
    rw [List.append_assoc, List.singleton_append]
    cases items with
    | nil => rfl
    | cons v items =>
      have hitems := value_itemTokens h [] ts st
      obtain ⟨t, ts', hts, ht⟩ := head?_itemTokens v items
      rw [hts, List.cons_append] at hitems ⊢
      rw [value_openBracket ht, hitems]
      rfl

/-! ## Objects -/

theorem tokens_field {v : Json} (hv : Reads v) (name : Option String) {rest : List Char}
    (hr : Stops rest) : tokens (quote? name ++ ':' :: (v.print ++ rest)) =
      (tokens rest).map (.string name :: .colon :: v.toTokens ++ ·) := by
  have hcolon : Json.tokens (':' :: (v.print ++ rest)) =
      (Json.tokens (v.print ++ rest)).map (.colon :: ·) := tokens_cons rfl rfl
  rw [tokens_quote?, hcolon, hv.tokens rest hr, Option.map_map, Option.map_map]
  rfl

theorem tokens_printFields {fields : List (Option String × Json)}
    (h : ∀ f ∈ fields, Reads f.2) {rest : List Char} (hr : Stops rest) :
    tokens (printFields fields ++ rest) = (tokens rest).map (fieldTokens fields ++ ·) := by
  induction fields with
  | nil => exact Option.map_id'.symm
  | cons f fields ih =>
    obtain ⟨name, v⟩ := f
    have hv : Reads v := h (name, v) List.mem_cons_self
    cases fields with
    | nil =>
      show Json.tokens (quote? name ++ ':' :: v.print ++ rest) = _
      rw [List.append_assoc, List.cons_append]
      exact tokens_field hv name hr
    | cons g fields =>
      have hcomma : Json.tokens (',' :: (printFields (g :: fields) ++ rest)) =
          (Json.tokens (printFields (g :: fields) ++ rest)).map (.comma :: ·) :=
        tokens_cons rfl rfl
      show Json.tokens (quote? name ++ ':' :: (v.print ++ ',' :: printFields (g :: fields)) ++
        rest) = _
      rw [List.append_assoc, List.cons_append, List.append_assoc, List.cons_append,
        tokens_field hv name (stops_cons rfl), hcomma,
        ih fun x hx => h x (List.mem_cons_of_mem _ hx), Option.map_map, Option.map_map]
      congr 1
      funext ts
      simp [fieldTokens]

/-- Behind the value of a field the others follow. -/
theorem resume_fieldTokens {f : Option String × Json} {fields : List (Option String × Json)}
    (h : ∀ g ∈ f :: fields, Reads g.2) (front : List (Option String × Json))
    (name : Option String) (v : Json) (ts : List Token) (st : List Frame) :
    resume v (.comma :: (fieldTokens (f :: fields) ++ .closeBrace :: ts))
        (.object front name :: st) =
      resume (.object (front.reverse ++ (name, v) :: f :: fields)) ts st := by
  induction fields generalizing f front name v with
  | nil =>
    obtain ⟨name', w⟩ := f
    have hw : Reads w := h (name', w) List.mem_cons_self
    show resume v (.comma :: .string name' :: .colon :: (w.toTokens ++ .closeBrace :: ts)) _ = _
    rw [resume, hw.value, resume, List.reverse_cons, List.reverse_cons, List.append_assoc]
    rfl
  | cons g fields ih =>
    obtain ⟨name', w⟩ := f
    have hw : Reads w := h (name', w) List.mem_cons_self
    show resume v (.comma :: .string name' :: .colon ::
      (w.toTokens ++ .comma :: fieldTokens (g :: fields) ++ .closeBrace :: ts)) _ = _
    rw [resume, List.append_assoc, hw.value, List.cons_append,
      ih fun x hx => h x (List.mem_cons_of_mem _ hx), List.reverse_cons, List.append_assoc]
    rfl

theorem Reads.object {fields : List (Option String × Json)} (h : ∀ f ∈ fields, Reads f.2) :
    Reads (.object fields) := by
  constructor
  · intro rest _
    have hopen : Json.tokens ('\x7b' :: (printFields fields ++ '\x7d' :: rest)) =
        (Json.tokens (printFields fields ++ '\x7d' :: rest)).map (.openBrace :: ·) :=
      tokens_cons rfl rfl
    have hclose : Json.tokens ('\x7d' :: rest) = (Json.tokens rest).map (.closeBrace :: ·) :=
      tokens_cons rfl rfl
    show Json.tokens ('\x7b' :: (printFields fields ++ ['\x7d'] ++ rest)) = _
    rw [List.append_assoc, List.singleton_append, hopen, tokens_printFields h (stops_cons rfl),
      hclose, Option.map_map, Option.map_map]
    congr 1
    funext ts
    simp [toTokens]
  · intro ts st
    show Json.value (.openBrace :: (fieldTokens fields ++ [.closeBrace] ++ ts)) st = _
    rw [List.append_assoc, List.singleton_append]
    cases fields with
    | nil => rfl
    | cons f fields =>
      obtain ⟨name, v⟩ := f
      have hv : Reads v := h (name, v) List.mem_cons_self
      cases fields with
      | nil =>
        show Json.value (.openBrace :: .string name :: .colon ::
          (v.toTokens ++ .closeBrace :: ts)) st = _
        rw [Json.value, hv.value, resume]
        rfl
      | cons g fields =>
        show Json.value (.openBrace :: .string name :: .colon ::
          (v.toTokens ++ .comma :: fieldTokens (g :: fields) ++ .closeBrace :: ts)) st = _
        rw [Json.value, List.append_assoc, hv.value, List.cons_append,
          resume_fieldTokens fun x hx => h x (List.mem_cons_of_mem _ hx)]
        rfl

/-! ## All trees -/

/-- A tree whose numbers keep to the grammar. -/
inductive WellFormed : Json → Prop
  | null : WellFormed .null
  | bool (b : Bool) : WellFormed (.bool b)
  | number {n : Numeral} (h : n.WellFormed) : WellFormed (.number n)
  | string (s : Option String) : WellFormed (.string s)
  | array {items : List Json} (h : ∀ v ∈ items, WellFormed v) : WellFormed (.array items)
  | object {fields : List (Option String × Json)} (h : ∀ f ∈ fields, WellFormed f.2) :
    WellFormed (.object fields)

theorem WellFormed.reads {v : Json} (h : v.WellFormed) : Reads v := by
  induction h with
  | null => exact ⟨fun _ _ => tokens_cons rfl rfl, fun _ _ => rfl⟩
  | bool b =>
    refine ⟨fun rest _ => ?_, fun _ _ => rfl⟩
    cases b with
    | true => exact tokens_cons rfl rfl
    | false => exact tokens_cons rfl rfl
  | number h => exact ⟨fun _ hr => tokens_numeral h hr, fun _ _ => rfl⟩
  | string s => exact ⟨fun rest _ => tokens_quote? s rest, fun _ _ => rfl⟩
  | array _ ih => exact .array ih
  | object _ ih => exact .object ih

/-- **The text of a tree is read as the tree.** -/
theorem read_print {v : Json} (h : v.WellFormed) : read v.print = some v := by
  have hreads := h.reads
  have htokens := hreads.tokens [] stops_nil
  have hvalue := hreads.value [] []
  rw [List.append_nil] at htokens hvalue
  unfold read
  rw [htokens, tokens]
  show value (v.toTokens ++ []) [] = _
  rw [List.append_nil, hvalue]
  rfl

/-! ## Texts on one line -/

theorem newline_notMem_of_digits {ds : List Char} (h : ∀ c ∈ ds, c.isDigit = true) : '\n' ∉ ds :=
  fun hmem => absurd (h _ hmem) (by decide)

theorem newline_notMem_numeral {n : Numeral} (h : n.WellFormed) : '\n' ∉ n.print := by
  have hexponent : '\n' ∉ Numeral.exponentText n.exponent := by
    cases n.exponent with
    | none => exact List.not_mem_nil
    | some e =>
      have hdigits := newline_notMem_of_digits (Number.isDigit_of_mem_toDigits (n := e.natAbs))
      by_cases he : e < 0 <;> simp [Numeral.exponentText, he, hdigits]
  have hfraction : '\n' ∉ Numeral.fractionText n.fraction := by
    have hdigits := newline_notMem_of_digits h.fraction
    unfold Numeral.fractionText
    split
    · exact List.not_mem_nil
    · exact List.not_mem_cons_of_ne_of_not_mem (by decide) hdigits
  have hsign : '\n' ∉ if n.negative then ['-'] else [] := by
    cases n.negative <;> decide
  rw [Numeral.print_eq]
  simp only [List.mem_append, not_or]
  exact ⟨hsign, newline_notMem_of_digits h.whole.digits, hfraction, hexponent⟩

/-- A line feed is written by its letter. -/
theorem newline_notMem_escape (c : Char) : '\n' ∉ escape c := by
  have hhex : ∀ n < 16, hexDigit n ≠ '\n' := by decide
  unfold escape
  split
  -- what has no letter is written by its digits, or stands for itself
  case h_8 _ _ _ _ hnewline _ _ =>
    split
    · next hlt =>
      have hhigh := hhex (c.toNat / 16) (by omega)
      have hlow := hhex (c.toNat % 16) (by omega)
      simp [hhigh.symm, hlow.symm]
    · exact fun hmem => hnewline (List.mem_singleton.mp hmem).symm
  all_goals decide

theorem newline_notMem_quote? (s : Option String) : '\n' ∉ quote? s := by
  cases s with
  | none => decide
  | some s =>
    have hescape : '\n' ∉ s.toList.flatMap escape := fun hmem =>
      have ⟨c, _, hc⟩ := List.mem_flatMap.mp hmem
      newline_notMem_escape c hc
    show '\n' ∉ quote s.toList
    simp [quote, hescape]

theorem newline_notMem_printItems {items : List Json} (h : ∀ v ∈ items, '\n' ∉ v.print) :
    '\n' ∉ printItems items := by
  induction items with
  | nil => exact List.not_mem_nil
  | cons v items ih =>
    have hv := h v List.mem_cons_self
    have hitems := ih fun w hw => h w (List.mem_cons_of_mem _ hw)
    cases items with
    | nil => exact hv
    | cons w items => simp [printItems, hv, hitems]

theorem newline_notMem_printFields {fields : List (Option String × Json)}
    (h : ∀ f ∈ fields, '\n' ∉ f.2.print) : '\n' ∉ printFields fields := by
  induction fields with
  | nil => exact List.not_mem_nil
  | cons f fields ih =>
    have hname := newline_notMem_quote? f.1
    have hv := h f List.mem_cons_self
    have hfields := ih fun g hg => h g (List.mem_cons_of_mem _ hg)
    cases fields with
    | nil => simp [printFields, hname, hv]
    | cons g fields => simp [printFields, hname, hv, hfields]

/-- **The text of a tree stands on one line.** -/
theorem WellFormed.newline_notMem_print {v : Json} (h : v.WellFormed) : '\n' ∉ v.print := by
  induction h with
  | null => simp [print]
  | bool b => cases b <;> simp [print]
  | number h => exact newline_notMem_numeral h
  | string s => exact newline_notMem_quote? s
  | array _ ih => simp [print, newline_notMem_printItems ih]
  | object _ ih => simp [print, newline_notMem_printFields ih]

end DialogueBox.Json
