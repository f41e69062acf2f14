import DialogueBox.Proofs.Json.Reading

/-!
# JSON texts

A text writes a tree if it writes the tokens of the tree, with blanks between them (`Writes`). Each
token may be written in any of its spellings. The reader accepts the texts that write a tree and no
others, and reads them as this tree (`read_eq_some_iff`).

What is on the stack of the reader and what it has not yet taken are the tokens of the tree in the
end (`toTokens_of_value_and_resume`). So no text is accepted that has other tokens.
-/

namespace DialogueBox.Json

variable {s : List Char} {v : Json}

/-- The text is a JSON text of the tree. -/
def Writes (s : List Char) (v : Json) : Prop := WritesTokens s v.toTokens

/-! ## Numbers in trees -/

theorem WritesTokens.wellFormed {ts : List Token} (h : WritesTokens s ts) :
    ∀ n, .number n ∈ ts → n.WellFormed := by
  induction h with
  | nil => exact fun n hn => nomatch hn
  | blank _ _ ih => exact ih
  | token ht _ _ ih =>
    intro n hn
    rcases List.mem_cons.mp hn with rfl | hn
    · cases ht with
      | number h =>
        cases h with
        | mk h _ => exact h
    · exact ih n hn

theorem mem_itemTokens {items : List Json} {t : Token} (hv : v ∈ items) (ht : t ∈ v.toTokens) :
    t ∈ itemTokens items := by
  induction items with
  | nil => cases hv
  | cons w items ih =>
    cases items with
    | nil => exact List.mem_singleton.mp hv ▸ ht
    | cons x items =>
      show t ∈ w.toTokens ++ .comma :: itemTokens (x :: items)
      rcases List.mem_cons.mp hv with rfl | hv
      · exact List.mem_append_left _ ht
      · exact List.mem_append_right _ (List.mem_cons_of_mem _ (ih hv))

theorem mem_fieldTokens {fields : List (Option String × Json)} {f : Option String × Json}
    {t : Token} (hf : f ∈ fields) (ht : t ∈ f.2.toTokens) : t ∈ fieldTokens fields := by
  induction fields with
  | nil => cases hf
  | cons g fields ih =>
    obtain ⟨name, w⟩ := g
    cases fields with
    | nil =>
      rw [List.mem_singleton.mp hf] at ht
      exact List.mem_cons_of_mem _ (List.mem_cons_of_mem _ ht)
    | cons x fields =>
      show t ∈ .string name :: .colon :: (w.toTokens ++ .comma :: fieldTokens (x :: fields))
      refine List.mem_cons_of_mem _ (List.mem_cons_of_mem _ ?_)
      rcases List.mem_cons.mp hf with rfl | hf
      · exact List.mem_append_left _ ht
      · exact List.mem_append_right _ (List.mem_cons_of_mem _ (ih hf))

/-- The numbers of a tree are among its tokens. -/
theorem wellFormed_of_toTokens (v : Json) (h : ∀ n, .number n ∈ v.toTokens → n.WellFormed) :
    v.WellFormed := by
  match v with
  | .null => exact .null
  | .bool b => exact .bool b
  | .number n => exact .number (h n List.mem_cons_self)
  | .string s => exact .string s
  | .array items =>
    refine .array fun w hw => wellFormed_of_toTokens w fun n hn => h n ?_
    exact List.mem_cons_of_mem _ (List.mem_append_left _ (mem_itemTokens hw hn))
  | .object fields =>
    refine .object fun f hf => wellFormed_of_toTokens f.2 fun n hn => h n ?_
    exact List.mem_cons_of_mem _ (List.mem_append_left _ (mem_fieldTokens hf hn))
termination_by v
decreasing_by
  · have := List.sizeOf_lt_of_mem hw
    simp only [array.sizeOf_spec]
    omega
  · have := List.sizeOf_lt_of_mem hf
    obtain ⟨name, w⟩ := f
    simp only [object.sizeOf_spec, Prod.mk.sizeOf_spec] at *
    omega

/-! ## Tokens that have been taken -/

/-- The tokens of an item with the comma behind it. -/
def itemLead (v : Json) : List Token := v.toTokens ++ [.comma]

/-- The tokens of a field with the comma behind it. -/
def fieldLead (f : Option String × Json) : List Token :=
  .string f.1 :: .colon :: (f.2.toTokens ++ [.comma])

/-- The tokens of an array or object that is not yet closed. -/
def Frame.tokens : Frame → List Token
  | .array items => .openBracket :: items.reverse.flatMap itemLead
  | .object fields name =>
    .openBrace :: (fields.reverse.flatMap fieldLead ++ [.string name, .colon])

/-- The tokens in front of a place in a text, where these arrays and objects are open. -/
def openTokens (st : List Frame) : List Token := st.reverse.flatMap Frame.tokens

theorem openTokens_cons (f : Frame) (st : List Frame) :
    openTokens (f :: st) = openTokens st ++ f.tokens := by
  rw [openTokens, List.reverse_cons, List.flatMap_append, List.flatMap_singleton, openTokens]

theorem itemTokens_concat (items : List Json) (v : Json) :
    itemTokens (items ++ [v]) = items.flatMap itemLead ++ v.toTokens := by
  induction items with
  | nil => rfl
  | cons w items ih =>
    rw [List.flatMap_cons, itemLead, List.append_assoc, List.append_assoc, ← ih]
    cases items <;> rfl

theorem fieldTokens_concat (fields : List (Option String × Json)) (name : Option String)
    (v : Json) : fieldTokens (fields ++ [(name, v)]) =
      fields.flatMap fieldLead ++ .string name :: .colon :: v.toTokens := by
  induction fields with
  | nil => rfl
  | cons f fields ih =>
    obtain ⟨name', w⟩ := f
    have hlead : fieldLead (name', w) ++ fieldTokens (fields ++ [(name, v)]) =
        .string name' :: .colon ::
          (w.toTokens ++ .comma :: fieldTokens (fields ++ [(name, v)])) := by
      rw [fieldLead, List.cons_append, List.cons_append, List.append_assoc, List.singleton_append]
    rw [List.flatMap_cons, List.append_assoc, ← ih, hlead]
    cases fields <;> rfl

/-- What has been taken and what is left are the tokens of the tree that is read. -/
theorem toTokens_of_value_and_resume :
    (∀ ts st, ∀ w, value ts st = some w → w.toTokens = openTokens st ++ ts) ∧
      ∀ v ts st, ∀ w, resume v ts st = some w →
        w.toTokens = openTokens st ++ (v.toTokens ++ ts) := by
  refine value.mutual_induct _ _ ?null ?bool ?number ?string ?emptyArray ?array ?emptyObject
    ?object ?noValue ?finished ?nextItem ?endArray ?nextField ?endObject ?noRest
  case null => exact fun ts st ih => ih
  case bool => exact fun b ts st ih => ih
  case number => exact fun n ts st ih => ih
  case string => exact fun s ts st ih => ih
  case emptyArray => exact fun ts st ih => ih
  case array =>
    intro ts st hts ih w hw
    rw [value] at hw
    · rw [ih w hw, openTokens_cons, List.append_assoc]
      rfl
    · exact hts
  case emptyObject => exact fun ts st ih => ih
  case object =>
    intro name ts st ih w hw
    rw [ih w hw, openTokens_cons, List.append_assoc]
    rfl
  case noValue =>
    intro ts st h1 h2 h3 h4 h5 h6 h7 h8 w hw
    rw [value] at hw
    · cases hw
    all_goals assumption
  case finished =>
    intro v w hw
    cases hw
    exact (List.append_nil _).symm
  case nextItem =>
    intro v ts items st ih w hw
    rw [ih w hw, openTokens_cons, openTokens_cons, Frame.tokens, Frame.tokens, List.reverse_cons,
      List.flatMap_append, List.flatMap_singleton, itemLead]
    simp only [List.append_assoc, List.cons_append, List.nil_append]
  case endArray =>
    intro v ts items st ih w hw
    rw [ih w hw, openTokens_cons, Frame.tokens, toTokens, List.reverse_cons, itemTokens_concat]
    simp only [List.append_assoc, List.cons_append, List.nil_append]
  case nextField =>
    intro v name ts fields name' st ih w hw
    rw [ih w hw, openTokens_cons, openTokens_cons, Frame.tokens, Frame.tokens, List.reverse_cons,
      List.flatMap_append, List.flatMap_singleton, fieldLead]
    simp only [List.append_assoc, List.cons_append, List.nil_append]
  case endObject =>
    intro v ts fields name st ih w hw
    rw [ih w hw, openTokens_cons, Frame.tokens, toTokens, List.reverse_cons, fieldTokens_concat]
    simp only [List.append_assoc, List.cons_append, List.nil_append]
  case noRest =>
    intro ts v st h1 h2 h3 h4 h5 w hw
    rw [resume] at hw
    · cases hw
    all_goals assumption

/-! ## Reading texts -/

/-- **The reader accepts the texts that write a tree, and reads them as this tree.** -/
theorem read_eq_some_iff : read s = some v ↔ Writes s v := by
  unfold read Writes
  rw [Option.bind_eq_some_iff]
  constructor
  · rintro ⟨ts, hts, hv⟩
    rw [toTokens_of_value_and_resume.1 ts [] v hv]
    exact tokens_eq_some_iff.mp hts
  · intro h
    have hvalue := (wellFormed_of_toTokens v h.wellFormed).reads.value [] []
    rw [List.append_nil] at hvalue
    exact ⟨_, tokens_eq_some_iff.mpr h, hvalue⟩

/-- A character can be written by its number, also as two halves. -/
example : read "\"\\/\\u00e9\\u00E9\\ud83d\\ude00\"".toList = some (.string (some "/éé😀")) := by
  cbv

end DialogueBox.Json
