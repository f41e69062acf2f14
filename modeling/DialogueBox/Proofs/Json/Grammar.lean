import DialogueBox.Json.Token
import DialogueBox.Proofs.Number.Writing

/-!
# The grammar of JSON tokens

A grammar says which texts write a number, a string, a token and a sequence of tokens with blanks
between them. The tokens of a text are those that it writes by the grammar, and a text that the
grammar does not have is refused (`tokens_eq_some_iff`).

A number has no mark behind it: it ends where the text does not go on with one (`Stops`). The reader
takes a number as far as it can. What it leaves over might begin with a point or the mark of an
exponent, but then no token stands there, and the text is refused after all.
-/

namespace DialogueBox

open Number

/-! ## Where numbers end -/

namespace Json

/-- Whether a character can stand inside a number behind its sign. -/
def goesOnNumber (c : Char) : Bool := c.isDigit || c == '.' || c == 'e' || c == 'E'

/-- A text that does not go on with a number. -/
def Stops (s : List Char) : Prop := ∀ c ∈ s.head?, goesOnNumber c = false

theorem stops_nil : Stops [] := by
  intro c hc
  cases hc

theorem stops_cons {c : Char} {s : List Char} (h : goesOnNumber c = false) : Stops (c :: s) := by
  intro d hd
  cases hd
  exact h

theorem Stops.not_digit {s : List Char} (h : Stops s) : ∀ c ∈ s.head?, c.isDigit = false := by
  intro c hc
  have h := h c hc
  simp only [goesOnNumber, Bool.or_eq_false_iff] at h
  exact h.1.1.1

end Json

/-! ## Numbers -/

namespace Numeral

open Json

/-- Digits as they stand before the point: at least one, and a zero at the beginning is alone. -/
structure IsWhole (ds : List Char) : Prop where
  ne_nil : ds ≠ []
  digits : ∀ c ∈ ds, c.isDigit = true
  alone : ds.head? = some '0' → ds.length = 1

/-- A numeral that keeps to the grammar of numbers. -/
structure WellFormed (n : Numeral) : Prop where
  whole : IsWhole n.whole
  fraction : ∀ c ∈ n.fraction, c.isDigit = true

/-- How the fraction is written. -/
def fractionText (ds : List Char) : List Char := if ds.isEmpty then [] else '.' :: ds

/-- An exponent that may be missing. -/
inductive WritesExponent : List Char → Option Int → Prop
  | none : WritesExponent [] none
  | marked {mark : Char} {s : List Char} {e : Int} (hm : mark = 'e' ∨ mark = 'E')
      (h : WritesInteger s e) : WritesExponent (mark :: s) (some e)

/-- A number is written as an optional minus, digits, an optional point with digits behind it, and
an optional exponent. -/
inductive Writes : List Char → Numeral → Prop
  | mk {n : Numeral} {tail : List Char} (hn : n.WellFormed)
      (he : WritesExponent tail n.exponent) :
      Writes ((if n.negative then ['-'] else []) ++
        (n.whole ++ (fractionText n.fraction ++ tail))) n

variable {s rest : List Char}

/-! ### A number that is written is read -/

theorem WritesExponent.takeExponent {e : Option Int} (h : WritesExponent s e) (hr : Stops rest) :
    takeExponent (s ++ rest) = some (e, rest) := by
  cases h with
  | none =>
    cases rest with
    | nil => rfl
    | cons c rest =>
      have hc := hr c rfl
      simp only [goesOnNumber, Bool.or_eq_false_iff, beq_eq_false_iff_ne] at hc
      show Json.takeExponent (c :: rest) = _
      rw [Json.takeExponent, if_neg (by simp [hc])]
  | marked hm hs =>
    cases hs with
    | mk hsign hne hd =>
      rw [List.cons_append, List.append_assoc, Json.takeExponent, if_pos hm,
        hsign.takeSign ((Digits.unsigned hd).append hne rest)]
      dsimp only
      rw [leadingDigits_append hd hr.not_digit, afterDigits_append hd hr.not_digit,
        if_neg (by simpa using hne)]
      rfl

/-- A fraction ends where an exponent begins, or where the number ends. -/
theorem WritesExponent.head? {e : Option Int} (h : WritesExponent s e) (hr : Stops rest) :
    ∀ c ∈ (s ++ rest).head?, c.isDigit = false ∧ c ≠ '.' := by
  intro c hc
  cases h with
  | none =>
    have h := hr c hc
    simp only [goesOnNumber, Bool.or_eq_false_iff, beq_eq_false_iff_ne] at h
    exact ⟨h.1.1.1, h.1.1.2⟩
  | marked hm _ =>
    cases hc
    rcases hm with rfl | rfl <;> decide

theorem takeFractionDigits_fractionText {ds s : List Char} (hd : ∀ c ∈ ds, c.isDigit = true)
    (hs : ∀ c ∈ s.head?, c.isDigit = false ∧ c ≠ '.') :
    takeFractionDigits (fractionText ds ++ s) = some (ds, s) := by
  cases ds with
  | nil =>
    show takeFractionDigits s = _
    unfold takeFractionDigits
    split
    · exact absurd rfl (hs '.' rfl).2
    · rfl
  | cons c ds =>
    show takeFractionDigits ('.' :: (c :: ds ++ s)) = _
    rw [takeFractionDigits, leadingDigits_append hd fun c hc => (hs c hc).1,
      afterDigits_append hd fun c hc => (hs c hc).1]
    rfl

/-- The digits before the point end where a fraction begins. -/
theorem head?_fractionText (ds : List Char) {s : List Char}
    (hs : ∀ c ∈ s.head?, c.isDigit = false ∧ c ≠ '.') :
    ∀ c ∈ (fractionText ds ++ s).head?, c.isDigit = false := by
  intro c hc
  cases ds with
  | nil => exact (hs c hc).1
  | cons d ds =>
    cases hc
    decide

theorem takeMinus_append {negative : Bool} {ds s : List Char} (hw : IsWhole ds) :
    takeMinus ((if negative then ['-'] else []) ++ (ds ++ s)) = (negative, ds ++ s) := by
  cases negative with
  | true => rfl
  | false =>
    show takeMinus (ds ++ s) = _
    cases ds with
    | nil => exact absurd rfl hw.ne_nil
    | cons c ds =>
      have hc := hw.digits c List.mem_cons_self
      unfold takeMinus
      split
      · next h => cases h; simp at hc
      · rfl

/-- **A number that is written is read digit by digit.** -/
theorem Writes.takeNumeral {n : Numeral} (h : Writes s n) (hr : Stops rest) :
    takeNumeral (s ++ rest) = some (n, rest) := by
  cases h with
  | @mk _ tail hn he =>
    have hexponent := he.head? hr
    have hfraction := head?_fractionText n.fraction hexponent
    have halone :
        (n.whole.isEmpty || (n.whole.head? == some '0' && 1 < n.whole.length)) = false := by
      have hempty : n.whole.isEmpty = false := by simpa using hn.whole.ne_nil
      rw [hempty, Bool.false_or, Bool.and_eq_false_iff]
      by_cases h0 : n.whole.head? = some '0'
      · exact Or.inr (by simp [hn.whole.alone h0])
      · exact Or.inl (by simpa using h0)
    rw [List.append_assoc, List.append_assoc, List.append_assoc]
    unfold Json.takeNumeral
    rw [takeMinus_append hn.whole]
    dsimp only
    rw [leadingDigits_append hn.whole.digits hfraction,
      afterDigits_append hn.whole.digits hfraction, halone, if_neg Bool.false_ne_true,
      takeFractionDigits_fractionText hn.fraction hexponent]
    show (Json.takeExponent (tail ++ rest)).bind _ = _
    rw [he.takeExponent hr]
    rfl

/-- A number begins with a digit or a minus. -/
theorem Writes.exists_cons {n : Numeral} (h : Writes s n) :
    ∃ c r, s = c :: r ∧ (c.isDigit = true ∨ c = '-') := by
  cases h with
  | mk hn he =>
    cases n.negative with
    | true => exact ⟨'-', _, rfl, Or.inr rfl⟩
    | false =>
      cases hw : n.whole with
      | nil => exact absurd hw hn.whole.ne_nil
      | cons c ds =>
        exact ⟨c, _, rfl, Or.inl (hn.whole.digits c (by rw [hw]; exact List.mem_cons_self))⟩

/-! ### A number that is read is written -/

theorem head?_afterDigits (s : List Char) : ∀ c ∈ (afterDigits s).head?, c.isDigit = false := by
  intro c hc
  have h := List.head?_dropWhile_not Char.isDigit s
  rw [show s.dropWhile Char.isDigit = afterDigits s from rfl, hc] at h
  exact h

theorem of_takeFractionDigits {ds : List Char} (h : takeFractionDigits s = some (ds, rest))
    (hs : ∀ c ∈ s.head?, c.isDigit = false) :
    s = fractionText ds ++ rest ∧ (∀ c ∈ ds, c.isDigit = true) ∧
      ∀ c ∈ rest.head?, c.isDigit = false := by
  unfold takeFractionDigits at h
  split at h
  · next r =>
    split at h
    · cases h
    · next hne =>
      cases h
      refine ⟨?_, digits_leadingDigits r, head?_afterDigits r⟩
      rw [fractionText, if_neg hne, List.cons_append, leadingDigits_append_afterDigits]
  · cases h
    exact ⟨rfl, fun _ hc => (nomatch hc), hs⟩

theorem of_takeExponent {e : Option Int} (h : takeExponent s = some (e, rest))
    (hs : ∀ c ∈ s.head?, c.isDigit = false) :
    ∃ w, s = w ++ rest ∧ WritesExponent w e ∧ ∀ c ∈ rest.head?, c.isDigit = false := by
  unfold takeExponent at h
  split at h
  · cases h
    exact ⟨[], rfl, .none, hs⟩
  · next c r =>
    split at h
    · next hm =>
      obtain ⟨negative, sign, t, rfl, htake, hsign⟩ := exists_signText r
      rw [htake] at h
      dsimp only at h
      split at h
      · cases h
      · next hne =>
        cases h
        refine ⟨c :: (sign ++ leadingDigits t), ?_,
          .marked hm (.mk hsign (by simpa using hne) (digits_leadingDigits t)),
          head?_afterDigits t⟩
        rw [List.cons_append, List.append_assoc, leadingDigits_append_afterDigits]
    · cases h
      exact ⟨[], rfl, .none, hs⟩

theorem of_takeMinus (s : List Char) :
    s = (if (takeMinus s).1 then ['-'] else []) ++ (takeMinus s).2 := by
  unfold takeMinus
  split <;> rfl

/-- **A number that is read is written by the grammar,** and no digit follows it. -/
theorem exists_writes_of_takeNumeral {n : Numeral} (h : takeNumeral s = some (n, rest)) :
    ∃ w, s = w ++ rest ∧ Writes w n ∧ ∀ c ∈ rest.head?, c.isDigit = false := by
  have hminus := of_takeMinus s
  unfold takeNumeral at h
  generalize takeMinus s = p at hminus h
  obtain ⟨negative, t⟩ := p
  dsimp only at hminus h
  split at h
  · cases h
  · next hwhole =>
    obtain ⟨⟨fraction, r⟩, hf, h⟩ := Option.bind_eq_some_iff.mp h
    obtain ⟨⟨exponent, r'⟩, he, h⟩ := Option.bind_eq_some_iff.mp h
    cases h
    obtain ⟨htail, hfraction, hr⟩ := of_takeFractionDigits hf (head?_afterDigits t)
    obtain ⟨w, hw, hexponent, hrest⟩ := of_takeExponent he hr
    simp only [Bool.or_eq_true, Bool.and_eq_true, beq_iff_eq, decide_eq_true_eq, not_or,
      not_and, List.isEmpty_iff] at hwhole
    have hone : (leadingDigits t).head? = some '0' → (leadingDigits t).length = 1 := by
      intro h0
      have hle := hwhole.2 h0
      have hpos := List.length_pos_iff.mpr hwhole.1
      omega
    refine ⟨_, ?_, .mk (n := ⟨negative, leadingDigits t, fraction, exponent⟩)
      ⟨⟨hwhole.1, digits_leadingDigits t, hone⟩, hfraction⟩ hexponent, hrest⟩
    rw [List.append_assoc, List.append_assoc, List.append_assoc, ← hw, ← htail,
      leadingDigits_append_afterDigits]
    exact hminus

end Numeral

namespace Json

/-! ## Strings -/

/-- A stretch of a string: a character that stands for itself, a short escape, or an escape with
four hexadecimal digits. -/
inductive WritesUnit : List Char → Unit16 → Prop
  | plain {c : Char} (hc : ¬c.toNat < 0x20) (hquote : c ≠ '"') (hbackslash : c ≠ '\\') :
      WritesUnit [c] (.char c)
  | short {c e : Char} (h : shortEscape? c = some e) : WritesUnit ['\\', c] (.char e)
  | word {a b c d : Char} {n : Nat} (h : hexWord? a b c d = some n) :
      WritesUnit ['\\', 'u', a, b, c, d] (unitOfWord n)

/-- What stands between the quotes of a string. -/
inductive WritesUnits : List Char → List Unit16 → Prop
  | nil : WritesUnits [] []
  | cons {s r : List Char} {u : Unit16} {us : List Unit16} (hs : WritesUnit s u)
      (hr : WritesUnits r us) : WritesUnits (s ++ r) (u :: us)

variable {s rest : List Char}

/-- A stretch of a string is read as what it stands for. -/
theorem WritesUnit.takeString {u : Unit16} (h : WritesUnit s u) (r : List Char) :
    takeString (s ++ r) = (takeString r).map (prepend u) := by
  cases h with
  | @plain c hc hquote hbackslash =>
    show Json.takeString (c :: r) = _
    rw [Json.takeString, if_neg hc]
    · exact hquote
    · exact fun _ _ _ _ _ h _ => hbackslash h
    · exact fun _ _ h _ => hbackslash h
  | @short c e h =>
    show Json.takeString ('\\' :: c :: r) = _
    rw [Json.takeString, h]
    rintro a b c' d r' rfl
    cases h
  | word h =>
    show Json.takeString ('\\' :: 'u' :: _ :: _ :: _ :: _ :: r) = _
    rw [Json.takeString, h]

theorem WritesUnits.takeString {us : List Unit16} (h : WritesUnits s us) (r : List Char) :
    takeString (s ++ '"' :: r) = some (us, r) := by
  induction h with
  | nil => rfl
  | cons hs _ ih =>
    rw [List.append_assoc, hs.takeString, ih]
    rfl

/-- A string that is read is written by the grammar. -/
theorem exists_writes_of_takeString {us : List Unit16} (h : takeString s = some (us, rest)) :
    ∃ w, s = w ++ '"' :: rest ∧ WritesUnits w us := by
  fun_induction takeString s generalizing us with
  | case1 => cases h
  | case2 r =>
    cases h
    exact ⟨[], rfl, .nil⟩
  | case3 => cases h
  | case4 a b c d r n hn ih =>
    obtain ⟨p, hp, he⟩ := Option.map_eq_some_iff.mp h
    cases he
    obtain ⟨w, rfl, hw⟩ := ih hp
    exact ⟨_, rfl, .cons (.word hn) hw⟩
  | case5 => cases h
  | case6 c r e _ hc ih =>
    obtain ⟨p, hp, he⟩ := Option.map_eq_some_iff.mp h
    cases he
    obtain ⟨w, rfl, hw⟩ := ih hp
    exact ⟨_, rfl, .cons (.short hc) hw⟩
  | case7 => cases h
  | case8 c r hquote hword hshort hc ih =>
    obtain ⟨p, hp, he⟩ := Option.map_eq_some_iff.mp h
    cases he
    obtain ⟨w, rfl, hw⟩ := ih hp
    refine ⟨c :: w, rfl, .cons (.plain hc hquote fun hbackslash => ?_) hw⟩
    -- a backslash would begin an escape, because the quote is still to come
    cases w with
    | nil => exact hshort _ _ hbackslash rfl
    | cons d w => exact hshort _ _ hbackslash rfl

/-! ## Tokens -/

/-- How a token is written. -/
inductive WritesToken : List Char → Token → Prop
  | openBracket : WritesToken ['['] .openBracket
  | closeBracket : WritesToken [']'] .closeBracket
  | openBrace : WritesToken ['\x7b'] .openBrace
  | closeBrace : WritesToken ['\x7d'] .closeBrace
  | comma : WritesToken [','] .comma
  | colon : WritesToken [':'] .colon
  | null : WritesToken ['n', 'u', 'l', 'l'] .null
  | boolTrue : WritesToken ['t', 'r', 'u', 'e'] (.bool true)
  | boolFalse : WritesToken ['f', 'a', 'l', 's', 'e'] (.bool false)
  | number {s : List Char} {n : Numeral} (h : n.Writes s) : WritesToken s (.number n)
  | string {s : List Char} {us : List Unit16} (h : WritesUnits s us) :
      WritesToken ('"' :: (s ++ ['"'])) (.string ((joinHalves? us).map String.ofList))

/-- A text that writes tokens, with blanks between them. A number ends where the text does not go on
with one. -/
inductive WritesTokens : List Char → List Token → Prop
  | nil : WritesTokens [] []
  | blank {c : Char} {s : List Char} {ts : List Token} (hc : isBlank c = true)
      (h : WritesTokens s ts) : WritesTokens (c :: s) ts
  | token {w s : List Char} {t : Token} {ts : List Token} (ht : WritesToken w t)
      (hs : ∀ n, t = .number n → Stops s) (h : WritesTokens s ts) : WritesTokens (w ++ s) (t :: ts)

/-- **A token that is written is read.** -/
theorem WritesToken.nextToken? {t : Token} (h : WritesToken s t)
    (hr : ∀ n, t = .number n → Stops rest) : nextToken? (s ++ rest) = some (t, rest) := by
  cases h with
  | number h =>
    have htake := h.takeNumeral (hr _ rfl)
    obtain ⟨c, r, rfl, hc⟩ := h.exists_cons
    rw [List.cons_append] at htake ⊢
    unfold Json.nextToken?
    split
    case h_11 => rw [htake]; rfl
    -- every other token begins with a character that no number begins with
    all_goals
      next heq =>
      obtain ⟨rfl, -⟩ := List.cons.inj heq
      exact absurd hc (by decide)
  | string h =>
    rw [List.cons_append, List.append_assoc]
    show (Json.takeString _).map _ = _
    rw [List.singleton_append, h.takeString]
    rfl
  | _ => rfl

theorem WritesToken.exists_cons {t : Token} (h : WritesToken s t) :
    ∃ c r, s = c :: r ∧ isBlank c = false := by
  cases h with
  | number h =>
    obtain ⟨c, r, rfl, hc⟩ := h.exists_cons
    refine ⟨c, r, rfl, ?_⟩
    rcases hc with hc | rfl
    · simp only [isBlank, Bool.or_eq_false_iff, decide_eq_false_iff_not]
      refine ⟨⟨⟨?_, ?_⟩, ?_⟩, ?_⟩ <;> (rintro rfl; simp at hc)
    · rfl
  | _ => exact ⟨_, _, rfl, rfl⟩

/-- **A token that is read is written by the grammar,** and behind a number no digit follows. -/
theorem exists_writes_of_nextToken? {t : Token} (h : nextToken? s = some (t, rest)) :
    ∃ w, s = w ++ rest ∧ WritesToken w t ∧
      ∀ n, t = .number n → ∀ c ∈ rest.head?, c.isDigit = false := by
  unfold nextToken? at h
  split at h
  case h_10 r =>
    obtain ⟨p, hp, he⟩ := Option.map_eq_some_iff.mp h
    cases he
    obtain ⟨w, rfl, hw⟩ := exists_writes_of_takeString hp
    exact ⟨_, by simp, .string hw, fun n hn => nomatch hn⟩
  case h_11 =>
    obtain ⟨p, hp, he⟩ := Option.map_eq_some_iff.mp h
    cases he
    obtain ⟨w, hs, hw, hr⟩ := Numeral.exists_writes_of_takeNumeral hp
    exact ⟨w, hs, .number hw, fun _ _ => hr⟩
  all_goals
    cases h
    refine ⟨_, rfl, by constructor, fun n hn => nomatch hn⟩

/-! ## Texts -/

/-- Behind a token the text goes on. -/
theorem tokens_cons {c : Char} {r rest : List Char} {t : Token} (hb : isBlank c = false)
    (h : nextToken? (c :: r) = some (t, rest)) : tokens (c :: r) = (tokens rest).map (t :: ·) := by
  rw [tokens, if_neg (by simp [hb])]
  split
  · next h' =>
    rw [h] at h'
    cases h'
  · next h' =>
    rw [h] at h'
    cases h'
    rfl

theorem WritesToken.tokens {t : Token} (h : WritesToken s t)
    (hr : ∀ n, t = .number n → Stops rest) :
    tokens (s ++ rest) = (tokens rest).map (t :: ·) := by
  have hnext := h.nextToken? hr
  obtain ⟨c, r, rfl, hc⟩ := h.exists_cons
  exact tokens_cons hc hnext

/-- No token begins with a point or the mark of an exponent. -/
theorem stops_of_tokens {ts : List Token} (h : tokens s = some ts)
    (hs : ∀ c ∈ s.head?, c.isDigit = false) : Stops s := by
  cases s with
  | nil => exact stops_nil
  | cons c r =>
    have hdigit := hs c rfl
    refine stops_cons (Bool.eq_false_iff.mpr fun hc => ?_)
    simp only [goesOnNumber, hdigit, Bool.false_or, Bool.or_eq_true, beq_iff_eq] at hc
    have hnone : nextToken? (c :: r) = none ∧ isBlank c = false := by
      rcases hc with (rfl | rfl) | rfl <;> exact ⟨rfl, rfl⟩
    rw [tokens, if_neg (by simp [hnone.2])] at h
    split at h
    · cases h
    · next h' =>
      rw [hnone.1] at h'
      cases h'

/-- **The tokens of a text are those that it writes.** -/
theorem tokens_eq_some_iff {ts : List Token} : tokens s = some ts ↔ WritesTokens s ts := by
  constructor
  · intro h
    fun_induction tokens s generalizing ts with
    | case1 =>
      cases h
      exact .nil
    | case2 c r hc ih => exact .blank hc (ih h)
    | case3 => cases h
    | case4 c r hc t rest hnext ih =>
      obtain ⟨ts', hts, rfl⟩ := Option.map_eq_some_iff.mp h
      obtain ⟨w, hs, hw, hdigit⟩ := exists_writes_of_nextToken? hnext
      rw [hs]
      exact .token hw (fun n hn => stops_of_tokens hts (hdigit n hn)) (ih hts)
  · intro h
    induction h with
    | nil => rw [tokens]
    | blank hc _ ih => rw [tokens, if_pos hc, ih]
    | token ht hs _ ih =>
      rw [ht.tokens hs, ih]
      rfl

end Json

end DialogueBox
