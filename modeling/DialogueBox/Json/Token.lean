import DialogueBox.Json.Basic

/-!
# JSON tokens

A JSON text is a sequence of tokens with blanks between them. Only four characters are blank here:
space, tab, line feed and carriage return.

## Termination

`tokens` goes on behind a token, and a token has at least one character
(`length_of_nextToken?`).
-/

namespace DialogueBox.Json

open Number

/-- The least part of a JSON text that has a meaning. -/
inductive Token
  | openBracket | closeBracket | openBrace | closeBrace | comma | colon
  | null | bool (b : Bool)
  | number (n : Numeral)
  | string (text : Option String)
  deriving DecidableEq, Repr

/-! ## Strings -/

/-- The value of a hexadecimal digit. -/
def hexDigit? (c : Char) : Option Nat :=
  if c.isDigit then some (c.toNat - 48)
  else if 'a' ≤ c ∧ c ≤ 'f' then some (c.toNat - 87)
  else if 'A' ≤ c ∧ c ≤ 'F' then some (c.toNat - 55)
  else none

/-- The value of four hexadecimal digits. -/
def hexWord? (a b c d : Char) : Option Nat := do
  return ((((← hexDigit? a) * 16 + (← hexDigit? b)) * 16) + (← hexDigit? c)) * 16 + (← hexDigit? d)

/-- The character that an escape of one letter denotes. -/
def shortEscape? (c : Char) : Option Char :=
  match c with
  | '"' => some '"'
  | '\\' => some '\\'
  | '/' => some '/'
  | 'b' => some '\x08'
  | 'f' => some '\x0c'
  | 'n' => some '\n'
  | 'r' => some '\r'
  | 't' => some '\t'
  | _ => none

/-- What a stretch of a string stands for: a character, or half of a surrogate pair. -/
inductive Unit16
  | char (c : Char)
  | half (n : Nat)
  deriving DecidableEq, Repr

/-- What an escape with four hexadecimal digits stands for. -/
def unitOfWord (n : Nat) : Unit16 :=
  if 0xD800 ≤ n ∧ n < 0xE000 then .half n else .char (Char.ofNat n)

/-- The character of two halves, if they form a surrogate pair. -/
def charOfHalves? (high low : Nat) : Option Char :=
  if high < 0xDC00 ∧ 0xDC00 ≤ low then
    some (Char.ofNat (0x10000 + (high - 0xD800) * 1024 + (low - 0xDC00)))
  else none

/-- The text of a string, if each half in it belongs to a pair. -/
def joinHalves? : List Unit16 → Option (List Char)
  | [] => some []
  | .char c :: r => (joinHalves? r).map (c :: ·)
  | .half high :: .half low :: r =>
    match charOfHalves? high low with
    | some c => (joinHalves? r).map (c :: ·)
    | none => none
  | .half _ :: _ => none

/-- Puts what a stretch stands for in front of what is read behind it. -/
def prepend (u : Unit16) (p : List Unit16 × List Char) : List Unit16 × List Char := (u :: p.1, p.2)

/-- Reads a string behind its opening quote: what it stands for, and what follows the closing
quote. -/
def takeString : List Char → Option (List Unit16 × List Char)
  | [] => none
  | '"' :: r => some ([], r)
  | '\\' :: 'u' :: a :: b :: c :: d :: r =>
    match hexWord? a b c d with
    | none => none
    | some n => (takeString r).map (prepend (unitOfWord n))
  | '\\' :: c :: r =>
    match shortEscape? c with
    | none => none
    | some e => (takeString r).map (prepend (.char e))
  | c :: r => if c.toNat < 0x20 then none else (takeString r).map (prepend (.char c))

/-! ## Numbers -/

/-- Takes the fraction of a number off a text; a point needs a digit behind it. -/
def takeFractionDigits : List Char → Option (List Char × List Char)
  | '.' :: r => if (leadingDigits r).isEmpty then none else some (leadingDigits r, afterDigits r)
  | s => some ([], s)

/-- Takes the exponent of a number off a text; its letter needs a digit behind it. -/
def takeExponent : List Char → Option (Option Int × List Char)
  | [] => some (none, [])
  | c :: r =>
    if c = 'e' ∨ c = 'E' then
      let (negative, s) := takeSign r
      let v : Int := valueOfDigits (leadingDigits s)
      if (leadingDigits s).isEmpty then none
      else some (some (if negative then -v else v), afterDigits s)
    else some (none, c :: r)

/-- Takes the minus sign of a number off a text. -/
def takeMinus : List Char → Bool × List Char
  | '-' :: r => (true, r)
  | s => (false, s)

/-- Reads a number. A zero at its beginning stands alone before the point. -/
def takeNumeral (s : List Char) : Option (Numeral × List Char) := do
  let (negative, s) := takeMinus s
  let whole := leadingDigits s
  if whole.isEmpty || (whole.head? == some '0' && 1 < whole.length) then none
  else
    let (fraction, s) ← takeFractionDigits (afterDigits s)
    let (exponent, s) ← takeExponent s
    return (⟨negative, whole, fraction, exponent⟩, s)

/-! ## Sequences -/

/-- Whether a character may stand between tokens. -/
def isBlank (c : Char) : Bool := c = ' ' || c = '\n' || c = '\t' || c = '\r'

/-- Reads the token at the beginning of a text. -/
def nextToken? : List Char → Option (Token × List Char)
  | '[' :: r => some (.openBracket, r)
  | ']' :: r => some (.closeBracket, r)
  | '\x7b' :: r => some (.openBrace, r)
  | '\x7d' :: r => some (.closeBrace, r)
  | ',' :: r => some (.comma, r)
  | ':' :: r => some (.colon, r)
  | 'n' :: 'u' :: 'l' :: 'l' :: r => some (.null, r)
  | 't' :: 'r' :: 'u' :: 'e' :: r => some (.bool true, r)
  | 'f' :: 'a' :: 'l' :: 's' :: 'e' :: r => some (.bool false, r)
  | '"' :: r => (takeString r).map fun p => (.string ((joinHalves? p.1).map String.ofList), p.2)
  | s => (takeNumeral s).map fun p => (.number p.1, p.2)
/-! ### A token has at least one character -/

theorem length_of_takeString {s rest : List Char} {t : List Unit16}
    (h : takeString s = some (t, rest)) : rest.length < s.length := by
  fun_induction takeString s generalizing t with
  | case1 => cases h
  | case2 r => cases h; simp
  | case3 => cases h
  | case4 a b c d r n _ ih =>
    obtain ⟨p, hp, he⟩ := Option.map_eq_some_iff.mp h
    cases he
    have := ih hp
    simp only [List.length_cons]
    omega
  | case5 => cases h
  | case6 c r e _ _ ih =>
    obtain ⟨p, hp, he⟩ := Option.map_eq_some_iff.mp h
    cases he
    have := ih hp
    simp only [List.length_cons]
    omega
  | case7 => cases h
  | case8 c r _ _ _ _ ih =>
    obtain ⟨p, hp, he⟩ := Option.map_eq_some_iff.mp h
    cases he
    have := ih hp
    simp only [List.length_cons]
    omega

theorem length_afterDigits_le (s : List Char) : (afterDigits s).length ≤ s.length := by
  unfold afterDigits
  exact (List.dropWhile_sublist _).length_le

theorem length_afterDigits_lt {s : List Char} (h : (leadingDigits s).isEmpty = false) :
    (afterDigits s).length < s.length := by
  have hlen := congrArg List.length (List.takeWhile_append_dropWhile (p := Char.isDigit) (l := s))
  rw [List.length_append] at hlen
  have : 0 < (leadingDigits s).length := by
    cases hd : leadingDigits s with
    | nil => rw [hd] at h; cases h
    | cons c r => simp
  unfold leadingDigits at this
  unfold afterDigits
  omega

theorem length_takeMinus_le (s : List Char) : (takeMinus s).2.length ≤ s.length := by
  unfold takeMinus
  split
  · simp
  · exact Nat.le_refl _

theorem length_takeSign_le (s : List Char) : (takeSign s).2.length ≤ s.length := by
  unfold takeSign
  split
  · simp
  · simp
  · exact Nat.le_refl _

theorem length_of_takeFractionDigits {s ds rest : List Char}
    (h : takeFractionDigits s = some (ds, rest)) : rest.length ≤ s.length := by
  unfold takeFractionDigits at h
  split at h
  · split at h
    · cases h
    · cases h
      exact Nat.le_succ_of_le (length_afterDigits_le _)
  · cases h
    exact Nat.le_refl _

theorem length_of_takeExponent {s rest : List Char} {e : Option Int}
    (h : takeExponent s = some (e, rest)) : rest.length ≤ s.length := by
  unfold takeExponent at h
  split at h
  · cases h; exact Nat.le_refl _
  · next c r =>
    split at h
    · simp only at h
      split at h
      · cases h
      · cases h
        have h1 := length_afterDigits_le (takeSign r).2
        have h2 := length_takeSign_le r
        simp only [List.length_cons]
        omega
    · cases h; exact Nat.le_refl _

theorem length_of_takeNumeral {s rest : List Char} {n : Numeral}
    (h : takeNumeral s = some (n, rest)) : rest.length < s.length := by
  unfold takeNumeral at h
  simp only at h
  split at h
  · cases h
  · next hw =>
    simp only [Bool.or_eq_true, not_or, Bool.not_eq_true] at hw
    obtain ⟨⟨fraction, s1⟩, hf, h⟩ := Option.bind_eq_some_iff.mp h
    obtain ⟨⟨exponent, s2⟩, he, h⟩ := Option.bind_eq_some_iff.mp h
    cases h
    have h1 := length_afterDigits_lt hw.1
    have h2 := length_takeMinus_le s
    have h3 := length_of_takeFractionDigits hf
    have h4 : s2.length ≤ s1.length := length_of_takeExponent he
    exact Nat.lt_of_le_of_lt h4 (by omega)

theorem length_of_nextToken? {s rest : List Char} {t : Token}
    (h : nextToken? s = some (t, rest)) : rest.length < s.length := by
  unfold nextToken? at h
  split at h
  case h_10 r =>
    obtain ⟨p, hp, he⟩ := Option.map_eq_some_iff.mp h
    cases he
    exact Nat.lt_succ_of_lt (length_of_takeString hp)
  case h_11 =>
    obtain ⟨p, hp, he⟩ := Option.map_eq_some_iff.mp h
    cases he
    exact length_of_takeNumeral hp
  all_goals
    cases h
    simp only [List.length_cons]
    omega

/-- The tokens of a text. -/
def tokens (s : List Char) : Option (List Token) :=
  match s with
  | [] => some []
  | c :: r =>
    if isBlank c then tokens r
    else
      match _h : nextToken? (c :: r) with
      | none => none
      | some (t, rest) => (tokens rest).map (t :: ·)
termination_by s.length
decreasing_by
  · simp
  · exact length_of_nextToken? _h

end DialogueBox.Json
