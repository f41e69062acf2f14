import DialogueBox.Number.Decimal
import Mathlib.Data.List.Basic
import Mathlib.Data.List.TakeWhile

/-!
# How numbers are written

A grammar says which texts write a whole number, and which write a decimal: `WritesInteger` and
`WritesDecimal`. The readers accept the texts of the grammar and no others, and read each as the
number that it writes (`readInteger_eq_ok_iff`, `readDecimal_eq_some_iff`).

Whole numbers are read digit by digit against the bounds of a type. That is no stricter than looking
at the number as a whole: further digits only lead away from zero (`readDigits_eq_ok_iff`).
-/

namespace DialogueBox.Number

/-! ## The grammar -/

/-- A text of decimal digits alone. -/
def Digits (s : List Char) : Prop := ∀ c ∈ s, c.isDigit = true

/-- A sign that may be missing; the flag tells a minus. -/
inductive SignText : Bool → List Char → Prop
  | none : SignText false []
  | plus : SignText false ['+']
  | minus : SignText true ['-']

/-- A number with a sign. -/
def signed (negative : Bool) (n : Nat) : Int := if negative then -(n : Int) else n

/-- A whole number is written with an optional sign and at least one digit. -/
inductive WritesInteger : List Char → Int → Prop
  | mk {negative : Bool} {sign ds : List Char} (hs : SignText negative sign) (hne : ds ≠ [])
      (hd : Digits ds) : WritesInteger (sign ++ ds) (signed negative (valueOfDigits ds))

/-- Digits around a point, or without one: at least one digit, on whichever side. The last number
counts the digits behind the point. -/
inductive WritesMantissa : List Char → Nat → Nat → Prop
  | whole {ds : List Char} (hne : ds ≠ []) (hd : Digits ds) :
      WritesMantissa ds (valueOfDigits ds) 0
  | point {ds es : List Char} (hne : ds ++ es ≠ []) (hd : Digits (ds ++ es)) :
      WritesMantissa (ds ++ '.' :: es) (valueOfDigits (ds ++ es)) es.length

/-- An exponent that may be missing. -/
inductive WritesExponent : List Char → Int → Prop
  | none : WritesExponent [] 0
  | marked {mark : Char} {s : List Char} {e : Int} (hm : mark = 'e' ∨ mark = 'E')
      (h : WritesInteger s e) : WritesExponent (mark :: s) e

/-- A decimal is written with an optional sign, digits around an optional point, and an optional
exponent. -/
inductive WritesDecimal : List Char → Decimal → Prop
  | mk {negative : Bool} {sign body tail : List Char} {digits places : Nat} {e : Int}
      (hs : SignText negative sign) (hm : WritesMantissa body digits places)
      (he : WritesExponent tail e) :
      WritesDecimal (sign ++ (body ++ tail)) ⟨negative, digits, e - places⟩

variable {ds s : List Char}

/-! ## Digits -/

theorem Digits.of_append {t : List Char} (h : Digits (s ++ t)) : Digits s ∧ Digits t :=
  ⟨fun c hc => h c (List.mem_append_left t hc), fun c hc => h c (List.mem_append_right s hc)⟩

theorem Digits.append {t : List Char} (hs : Digits s) (ht : Digits t) : Digits (s ++ t) := by
  intro c hc
  rcases List.mem_append.mp hc with h | h
  · exact hs c h
  · exact ht c h

theorem digits_leadingDigits (s : List Char) : Digits (leadingDigits s) :=
  fun _ hc => List.mem_takeWhile_imp hc

theorem leadingDigits_append_afterDigits (s : List Char) : leadingDigits s ++ afterDigits s = s :=
  List.takeWhile_append_dropWhile

theorem leadingDigits_append (hd : Digits ds)
    (hs : ∀ c ∈ s.head?, c.isDigit = false) : leadingDigits (ds ++ s) = ds := by
  unfold leadingDigits
  rw [List.takeWhile_append_of_pos hd]
  cases s with
  | nil => simp
  | cons c s => rw [List.takeWhile_cons_of_neg (by simp [hs c rfl]), List.append_nil]

theorem afterDigits_append (hd : Digits ds)
    (hs : ∀ c ∈ s.head?, c.isDigit = false) : afterDigits (ds ++ s) = s := by
  unfold afterDigits
  rw [List.dropWhile_append_of_pos hd]
  cases s with
  | nil => rfl
  | cons c s => rw [List.dropWhile_cons_of_neg (by simp [hs c rfl])]

/-! ## Signs -/

/-- A text that begins with no sign. -/
def Unsigned (s : List Char) : Prop := ∀ c ∈ s.head?, c ≠ '+' ∧ c ≠ '-'

theorem Digits.unsigned (h : Digits s) : Unsigned s := by
  intro c hc
  have hdigit := h c (List.mem_of_mem_head? hc)
  constructor
  · rintro rfl
    simp at hdigit
  · rintro rfl
    simp at hdigit

theorem Unsigned.append (h : Unsigned s) (hne : s ≠ []) (t : List Char) : Unsigned (s ++ t) := by
  unfold Unsigned
  rwa [List.head?_append_of_ne_nil s hne]

theorem takeSign_of_unsigned (h : Unsigned s) : takeSign s = (false, s) := by
  unfold takeSign
  split
  · exact absurd rfl (h '+' rfl).1
  · exact absurd rfl (h '-' rfl).2
  · rfl

theorem SignText.takeSign {negative : Bool} {sign : List Char} (h : SignText negative sign)
    (hs : Unsigned s) : takeSign (sign ++ s) = (negative, s) := by
  cases h with
  | none => exact takeSign_of_unsigned hs
  | plus => rfl
  | minus => rfl

/-- Every text is an optional sign and the rest that taking the sign off leaves. -/
theorem exists_signText (s : List Char) : ∃ negative sign rest,
    s = sign ++ rest ∧ Number.takeSign s = (negative, rest) ∧ SignText negative sign := by
  unfold Number.takeSign
  split
  · exact ⟨false, ['+'], _, rfl, rfl, .plus⟩
  · exact ⟨true, ['-'], _, rfl, rfl, .minus⟩
  · exact ⟨false, [], s, rfl, rfl, .none⟩

/-! ## Whole numbers -/

theorem le_ofDigitChars (s : List Char) (n : Nat) : n ≤ Nat.ofDigitChars 10 s n := by
  rw [Nat.ofDigitChars_eq_ofDigitChars_zero]
  exact Nat.le_add_right_of_le (Nat.le_mul_of_pos_left n (Nat.pow_pos (by decide)))

theorem appendDigit_signed (negative : Bool) (n d : Nat) :
    appendDigit negative (signed negative n) d = signed negative (10 * n + d) := by
  unfold appendDigit signed
  cases negative with
  | false =>
    rw [if_neg Bool.false_ne_true, if_neg Bool.false_ne_true, if_neg Bool.false_ne_true]
    omega
  | true =>
    rw [if_pos rfl, if_pos rfl, if_pos rfl]
    omega

theorem IntegerRange.contains_iff {b : IntegerRange} {n : Int} :
    b.contains n = true ↔ b.least ≤ n ∧ n ≤ b.greatest := by
  rw [contains, Bool.and_eq_true, decide_eq_true_iff, decide_eq_true_iff]

/-- What lies between numbers of a range lies in it. -/
theorem contains_signed {b : IntegerRange} {negative : Bool} {k m n : Nat} (hkm : k ≤ m)
    (hmn : m ≤ n) (hk : b.contains (signed negative k) = true)
    (hn : b.contains (signed negative n) = true) : b.contains (signed negative m) = true := by
  rw [IntegerRange.contains_iff] at hk hn ⊢
  unfold signed at hk hn ⊢
  cases negative with
  | false =>
    rw [if_neg Bool.false_ne_true] at hk hn ⊢
    omega
  | true =>
    rw [if_pos rfl] at hk hn ⊢
    omega

/-- **Digits are read against bounds just if the number that they make keeps to them.** -/
theorem readDigits_eq_ok_iff {b : IntegerRange} {negative : Bool} {n : Nat} {m : Int}
    (hn : b.contains (signed negative n) = true) :
    readDigits b negative s (signed negative n) = .ok m ↔
      Digits s ∧ m = signed negative (Nat.ofDigitChars 10 s n) ∧ b.contains m = true := by
  induction s generalizing n with
  | nil =>
    rw [readDigits, Nat.ofDigitChars_nil]
    constructor
    · intro h
      cases h
      exact ⟨fun _ hc => absurd hc List.not_mem_nil, rfl, hn⟩
    · rintro ⟨-, rfl, -⟩
      rfl
  | cons c r ih =>
    have hcons : Digits (c :: r) ↔ c.isDigit = true ∧ Digits r := List.forall_mem_cons
    rw [readDigits, digit?, hcons]
    by_cases hc : c.isDigit = true
    · rw [if_pos hc]
      dsimp only
      rw [appendDigit_signed, Nat.ofDigitChars_cons]
      show _ ↔ _ ∧ m = signed negative (Nat.ofDigitChars 10 r (10 * n + (c.toNat - 48))) ∧ _
      generalize c.toNat - 48 = d
      by_cases hrange : b.contains (signed negative (10 * n + d)) = true
      · have hin := IntegerRange.contains_iff.mp hrange
        rw [if_neg (by omega), if_neg (by omega), ih hrange]
        exact ⟨fun h => ⟨⟨hc, h.1⟩, h.2⟩, fun h => ⟨h.1.2, h.2⟩⟩
      · constructor
        · intro h
          split at h
          · cases h
          · split at h
            · cases h
            · next hgreatest hleast =>
              exact absurd (IntegerRange.contains_iff.mpr ⟨by omega, by omega⟩) hrange
        · -- a number beyond the bounds stays there, whatever digits follow
          rintro ⟨-, rfl, hm⟩
          exact absurd (contains_signed (by omega) (le_ofDigitChars r _) hn hm) hrange
    · rw [if_neg hc]
      constructor
      · intro h
        cases h
      · rintro ⟨⟨h, -⟩, -⟩
        exact absurd h hc

theorem readInteger_eq_readDigits {b : IntegerRange} (hb : b.least < 0) {negative : Bool}
    {rest : List Char} (htake : takeSign s = (negative, rest)) (hne : rest ≠ []) :
    readInteger b s = readDigits b negative rest 0 := by
  unfold takeSign at htake
  split at htake
  · cases htake
    rw [readInteger, if_pos rfl, if_neg (by simpa using hne)]
  · cases htake
    rw [readInteger, if_neg (by decide), if_pos ⟨rfl, Or.inr hb⟩, if_neg (by simpa using hne)]
  · next hplus hminus =>
    cases htake
    cases s with
    | nil => exact absurd rfl hne
    | cons c r =>
      rw [readInteger, if_neg fun hc => hplus r (by rw [hc]),
        if_neg fun hc => hminus r (by rw [hc.1])]

/-- A sign alone is no number, and neither is no text. -/
theorem exists_error_of_takeSign {b : IntegerRange} {negative : Bool}
    (htake : takeSign s = (negative, [])) : ∃ f, readInteger b s = .error f := by
  unfold takeSign at htake
  split at htake
  · cases htake
    exact ⟨.invalidDigit, rfl⟩
  · cases htake
    exact ⟨.invalidDigit, by simp [readInteger]⟩
  · cases htake
    exact ⟨.empty, rfl⟩

/-- **A text is read as a whole number of a range just if it writes that number, and the number lies
in the range.** -/
theorem readInteger_eq_ok_iff {b : IntegerRange} {n : Int} (hleast : b.least < 0)
    (hgreatest : 0 ≤ b.greatest) :
    readInteger b s = .ok n ↔ WritesInteger s n ∧ b.contains n = true := by
  have hsigned : ∀ negative, signed negative 0 = 0 := by
    intro negative
    cases negative <;> rfl
  have hzero : ∀ negative, b.contains (signed negative 0) = true := by
    intro negative
    rw [hsigned, IntegerRange.contains_iff]
    omega
  constructor
  · intro h
    obtain ⟨negative, sign, rest, rfl, htake, hsign⟩ := exists_signText s
    by_cases hne : rest = []
    · subst hne
      obtain ⟨f, hf⟩ := exists_error_of_takeSign (b := b) htake
      rw [hf] at h
      cases h
    · rw [readInteger_eq_readDigits hleast htake hne, ← hsigned negative,
        readDigits_eq_ok_iff (hzero negative)] at h
      obtain ⟨hd, rfl, hcontains⟩ := h
      exact ⟨.mk hsign hne hd, hcontains⟩
  · rintro ⟨⟨hsign, hne, hd⟩, hcontains⟩
    rw [readInteger_eq_readDigits hleast (hsign.takeSign hd.unsigned) hne, ← hsigned _,
      readDigits_eq_ok_iff (hzero _)]
    exact ⟨hd, rfl, hcontains⟩

/-! ## Decimals -/

theorem readExponent_eq_some_iff {e : Int} : readExponent s = some e ↔ WritesInteger s e := by
  constructor
  · intro h
    obtain ⟨negative, sign, rest, rfl, htake, hsign⟩ := exists_signText s
    unfold readExponent at h
    rw [htake] at h
    dsimp only at h
    split at h
    · cases h
    · next hds =>
      simp only [Bool.or_eq_true, List.isEmpty_iff, Bool.not_eq_true', not_or,
        Bool.not_eq_false, List.all_eq_true] at hds
      cases h
      exact .mk hsign hds.1 hds.2
  · rintro ⟨hsign, hne, hd⟩
    unfold readExponent
    rw [hsign.takeSign hd.unsigned]
    dsimp only
    rw [if_neg]
    · rfl
    · simp only [Bool.or_eq_true, List.isEmpty_iff, Bool.not_eq_true', not_or,
        Bool.not_eq_false, List.all_eq_true]
      exact ⟨hne, hd⟩

/-- Reads an exponent behind its mark; an exponent may be missing. -/
def readTail : List Char → Option Int
  | [] => some 0
  | c :: r => if c = 'e' ∨ c = 'E' then readExponent r else none

theorem readTail_eq_some_iff {e : Int} : readTail s = some e ↔ WritesExponent s e := by
  cases s with
  | nil =>
    constructor
    · intro h
      cases h
      exact .none
    · rintro ⟨⟩
      rfl
  | cons c r =>
    rw [readTail]
    constructor
    · intro h
      split at h
      · next hc => exact .marked hc (readExponent_eq_some_iff.mp h)
      · cases h
    · rintro ⟨⟩
      next hc h => rw [if_pos hc, readExponent_eq_some_iff.mpr h]

/-- What is read behind the sign of a decimal: the digits, how many of them stand behind the point,
and the rest. -/
def takeMantissa (s : List Char) : Option (Nat × Nat × List Char) :=
  let fraction := takeFraction (afterDigits s)
  if (leadingDigits s).isEmpty && fraction.1.isEmpty then none
  else some (valueOfDigits (leadingDigits s ++ fraction.1), fraction.1.length, fraction.2)

/-- A decimal is read in three parts. -/
theorem readDecimal_eq {negative : Bool} {rest : List Char}
    (htake : takeSign s = (negative, rest)) :
    readDecimal s = (takeMantissa rest).bind fun m =>
      (readTail m.2.2).map fun e => ⟨negative, m.1, e - m.2.1⟩ := by
  unfold readDecimal takeMantissa
  rw [htake]
  dsimp only
  generalize takeFraction (afterDigits rest) = fraction
  split
  · rfl
  · obtain ⟨ds, tail⟩ := fraction
    cases tail with
    | nil => simp [readTail]
    | cons c r =>
      rw [Option.bind_some, readTail]
      dsimp only
      by_cases hc : c = 'e' ∨ c = 'E'
      · rw [if_pos hc, if_pos hc]
      · rw [if_neg hc, if_neg hc]
        rfl

theorem takeMantissa_eq_some {digits places : Nat} {tail : List Char}
    (h : takeMantissa s = some (digits, places, tail)) :
    ∃ body, s = body ++ tail ∧ WritesMantissa body digits places := by
  have hs := leadingDigits_append_afterDigits s
  have hwhole := digits_leadingDigits s
  unfold takeMantissa takeFraction at h
  split at h
  · next r hafter =>
    -- a point follows the first digits
    rw [hafter, ← leadingDigits_append_afterDigits r] at hs
    dsimp only at h
    split at h
    · cases h
    · next hne =>
      cases h
      refine ⟨leadingDigits s ++ '.' :: leadingDigits r, ?_, .point ?_ ?_⟩
      · rw [List.append_assoc]
        exact hs.symm
      · simpa using hne
      · exact hwhole.append (digits_leadingDigits r)
  · dsimp only at h
    split at h
    · cases h
    · next hne =>
      cases h
      refine ⟨leadingDigits s, hs.symm, ?_⟩
      rw [List.append_nil]
      exact .whole (by simpa using hne) hwhole

theorem WritesMantissa.take {body tail : List Char} {digits places : Nat}
    (h : WritesMantissa body digits places)
    (htail : ∀ c ∈ tail.head?, c.isDigit = false ∧ c ≠ '.') :
    takeMantissa (body ++ tail) = some (digits, places, tail) := by
  unfold takeMantissa
  cases h with
  | whole hne hd =>
    have hfraction : takeFraction tail = ([], tail) := by
      unfold takeFraction
      split
      · exact absurd rfl (htail '.' rfl).2
      · rfl
    rw [leadingDigits_append hd fun c hc => (htail c hc).1,
      afterDigits_append hd fun c hc => (htail c hc).1, hfraction]
    dsimp only
    rw [if_neg (by simpa using hne), List.append_nil]
    rfl
  | @point ds es hne hd =>
    obtain ⟨hds, hes⟩ := hd.of_append
    have hpoint : ∀ c ∈ ('.' :: (es ++ tail)).head?, c.isDigit = false := by
      intro c hc
      cases hc
      rfl
    rw [List.append_assoc, List.cons_append, leadingDigits_append hds hpoint,
      afterDigits_append hds hpoint, takeFraction]
    dsimp only
    rw [leadingDigits_append hes fun c hc => (htail c hc).1,
      afterDigits_append hes fun c hc => (htail c hc).1, if_neg (by simpa using hne)]

/-- Behind the digits of a decimal stands neither a digit nor a point. -/
theorem WritesExponent.head {tail : List Char} {e : Int} (h : WritesExponent tail e) :
    ∀ c ∈ tail.head?, c.isDigit = false ∧ c ≠ '.' := by
  intro c hc
  cases h with
  | none => cases hc
  | marked hm _ =>
    cases hc
    rcases hm with rfl | rfl <;> decide

theorem WritesMantissa.unsigned {body tail : List Char} {digits places : Nat}
    (h : WritesMantissa body digits places) : Unsigned (body ++ tail) := by
  cases h with
  | whole hne hd => exact hd.unsigned.append hne tail
  | @point ds es hne hd =>
    cases ds with
    | nil =>
      intro c hc
      cases hc
      decide
    | cons d ds =>
      rw [List.append_assoc]
      exact hd.of_append.1.unsigned.append (List.cons_ne_nil d ds) _

/-- **A text is read as a decimal just if it writes it.** -/
theorem readDecimal_eq_some_iff {d : Decimal} : readDecimal s = some d ↔ WritesDecimal s d := by
  constructor
  · intro h
    obtain ⟨negative, sign, rest, rfl, htake, hsign⟩ := exists_signText s
    rw [readDecimal_eq htake] at h
    obtain ⟨⟨digits, places, tail⟩, hmantissa, htail⟩ := Option.bind_eq_some_iff.mp h
    obtain ⟨e, he, rfl⟩ := Option.map_eq_some_iff.mp htail
    obtain ⟨body, rfl, hbody⟩ := takeMantissa_eq_some hmantissa
    exact .mk hsign hbody (readTail_eq_some_iff.mp he)
  · rintro ⟨hsign, hmantissa, hexponent⟩
    rw [readDecimal_eq (hsign.takeSign hmantissa.unsigned), hmantissa.take hexponent.head,
      Option.bind_some, readTail_eq_some_iff.mpr hexponent]
    rfl

/-! ## Finite numbers in single precision -/

/-- A text writes a decimal, and the nearest number in single precision is finite. -/
def WritesFinite (s : List Char) (x : Float32) : Prop :=
  ∃ d, WritesDecimal s d ∧ d.toSingle = x ∧ x.isFinite = true

/-- The words for infinity and for no number write no finite number. -/
theorem isFinite_of_readSpecial {x : Float32} (h : readSpecial s = some x) :
    x.isFinite = false := by
  unfold readSpecial at h
  dsimp only at h
  split at h
  · cases h
    cases (takeSign s).1 <;> decide
  · split at h
    · cases h
      decide
    · cases h

/-- **A text is read as a finite number just if it writes it.** -/
theorem readSingle_finite_iff {x : Float32} :
    readSingle s = .ok x ∧ x.isFinite = true ↔ WritesFinite s x := by
  constructor
  · rintro ⟨h, hfinite⟩
    unfold readSingle at h
    split at h
    · cases h
    · split at h
      · next d hd =>
        cases h
        exact ⟨d, readDecimal_eq_some_iff.mp hd, rfl, hfinite⟩
      · split at h
        · next hspecial =>
          cases h
          rw [isFinite_of_readSpecial hspecial] at hfinite
          exact absurd hfinite Bool.false_ne_true
        · cases h
  · rintro ⟨d, hd, rfl, hfinite⟩
    have hread := readDecimal_eq_some_iff.mpr hd
    refine ⟨?_, hfinite⟩
    unfold readSingle
    rw [if_neg, hread]
    intro hempty
    rw [List.isEmpty_iff.mp hempty, show readDecimal [] = none from rfl] at hread
    cases hread

/-- A number half way between two others is rounded once, to the even one of them. -/
example : readSingle "-1677721.9e1".toList = .ok (-16777220) ∧
    readSingle "16777217".toList = .ok 16777216 := by
  decide +kernel

end DialogueBox.Number
