import DialogueBox.Json.Printer
import DialogueBox.Proofs.Json.Grammar

/-!
# Numbers are written by the grammar

The text of a number keeps to the grammar (`writes_print`) if its digits do. Those of the numbers
that are written here do so: whole numbers (`wellFormed_ofInt`) and numbers in single precision
(`wellFormed_ofSingle`), for which the digits of the shortest decimal have to be placed around a
point.
-/

namespace DialogueBox

open Number

/-! ## Digits -/

namespace Number

theorem isDigit_of_mem_toDigits {n : Nat} : ∀ c ∈ Nat.toDigits 10 n, c.isDigit = true :=
  fun _ hc => Nat.isDigit_of_mem_toDigits (by decide) (by decide) hc

theorem valueOfDigits_toDigits (n : Nat) : valueOfDigits (Nat.toDigits 10 n) = n :=
  Nat.ofDigitChars_toDigits (by decide) (by decide)

/-- A positive number is written without a zero at its beginning. -/
theorem head?_toDigits_ne_zero {n : Nat} (hn : 0 < n) : (Nat.toDigits 10 n).head? ≠ some '0' := by
  induction n using Nat.strongRecOn with
  | ind n ih =>
    by_cases hlt : n < 10
    · rw [Nat.toDigits_of_lt_base hlt]
      have hdigit : ∀ d < 10, 0 < d → Nat.digitChar d ≠ '0' := by decide
      simpa using hdigit n hlt hn
    · rw [Nat.toDigits_of_base_le (by decide) (by omega),
        List.head?_append_of_ne_nil _ Nat.toDigits_ne_nil]
      exact ih (n / 10) (by omega) (by omega)

end Number

namespace Numeral

open Json

/-! ## Numerals that keep to the grammar -/

theorem isWhole_zero : IsWhole ['0'] :=
  ⟨List.cons_ne_nil _ _, fun _ hc => List.mem_singleton.mp hc ▸ rfl, fun _ => rfl⟩

theorem wellFormed_zero (negative : Bool) : WellFormed ⟨negative, ['0'], ['0'], none⟩ :=
  ⟨isWhole_zero, isWhole_zero.digits⟩

theorem isWhole_toDigits (n : Nat) : IsWhole (Nat.toDigits 10 n) := by
  refine ⟨Nat.toDigits_ne_nil, isDigit_of_mem_toDigits, fun h => ?_⟩
  rcases Nat.eq_zero_or_pos n with rfl | hn
  · rfl
  · exact absurd h (head?_toDigits_ne_zero hn)

theorem wellFormed_ofInt (n : Int) : (ofInt n).WellFormed :=
  ⟨isWhole_toDigits n.natAbs, fun _ hc => nomatch hc⟩

/-! ## Texts of numerals -/

/-- How the exponent is written. -/
def exponentText : Option Int → List Char
  | none => []
  | some e => 'e' :: ((if e < 0 then ['-'] else []) ++ Nat.toDigits 10 e.natAbs)

theorem print_eq (n : Numeral) : n.print = (if n.negative then ['-'] else []) ++
    (n.whole ++ (fractionText n.fraction ++ exponentText n.exponent)) := by
  have hprint : n.print = (if n.negative then ['-'] else []) ++ n.whole ++
      fractionText n.fraction ++ exponentText n.exponent := by
    obtain ⟨negative, whole, fraction, exponent⟩ := n
    cases exponent <;> rfl
  rw [hprint, List.append_assoc, List.append_assoc]

theorem writes_exponentText (e : Option Int) : WritesExponent (exponentText e) e := by
  cases e with
  | none => exact .none
  | some e =>
    have hsign : SignText (decide (e < 0)) (if e < 0 then ['-'] else []) := by
      by_cases he : e < 0
      · rw [if_pos he, decide_eq_true he]
        exact .minus
      · rw [if_neg he, decide_eq_false he]
        exact .none
    have hvalue : signed (decide (e < 0)) (valueOfDigits (Nat.toDigits 10 e.natAbs)) = e := by
      rw [valueOfDigits_toDigits, signed]
      by_cases he : e < 0
      · rw [if_pos (decide_eq_true he)]
        omega
      · rw [if_neg (by simpa using he)]
        omega
    have hwrites := WritesInteger.mk hsign Nat.toDigits_ne_nil
      (isDigit_of_mem_toDigits (n := e.natAbs))
    rw [hvalue] at hwrites
    exact .marked (.inl rfl) hwrites

/-- **The text of a numeral keeps to the grammar.** -/
theorem writes_print {n : Numeral} (h : n.WellFormed) : Writes n.print n := by
  rw [print_eq]
  exact .mk h (writes_exponentText n.exponent)

/-- **A whole number that fits 64 bits is read back from its numeral.** -/
theorem integer?_ofInt {i : Int} (hlow : signed64.least ≤ i) (hhigh : i ≤ unsigned64.greatest) :
    (ofInt i).integer? = some i := by
  simp only [signed64, unsigned64] at hlow hhigh
  simp only [integer?, ofInt, valueOfDigits_toDigits, IntegerRange.contains, signed64, unsigned64]
  by_cases hi : i < 0
  · have habs : -(i.natAbs : Int) = i := by omega
    simp only [hi, habs, List.isEmpty_nil, Option.isNone_none, Bool.and_self, if_true,
      decide_true]
    rw [if_neg]
    simp only [Bool.and_eq_false_iff, decide_eq_false_iff_not]
    omega
  · have habs : (i.natAbs : Int) = i := by omega
    simp only [hi, habs, List.isEmpty_nil, Option.isNone_none, Bool.and_self, if_true,
      decide_false, if_neg Bool.false_ne_true]
    rw [if_pos]
    simp only [Bool.and_eq_true, decide_eq_true_eq]
    omega

/-! ## Numbers in single precision -/

/-- The digits of a decimal: at least one, and none at the beginning is a zero. -/
structure IsDecimal (ds : List Char) : Prop where
  ne_nil : ds ≠ []
  digits : ∀ c ∈ ds, c.isDigit = true
  head : ds.head? ≠ some '0'

/-- The digits at the beginning of a decimal are such digits, too. -/
theorem IsDecimal.take {ds : List Char} (h : IsDecimal ds) {n : Nat} (hn : 0 < n) :
    IsDecimal (ds.take n) := by
  cases ds with
  | nil => exact absurd rfl h.ne_nil
  | cons c ds =>
    obtain ⟨n, rfl⟩ : ∃ m, n = m + 1 := ⟨n - 1, by omega⟩
    exact ⟨by simp, fun d hd => h.digits d (List.mem_of_mem_take hd), h.head⟩

theorem IsDecimal.isWhole_append {ds : List Char} (h : IsDecimal ds) (n : Nat) :
    IsWhole (ds ++ List.replicate n '0') := by
  refine ⟨by simp [h.ne_nil], fun c hc => ?_, fun hc => ?_⟩
  · rcases List.mem_append.mp hc with hc | hc
    · exact h.digits c hc
    · rw [List.eq_of_mem_replicate hc]
      decide
  · rw [List.head?_append_of_ne_nil _ h.ne_nil] at hc
    exact absurd hc h.head

theorem IsDecimal.isWhole {ds : List Char} (h : IsDecimal ds) : IsWhole ds := by
  have h0 := h.isWhole_append 0
  rwa [List.replicate_zero, List.append_nil] at h0

/-- Placing the point keeps to the grammar. -/
theorem wellFormed_ofDigits (negative : Bool) {ds : List Char} (h : IsDecimal ds) (k : Int) :
    (ofDigits negative ds k).WellFormed := by
  have hpos : 0 < ds.length := List.length_pos_iff.mpr h.ne_nil
  have hdrop : ∀ n, ∀ c ∈ ds.drop n, c.isDigit = true :=
    fun n c hc => h.digits c (List.mem_of_mem_drop hc)
  unfold ofDigits
  dsimp only
  split
  · exact ⟨h.isWhole_append _, isWhole_zero.digits⟩
  · split
    · next hpoint => exact ⟨(h.take (by omega)).isWhole, hdrop _⟩
    · split
      · refine ⟨isWhole_zero, fun c hc => ?_⟩
        rcases List.mem_append.mp hc with hc | hc
        · rw [List.eq_of_mem_replicate hc]
          decide
        · exact h.digits c hc
      · exact ⟨(h.take Nat.zero_lt_one).isWhole, hdrop _⟩

/-- The zeros at the end of a decimal are fewer than its digits. -/
theorem isDecimal_stripZeros {ds : List Char} (h : IsDecimal ds) (k : Int) :
    IsDecimal (stripZeros ds k).1 := by
  refine h.take (Nat.sub_pos_of_lt ?_)
  have hprefix := List.takeWhile_prefix (l := ds.reverse) (· == '0')
  have hle := hprefix.length_le
  rw [List.length_reverse] at hle
  refine Nat.lt_of_le_of_ne hle fun heq => ?_
  -- if all digits are zeros, the first one is
  have hall : ds.reverse.takeWhile (· == '0') = ds.reverse :=
    hprefix.eq_of_length (by rw [heq, List.length_reverse])
  cases ds with
  | nil => exact h.ne_nil rfl
  | cons c ds =>
    have hc : c ∈ (c :: ds).reverse.takeWhile (· == '0') := by
      rw [hall]
      simp
    have hzero := List.all_eq_true.mp List.all_takeWhile c hc
    exact h.head (by simpa using hzero)

end Numeral

/-- Where no grid has a point of the interval, the shortest decimal is zero times one. -/
theorem Number.Binary.shortest_of_digits_eq_zero {b : Binary} (h : b.shortest.1 = 0) :
    b.shortest = (0, 0) := by
  unfold shortest at h ⊢
  split at h
  · next r hr =>
    obtain ⟨k, -, hk⟩ := List.exists_of_findSome?_eq_some hr
    obtain ⟨d, -, hd⟩ := Option.bind_eq_some_iff.mp hk
    split at hd
    · cases hd
    · next hne =>
      cases hd
      exact absurd h hne
  · rfl

/-- **A number in single precision is written by the grammar.** -/
theorem Numeral.wellFormed_ofSingle (x : Float32) : (ofSingle x).WellFormed := by
  unfold ofSingle
  dsimp only
  split
  · exact wellFormed_zero _
  · generalize hs : (Binary.ofSingle x).shortest = s
    obtain ⟨digits, k⟩ := s
    dsimp only
    rcases Nat.eq_zero_or_pos digits with rfl | hpos
    · have h0 := Binary.shortest_of_digits_eq_zero (congrArg Prod.fst hs)
      rw [hs, Prod.mk.injEq] at h0
      rw [h0.2]
      exact wellFormed_zero _
    · have hd : IsDecimal (Nat.toDigits 10 digits) :=
        ⟨Nat.toDigits_ne_nil, isDigit_of_mem_toDigits, head?_toDigits_ne_zero hpos⟩
      exact wellFormed_ofDigits _ (isDecimal_stripZeros hd k) _

end DialogueBox
