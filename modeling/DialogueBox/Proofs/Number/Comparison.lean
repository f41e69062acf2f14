import DialogueBox.Json.Basic
import DialogueBox.Proofs.Number.Order
import Mathlib.Algebra.Group.Nat.Defs

/-!
# Numbers that can be compared

Single precision has a value that is no number. It compares with nothing, so that of such a value
`x` neither `x ≤ 0` holds nor `0 < x`. But no numeral denotes it (`isNaN_of_single?`), and a number
that was read is positive just if it is not `≤ 0` (`pos_iff`).

Rounding always gives a number. Multiplication and division do so, too, unless zero meets infinity
or its like, and they are only done with powers of ten. It has to be shown that these are neither:
rounding them keeps 53 digits and stays in range (`exists_roundWithAccuracy_eq`).
-/

namespace DialogueBox.Number

open Float.Model (Format UnpackedFloat totalExponent)
open Float.Model.UnpackedFloat

variable {spec : Format} {u v : UnpackedFloat}

/-! ## Choices -/

theorem isNaN_dite {c : Prop} [Decidable c] {f : c → UnpackedFloat} {g : ¬c → UnpackedFloat}
    (hf : ∀ h, (f h).isNaN = false) (hg : ∀ h, (g h).isNaN = false) :
    (dite c f g).isNaN = false := by
  split
  · exact hf _
  · exact hg _

theorem isNaN_ite {c : Prop} [Decidable c] (hu : u.isNaN = false) (hv : v.isNaN = false) :
    (if c then u else v).isNaN = false := by
  split
  · exact hu
  · exact hv

/-! ## Packing -/

/-- Only the greatest exponent stands for values that are not finite. -/
theorem ofNat_ne_greatest {n : Nat} (h : n + 1 < 2 ^ spec.exponentBits) :
    BitVec.ofNat spec.exponentBits n ≠ -1#_ := by
  intro hn
  have hn := congrArg BitVec.toNat hn
  rw [BitVec.toNat_ofNat, Nat.mod_eq_of_lt (by omega), BitVec.neg_one_eq_allOnes,
    BitVec.toNat_allOnes] at hn
  omega

/-- What is unpacked is a number unless the exponent is the greatest and the mantissa is not
zero. -/
theorem isNaN_unpack {b : BitVec spec.numBits}
    (h : unpackExponent b = -1#_ → unpackMantissa b = 0#_) :
    (UnpackedFloat.unpack spec b).isNaN = false := by
  unfold UnpackedFloat.unpack
  dsimp only
  by_cases hgreatest : unpackExponent b = -1#_
  · rw [if_pos hgreatest, if_pos (h hgreatest)]
    rfl
  · rw [if_neg hgreatest]
    exact isNaN_ite (isNaN_dite (fun _ => rfl) fun _ => rfl) rfl

theorem isNaN_unpack_infinity (s : Sign) :
    (UnpackedFloat.unpack spec (packedInfinity spec s)).isNaN = false :=
  isNaN_unpack fun _ => unpackMantissa_packComponents ..

theorem isNaN_unpack_of_exponent {e : BitVec spec.exponentBits} (he : e ≠ -1#_) (s : Sign)
    (m : BitVec spec.mantissaBitsWithoutImplicit) :
    (UnpackedFloat.unpack spec (packComponents spec s e m)).isNaN = false :=
  isNaN_unpack fun h => absurd ((unpackExponent_packComponents ..).symm.trans h) he

/-- **A number is still a number when it has been packed.** -/
theorem isNaN_unpack_pack (hu : u.isNaN = false) :
    (UnpackedFloat.unpack spec (UnpackedFloat.pack spec u)).isNaN = false := by
  have hbits := Nat.pow_le_pow_right Nat.two_pos spec.he
  have hzero : (0#_ : BitVec spec.exponentBits) ≠ -1#_ := ofNat_ne_greatest (n := 0) (by omega)
  cases u with
  | notANumber => cases hu
  | infinity s => exact isNaN_unpack_infinity s
  | zero s => exact isNaN_unpack_of_exponent hzero s 0
  | finite s m e hm =>
    unfold UnpackedFloat.pack
    dsimp only
    split
    · exact isNaN_unpack_infinity s
    · split
      · exact isNaN_unpack_of_exponent (ofNat_ne_greatest (by omega)) s _
      · exact isNaN_unpack_of_exponent hzero s _

/-- Whether a value is finite and not zero. -/
def IsNonzero (u : UnpackedFloat) : Bool := u matches .finite ..

theorem isNonzero_unpack {b : BitVec spec.numBits} (hgreatest : unpackExponent b ≠ -1#_)
    (hzero : unpackExponent b ≠ 0#_) : IsNonzero (UnpackedFloat.unpack spec b) = true := by
  unfold UnpackedFloat.unpack
  dsimp only
  rw [if_neg hgreatest, if_neg hzero]
  rfl

/-- With all its digits and an exponent in range, a number is not zero when it has been packed. -/
theorem isNonzero_unpack_pack {s : Sign} {m : Nat} {e : Int} {hm : 0 < m}
    (hlog : m.log2 + 1 = spec.mantissaBits)
    (hlow : 0 < e + spec.exponentBias + spec.mantissaBitsWithoutImplicit)
    (hhigh : e + spec.exponentBias + spec.mantissaBitsWithoutImplicit + 1 <
      (2 ^ spec.exponentBits : Nat)) :
    IsNonzero (UnpackedFloat.unpack spec (UnpackedFloat.pack spec (.finite s m e hm))) = true := by
  obtain ⟨n, hn⟩ := Int.eq_ofNat_of_zero_le (Int.le_of_lt hlow)
  rw [hn] at hlow hhigh
  have hne : BitVec.ofNat spec.exponentBits n ≠ 0#_ := by
    intro h
    have h := congrArg BitVec.toNat h
    rw [BitVec.toNat_ofNat, Nat.mod_eq_of_lt (by omega), BitVec.toNat_zero] at h
    omega
  unfold UnpackedFloat.pack
  dsimp only
  rw [hn, Int.toNat_natCast, if_neg (by omega), if_pos hlog]
  refine isNonzero_unpack ?_ ?_
  · rw [unpackExponent_packComponents]
    exact ofNat_ne_greatest (by omega)
  · rw [unpackExponent_packComponents]
    exact hne

/-! ## Operations -/

theorem isNaN_roundWithAccuracy (s : Sign) (m : Nat) (e : Int) (a : Accuracy) :
    (roundWithAccuracy spec s m e a).isNaN = false := by
  unfold roundWithAccuracy
  dsimp only
  exact isNaN_dite (fun _ => rfl) fun _ => rfl

theorem isNaN_normalize (m e : Int) (s : Sign) :
    (UnpackedFloat.normalize spec m e s).isNaN = false := by
  unfold UnpackedFloat.normalize
  split
  · exact isNaN_roundWithAccuracy ..
  · rfl
  · exact isNaN_roundWithAccuracy ..

theorem isNaN_mul (hu : u.isNaN = false) (hv : IsNonzero v = true) :
    (mul spec u v).isNaN = false := by
  cases v with
  | finite =>
    cases u with
    | notANumber => cases hu
    | finite => exact isNaN_roundWithAccuracy ..
    | _ => rfl
  | _ => cases hv

theorem isNaN_div (hu : u.isNaN = false) (hv : IsNonzero v = true) :
    (div spec u v).isNaN = false := by
  cases v with
  | finite =>
    cases u with
    | notANumber => cases hu
    | finite => exact isNaN_roundWithAccuracy ..
    | _ => rfl
  | _ => cases hv

theorem isNaN_ofScientific (m : Nat) (e : Int) : (ofScientific spec m e).isNaN = false := by
  unfold ofScientific
  refine isNaN_dite (fun _ => rfl) fun _ => isNaN_ite rfl (isNaN_ite rfl (isNaN_ite ?_ ?_))
  · exact isNaN_mul rfl rfl
  · exact isNaN_div rfl rfl

theorem isNaN_neg (hu : u.isNaN = false) : u.neg.isNaN = false := by
  cases u with
  | notANumber => cases hu
  | _ => rfl

/-! ## Rounding to double precision -/

theorem mantissa_shiftRight (em : ExtendedMantissa) (n : Nat) :
    (em >>> n).mantissa = em.mantissa / 2 ^ n := by
  show (n.repeat ExtendedMantissa.shiftRightOne em).mantissa = _
  induction n with
  | zero => exact (Nat.div_one _).symm
  | succ n ih =>
    show (n.repeat ExtendedMantissa.shiftRightOne em).mantissa / 2 = _
    rw [ih, Nat.div_div_eq_div_mul, Nat.pow_succ]

theorem roundedMantissa_cases (em : ExtendedMantissa) :
    em.roundedMantissa = em.mantissa ∨ em.roundedMantissa = em.mantissa + 1 := by
  unfold ExtendedMantissa.roundedMantissa Accuracy.roundToNearestEven
  split
  · exact .inl rfl
  · exact .inl rfl
  · omega
  · exact .inr rfl

theorem ne_zero_of_log2 {m n : Nat} (hm : m.log2 = 52 + n) : m ≠ 0 := by
  rintro rfl
  rw [Nat.log2_zero] at hm
  omega

theorem log2_eq {m n : Nat} (hlow : 2 ^ n ≤ m) (hhigh : m < 2 ^ (n + 1)) : m.log2 = n :=
  (Nat.log2_eq_iff (Nat.ne_of_gt (Nat.lt_of_lt_of_le (Nat.two_pow_pos n) hlow))).mpr ⟨hlow, hhigh⟩

/-- Dropping the digits beyond 53 leaves 53. -/
theorem log2_div {m n : Nat} (hm : m.log2 = 52 + n) : (m / 2 ^ n).log2 = 52 := by
  obtain ⟨hlow, hhigh⟩ := (Nat.log2_eq_iff (ne_zero_of_log2 hm)).mp hm
  refine log2_eq ?_ ?_
  · rwa [Nat.le_div_iff_mul_le (Nat.two_pow_pos n), ← Nat.pow_add]
  · rwa [Nat.div_lt_iff_lt_mul (Nat.two_pow_pos n), ← Nat.pow_add, Nat.add_right_comm]

/-- A number that is not too small is shifted to 53 digits. -/
theorem shiftToTargetExponent_double {m n : Nat} {e : Int} (a : Accuracy) (hm : m.log2 = 52 + n)
    (he : -1074 ≤ e) :
    (shiftToTargetExponent .binary64 m e a).1.mantissa = m / 2 ^ n ∧
      (shiftToTargetExponent .binary64 m e a).2 = e + n := by
  have htarget : (Format.binary64.targetExponent (totalExponent m e) - e).toNat = n := by
    unfold Format.targetExponent totalExponent
    rw [hm, show (Format.binary64.mantissaBits : Int) = 53 by rfl,
      show Format.binary64.minExponent = -1074 by decide]
    omega
  unfold shiftToTargetExponent shiftToExponent
  dsimp only
  rw [mantissa_shiftRight, htarget]
  refine ⟨?_, rfl⟩
  congr 1
  unfold ExtendedMantissa.ofMantissaAndAccuracy
  split <;> rfl

/-- **Rounding keeps 53 digits,** and raises the exponent by no more than the digits that go and one
for a carry. -/
theorem exists_roundWithAccuracy_eq {m n : Nat} {e : Int} (s : Sign) (a : Accuracy)
    (hm : m.log2 = 52 + n) (he : -1074 ≤ e) :
    ∃ m' e', ∃ h : 0 < m', roundWithAccuracy .binary64 s m e a = .finite s m' e' h ∧
      m'.log2 = 52 ∧ e + n ≤ e' ∧ e' ≤ e + n + 1 := by
  obtain ⟨hmantissa, hexponent⟩ := shiftToTargetExponent_double a hm he
  generalize hfirst : shiftToTargetExponent .binary64 m e a = first at hmantissa hexponent
  obtain ⟨em, e₁⟩ := first
  dsimp only at hmantissa hexponent
  subst hexponent
  have hrounded : ∃ k ≤ 1, em.roundedMantissa.log2 = 52 + k := by
    have hlog := log2_div hm
    obtain ⟨hlow, hhigh⟩ := (Nat.log2_eq_iff (ne_zero_of_log2 (n := 0) hlog)).mp hlog
    rcases roundedMantissa_cases em with h | h
    · exact ⟨0, Nat.zero_le 1, log2_eq (by omega) (by omega)⟩
    · by_cases hcarry : m / 2 ^ n + 1 < 2 ^ 53
      · exact ⟨0, Nat.zero_le 1, log2_eq (by omega) (by omega)⟩
      · exact ⟨1, Nat.le_refl 1, log2_eq (by omega) (by omega)⟩
  obtain ⟨k, hk, hlog⟩ := hrounded
  obtain ⟨hmantissa', hexponent'⟩ := shiftToTargetExponent_double .exact hlog
    (show -1074 ≤ e + n by omega)
  have hlog' := log2_div hlog
  rw [← hmantissa'] at hlog'
  unfold roundWithAccuracy
  rw [hfirst]
  dsimp only
  rw [dif_neg (ne_zero_of_log2 (n := 0) hlog')]
  exact ⟨_, _, _, rfl, hlog', by omega, by omega⟩

/-! ## Powers of ten -/

theorem log2_powerOfTen (e : Nat) : (1 <<< 53 * 10 ^ e).log2 = 52 + ((10 ^ e).log2 + 1) := by
  have hpos : 10 ^ e ≠ 0 := Nat.ne_of_gt (Nat.pow_pos (by decide))
  obtain ⟨hlow, hhigh⟩ := (Nat.log2_eq_iff hpos).mp rfl
  rw [Nat.shiftLeft_eq, Nat.one_mul, Nat.add_comm _ 1, ← Nat.add_assoc]
  refine log2_eq ?_ ?_
  · rw [Nat.pow_add]
    exact Nat.mul_le_mul_left _ hlow
  · rw [Nat.add_assoc, Nat.pow_add]
    exact Nat.mul_lt_mul_of_pos_left hhigh (Nat.two_pow_pos 53)

theorem log2_lt_of_le {m n k : Nat} (hm : m ≠ 0) (h : m ≤ n) (hn : n.log2 < k) : m.log2 < k := by
  have hn' : n ≠ 0 := fun h0 => hm (Nat.le_zero.mp (h0 ▸ h))
  exact (Nat.log2_lt hm).mpr (Nat.lt_of_le_of_lt h ((Nat.log2_lt hn').mp hn))

theorem log2_pow_lt : (10 ^ (greatestPower - 1)).log2 < 1020 := by decide +kernel

/-- A power of ten that is not in the table is rounded from its digits. -/
theorem unpack_powerOfTen {e : Nat} (hlow : 22 < e) (hhigh : e < greatestPower) :
    (powerOfTen e).toModel.unpack = UnpackedFloat.unpack .binary64
      (UnpackedFloat.pack .binary64
        (roundWithAccuracy .binary64 .positive (1 <<< 53 * 10 ^ e) (-53) .exact)) := by
  have hbounds : ¬(Int.ofNat e > 2 ^ 11) ∧ ¬(Int.ofNat e < -((2 ^ 11 : Int) + Nat.log2 1)) ∧
      0 ≤ Int.ofNat e := by
    simp only [greatestPower] at hhigh
    simp only [Int.ofNat_eq_natCast]
    omega
  have hpower : powerOfTen e = .ofModel (.pack (ofScientific .binary64 1 (Int.ofNat e))) := by
    unfold powerOfTen Float.ofScientific
    rw [dif_neg (by omega)]
    rfl
  rw [hpower]
  unfold ofScientific
  rw [dif_neg Nat.one_ne_zero, if_neg hbounds.1, if_neg hbounds.2.1, if_pos hbounds.2.2]
  rfl

/-- **A power of ten is finite and not zero.** -/
theorem isNonzero_powerOfTen {e : Nat} (he : e ≤ greatestPower) :
    IsNonzero (powerOfTen e).toModel.unpack = true := by
  have htable : ∀ e ≤ 22, IsNonzero (powerOfTen e).toModel.unpack = true := by decide +kernel
  -- the greatest power is so close to the greatest double that a carry would not be allowed
  have hgreatest : IsNonzero (powerOfTen greatestPower).toModel.unpack = true := by decide +kernel
  by_cases hlow : e ≤ 22
  · exact htable e hlow
  · rcases Nat.lt_or_eq_of_le he with hhigh | rfl
    · have hlog : (10 ^ e).log2 < 1020 := by
        have hle : 10 ^ e ≤ 10 ^ (greatestPower - 1) :=
          Nat.pow_le_pow_right (by decide) (Nat.le_sub_one_of_lt hhigh)
        exact log2_lt_of_le (Nat.ne_of_gt (Nat.pow_pos (by decide))) hle log2_pow_lt
      obtain ⟨m, e', hm, hround, hm', hlow', hhigh'⟩ :=
        exists_roundWithAccuracy_eq .positive .exact (log2_powerOfTen e) (e := -53) (by decide)
      rw [unpack_powerOfTen (Nat.lt_of_not_le hlow) hhigh, hround]
      have hbias : (Format.binary64.exponentBias : Int) +
          Format.binary64.mantissaBitsWithoutImplicit = 1075 := by decide
      have hsize : 2 ^ Format.binary64.exponentBits = 2048 := by decide
      refine isNonzero_unpack_pack (by rw [hm']; rfl) ?_ ?_
      · omega
      · rw [hsize]
        omega
    · exact hgreatest

/-! ## Numerals -/

theorem isNaN_singleOfNat (n : Nat) : (Float32.ofNat n).isNaN = false := by
  have hone : IsNonzero (Float32.ofBits 0x3F800000).toModel.unpack = true := by decide
  show (Float32.ofScientific n false 0).isNaN = false
  unfold Float32.ofScientific
  dsimp only
  split
  · exact isNaN_unpack_pack (isNaN_mul (isNaN_unpack_pack (isNaN_normalize ..)) hone)
  · exact isNaN_unpack_pack (isNaN_ofScientific ..)

theorem isNaN_singleOfInt (n : Int) : (Float32.ofInt n).isNaN = false := by
  cases n with
  | ofNat n => exact isNaN_singleOfNat n
  | negSucc n => exact isNaN_unpack_pack (isNaN_neg (isNaN_singleOfNat _))

theorem isNaN_of_scaleDouble {f x : Float} {e : Int} (hf : f.isNaN = false)
    (h : scaleDouble f e = some x) : x.isNaN = false := by
  fun_induction scaleDouble f e with
  | case1 f e h1 h2 g hg => cases h
  | case2 f e h1 h2 g hg =>
    rw [← Option.some.inj h]
    exact isNaN_unpack_pack (isNaN_mul hf (isNonzero_powerOfTen (by omega)))
  | case3 f e h1 h2 hg => cases h; exact hf
  | case4 f e h1 h2 hg => cases h
  | case5 f e h1 h2 =>
    cases h
    exact isNaN_unpack_pack (isNaN_div hf (isNonzero_powerOfTen (by omega)))
  | case6 f e h1 h2 hg => cases h; exact hf
  | case7 f e h1 h2 h3 ih =>
    exact ih (isNaN_unpack_pack (isNaN_div hf (isNonzero_powerOfTen (Nat.le_refl _)))) h

theorem isNaN_singleOfDouble {x : Float} (hx : x.isNaN = false) :
    (singleOfDouble x).isNaN = false := by
  unfold singleOfDouble
  split
  · exact isNaN_unpack_pack (isNaN_roundWithAccuracy ..)
  · exact isNaN_unpack_pack hx

/-- **No numeral denotes the value that is no number.** -/
theorem isNaN_of_single? {n : Numeral} {x : Float32} (h : n.single? = some x) :
    x.isNaN = false := by
  unfold Numeral.single? at h
  split at h
  · cases h
    exact isNaN_singleOfInt _
  · obtain ⟨d, hd, rfl⟩ := Option.map_eq_some_iff.mp h
    refine isNaN_singleOfDouble ?_
    obtain ⟨y, hy, rfl⟩ := Option.map_eq_some_iff.mp hd
    have hword : ∀ w, (doubleOfWord w).isNaN = false := fun w =>
      isNaN_unpack_pack (isNaN_normalize ..)
    have hscaled := isNaN_of_scaleDouble (hword _) hy
    split
    · exact isNaN_unpack_pack (isNaN_neg hscaled)
    · exact hscaled

/-! ## Comparison with zero -/

variable {x y : Float32}

theorem le_iff : x ≤ y ↔ UnpackedFloat.le x.toModel.unpack y.toModel.unpack = true :=
  decide_eq_true_iff

theorem unpack_zero : (0 : Float32).toModel.unpack = .zero .positive := rfl

/-- **A number lies on one side of zero.** -/
theorem zero_compares (hu : u.isNaN = false) (s : Sign) :
    UnpackedFloat.lt (.zero s) u = !UnpackedFloat.le u (.zero s) ∧
      UnpackedFloat.le (.zero s) u = !UnpackedFloat.lt u (.zero s) := by
  cases u with
  | notANumber => cases hu
  | infinity t => cases t <;> exact ⟨rfl, rfl⟩
  | zero t => exact ⟨rfl, rfl⟩
  | finite t m e hm => cases t <;> exact ⟨rfl, rfl⟩

theorem pos_iff (hx : x.isNaN = false) : 0 < x ↔ ¬x ≤ 0 := by
  rw [lt_iff, le_iff, unpack_zero, (zero_compares hx .positive).1, Bool.not_eq_true',
    Bool.not_eq_true]

theorem nonneg_iff (hx : x.isNaN = false) : 0 ≤ x ↔ ¬x < 0 := by
  rw [lt_iff, le_iff, unpack_zero, (zero_compares hx .positive).2, Bool.not_eq_true',
    Bool.not_eq_true]

end DialogueBox.Number
