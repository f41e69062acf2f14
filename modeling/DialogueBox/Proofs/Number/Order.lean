import Mathlib.Data.Prod.Lex

/-!
# The order of numbers

Numbers in single precision are compared by sign, exponent and mantissa. The places that these give
a number are ordered like pairs (`lt_iff_place?`), and what is no number has no place. So nothing is
below itself, and what is below something is below all that is above it.
-/

namespace DialogueBox.Number

open Float.Model (UnpackedFloat)
open Float.Model.UnpackedFloat

variable {u v : UnpackedFloat} {x y z : Float32}

/-! ## Places -/

/-- The place of a value in the order: first far below, below zero, at zero, above it or far above;
then the exponent; then the mantissa. -/
def place? : UnpackedFloat → Option (Int ×ₗ Int ×ₗ Int)
  | .notANumber => none
  | .infinity .negative => some (toLex (-2, toLex (0, 0)))
  | .finite .negative m e _ => some (toLex (-1, toLex (-e, -m)))
  | .zero _ => some (toLex (0, toLex (0, 0)))
  | .finite .positive m e _ => some (toLex (1, toLex (e, m)))
  | .infinity .positive => some (toLex (2, toLex (0, 0)))

theorem then_eq_lt_iff {m n : Nat} {d e : Int} :
    (compare d e).then (compare m n) = .lt ↔ d < e ∨ d = e ∧ m < n := by
  rw [Ordering.then_eq_lt, compare_lt_iff_lt, compare_lt_iff_lt, compare_eq_iff_eq]

theorem then_eq_gt_iff {m n : Nat} {d e : Int} :
    (compare d e).then (compare m n) = .gt ↔ e < d ∨ d = e ∧ n < m := by
  rw [Ordering.then_eq_gt, compare_gt_iff_gt, compare_gt_iff_gt, compare_eq_iff_eq]

/-- **A value is below another one just if its place is.** -/
theorem lt_iff_place? :
    UnpackedFloat.lt u v = true ↔ ∃ a ∈ place? u, ∃ b ∈ place? v, a < b := by
  have hsigns : compare Sign.negative Sign.positive = .lt := rfl
  unfold UnpackedFloat.lt
  rw [beq_iff_eq]
  -- exponents and mantissas only count for two finite values of one sign
  rcases u with ⟨_ | _⟩ | _ | ⟨_ | _⟩ | ⟨_ | _, m, d, hm⟩ <;>
    rcases v with ⟨_ | _⟩ | _ | ⟨_ | _⟩ | ⟨_ | _, n, e, hn⟩ <;>
    dsimp only [UnpackedFloat.compare, place?] <;>
    simp [Prod.Lex.toLex_lt_toLex, then_eq_lt_iff, then_eq_gt_iff, hsigns]

/-! ## Numbers in single precision -/

theorem lt_iff : x < y ↔ UnpackedFloat.lt x.toModel.unpack y.toModel.unpack = true :=
  decide_eq_true_iff

theorem single_lt_irrefl (x : Float32) : ¬x < x := by
  rw [lt_iff, lt_iff_place?]
  rintro ⟨a, ha, b, hb, hlt⟩
  rw [Option.mem_unique ha hb] at hlt
  exact lt_irrefl b hlt

theorem single_lt_trans (hxy : x < y) (hyz : y < z) : x < z := by
  rw [lt_iff, lt_iff_place?] at hxy hyz ⊢
  obtain ⟨a, ha, b, hb, hab⟩ := hxy
  obtain ⟨b', hb', c, hc, hbc⟩ := hyz
  rw [Option.mem_unique hb' hb] at hbc
  exact ⟨a, ha, c, hc, lt_trans hab hbc⟩

end DialogueBox.Number
