import DialogueBox.Json.Form
import DialogueBox.Proofs.Number.Comparison

/-!
# Objects that give fields

What an object gives for a field is said without a reader (`Holds`): the field does not stand there,
or it stands there once, with a value of some meaning. The order of the fields does not matter, and
neither do those with other names. A record is read from an object field by field
(`Holds.required`, `Holds.withDefault`), as long as the names in the object are texts.
-/

namespace DialogueBox.Json

open Number

variable {α β : Type} {v : Json} {fields : List (Option String × Json)}

/-! ## Values of fields -/

/-- A number, and what it is in single precision. -/
inductive IsSingle : Json → Float32 → Prop
  | mk {n : Numeral} {x : Float32} (h : n.single? = some x) : IsSingle (.number n) x

/-- Digits alone, and the natural number of a range that they denote. -/
inductive IsNatural (range : IntegerRange) : Json → Nat → Prop
  | mk {ds : List Char} (h : range.contains (valueOfDigits ds) = true) :
      IsNatural range (.number ⟨false, ds, [], none⟩) (valueOfDigits ds)

/-- A truth value. -/
inductive IsBool : Json → Bool → Prop
  | mk (b : Bool) : IsBool (.bool b) b

theorem IsSingle.read {x : Float32} (h : IsSingle v x) : Form.single.read v = some x := by
  cases h with
  | mk h => exact h

theorem IsSingle.isNaN {x : Float32} (h : IsSingle v x) : x.isNaN = false := by
  cases h with
  | mk h => exact isNaN_of_single? h

theorem IsNatural.read {range : IntegerRange} (hgreatest : range.greatest ≤ unsigned64.greatest)
    {n : Nat} (h : IsNatural range v n) : (Form.natural range).read v = some n := by
  cases h with
  | @mk ds h =>
    -- the number is read as one of 64 bits first
    have hword : unsigned64.contains (valueOfDigits ds) = true := by
      simp only [IntegerRange.contains, Bool.and_eq_true, decide_eq_true_eq] at h ⊢
      exact ⟨Int.natCast_nonneg _, Int.le_trans h.2 hgreatest⟩
    have hinteger : (⟨false, ds, [], none⟩ : Numeral).integer? = some (valueOfDigits ds : Int) :=
      if_pos hword
    simp only [Form.natural, Form.integer, hinteger, Option.filter_some, h, if_true,
      Option.map_some, Int.toNat_natCast]

theorem IsNatural.read_word32 {n : Nat} (h : IsNatural unsigned32 v n) :
    Form.word32.read v = some n :=
  h.read (by decide)

theorem IsNatural.read_word64 {n : Nat} (h : IsNatural unsigned64 v n) :
    Form.word64.read v = some n :=
  h.read (Int.le_refl _)

theorem IsBool.read {b : Bool} (h : IsBool v b) : Form.bool.read v = some b := by
  cases h with
  | mk b => rfl

/-! ## Fields of objects -/

/-- What an object gives for a field: nothing, as the field does not stand there, or the meaning of
its value, as the field stands there once. -/
inductive Holds (means : Json → α → Prop) (name : String) (fields : List (Option String × Json)) :
    Option α → Prop
  | missing (h : ∀ f ∈ fields, f.1 ≠ some name) : Holds means name fields none
  | given (before after : List (Option String × Json)) {v : Json} {a : α}
      (hfields : fields = before ++ (some name, v) :: after)
      (hothers : ∀ f ∈ before ++ after, f.1 ≠ some name) (hv : means v a) :
      Holds means name fields (some a)

theorem countP_eq_zero {name : String} (h : ∀ f ∈ fields, f.1 ≠ some name) :
    fields.countP (fun f => f.1 == some name) = 0 :=
  List.countP_eq_zero.mpr fun f hf => by simpa using h f hf

theorem find?_eq_none {name : String} (h : ∀ f ∈ fields, f.1 ≠ some name) :
    fields.find? (fun f => f.1 == some name) = none :=
  List.find?_eq_none.mpr fun f hf => by simpa using h f hf

/-- The fields of an object as a reader finds them. -/
def Fields.ofObject (names : List String) (fields : List (Option String × Json)) : Fields :=
  ⟨names, names.map (fieldValue? · fields), false⟩

theorem fields?_object {names : List String} (hnames : ∀ f ∈ fields, f.1.isSome = true)
    (hcount : ∀ n ∈ names, fields.countP (fun f => f.1 == some n) ≤ 1) :
    fields? names (.object fields) = some (Fields.ofObject names fields) := by
  refine if_pos ?_
  rw [wellNamed, Bool.and_eq_true, List.all_eq_true, List.all_eq_true]
  exact ⟨hnames, fun n hn => decide_eq_true (hcount n hn)⟩

theorem Fields.given?_ofObject {names : List String} {name : String} (h : name ∈ names) :
    (Fields.ofObject names fields).given? name = fieldValue? name fields := by
  unfold given? ofObject
  dsimp only
  induction names with
  | nil => cases h
  | cons n names ih =>
    rw [List.map_cons, List.zip_cons_cons]
    by_cases hn : n = name
    · rw [List.find?_cons_of_pos (by simpa using hn), hn]
      rfl
    · rw [List.find?_cons_of_neg (by simpa using hn)]
      exact ih (List.mem_of_ne_of_mem (Ne.symm hn) h)

namespace Holds

variable {means : Json → α → Prop} {name : String} {a? : Option α}

theorem countP_le_one (h : Holds means name fields a?) :
    fields.countP (fun f => f.1 == some name) ≤ 1 := by
  cases h with
  | missing h =>
    rw [countP_eq_zero h]
    exact Nat.zero_le 1
  | given before after hfields hothers _ =>
    have hbefore := countP_eq_zero fun f hf => hothers f (List.mem_append_left _ hf)
    have hafter := countP_eq_zero fun f hf => hothers f (List.mem_append_right _ hf)
    rw [hfields, List.countP_append, List.countP_cons, hbefore, hafter]
    simp

/-- The value of a field is found by its name. -/
theorem fieldValue?_cases (h : Holds means name fields a?) :
    (fieldValue? name fields = none ∧ a? = none) ∨
      ∃ v a, fieldValue? name fields = some v ∧ a? = some a ∧ means v a := by
  unfold fieldValue?
  cases h with
  | missing h =>
    rw [find?_eq_none h]
    exact .inl ⟨rfl, rfl⟩
  | given before after hfields hothers hv =>
    have hbefore := find?_eq_none fun f hf => hothers f (List.mem_append_left _ hf)
    rw [hfields, List.find?_append, hbefore, Option.none_or, List.find?_cons_of_pos (by simp)]
    exact .inr ⟨_, _, rfl, rfl, hv⟩

variable {names : List String}

/-- **A field that must be given is read from what the object gives for it.** -/
theorem required {f : Form α} (h : Holds means name fields a?)
    (hread : ∀ {v a}, means v a → f.read v = some a) (hname : name ∈ names) :
    (Fields.ofObject names fields).required name f = a? := by
  unfold Fields.required
  rw [Fields.given?_ofObject hname]
  rcases h.fieldValue?_cases with ⟨hvalue, rfl⟩ | ⟨v, a, hvalue, rfl, hv⟩
  · rw [hvalue]
    rfl
  · rw [hvalue, Option.bind_some, hread hv]

/-- **A field with a default is read from what the object gives for it,** or has the default. What
is given need not be enough for a value. -/
theorem withDefault {f : Form β} {g : α → Option β} (h : Holds means name fields a?)
    (hread : ∀ {v a}, means v a → f.read v = g a) (hname : name ∈ names) (d : β) :
    (Fields.ofObject names fields).withDefault name f d = a?.elim (some d) g := by
  unfold Fields.withDefault
  rw [Fields.given?_ofObject hname]
  rcases h.fieldValue?_cases with ⟨hvalue, rfl⟩ | ⟨v, a, hvalue, rfl, hv⟩
  · rw [hvalue]
    rfl
  · rw [hvalue]
    exact hread hv

theorem withDefault_getD {f : Form α} (h : Holds means name fields a?)
    (hread : ∀ {v a}, means v a → f.read v = some a) (hname : name ∈ names) (d : α) :
    (Fields.ofObject names fields).withDefault name f d = some (a?.getD d) := by
  rw [h.withDefault hread hname d]
  cases a? <;> rfl

/-- What is given as a number is one, and so is what it is completed to. -/
theorem isNaN_getD {x? : Option Float32} (h : Holds IsSingle name fields x?) {d : Float32}
    (hd : d.isNaN = false) : (x?.getD d).isNaN = false := by
  cases h with
  | missing => exact hd
  | given _ _ _ _ hv => exact hv.isNaN

end Holds

end DialogueBox.Json
