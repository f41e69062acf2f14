import DialogueBox.Proofs.Json.Objects
import DialogueBox.Proofs.Json.Reading
import Mathlib.Data.List.Nodup

/-!
# Forms that give back what they write

A form is lawful if it reads each value back from the tree that it writes, and if what it reads fits
the type (`Form.Lawful`). From that follows what texts do: a value is given back by its text, and
writing a value that was read from any text gives a text that is read as the same value
(`Form.Lawful.roundTrips`). Simple forms are lawful, and records and variants are so if the forms of
their fields and payloads are.

Numbers in single precision are the exception: that a number is given back is assumed of each one
that a value holds (`Form.Faithful`).
-/

namespace DialogueBox.Json

open Number

namespace Form

variable {α β : Type} {f : Form α} {fits : α → Prop} {floats : α → List Float32}

/-! ## Lawful forms -/

/-- A number in single precision that is finite and that reading its text gives back. -/
def Faithful (x : Float32) : Prop :=
  x.isFinite = true ∧ single.ofText? (single.text x).toList = some x

theorem faithful_nil : ∀ x ∈ ([] : List Float32), Faithful x := fun _ hx => nomatch hx

theorem faithful_singleton {x : Float32} (h : Faithful x) : ∀ y ∈ [x], Faithful y := by
  intro y hy
  rwa [List.mem_singleton.mp hy]

/-- A form that gives back the values that fit its type. `floats` are the numbers in single
precision that a value holds. -/
structure Lawful (f : Form α) (fits : α → Prop) (floats : α → List Float32) : Prop where
  wellFormed : ∀ a, (f.write a).WellFormed
  read_write : ∀ {a}, fits a → (∀ x ∈ floats a, Faithful x) → f.read (f.write a) = some a
  fits_of_read : ∀ {v a}, f.read v = some a → fits a

theorem Lawful.congr_fits (h : f.Lawful fits floats) {fits' : α → Prop}
    (hfits : ∀ a, fits a ↔ fits' a) : f.Lawful fits' floats where
  wellFormed := h.wellFormed
  read_write := fun ha => h.read_write ((hfits _).mpr ha)
  fits_of_read := fun hr => (hfits _).mp (h.fits_of_read hr)

/-- A text that is written is read like the tree that it is written from. -/
theorem ofText?_text {a : α} (h : (f.write a).WellFormed) :
    f.ofText? (f.text a).toList = f.read (f.write a) := by
  unfold ofText? text
  rw [String.toList_ofList, read_print h, Option.bind_some]

/-- What round trips between values and texts come to. -/
structure RoundTrips (f : Form α) (fits : α → Prop) (floats : α → List Float32) : Prop where
  /-- The text of a value is read as the value. -/
  of_value : ∀ a, fits a → (∀ x ∈ floats a, Faithful x) → f.ofText? (f.text a).toList = some a
  /-- A value that was read from any text is read from its own text, too, and that text is written
  for it again. -/
  of_text : ∀ s a, f.ofText? s = some a → (∀ x ∈ floats a, Faithful x) →
    ∃ b, f.ofText? (f.text a).toList = some b ∧ b = a ∧ f.text b = f.text a

theorem Lawful.roundTrips (h : f.Lawful fits floats) : f.RoundTrips fits floats := by
  have hvalue : ∀ a, fits a → (∀ x ∈ floats a, Faithful x) →
      f.ofText? (f.text a).toList = some a := by
    intro a ha hx
    rw [ofText?_text (h.wellFormed a)]
    exact h.read_write ha hx
  refine ⟨hvalue, fun s a hs hx => ⟨a, ?_, rfl, rfl⟩⟩
  obtain ⟨v, -, hv⟩ := Option.bind_eq_some_iff.mp hs
  exact hvalue a (h.fits_of_read hv) hx

/-! ## Simple values -/

theorem lawful_bool : bool.Lawful (fun _ => True) fun _ => [] where
  wellFormed := .bool
  read_write := fun _ _ => rfl
  fits_of_read := fun _ => trivial

theorem lawful_string : string.Lawful (fun _ => True) fun _ => [] where
  wellFormed := fun s => .string (some s)
  read_write := fun _ _ => rfl
  fits_of_read := fun _ => trivial

theorem lawful_char : char.Lawful (fun _ => True) fun _ => [] where
  wellFormed := fun c => .string (some (String.singleton c))
  read_write := by
    intro c _ _
    simp only [char, String.toList_singleton]
  fits_of_read := fun _ => trivial

theorem wellFormed_single (x : Float32) : (single.write x).WellFormed := by
  simp only [single]
  split
  · exact .number (Numeral.wellFormed_ofSingle x)
  · exact .null

theorem lawful_single : single.Lawful (fun _ => True) fun x => [x] where
  wellFormed := wellFormed_single
  read_write := by
    intro x _ hx
    have h := (hx x List.mem_cons_self).2
    rwa [ofText?_text (wellFormed_single x)] at h
  fits_of_read := fun _ => trivial

theorem lawful_integer {range : IntegerRange} (hleast : signed64.least ≤ range.least)
    (hgreatest : range.greatest ≤ unsigned64.greatest) :
    (integer range).Lawful (fun n => range.contains n = true) fun _ => [] where
  wellFormed := fun n => .number (Numeral.wellFormed_ofInt n)
  read_write := by
    intro n hn _
    have hbounds := IntegerRange.contains_iff.mp hn
    simp only [integer]
    rw [Numeral.integer?_ofInt (by omega) (by omega), Option.filter_some, if_pos hn]
  fits_of_read := by
    intro v n h
    simp only [integer] at h
    split at h
    · exact (Option.filter_eq_some_iff.mp h).2
    · cases h

/-- Ranges of natural numbers. -/
theorem lawful_natural {range : IntegerRange} (hleast : range.least = 0)
    (hgreatest : range.greatest ≤ unsigned64.greatest) :
    (natural range).Lawful (fun n => (n : Int) ≤ range.greatest) fun _ => [] := by
  have hleast' : signed64.least ≤ range.least := by
    rw [hleast]
    decide
  have hinteger := lawful_integer hleast' hgreatest
  have hcontains : ∀ n : Int, range.contains n = true ↔ 0 ≤ n ∧ n ≤ range.greatest := by
    intro n
    rw [IntegerRange.contains_iff, hleast]
  refine ⟨fun n => hinteger.wellFormed n, fun {n} hn hx => ?_, fun {v n} h => ?_⟩
  · have h := hinteger.read_write ((hcontains n).mpr ⟨Int.natCast_nonneg n, hn⟩) hx
    show ((integer range).read ((integer range).write n)).map Int.toNat = some n
    rw [h, Option.map_some, Int.toNat_natCast]
  · obtain ⟨i, hi, rfl⟩ := Option.map_eq_some_iff.mp h
    have h := (hcontains i).mp (hinteger.fits_of_read hi)
    omega

theorem lawful_word32 : word32.Lawful (· < UInt32.size) fun _ => [] :=
  (lawful_natural rfl (by decide)).congr_fits fun n => by
    simp only [unsigned32, UInt32.size]
    omega

theorem lawful_word64 : word64.Lawful (· < UInt64.size) fun _ => [] :=
  (lawful_natural rfl (by decide)).congr_fits fun n => by
    simp only [unsigned64, UInt64.size]
    omega

/-! ## Lists and values that may be missing -/

theorem mapM_map_write {as : List α} (h : ∀ a ∈ as, f.read (f.write a) = some a) :
    (as.map f.write).mapM f.read = some as := by
  induction as with
  | nil => rfl
  | cons a as ih =>
    rw [List.map_cons, List.mapM_cons, h a List.mem_cons_self,
      ih fun b hb => h b (List.mem_cons_of_mem _ hb)]
    rfl

theorem read_of_mem_mapM {items : List Json} {as : List α} (h : items.mapM f.read = some as) :
    ∀ a ∈ as, ∃ v, f.read v = some a := by
  induction items generalizing as with
  | nil =>
    cases h
    exact fun _ ha => nomatch ha
  | cons v items ih =>
    rw [List.mapM_cons] at h
    obtain ⟨b, hb, h⟩ := Option.bind_eq_some_iff.mp h
    obtain ⟨bs, hbs, h⟩ := Option.bind_eq_some_iff.mp h
    cases h
    intro a ha
    rcases List.mem_cons.mp ha with rfl | ha
    · exact ⟨v, hb⟩
    · exact ih hbs a ha

theorem Lawful.list (h : f.Lawful fits floats) :
    (list f).Lawful (fun as => ∀ a ∈ as, fits a) fun as => as.flatMap floats where
  wellFormed := by
    intro as
    refine .array fun v hv => ?_
    obtain ⟨a, -, rfl⟩ := List.mem_map.mp hv
    exact h.wellFormed a
  read_write := by
    intro as has hx
    refine mapM_map_write fun a ha => h.read_write (has a ha) fun x hxa => hx x ?_
    exact List.mem_flatMap.mpr ⟨a, ha, hxa⟩
  fits_of_read := by
    intro v as hr a ha
    simp only [Form.list] at hr
    split at hr
    · obtain ⟨w, hw⟩ := read_of_mem_mapM hr a ha
      exact h.fits_of_read hw
    · cases hr

theorem lawful_nullable_string : string.nullable.Lawful (fun _ => True) fun _ => [] where
  wellFormed := by
    intro s
    cases s with
    | none => exact .null
    | some s => exact .string (some s)
  read_write := by
    intro s _ _
    cases s <;> rfl
  fits_of_read := fun _ => trivial

end Form

/-! ## Records -/

theorem wellFormed_record {fields : List (String × Json)} (h : ∀ f ∈ fields, f.2.WellFormed) :
    (record fields).WellFormed := by
  refine .object fun f hf => ?_
  obtain ⟨g, hg, rfl⟩ := List.mem_map.mp hf
  exact h g hg

/-- Where names do not repeat, a field is found by its name. -/
theorem find?_name {α : Type} {fields : List (String × α)} (hnodup : (fields.map Prod.fst).Nodup)
    {name : String} {a : α} (h : (name, a) ∈ fields) :
    fields.find? (fun f => f.1 == name) = some (name, a) := by
  induction fields with
  | nil => cases h
  | cons f fields ih =>
    rw [List.map_cons, List.nodup_cons] at hnodup
    rcases List.mem_cons.mp h with rfl | h
    · simp
    · have hne : f.1 ≠ name := fun hf => hnodup.1 (hf ▸ List.mem_map_of_mem h)
      rw [List.find?_cons_of_neg (by simpa using hne)]
      exact ih hnodup.2 h

variable {fields : List (String × Json)}

/-- A record is written with each name once. -/
theorem wellNamed_record (hnodup : (fields.map Prod.fst).Nodup) :
    wellNamed (fields.map Prod.fst) (fields.map fun f => (some f.1, f.2)) = true := by
  simp only [wellNamed, Bool.and_eq_true, List.all_eq_true, decide_eq_true_eq]
  refine ⟨fun f hf => ?_, fun n _ => ?_⟩
  · obtain ⟨g, -, rfl⟩ := List.mem_map.mp hf
    rfl
  · have hn := List.nodup_iff_count_le_one.mp hnodup n
    rw [List.count, List.countP_map] at hn
    rw [List.countP_map]
    refine Nat.le_trans (Nat.le_of_eq (List.countP_congr fun f _ => ?_)) hn
    simp

theorem fieldValue?_record (hnodup : (fields.map Prod.fst).Nodup) {f : String × Json}
    (hf : f ∈ fields) : fieldValue? f.1 (fields.map fun f => (some f.1, f.2)) = some f.2 := by
  have hpred : ((fun g : Option String × Json => g.1 == some f.1) ∘
      fun g : String × Json => (some g.1, g.2)) = fun g => g.1 == f.1 := by
    funext g
    simp
  unfold fieldValue?
  rw [List.find?_map, hpred, find?_name hnodup hf]
  rfl

/-- **The fields of a record are found as they were written.** -/
theorem exists_fields_record (names : List String) (fields : List (String × Json))
    (hnames : fields.map Prod.fst = names) (hnodup : names.Nodup) :
    ∃ r, fields? names (record fields) = some r ∧
      ∀ {name v}, (name, v) ∈ fields → r.given? name = some v := by
  subst hnames
  refine ⟨Fields.ofObject _ _, if_pos (wellNamed_record hnodup), ?_⟩
  intro name v hmem
  have hname : name ∈ fields.map Prod.fst := List.mem_map_of_mem hmem
  exact (Fields.given?_ofObject hname).trans (fieldValue?_record hnodup hmem)

namespace Form.Lawful

variable {α : Type} {f : Form α} {fits : α → Prop} {floats : α → List Float32} {r : Fields}
  {name : String} {a : α}

theorem required (h : f.Lawful fits floats) (ha : fits a) (hx : ∀ x ∈ floats a, Faithful x)
    (hr : r.given? name = some (f.write a)) : r.required name f = some a := by
  unfold Fields.required
  rw [hr, Option.bind_some]
  exact h.read_write ha hx

theorem withDefault (h : f.Lawful fits floats) (ha : fits a) (hx : ∀ x ∈ floats a, Faithful x)
    (hr : r.given? name = some (f.write a)) (d : α) : r.withDefault name f d = some a := by
  unfold Fields.withDefault
  rw [hr]
  exact h.read_write ha hx

theorem fits_of_required (h : f.Lawful fits floats) (hr : r.required name f = some a) :
    fits a := by
  obtain ⟨v, -, hv⟩ := Option.bind_eq_some_iff.mp hr
  exact h.fits_of_read hv

theorem fits_of_withDefault (h : f.Lawful fits floats) {d : α} (hd : fits d)
    (hr : r.withDefault name f d = some a) : fits a := by
  unfold Fields.withDefault at hr
  split at hr
  · exact h.fits_of_read hr
  · cases hr
    exact hd

end Form.Lawful

theorem optional_string {r : Fields} {name : String} {s : Option String}
    (h : r.given? name = some (Form.string.nullable.write s)) :
    r.optional name Form.string = some s := by
  unfold Fields.optional
  rw [h]
  exact Form.lawful_nullable_string.read_write trivial Form.faithful_nil

theorem required_single {r : Fields} {name : String} {x : Float32} (h : Form.Faithful x)
    (hr : r.given? name = some (Form.single.write x)) : r.required name Form.single = some x :=
  Form.lawful_single.required trivial (Form.faithful_singleton h) hr

/-! ## Variants -/

theorem wellFormed_variant {name : String} {payload : Json} (h : payload.WellFormed) :
    (variant name payload).WellFormed := by
  refine .object fun f hf => ?_
  rw [List.mem_singleton.mp hf]
  exact h

/-- What holds of a variant without a payload holds of it where it was read. -/
theorem of_bare {α : Type} {payload : Option Json} {a b : α} (h : bare payload a = some b)
    {P : α → Prop} (hP : P a) : P b := by
  unfold bare at h
  split at h
  · cases h; exact hP
  · cases h; exact hP
  · cases h

namespace Form.Lawful

variable {α β : Type} {f : Form α} {fits : α → Prop} {floats : α → List Float32} {a : α}

theorem carried (h : f.Lawful fits floats) (ha : fits a) (hx : ∀ x ∈ floats a, Faithful x)
    (make : α → β) : carried (some (f.write a)) f make = some (make a) := by
  unfold Json.carried
  rw [Option.bind_some, h.read_write ha hx]
  rfl

/-- What holds of all variants with a payload that fits holds of a variant that was read. -/
theorem of_carried (h : f.Lawful fits floats) {payload : Option Json} {make : α → β} {b : β}
    (hr : Json.carried payload f make = some b) {P : β → Prop} (hP : ∀ a, fits a → P (make a)) :
    P b := by
  obtain ⟨a, ha, rfl⟩ := Option.map_eq_some_iff.mp hr
  obtain ⟨v, -, hv⟩ := Option.bind_eq_some_iff.mp ha
  exact hP a (h.fits_of_read hv)

end Form.Lawful

end DialogueBox.Json
