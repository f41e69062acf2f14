import DialogueBox.Lint.Report
import DialogueBox.Proofs.Lint.Agreement
import Mathlib.Algebra.GroupWithZero.Nat

/-!
# A report is a sum

A report on several scripts is put together in three places: the scripts that cannot be read come
before the findings, the missing icons behind them, and the verdict counts all three. What there is
to say about one script is a `Sheet`, and sheets can be added. A report is the text of the sum of
the sheets of its scripts (`reportLines_checkAll`), its counts are the sums of their counts, and
each of them counts the entries of one severity.

The sheet of a script is said by what compiling does: the missing icons are the icon instructions of
the compiled script that ask for an icon which is not there, and there is an entry for an error just
if the script cannot be read or a tag is dropped because of its value (`number_error_ofScript`).
-/

namespace DialogueBox.Lint

open Markup

/-! ## Sheets -/

/-- An icon that is missing. -/
structure MissingIcon where
  /-- The name of the script that asks for it. -/
  script : String
  line : Option Nat
  icon : String
  deriving DecidableEq, Repr

/-- One thing that a report says. -/
inductive Entry
  /-- A script cannot be read. -/
  | unreadable (script : String)
  | finding (f : Finding)
  | missing (m : MissingIcon)

namespace Entry

def severity : Entry → Severity
  | unreadable _ => .error
  | finding f => f.severity
  | missing _ => .warning

/-- What the text of an entry begins with: how grave it is, the script, and the line if it belongs
to one. -/
def heading (severity : Severity) (script : String) (line : Option Nat) : String :=
  "[" ++ (match severity with
    | .info => "INFO"
    | .warning => "WARN"
    | .error => "ERROR") ++ "] " ++ script ++ line.elim "" (fun n => ":" ++ n.repr) ++ ": "

/-- The text of an entry. -/
def text : Entry → String
  | unreadable script =>
    heading .error script none ++ "无法读取文件 - stream did not contain valid UTF-8"
  | finding f =>
    heading f.severity f.script f.line ++ f.message ++ f.quoted.elim "" ("\n  | " ++ ·)
  | missing m => heading .warning m.script m.line ++ "图标不存在 " ++ m.icon

theorem text_unreadable (script : String) : (unreadable script).text =
    "[ERROR] " ++ script ++ ": 无法读取文件 - stream did not contain valid UTF-8" := by
  simp [← String.toList_inj, text, heading]

theorem text_finding (f : Finding) : (finding f).text = f.text := by
  obtain ⟨severity, script, line, message, quoted⟩ := f
  cases severity <;> cases line <;> cases quoted <;> rfl

theorem text_missing (script icon : String) (line : Nat) :
    (missing ⟨script, some line, icon⟩).text =
      "[WARN] " ++ script ++ ":" ++ line.repr ++ ": 图标不存在 " ++ icon := by
  simp [← String.toList_inj, text, heading]

end Entry

/-- What a report says about some scripts. -/
structure Sheet where
  /-- The number of scripts. -/
  scripts : Nat := 0
  /-- The scripts that cannot be read. -/
  unreadable : List String := []
  findings : List Finding := []
  missing : List MissingIcon := []
  deriving DecidableEq, Repr

namespace Sheet

instance : Zero Sheet := ⟨{}⟩

instance : Add Sheet where
  add s t :=
    ⟨s.scripts + t.scripts, s.unreadable ++ t.unreadable, s.findings ++ t.findings,
      s.missing ++ t.missing⟩

/-- The entries, those of a kind together. -/
def entries (s : Sheet) : List Entry :=
  s.unreadable.map .unreadable ++ s.findings.map .finding ++ s.missing.map .missing

/-- The number of entries of a severity. -/
def number (severity : Severity) (s : Sheet) : Nat :=
  s.entries.countP fun e => e.severity == severity

/-- The line that sums a sheet up. -/
def verdict (s : Sheet) : String :=
  if 0 < s.number .error then
    "❌ " ++ (s.number .error).repr ++ " 个错误, " ++ (s.number .warning).repr ++ " 个警告"
  else if 0 < s.number .warning then "⚠️  0 个错误, " ++ (s.number .warning).repr ++ " 个警告"
  else "✅ 检查通过，无错误"

/-- The lines of a sheet. -/
def lines (s : Sheet) : List String :=
  ["==> 检查 " ++ s.scripts.repr ++ " 个脚本文件...", ""]
    ++ s.unreadable.map (fun name => (Entry.unreadable name).text)
    ++ ["─────────────────────────────────────────────────────",
      "检查完成: " ++ s.scripts.repr ++ " 个脚本", ""]
    ++ s.findings.map (fun f => (Entry.finding f).text)
    ++ s.missing.map (fun m => (Entry.missing m).text)
    ++ ["", s.verdict]

/-- A sheet without the notes, which are for information only. -/
def withoutNotes (s : Sheet) : Sheet := { s with findings := s.findings.filter fun f => !f.isNote }

/-- The part of a sheet that is shown. -/
def shown (verbose : Bool) (s : Sheet) : Sheet := if verbose then s else s.withoutNotes

end Sheet

/-! ## Single scripts -/

/-- A script is at fault: it cannot be read, or compiling it drops a tag whose value is missing or
refused. -/
def IsFaulty : Option (List Char) → Prop
  | none => True
  | some source => ∃ d ∈ (compile source).dropped,
      (∃ t, d.fault = .missingValue t) ∨ ∃ t v f, d.fault = .invalidValue t v f

/-- The icon instructions of a compiled script that ask for an icon which is not among the given
ones. -/
def missingIcons (name : String) (icons : List String) (s : Script) : List MissingIcon :=
  (located s).filterMap fun p =>
    match p.1 with
    | .icon id => if id ∈ icons then none else some ⟨name, p.2, id⟩
    | _ => none

/-- What there is to say about a script. -/
def Sheet.ofScript (icons : Option (List String)) (name : String) : Option (List Char) → Sheet
  | none => { scripts := 1, unreadable := [name] }
  | some source =>
    { scripts := 1
      findings := check name source
      missing := icons.elim [] fun ids => missingIcons name ids (compile source).script }

/-- What there is to say about several scripts is what there is to say about each of them. -/
def Sheet.ofScripts (icons : Option (List String)) (scripts : List (String × Option (List Char))) :
    Sheet :=
  (scripts.map fun s => Sheet.ofScript icons s.1 s.2).sum

namespace Sheet

/-! ## Sums -/

theorem sum_singleton (s : Sheet) : [s].sum = s := by
  show Sheet.mk (s.scripts + 0) (s.unreadable ++ []) (s.findings ++ []) (s.missing ++ []) = s
  simp only [Nat.add_zero, List.append_nil]

/-- A part of a sheet that adds up from the parts of two does so from those of many. -/
theorem part_sum {α : Type} {part : Sheet → List α} (hzero : part 0 = [])
    (hadd : ∀ s t, part (s + t) = part s ++ part t) (l : List Sheet) :
    part l.sum = l.flatMap part := by
  induction l with
  | nil => exact hzero
  | cons s l ih => rw [List.sum_cons, hadd, ih, List.flatMap_cons]

theorem unreadable_sum (l : List Sheet) : l.sum.unreadable = l.flatMap unreadable :=
  part_sum rfl (fun _ _ => rfl) l

theorem findings_sum (l : List Sheet) : l.sum.findings = l.flatMap findings :=
  part_sum rfl (fun _ _ => rfl) l

theorem missing_sum (l : List Sheet) : l.sum.missing = l.flatMap missing :=
  part_sum rfl (fun _ _ => rfl) l

theorem scripts_sum (l : List Sheet) : l.sum.scripts = (l.map scripts).sum := by
  induction l with
  | nil => rfl
  | cons s l ih =>
    rw [List.sum_cons, List.map_cons, List.sum_cons, ← ih]
    rfl

theorem number_eq (severity : Severity) (s : Sheet) :
    s.number severity = s.unreadable.countP (fun _ => Severity.error == severity)
      + count severity s.findings + s.missing.countP (fun _ => Severity.warning == severity) := by
  unfold number entries count
  simp only [List.countP_append, List.countP_map]
  rfl

theorem number_add (severity : Severity) (s t : Sheet) :
    (s + t).number severity = s.number severity + t.number severity := by
  simp only [number_eq]
  show (s.unreadable ++ t.unreadable).countP _ + count severity (s.findings ++ t.findings)
    + (s.missing ++ t.missing).countP _ = _
  simp only [count, List.countP_append]
  omega

/-- **The number of entries in a sum is the sum of the numbers.** -/
theorem number_sum (severity : Severity) (l : List Sheet) :
    l.sum.number severity = (l.map (number severity)).sum := by
  induction l with
  | nil => rfl
  | cons s l ih => rw [List.sum_cons, number_add, ih, List.map_cons, List.sum_cons]

/-! ## Notes -/

theorem entries_withoutNotes (s : Sheet) :
    s.withoutNotes.entries = s.entries.filter fun e => e.severity != .info := by
  have hunreadable : (s.unreadable.map Entry.unreadable).filter (fun e => e.severity != .info) =
      s.unreadable.map Entry.unreadable := by
    rw [List.filter_map]
    exact congrArg _ (List.filter_eq_self.mpr fun _ _ => rfl)
  have hmissing : (s.missing.map Entry.missing).filter (fun e => e.severity != .info) =
      s.missing.map Entry.missing := by
    rw [List.filter_map]
    exact congrArg _ (List.filter_eq_self.mpr fun _ _ => rfl)
  unfold entries
  rw [List.filter_append, List.filter_append, hunreadable, hmissing, List.filter_map]
  rfl

/-- Without the notes there are as many errors and warnings. -/
theorem number_withoutNotes {severity : Severity} (h : severity ≠ .info) (s : Sheet) :
    s.withoutNotes.number severity = s.number severity := by
  unfold number
  rw [entries_withoutNotes, List.countP_filter]
  refine List.countP_congr fun e _ => ?_
  simp only [Bool.and_eq_true, beq_iff_eq, bne_iff_ne, ne_eq]
  exact ⟨And.left, fun he => ⟨he, he ▸ h⟩⟩

theorem withoutNotes_sum (l : List Sheet) : l.sum.withoutNotes = (l.map withoutNotes).sum := by
  induction l with
  | nil => rfl
  | cons s l ih =>
    rw [List.sum_cons, List.map_cons, List.sum_cons, ← ih]
    exact congrArg (Sheet.mk _ _ · _) (List.filter_append ..)

/-- What is shown of a sum is the sum of what is shown. -/
theorem shown_sum (verbose : Bool) (l : List Sheet) :
    l.sum.shown verbose = (l.map (shown verbose)).sum := by
  cases verbose with
  | true => rw [show shown true = id from rfl, List.map_id, id]
  | false => exact withoutNotes_sum l

theorem number_shown {severity : Severity} (h : severity ≠ .info) (verbose : Bool) (s : Sheet) :
    (s.shown verbose).number severity = s.number severity := by
  cases verbose with
  | true => rfl
  | false => exact number_withoutNotes h s

end Sheet

/-! ## Reports -/

/-- What a report on a script says about it. -/
def FileReport.sheet (r : FileReport) : Sheet where
  scripts := 1
  unreadable := if r.readable then [] else [r.name]
  findings := r.findings
  missing := r.missing.map fun u => ⟨r.name, some u.line, u.id⟩

/-- The places that ask for missing icons are the instructions that do. -/
theorem missing_resourceUses (name : String) (ids : List String) (source : List Char) :
    ((resourceUses source).filter (FileReport.isMissing (some ids))).map
        (fun u => (⟨name, some u.line, u.id⟩ : MissingIcon)) =
      missingIcons name ids (compile source).script := by
  rw [missingIcons, filterMap_located rfl, resourceUses_eq, List.filter_filterMap,
    List.map_filterMap]
  refine List.filterMap_congr fun p _ => ?_
  obtain ⟨i, n⟩ := p
  cases i with
  | icon id =>
    show Option.map _ (Option.filter _ (some _)) = _
    rw [Option.filter_some]
    by_cases h : id ∈ ids <;> simp [FileReport.isMissing, h]
  | font id => cases id <;> rfl
  | _ => rfl

/-- **Checking a script says what there is to say about it.** -/
theorem sheet_ofContent (icons : Option (List String)) (name : String)
    (content : Option (List Char)) :
    (FileReport.ofContent icons name content).sheet = Sheet.ofScript icons name content := by
  cases content with
  | none => rfl
  | some source =>
    cases icons with
    | none =>
      have hnone : (resourceUses source).filter (FileReport.isMissing none) = [] :=
        List.filter_eq_nil_iff.mpr fun _ _ => Bool.false_ne_true
      show Sheet.mk 1 [] (check name source) (((resourceUses source).filter _).map _) = _
      rw [hnone]
      rfl
    | some ids =>
      show Sheet.mk 1 [] (check name source) (((resourceUses source).filter _).map _) = _
      rw [missing_resourceUses]
      rfl

theorem sum_sheet_checkAll (icons : Option (List String))
    (scripts : List (String × Option (List Char))) :
    ((checkAll icons scripts).map FileReport.sheet).sum = Sheet.ofScripts icons scripts := by
  unfold checkAll Sheet.ofScripts
  rw [List.map_map]
  exact congrArg List.sum (List.map_congr_left fun s _ => sheet_ofContent icons s.1 s.2)

theorem FileReport.errors_eq (r : FileReport) : r.errors = r.sheet.number .error := by
  rw [Sheet.number_eq, errors, sheet]
  cases r.readable <;> simp

theorem FileReport.warnings_eq (r : FileReport) : r.warnings = r.sheet.number .warning := by
  rw [Sheet.number_eq, warnings, sheet]
  cases r.readable <;> simp

theorem totalErrors_eq (rs : List FileReport) :
    totalErrors rs = (rs.map FileReport.sheet).sum.number .error := by
  induction rs with
  | nil => rfl
  | cons r rs ih =>
    rw [List.map_cons, List.sum_cons, Sheet.number_add, ← ih, ← r.errors_eq]
    rfl

theorem totalWarnings_eq (rs : List FileReport) :
    totalWarnings rs = (rs.map FileReport.sheet).sum.number .warning := by
  induction rs with
  | nil => rfl
  | cons r rs ih =>
    rw [List.map_cons, List.sum_cons, Sheet.number_add, ← ih, ← r.warnings_eq]
    rfl

theorem verdict_eq (rs : List FileReport) :
    verdict rs = (rs.map FileReport.sheet).sum.verdict := by
  rw [verdict, totalErrors_eq, totalWarnings_eq]
  rfl

theorem Sheet.verdict_shown (verbose : Bool) (s : Sheet) :
    (s.shown verbose).verdict = s.verdict := by
  unfold verdict
  rw [number_shown (by decide), number_shown (by decide)]

theorem flatMap_faultLines (rs : List FileReport) :
    rs.flatMap FileReport.faultLines =
      (rs.map FileReport.sheet).sum.unreadable.map fun name => (Entry.unreadable name).text := by
  rw [Sheet.unreadable_sum, List.flatMap_map, List.map_flatMap]
  refine List.flatMap_congr fun r _ => ?_
  simp only [Entry.text_unreadable]
  unfold FileReport.faultLines FileReport.sheet
  cases r.readable <;> rfl

theorem flatMap_findingLines (verbose : Bool) (rs : List FileReport) :
    rs.flatMap (FileReport.findingLines verbose) =
      ((rs.map FileReport.sheet).sum.shown verbose).findings.map
        fun f => (Entry.finding f).text := by
  have hshown : ((rs.map FileReport.sheet).sum.shown verbose).findings =
      rs.flatMap fun r => atLeast (if verbose then .info else .warning) r.findings := by
    cases verbose with
    | true =>
      show (rs.map FileReport.sheet).sum.findings = _
      rw [Sheet.findings_sum, List.flatMap_map]
      refine List.flatMap_congr fun r _ => (List.filter_eq_self.mpr fun f _ => ?_).symm
      exact decide_eq_true (Nat.zero_le _)
    | false =>
      show (rs.map FileReport.sheet).sum.findings.filter _ = _
      rw [Sheet.findings_sum, List.flatMap_map, List.filter_flatMap]
      refine List.flatMap_congr fun r _ => List.filter_congr fun f _ => ?_
      unfold Finding.isNote
      cases f.severity <;> rfl
  simp only [Entry.text_finding]
  rw [hshown, List.map_flatMap]
  rfl

theorem flatMap_missingLines (rs : List FileReport) :
    rs.flatMap FileReport.missingLines =
      (rs.map FileReport.sheet).sum.missing.map fun m => (Entry.missing m).text := by
  rw [Sheet.missing_sum, List.flatMap_map, List.map_flatMap]
  refine List.flatMap_congr fun r _ => ?_
  rw [FileReport.sheet, List.map_map]
  exact List.map_congr_left fun u _ => (Entry.text_missing r.name u.id u.line).symm

/-- **A report is the text of a sum.** -/
theorem reportLines_checkAll (verbose : Bool) (icons : Option (List String))
    (scripts : List (String × Option (List Char))) :
    reportLines verbose (checkAll icons scripts) =
      ((Sheet.ofScripts icons scripts).shown verbose).lines := by
  have hlength : (checkAll icons scripts).length = (Sheet.ofScripts icons scripts).scripts := by
    rw [← sum_sheet_checkAll, Sheet.scripts_sum, List.map_map]
    show _ = ((checkAll icons scripts).map fun _ => 1).sum
    simp
  have hunreadable : ((Sheet.ofScripts icons scripts).shown verbose).unreadable =
      (Sheet.ofScripts icons scripts).unreadable := by cases verbose <;> rfl
  have hmissing : ((Sheet.ofScripts icons scripts).shown verbose).missing =
      (Sheet.ofScripts icons scripts).missing := by cases verbose <;> rfl
  have hscripts : ((Sheet.ofScripts icons scripts).shown verbose).scripts =
      (Sheet.ofScripts icons scripts).scripts := by cases verbose <;> rfl
  rw [reportLines, flatMap_faultLines, flatMap_findingLines, flatMap_missingLines, verdict_eq,
    sum_sheet_checkAll, hlength, Sheet.lines, Sheet.verdict_shown, hunreadable, hmissing, hscripts]

/-! ## Errors -/

theorem severityOf_eq_error_iff {fault : TagFault} : severityOf fault = .error ↔
    (∃ t, fault = .missingValue t) ∨ ∃ t v f, fault = .invalidValue t v f := by
  cases fault <;> simp [severityOf]

/-- **There is an error to report of a script just if it is at fault.** -/
theorem number_error_ofScript (icons : Option (List String)) (name : String)
    (content : Option (List Char)) :
    0 < (Sheet.ofScript icons name content).number .error ↔ IsFaulty content := by
  cases content with
  | none => exact iff_of_true Nat.one_pos trivial
  | some source =>
    have hwarning : ∀ ms : List MissingIcon,
        ms.countP (fun _ => Severity.warning == .error) = 0 := fun ms =>
      List.countP_eq_zero.mpr fun _ _ => Bool.false_ne_true
    have herrors := hasErrors_check name source
    rw [hasErrors, decide_eq_true_iff] at herrors
    rw [Sheet.number_eq, hwarning]
    show 0 < 0 + count .error (check name source) + 0 ↔ _
    rw [Nat.zero_add, Nat.add_zero, herrors]
    simp only [severityOf_eq_error_iff]
    rfl

theorem totalErrors_checkAll (icons : Option (List String))
    (scripts : List (String × Option (List Char))) :
    0 < totalErrors (checkAll icons scripts) ↔ ∃ s ∈ scripts, IsFaulty s.2 := by
  rw [totalErrors_eq, sum_sheet_checkAll, Sheet.ofScripts, Sheet.number_sum,
    List.sum_pos_iff_exists_pos_nat]
  simp only [List.mem_map, exists_exists_and_eq_and, number_error_ofScript]

end DialogueBox.Lint
