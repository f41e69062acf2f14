import DialogueBox.Lint.Analysis

/-!
# Reports

What checking a set of scripts tells. Each script is checked on its own, and a report is the list
of what was found in each: the counts of the whole are sums, and the findings of the whole stand
one script after the other.

An icon that a script asks for is missing if a set of icons is given and the icon is not in it. It
counts as a warning.
-/

namespace DialogueBox.Lint

/-- What was found in one script. -/
structure FileReport where
  /-- The name of the script. -/
  name : String
  /-- Whether the script could be read as text. -/
  readable : Bool
  findings : List Finding
  /-- The places that ask for a missing icon. -/
  missing : List ResourceUse
  deriving DecidableEq, Repr

namespace FileReport

/-- Whether a place asks for an icon that is not among the given ones. -/
def isMissing (icons : Option (List String)) (u : ResourceUse) : Bool :=
  match icons with
  | some ids => u.kind == .icon && !ids.contains u.id
  | none => false

/-- Checks one script, which has no content if it could not be read. -/
def ofContent (icons : Option (List String)) (name : String) : Option (List Char) → FileReport
  | some source =>
    ⟨name, true, check name source, (resourceUses source).filter (isMissing icons)⟩
  | none => ⟨name, false, [], []⟩

/-- The number of errors; an unreadable script is one. -/
def errors (r : FileReport) : Nat := (if r.readable then 0 else 1) + count .error r.findings

/-- The number of warnings. -/
def warnings (r : FileReport) : Nat := count .warning r.findings + r.missing.length

/-- The lines that stand before the summary: that a script could not be read. -/
def faultLines (r : FileReport) : List String :=
  if r.readable then []
  else ["[ERROR] " ++ r.name ++ ": 无法读取文件 - stream did not contain valid UTF-8"]

/-- The lines of the findings, those for information only if they are wanted. -/
def findingLines (verbose : Bool) (r : FileReport) : List String :=
  (atLeast (if verbose then .info else .warning) r.findings).map Finding.text

/-- The lines of the missing icons. -/
def missingLines (r : FileReport) : List String :=
  r.missing.map fun u => "[WARN] " ++ r.name ++ ":" ++ u.line.repr ++ ": 图标不存在 " ++ u.id

end FileReport

/-! ## Sets of scripts -/

/-- Checks scripts one after the other. -/
def checkAll (icons : Option (List String)) (scripts : List (String × Option (List Char))) :
    List FileReport :=
  scripts.map fun s => FileReport.ofContent icons s.1 s.2

/-- The number of errors in all scripts. -/
def totalErrors (rs : List FileReport) : Nat := rs.foldr (fun r n => r.errors + n) 0

/-- The number of warnings in all scripts. -/
def totalWarnings (rs : List FileReport) : Nat := rs.foldr (fun r n => r.warnings + n) 0

/-- The line that sums a report up. -/
def verdict (rs : List FileReport) : String :=
  if 0 < totalErrors rs then
    "❌ " ++ (totalErrors rs).repr ++ " 个错误, " ++ (totalWarnings rs).repr ++ " 个警告"
  else if 0 < totalWarnings rs then "⚠️  0 个错误, " ++ (totalWarnings rs).repr ++ " 个警告"
  else "✅ 检查通过，无错误"

/-- The lines of a report. -/
def reportLines (verbose : Bool) (rs : List FileReport) : List String :=
  ["==> 检查 " ++ rs.length.repr ++ " 个脚本文件...", ""]
    ++ rs.flatMap FileReport.faultLines
    ++ ["─────────────────────────────────────────────────────",
      "检查完成: " ++ rs.length.repr ++ " 个脚本", ""]
    ++ rs.flatMap (FileReport.findingLines verbose)
    ++ rs.flatMap FileReport.missingLines
    ++ ["", verdict rs]

end DialogueBox.Lint
