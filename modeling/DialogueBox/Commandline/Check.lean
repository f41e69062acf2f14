import DialogueBox.Commandline.Arguments
import DialogueBox.Commandline.Outcome
import DialogueBox.FileTree
import DialogueBox.Lint.Report
import DialogueBox.Text.Case

/-!
# Checking scripts

Checks one script, or the scripts in a directory and below it, and prints the report. A script
that is named itself is checked whatever its extension; in a directory the extension tells a
script, and in the directory of the icons the extension tells an icon, whose name is the stem.
-/

namespace DialogueBox.Commandline

open Lint

/-- What to check. -/
structure CheckOptions where
  /-- The path of a script or of a directory. -/
  path : Option String := none
  /-- The path of the directory with the icons. -/
  icons : String := "assets/icons"
  /-- Whether findings for information are wanted. -/
  verbose : Bool := false
  deriving DecidableEq, Repr

/-- Where scripts are if no path is given. -/
def scriptsDirectory : String := "assets/scripts"

/-- The complaint that the directory does not exist. -/
def missingDirectory : String :=
  "默认脚本目录不存在: " ++ scriptsDirectory ++ "\n请在 workspace 根目录运行，或指定脚本路径"

/-! ## Options -/

/-- The options of the command. -/
def checkSwitches : List Switch := [⟨"icons", none, true⟩, ⟨"verbose", some 'v', false⟩]

/-- Reads the arguments of the command. -/
def CheckOptions.ofArguments (args : List String) : Except UsageFault CheckOptions := do
  let a ← Arguments.ofList checkSwitches args
  let icons ← a.valueIf "icons" (· != "")
  let path ← match a.operands with
    | [] => pure none
    | [path] => if path = "" then throw (.badOperand "PATH") else pure (some path)
    | _ :: surplus :: _ => throw (.surplusOperand surplus)
  return { path := path, icons := icons.getD "assets/icons", verbose := a.has "verbose" }

/-- The files and directories that the command looks at. -/
def CheckOptions.files (o : CheckOptions) : List String :=
  [o.path.getD scriptsDirectory, o.icons]

/-! ## Files -/

/-- The stem of a path's last name, if its extension is one of the given ones. -/
def stemWith? (extensions : List String) (p : Path) : Option String :=
  match p.getLast?.bind Path.splitExtension? with
  | some (stem, ext) =>
    if extensions.any fun e => Text.sameIgnoringCase e.toList ext then some (String.ofList stem)
    else none
  | none => none

/-- A script by its name, with its characters if it can be read. -/
abbrev NamedScript := String × Option (List Char)

/-- The scripts in a directory and below it. -/
def scriptsBelow (tree : FileTree) (text : String) (p : Path) : List NamedScript :=
  ((tree.below p).filter fun f => (stemWith? ["dlg", "txt"] f.1).isSome).map fun f =>
    (Path.join text f.1, f.2.map String.toList)

/-- The icons in a directory and below it; none if there is no such directory. -/
def iconsBelow (tree : FileTree) (text : String) : Option (List String) :=
  match tree.locate? text with
  | some p =>
    if tree.isDirectory p then
      some ((tree.below p).filterMap fun f => stemWith? ["png", "webp", "svg"] f.1)
    else none
  | none => none

/-- The scripts that a path names, or a complaint that there is nothing at it. -/
def namedScripts (tree : FileTree) (text : String) : Except String (List NamedScript) :=
  match tree.locate? text with
  | some p =>
    if tree.isFile p then .ok [(text, (tree.read? text).map String.toList)]
    else if tree.isDirectory p then .ok (scriptsBelow tree text p)
    else .error ("路径不存在: " ++ text)
  | none => .error ("路径不存在: " ++ text)

/-- The scripts in the default directory, or a complaint that it does not exist. -/
def defaultScripts (tree : FileTree) : Except String (List NamedScript) :=
  match tree.locate? scriptsDirectory with
  | some p =>
    if tree.isDirectory p then .ok (scriptsBelow tree scriptsDirectory p)
    else if tree.isFile p then .ok []
    else .error missingDirectory
  | none => .error missingDirectory

/-- The scripts that are to be checked. -/
def CheckOptions.scripts (o : CheckOptions) (tree : FileTree) : Except String (List NamedScript) :=
  match o.path with
  | some text => namedScripts tree text
  | none => defaultScripts tree

/-! ## Checking -/

/-- How a failure of the command is told. -/
def checkFailure (output : List String) (complaint : String) : Outcome :=
  ⟨.failure, Text.ofLines (output ++ ["xtask error: " ++ complaint]), complaint⟩

/-- Checks scripts and reports what was found. -/
def CheckOptions.report (o : CheckOptions) (icons : Option (List String))
    (scripts : List NamedScript) : Outcome :=
  let rs := checkAll icons scripts
  if 0 < totalErrors rs then checkFailure (reportLines o.verbose rs) "脚本检查发现错误"
  else { output := Text.ofLines (reportLines o.verbose rs) }

/-- Carries the command out. -/
def CheckOptions.run (o : CheckOptions) (tree : FileTree) : Outcome :=
  match o.scripts tree with
  | .error complaint => checkFailure [] complaint
  | .ok [] => { output := Text.ofLines ["未找到脚本文件（.dlg / .txt）"] }
  | .ok scripts => o.report (iconsBelow tree o.icons) scripts

/-- Checks what the arguments name. -/
def checkScripts (tree : FileTree) (args : List String) : Outcome :=
  match CheckOptions.ofArguments args with
  | .ok o => o.run tree
  | .error f => ⟨.misuse, "", f.message⟩

end DialogueBox.Commandline
