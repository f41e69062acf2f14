import DialogueBox.Commandline.Arguments
import DialogueBox.Commandline.Outcome
import DialogueBox.FileTree
import DialogueBox.Playback.Transcript
import DialogueBox.Saved.Settings

/-!
# Playing a script on a terminal

Plays a script, or one section of it, and prints the transcript; or lists the labels of its
sections. Characters lie on a grid of equal cells, and there are neither icons nor fonts.

Faults count in this order: arguments, an unreadable script, unreadable or refused settings, a
session over its limit, a missing label. For a missing label, the page that says so is printed
before.
-/

namespace DialogueBox.Commandline

open Number Session

/-- What to play, and how. -/
structure PlayOptions where
  /-- The path of the script. -/
  script : String
  /-- The label of the section to play; the whole script if there is none. -/
  label : Option String := none
  /-- Whether to list the labels and play nothing. -/
  listLabels : Bool := false
  /-- The path of the settings. -/
  settings : Option String := none
  /-- The length of a frame in milliseconds. -/
  frame : Nat := 16
  print : Print := .plain
  cell : Size := ⟨16, 24⟩
  /-- The time after which playing is cut short, in milliseconds. -/
  limit : Nat := 600000
  deriving DecidableEq

/-! ## Options -/

/-- The options of the command. Those for the pace of a host with a screen and for its log are
understood, and change nothing in a transcript. -/
def playSwitches : List Switch :=
  [⟨"label", some 'l', true⟩, ⟨"list-labels", none, false⟩, ⟨"config", some 'c', true⟩,
    ⟨"tick-ms", none, true⟩, ⟨"auto-advance", some 'a', false⟩, ⟨"realtime", none, false⟩,
    ⟨"json", none, false⟩, ⟨"cell-width", none, true⟩, ⟨"cell-height", none, true⟩,
    ⟨"max-ms", none, true⟩, ⟨"log-level", none, true⟩]

/-- Reads the length of a frame, which is at least one millisecond. -/
def readFrame (s : String) : Option Nat :=
  match readInteger signed64 s.toList with
  | .ok n => if 1 ≤ n ∧ n ≤ unsigned32.greatest then some n.toNat else none
  | .error _ => none

/-- Reads a limit. -/
def readLimit (s : String) : Option Nat :=
  ((readInteger unsigned64 s.toList).map Int.toNat).toOption

/-- Reads an extent of a cell. -/
def readExtent (s : String) : Option Float32 := (readSingle s.toList).toOption

/-- Reads the arguments of the command. -/
def PlayOptions.ofArguments (args : List String) : Except UsageFault PlayOptions := do
  let a ← Arguments.ofList playSwitches args
  let settings ← a.valueIf "config" (· != "")
  let frame ← a.valueWith "tick-ms" readFrame 16
  let width ← a.valueWith "cell-width" readExtent 16
  let height ← a.valueWith "cell-height" readExtent 24
  let limit ← a.valueWith "max-ms" readLimit 600000
  match a.operands with
  | [] => throw (.missingOperand "SCRIPT")
  | [script] =>
    if script = "" then throw (.badOperand "SCRIPT")
    return {
      script := script
      label := a.value? "label"
      listLabels := a.has "list-labels"
      settings := settings
      frame := frame
      print := if a.has "json" then .json else .plain
      cell := ⟨width, height⟩
      limit := limit }
  | _ :: surplus :: _ => throw (.surplusOperand surplus)

/-- The files that the command reads. -/
def PlayOptions.files (o : PlayOptions) : List String := o.script :: o.settings.toList

/-! ## Playing -/

/-- Plays a source text from its beginning, or one section of it. -/
def PlayOptions.transcript (o : PlayOptions) (settings : Settings) (source : List Char) :
    Transcript :=
  let table : MetricTable := { cell := o.cell }
  ((Player.ofSettings table.toMetrics settings).presentSection source o.label).1.transcript
    o.frame o.limit

/-- How playing a source text ends. -/
def PlayOptions.playSource (o : PlayOptions) (settings : Settings) (source : List Char) : Outcome :=
  let t := o.transcript settings source
  let output := t.text o.print
  match t.ending, Markup.section? source o.label with
  | .overLimit, _ => ⟨.failure, output, "播放超过 " ++ o.limit.repr ++ " ms，已中止"⟩
  | .closed, .error e =>
    ⟨.failure, output, "分节加载失败: " ++ o.script ++ ": " ++ e.message⟩
  | .closed, .ok _ => ⟨.success, output, ""⟩

/-- Reads the settings to play with. -/
def PlayOptions.readSettings (o : PlayOptions) (tree : FileTree) : Except String Settings :=
  match o.settings with
  | none => .ok {}
  | some path =>
    match tree.read? path with
    | none => .error ("无法读取配置: " ++ path)
    | some text =>
      match Settings.ofText text.toList with
      | .ok s => .ok s
      | .error f => .error ("配置无效: " ++ path ++ ": " ++ f.loadMessage)

/-- Carries the command out. -/
def PlayOptions.run (o : PlayOptions) (tree : FileTree) : Outcome :=
  match tree.read? o.script with
  | none => ⟨.failure, "", "无法读取脚本: " ++ o.script⟩
  | some source =>
    if o.listLabels then
      { output := Text.ofLines ((Markup.labels source.toList).map String.ofList) }
    else
      match o.readSettings tree with
      | .error complaint => ⟨.failure, "", complaint⟩
      | .ok settings => o.playSource settings source.toList

/-- Plays what the arguments name. -/
def play (tree : FileTree) (args : List String) : Outcome :=
  match PlayOptions.ofArguments args with
  | .ok o => o.run tree
  | .error f => ⟨.misuse, "", f.message⟩

end DialogueBox.Commandline
