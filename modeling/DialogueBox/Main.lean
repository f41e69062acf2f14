import DialogueBox.Commandline.Check
import DialogueBox.Commandline.Play

/-!
# The program

Reads the part of the disk that a command needs, carries the command out, and writes what it
leaves behind.
-/

namespace DialogueBox.Commandline

/-- Adds what is below a directory. -/
partial def gatherBelow (text : String) (tree : FileTree) : IO FileTree := do
  let mut tree := tree.addDirectory text
  let here := (IO.FS.DirEntry.mk "." text).path
  for entry in ← here.readDir do
    let path := Path.join text [entry.fileName]
    match (← entry.path.symlinkMetadata).type with
    | .dir => tree ← gatherBelow path tree
    | .file =>
      let content ← try pure (some (← IO.FS.readFile path)) catch _ => pure none
      tree := tree.addFile path content
    | _ => pure ()
  return tree

/-- Adds what is at a path, if anything is. -/
def gather (tree : FileTree) (text : String) : IO FileTree := do
  try gatherBelow text tree
  catch _ =>
    try
      let bytes ← IO.FS.readBinFile text
      return tree.addFile text (String.fromUTF8? bytes)
    catch _ => return tree

/-- The part of the disk that lies at and below some paths. -/
def gatherAll (paths : List String) : IO FileTree := paths.foldlM gather {}

/-- The paths that well-formed arguments name. -/
def pathsOf {ε α : Type} (paths : α → List String) : Except ε α → List String
  | .ok o => paths o
  | .error _ => []

/-- Plays a script. -/
def mainPlay (args : List String) : IO Outcome := do
  let tree ← gatherAll (pathsOf PlayOptions.files (PlayOptions.ofArguments args))
  let outcome := play tree args
  IO.print outcome.output
  unless outcome.status = .success do IO.eprintln outcome.complaint
  return outcome

/-- Checks scripts. -/
def mainCheck (args : List String) : IO Outcome := do
  let tree ← gatherAll (pathsOf CheckOptions.files (CheckOptions.ofArguments args))
  let outcome := checkScripts tree args
  IO.eprint outcome.output
  if outcome.status = .misuse then IO.eprintln outcome.complaint
  return outcome

end DialogueBox.Commandline

open DialogueBox.Commandline in
/-- Runs `script-check` with the arguments behind it, or plays what the arguments name. -/
def main (args : List String) : IO UInt32 := do
  let outcome ← match args with
    | "script-check" :: rest => mainCheck rest
    | _ => mainPlay args
  return outcome.status.code.toUInt32
