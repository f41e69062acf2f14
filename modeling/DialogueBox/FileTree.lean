import DialogueBox.Text.Lines

/-!
# File trees

What a command can see of a disk: files with their texts, and directories. A path is the list of
its names from the top of the tree.

A path in written form has its names between slashes. Empty names and single dots mean nothing,
two dots go back to the directory above, and each name that another one follows must be that of a
directory. A path that begins with a slash starts from a top of its own.
-/

namespace DialogueBox

/-- The names that lead to a file or directory. -/
abbrev Path := List String

namespace Path

/-- The path reached from another one by a name. -/
def step (p : Path) (name : String) : Path :=
  if name = "" ∨ name = "." then p
  else if name = ".." then
    match p.getLast? with
    | none => [".."]
    | some last => if last = "/" then p else if last = ".." then p ++ [".."] else p.dropLast
  else p ++ [name]

/-- The place from which a written path starts. -/
def start (text : String) : Path := if text.toList.head? = some '/' then ["/"] else []

/-- The names of a written path. -/
def names (text : String) : List String := (Text.splitAll '/' text.toList).map String.ofList

/-- The places that a written path passes, its goal last. -/
def stations (p : Path) : List String → List Path
  | [] => [p]
  | name :: r => p :: stations (p.step name) r

/-- Whether a text comes before another one or equals it, by the code points of its characters. -/
def textBefore : List Char → List Char → Bool
  | [], _ => true
  | _ :: _, [] => false
  | a :: r, b :: s => if a = b then textBefore r s else a.toNat < b.toNat

/-- Whether a path comes before another one or equals it, by its names from the top. -/
def before : Path → Path → Bool
  | [], _ => true
  | _ :: _, [] => false
  | a :: r, b :: s => if a = b then before r s else textBefore a.toList b.toList

/-- A written path with a path below it. -/
def join (text : String) (below : Path) : String :=
  below.foldl (fun t name => if t.toList.getLast? = some '/' then t ++ name else t ++ "/" ++ name)
    text

/-- The stem and the extension of a file name: the parts before and after its last point. A name
with nothing before that point has no extension. -/
def splitExtension? (name : String) : Option (List Char × List Char) :=
  match Text.splitAt? '.' name.toList.reverse with
  | some (ext, stem) => if stem.isEmpty then none else some (stem.reverse, ext.reverse)
  | none => none

end Path

/-- A part of a disk. -/
structure FileTree where
  /-- The files and their texts; a file may hold something that is no text. -/
  files : List (Path × Option String) := []
  /-- Directories beside those that hold a file. -/
  directories : List Path := []

namespace FileTree

/-- Adds a directory. -/
def addDirectory (t : FileTree) (text : String) : FileTree :=
  { t with directories := Path.stations (Path.start text) (Path.names text) ++ t.directories }

/-- Adds a file. -/
def addFile (t : FileTree) (text : String) (content : Option String) : FileTree :=
  let passed := Path.stations (Path.start text) (Path.names text)
  match passed.getLast? with
  | some goal => ⟨(goal, content) :: t.files, passed.dropLast ++ t.directories⟩
  | none => t

/-- Whether there is a directory at a path. The top is one. -/
def isDirectory (t : FileTree) (p : Path) : Bool :=
  p.isEmpty || t.directories.any (fun d => p.isPrefixOf d)

/-- Whether there is a file at a path. -/
def isFile (t : FileTree) (p : Path) : Bool := t.files.any fun f => f.1 == p

/-- Follows names from a place. -/
def follow (t : FileTree) (p : Path) : List String → Option Path
  | [] => some p
  | name :: r => if t.isDirectory p then follow t (p.step name) r else none

/-- The path that a written one means, if the directories on its way are there. -/
def locate? (t : FileTree) (text : String) : Option Path :=
  t.follow (Path.start text) (Path.names text)

/-- The text of a file, if the file is there and holds a text. -/
def read? (t : FileTree) (text : String) : Option String :=
  ((t.locate? text).bind fun p => t.files.lookup p).join

/-- The files below a directory, in the order of their paths from there. -/
def below (t : FileTree) (p : Path) : List (Path × Option String) :=
  let inside := t.files.filter fun f => p.isPrefixOf f.1 && p.length < f.1.length
  (inside.map fun f => (f.1.drop p.length, f.2)).mergeSort fun a b => Path.before a.1 b.1

end FileTree

end DialogueBox
