import ScriptEngine.CommandLine.Command

namespace ScriptEngine

namespace Shell

/-- More levels than any script needs. -/
def fuel : Nat := 1 <<< 60

/-- Directories this far below the working directory are looked at. -/
def greatestDepth : Nat := 64

def nanoseconds (time : IO.FS.SystemTime) : Int :=
  time.sec * 1000000000 + time.nsec.toNat

/-- The entries of a directory and of those below it. What cannot be read is left out. -/
def entriesBelow (name : FilePath) :
    Nat → Array IO.FS.DirEntry → IO (List (FilePath × FileEntry))
  | 0, _ => return []
  | depth + 1, children => do
    let mut found := []
    for child in children do
      let childName := name ++ [child.fileName]
      let metadata := (← child.path.metadata.toBaseIO).toOption
      let modified := (metadata.map fun metadata => nanoseconds metadata.modified).getD 0
      match metadata.map IO.FS.Metadata.type with
      | some .dir =>
        let inner := (← child.path.readDir.toBaseIO).toOption.getD #[]
        found := (childName, ⟨.directory, modified⟩) ::
          (← entriesBelow childName depth inner) ++ found
      | some .file =>
        let bytes := (← (IO.FS.readBinFile child.path).toBaseIO).toOption
        found := (bytes.map fun bytes => (childName, ⟨.file bytes, modified⟩)).toList ++ found
      | _ => pure ()
    return found

/-- Every directory on the way to a path. -/
def ancestors (path : FilePath) : List (FilePath × FileEntry) :=
  (List.range path.length).map fun count => (path.take (count + 1), ⟨.directory, 0⟩)

/-- The variables of the environment. -/
def readEnvironment : IO (List (String × String)) := do
  let bytes := (← (IO.FS.readBinFile "/proc/self/environ").toBaseIO).toOption.getD .empty
  let entries := ((String.fromUTF8? bytes).getD "").splitOn (Char.ofNat 0).toString
  return entries.filterMap fun entry =>
    match entry.splitOn "=" with
    | name :: value :: rest => some (name, "=".intercalate (value :: rest))
    | _ => none

/-- The number that a line of a system file has after a name. -/
def numberAfter (name : String) (text : String) : Nat :=
  ((text.splitOn "\n").findSome? fun line =>
    match line.splitOn " " with
    | first :: second :: _ => if first = name then second.toNat? else none
    | _ => none).getD 0

/-- Nanoseconds since 1970: the time of the last start of the system and the time since then. -/
def readClock : IO Int := do
  let read (path : String) : IO String := do
    return (← (IO.FS.readFile path).toBaseIO).toOption.getD ""
  let start := numberAfter "btime" (← read "/proc/stat")
  let uptime := ((← read "/proc/uptime").splitOn " ").head?.getD ""
  let elapsed := (readNumber? uptime.toList).getD 0
  return start * 1000000000 + saturatedInt (elapsed * 1000000000)

def pathText (path : FilePath) : String :=
  "/" ++ "/".intercalate path

/-- The path that a written path means in a directory. -/
def resolve (directory : FilePath) (text : String) : FilePath :=
  let start := if text.startsWith "/" then [] else directory
  (FileTree.pathParts text).foldl (fun path part =>
    if part = "." then path else if part = ".." then path.dropLast else path ++ [part]) start

/-- The files that a command reads before a script runs. -/
def namedFiles (words : List String) (environment : List (String × String)) : List String :=
  let invocation := (CommandLine.Invocation.ofWords words).toOption
  (invocation.bind fun invocation => invocation.script).toList ++
    (invocation.bind fun invocation => invocation.settingsPath).toList ++
    (Settings.defaultPath? environment).toList

/-- Adds a file with the directories on the way to it, if there is such a file. -/
def addNamed (directory : FilePath) (tree : FileTree) (text : String) : IO FileTree := do
  let path := resolve directory text
  match (← (IO.FS.readBinFile (pathText path)).toBaseIO).toOption, tree.find? path with
  | some bytes, none => return ⟨(path, ⟨.file bytes, 0⟩) :: ancestors path.dropLast ++ tree.entries⟩
  | _, _ => return tree

/-- The world that a command sees: the files below the working directory, and those that the
command names. -/
def readWorld (words : List String) : IO World := do
  let current ← IO.currentDir
  let environment ← readEnvironment
  let directory := FileTree.pathParts current.toString
  let below ← entriesBelow directory greatestDepth (← current.readDir)
  let files ← (namedFiles words environment).foldlM (addNamed directory)
    ⟨below ++ ancestors directory⟩
  return ⟨"", .working, files, directory, environment, ← readClock, .ascending⟩

def removeEntry (path : FilePath) (entry : FileEntry) : IO Unit :=
  match entry.content with
  | .directory => IO.FS.removeDir (pathText path)
  | .file _ => IO.FS.removeFile (pathText path)

def writeEntry (path : FilePath) (entry : FileEntry) : IO Unit :=
  match entry.content with
  | .directory => IO.FS.createDirAll (pathText path)
  | .file bytes => IO.FS.writeBinFile (pathText path) bytes

def isKept (tree : FileTree) (path : FilePath) (entry : FileEntry) : Bool :=
  (tree.find? path).any fun other => other.content.same entry.content

/-- Carries the changes between two trees out: first removes what is gone, inner entries first, then
writes what is new, outer entries first. -/
def writeChanges (before after : FileTree) : IO Unit := do
  let outerFirst (entries : List (FilePath × FileEntry)) :=
    entries.mergeSort fun left right => left.1.length ≤ right.1.length
  for (path, entry) in (outerFirst before.entries).reverse do
    if ¬ isKept after path entry ∧ ¬ (after.find? path).any (·.content.isDirectory) then
      removeEntry path entry
  for (path, entry) in outerFirst after.entries do
    if ¬ isKept before path entry then
      writeEntry path entry

end Shell

end ScriptEngine

open ScriptEngine in
/-- Runs the command line in the world around the program. -/
def main (words : List String) : IO UInt32 := do
  let world ← Shell.readWorld words
  let result := CommandLine.run (.ofFuel Shell.fuel) words world
  Shell.writeChanges world.files result.world.files
  IO.print result.output
  IO.eprint result.errors
  return result.status.toUInt32
