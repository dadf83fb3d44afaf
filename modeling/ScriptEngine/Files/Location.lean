import ScriptEngine.Files.FileTree

namespace ScriptEngine

/-- The last part of a path. -/
inductive LastPart
  | name (name : String)
  | here
  | parent
  | root
deriving DecidableEq, Repr

/-- Where a written path leads: the directory that holds its last part, that part, and whether a
slash follows it. -/
structure Location where
  directory : FilePath
  last : LastPart
  slashed : Bool
deriving DecidableEq, Repr

namespace Location

/-- The path that the location names. -/
def path (location : Location) : FilePath :=
  match location.last with
  | .name name => location.directory ++ [name]
  | .here => location.directory
  | .parent => location.directory.dropLast
  | .root => []

end Location

namespace FileTree

def longestName : Nat := 255

/-- The directory that one part of a path leads to. -/
def enter (tree : FileTree) (directory : FilePath) (part : String) :
    Except FileError FilePath :=
  if part = "." then
    .ok directory
  else if part = ".." then
    .ok directory.dropLast
  else if longestName < part.utf8ByteSize then
    .error .nameTooLong
  else
    match tree.find? (directory ++ [part]) with
    | none => .error .notFound
    | some entry =>
      if entry.content.isDirectory then .ok (directory ++ [part]) else .error .notDirectory

def walk (tree : FileTree) (directory : FilePath) (parts : List String) :
    Except FileError FilePath :=
  parts.foldlM tree.enter directory

def pathParts (text : String) : List String :=
  (text.splitOn "/").filter fun part => !part.isEmpty

/-- Finds the directory that holds the last part of a path. A path that starts with a slash is
followed from the root, any other from the working directory. -/
def locate (tree : FileTree) (working : FilePath) (text : String) : Except FileError Location :=
  let slashed := text.toList.getLast? == some '/'
  let start := if text.toList.head? == some '/' then [] else working
  if text.isEmpty then
    .error .notFound
  else if text.contains (Char.ofNat 0) then
    .error .nulInName
  else
    match (pathParts text).reverse with
    | [] => .ok ⟨[], .root, slashed⟩
    | last :: before => do
      let directory ← tree.walk start before.reverse
      if last = "." then
        return ⟨directory, .here, slashed⟩
      else if last = ".." then
        return ⟨directory, .parent, slashed⟩
      else if longestName < last.utf8ByteSize then
        throw .nameTooLong
      else if ¬ tree.isDirectory directory then
        throw .notFound
      else
        return ⟨directory, .name last, slashed⟩

/-- The entry that a path leads to. Only a directory may have a slash after it. -/
def lookup (tree : FileTree) (working : FilePath) (text : String) :
    Except FileError (FilePath × FileEntry) := do
  let location ← tree.locate working text
  match tree.find? location.path with
  | none => throw .notFound
  | some entry =>
    if location.slashed ∧ ¬ entry.content.isDirectory then
      throw .notDirectory
    else
      return (location.path, entry)

/-- The last name in a path, unless the path ends with a step to the parent. -/
def fileName? (text : String) : Option String :=
  match ((pathParts text).filter (· != ".")).getLast? with
  | some ".." => none
  | last => last

/-- The written path without its last part. -/
def parentText? (text : String) : Option String :=
  let absolute := text.toList.head? == some '/'
  let root := if absolute then "/" else ""
  let leadingDot := !absolute && (pathParts text).head? == some "."
  let parts := (pathParts text).filter (· != ".")
  let parts := if leadingDot then "." :: parts else parts
  match parts.reverse with
  | [] => none
  | _ :: before => some (root ++ "/".intercalate before.reverse)

end FileTree

end ScriptEngine
