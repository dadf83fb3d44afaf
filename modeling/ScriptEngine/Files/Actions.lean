import ScriptEngine.Files.Location

namespace ScriptEngine.FileTree

def isPresent (tree : FileTree) (working : FilePath) (text : String) : Bool :=
  (tree.lookup working text).isOk

def leadsToDirectory (tree : FileTree) (working : FilePath) (text : String) : Bool :=
  match tree.lookup working text with
  | .ok (_, entry) => entry.content.isDirectory
  | .error _ => false

def read (tree : FileTree) (working : FilePath) (text : String) : Except FileError ByteArray := do
  match (← tree.lookup working text).2.content with
  | .directory => throw .isDirectory
  | .file bytes => return bytes

def readText (tree : FileTree) (working : FilePath) (text : String) : Except FileError String := do
  match String.fromUTF8? (← tree.read working text) with
  | some content => return content
  | none => throw .notText

/-- Where a file may be written: an existing file, or a free name in an existing directory. -/
def writable (tree : FileTree) (working : FilePath) (text : String) :
    Except FileError FilePath := do
  let location ← tree.locate working text
  if location.slashed ∨ tree.isDirectory location.path then
    throw .isDirectory
  else
    return location.path

def write (tree : FileTree) (working : FilePath) (time : Int) (text : String) (bytes : ByteArray) :
    Except FileError FileTree := do
  let path ← tree.writable working text
  return tree.insert path ⟨.file bytes, time⟩

def createDirectory (tree : FileTree) (working : FilePath) (time : Int) (text : String) :
    Except FileError FileTree := do
  let location ← tree.locate working text
  match location.last, tree.find? location.path with
  | .name _, none => return tree.insert location.path ⟨.directory, time⟩
  | _, _ => throw .alreadyExists

/-- Creates a directory after its missing parents. `steps` bounds how many parents are tried. -/
def createParents (working : FilePath) (time : Int) :
    Nat → FileTree → String → FileTree × Option FileError
  | 0, tree, _ => (tree, some .incompleteTree)
  | steps + 1, tree, text =>
    if text.isEmpty then
      (tree, none)
    else
      match tree.createDirectory working time text with
      | .ok tree => (tree, none)
      | .error .notFound =>
        match parentText? text with
        | none => (tree, some .incompleteTree)
        | some parent =>
          match createParents working time steps tree parent with
          | (tree, some error) => (tree, some error)
          | (tree, none) =>
            match tree.createDirectory working time text with
            | .ok tree => (tree, none)
            | .error error =>
              (tree, if tree.leadsToDirectory working text then none else some error)
      | .error error => (tree, if tree.leadsToDirectory working text then none else some error)

def createDirectories (tree : FileTree) (working : FilePath) (time : Int) (text : String) :
    FileTree × Option FileError :=
  createParents working time ((pathParts text).length + 1) tree text

def removeDirectory (tree : FileTree) (working : FilePath) (text : String) :
    Except FileError FileTree := do
  let location ← tree.locate working text
  match location.last, tree.find? location.path with
  | .here, _ => throw .invalidArgument
  | .parent, _ => throw .notEmpty
  | .root, _ => throw .busy
  | .name _, none => throw .notFound
  | .name _, some entry =>
    if ¬ entry.content.isDirectory then
      throw .notDirectory
    else if tree.hasChildren location.path then
      throw .notEmpty
    else
      return tree.erase location.path

def removeFile (tree : FileTree) (working : FilePath) (text : String) :
    Except FileError FileTree := do
  let (path, entry) ← tree.lookup working text
  if entry.content.isDirectory then
    throw .isDirectory
  else
    return tree.erase path

/-- Deletes a file or an empty directory. -/
def remove (tree : FileTree) (working : FilePath) (text : String) : Except FileError FileTree :=
  if tree.leadsToDirectory working text then
    tree.removeDirectory working text
  else
    tree.removeFile working text

/-- Whether an entry may take the place of what is at the target. -/
def checkReplacement (tree : FileTree) (entry : FileEntry) (target : FilePath) :
    Except FileError Unit :=
  match tree.find? target with
  | none => .ok ()
  | some replaced =>
    match entry.content.isDirectory, replaced.content.isDirectory with
    | true, false => .error .notDirectory
    | false, true => .error .isDirectory
    | true, true => if tree.hasChildren target then .error .notEmpty else .ok ()
    | false, false => .ok ()

/-- Moves an entry to another path, and gives the working directory after that, which moves along
with a directory above it. Both paths have to end in a name, and neither may be inside the other. -/
def rename (tree : FileTree) (working : FilePath) (source target : String) :
    Except FileError (FileTree × FilePath) := do
  let sourceLocation ← tree.locate working source
  let targetLocation ← tree.locate working target
  match sourceLocation.last, targetLocation.last, tree.find? sourceLocation.path with
  | .name _, .name _, none => throw .notFound
  | .name _, .name _, some entry =>
    let slashed := sourceLocation.slashed || targetLocation.slashed
    if slashed ∧ ¬ entry.content.isDirectory then
      throw .notDirectory
    else if isBelow sourceLocation.path targetLocation.path then
      throw .invalidArgument
    else if isBelow targetLocation.path sourceLocation.path then
      throw .notEmpty
    else if sourceLocation.path = targetLocation.path then
      return (tree, working)
    else
      tree.checkReplacement entry targetLocation.path
      return ((tree.erase targetLocation.path).move sourceLocation.path targetLocation.path,
        movedPath sourceLocation.path targetLocation.path working)
  | _, _, _ => throw .busy

/-- Copies the contents of a file. The target is emptied before the source is read, so that a file
copied to itself ends up empty. -/
def copy (tree : FileTree) (working : FilePath) (time : Int) (source target : String) :
    Except FileError FileTree := do
  let (sourcePath, entry) ← tree.lookup working source
  match entry.content with
  | .directory => throw .notRegular
  | .file bytes =>
    let targetPath ← tree.writable working target
    let copied := if sourcePath = targetPath then ByteArray.empty else bytes
    return tree.insert targetPath ⟨.file copied, time⟩

/-- The directory to work in after a change to the one that a path leads to. -/
def changeDirectory (tree : FileTree) (working : FilePath) (text : String) :
    Except FileError FilePath := do
  let (path, entry) ← tree.lookup working text
  if entry.content.isDirectory then
    return path
  else
    throw .notDirectory

end ScriptEngine.FileTree
