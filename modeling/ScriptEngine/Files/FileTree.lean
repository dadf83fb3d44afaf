namespace ScriptEngine

inductive FileError
  | notFound
  | busy
  | alreadyExists
  | notDirectory
  | isDirectory
  | invalidArgument
  | nameTooLong
  | notEmpty
  | notText
  | notRegular
  | nulInName
  | incompleteTree
deriving DecidableEq, Repr

def FileError.message : FileError → String
  | notFound => "No such file or directory (os error 2)"
  | busy => "Device or resource busy (os error 16)"
  | alreadyExists => "File exists (os error 17)"
  | notDirectory => "Not a directory (os error 20)"
  | isDirectory => "Is a directory (os error 21)"
  | invalidArgument => "Invalid argument (os error 22)"
  | nameTooLong => "File name too long (os error 36)"
  | notEmpty => "Directory not empty (os error 39)"
  | notText => "stream did not contain valid UTF-8"
  | notRegular => "the source path is neither a regular file nor a symlink to a regular file"
  | nulInName => "file name contained an unexpected NUL byte"
  | incompleteTree => "failed to create whole tree"

inductive FileContent
  | directory
  | file (bytes : ByteArray)

def FileContent.isDirectory : FileContent → Bool
  | directory => true
  | file _ => false

def FileContent.same : FileContent → FileContent → Bool
  | directory, directory => true
  | file left, file right => left.data == right.data
  | _, _ => false

/-- The names that lead from the root to an entry. -/
abbrev FilePath := List String

/-- What stands at a path, and when it was last changed, in nanoseconds since 1970. -/
structure FileEntry where
  content : FileContent
  modified : Int

/-- Files and directories by their paths. The root is not listed and is always a directory. -/
structure FileTree where
  entries : List (FilePath × FileEntry)

namespace FileTree

def empty : FileTree :=
  ⟨[]⟩

instance : Inhabited FileTree := ⟨empty⟩

def find? (tree : FileTree) (path : FilePath) : Option FileEntry :=
  match path with
  | [] => some ⟨.directory, 0⟩
  | path => tree.entries.lookup path

def isDirectory (tree : FileTree) (path : FilePath) : Bool :=
  (tree.find? path).any fun entry => entry.content.isDirectory

def insert (tree : FileTree) (path : FilePath) (entry : FileEntry) : FileTree :=
  ⟨(path, entry) :: tree.entries.filter fun other => other.1 != path⟩

def erase (tree : FileTree) (path : FilePath) : FileTree :=
  ⟨tree.entries.filter fun other => other.1 != path⟩

/-- Whether `path` is below `ancestor`, at any distance. -/
def isBelow (ancestor path : FilePath) : Bool :=
  ancestor.isPrefixOf path && ancestor.length < path.length

def hasChildren (tree : FileTree) (path : FilePath) : Bool :=
  tree.entries.any fun entry => isBelow path entry.1

/-- Where a path leads after what stood at `source` has moved to `target`. -/
def movedPath (source target path : FilePath) : FilePath :=
  if source.isPrefixOf path then target ++ path.drop source.length else path

/-- Moves an entry with all that is below it. -/
def move (tree : FileTree) (source target : FilePath) : FileTree :=
  ⟨tree.entries.map fun entry => (movedPath source target entry.1, entry.2)⟩

end FileTree

end ScriptEngine
