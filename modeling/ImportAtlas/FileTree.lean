import ImportAtlas.Path.Normalize

/-! A file system as a tree of directories and files. Paths are followed entry by
entry: each entry on the way has to exist, and everything but the last has to be
a directory. -/

namespace ImportAtlas

/-- A file with its bytes, or a directory with its entries. -/
inductive FileTree where
  | file (content : ByteArray)
  | directory (entries : List (String × FileTree))
  deriving Inhabited

/-- Why a path cannot be followed or a file cannot be read. -/
inductive AccessError where
  | notFound
  | notDirectory
  | isDirectory
  | notText
  deriving DecidableEq, Repr, Inhabited

/-- The wording of an access error. -/
def AccessError.message : AccessError → String
  | notFound => "No such file or directory (os error 2)"
  | notDirectory => "Not a directory (os error 20)"
  | isDirectory => "Is a directory (os error 21)"
  | notText => "stream did not contain valid UTF-8"

namespace FileTree

/-- What stands at the end of a list of names. -/
def get? : FileTree → List String → Option FileTree
  | tree, [] => some tree
  | file _, _ :: _ => none
  | directory entries, name :: names =>
    match entries.lookup name with
    | some tree => tree.get? names
    | none => none

/-- Whether a tree is a directory. -/
def isDirectory : FileTree → Bool
  | directory _ => true
  | file _ => false

/-- Follows the entries of a path from a directory, which is given by the names
that lead to it from the root. -/
def follow (root : FileTree) (here : List String) : List String → Except AccessError (List String)
  | [] => .ok here
  | segment :: later =>
    match root.get? here with
    | none => .error .notFound
    | some (file _) => .error .notDirectory
    | some (directory entries) =>
      if segment = "." then follow root here later
      else if segment = ".." then follow root here.dropLast later
      else if (entries.lookup segment).isSome then follow root (here ++ [segment]) later
      else .error .notFound

/-- The content at the end of new directories. -/
def make : List String → FileTree → FileTree
  | [], content => content
  | name :: names, content => directory [(name, make names content)]

mutual

/-- Replaces what stands at the end of a list of names. Directories on the way are
made where they are missing. -/
def put : FileTree → List String → FileTree → FileTree
  | _, [], content => content
  | file _, name :: names, content => directory [(name, make names content)]
  | directory entries, name :: names, content => directory (putEntry entries name names content)

/-- Replaces what stands at the end of a list of names that starts in one of some
entries. -/
def putEntry : List (String × FileTree) → String → List String → FileTree →
    List (String × FileTree)
  | [], name, names, content => [(name, make names content)]
  | (other, tree) :: entries, name, names, content =>
    if name = other then (other, put tree names content) :: entries
    else (other, tree) :: putEntry entries name names content

end

/-- Makes a directory with those above it, unless it is there. -/
def makeDirectory (tree : FileTree) (names : List String) : FileTree :=
  match tree.get? names with
  | some (directory _) => tree
  | _ => tree.put names (directory [])

mutual

/-- Removes what stands at the end of a list of names. -/
def remove : FileTree → List String → FileTree
  | tree, [] => tree
  | file content, _ :: _ => file content
  | directory entries, name :: names => directory (removeEntry name names entries)

/-- Removes what stands at the end of a list of names that starts in one of some
entries. -/
def removeEntry (name : String) (names : List String) :
    List (String × FileTree) → List (String × FileTree)
  | [] => []
  | (other, tree) :: entries =>
    if name = other then
      if names.isEmpty then entries else (other, remove tree names) :: entries
    else (other, tree) :: removeEntry name names entries

end

end FileTree

/-- A file system and the directory that relative paths start from. -/
structure Files where
  root : FileTree
  here : List String := []
  deriving Inhabited

namespace Files

/-- Follows a path. Yields the names that lead to its end from the root. -/
def locate (files : Files) (p : Path) : Except AccessError (List String) :=
  if p.text = "" then .error .notFound
  else files.root.follow (if p.isAbsolute then [] else files.here) p.segments

/-- What stands at the end of a path. -/
def entry (files : Files) (p : Path) : Except AccessError FileTree := do
  let names ← files.locate p
  match files.root.get? names with
  | some tree => return tree
  | none => .error .notFound

/-- Whether anything stands at the end of a path. -/
def has (files : Files) (p : Path) : Bool :=
  match files.entry p with
  | .ok _ => true
  | .error _ => false

/-- Whether a file stands at the end of a path. -/
def isFile (files : Files) (p : Path) : Bool :=
  match files.entry p with
  | .ok (.file _) => true
  | _ => false

/-- Whether a directory stands at the end of a path. -/
def isDirectory (files : Files) (p : Path) : Bool :=
  match files.entry p with
  | .ok (.directory _) => true
  | _ => false

/-- The text of the file at the end of a path. -/
def read (files : Files) (p : Path) : Except AccessError String := do
  match ← files.entry p with
  | .directory _ => .error .isDirectory
  | .file content =>
    match String.fromUTF8? content with
    | some text => return text
    | none => .error .notText

/-- The absolute path of what stands at the end of a path. -/
def canonical (files : Files) (p : Path) : Except AccessError Path := do
  let names ← files.locate p
  return .ofComponents (.root :: names.map .name)

end Files
end ImportAtlas
