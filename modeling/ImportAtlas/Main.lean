import ImportAtlas.Command.Run

/-! The program. It copies what a command line names from the disk into a file
tree and prints what the command makes of it. -/

namespace ImportAtlas

/-- Whether a place on the disk is not a link to another one. -/
def isOwnPlace (place : String) : IO Bool := do
  try return (← IO.FS.realPath place).toString == place
  catch _ => return false

/-- The tree of a file or directory on the disk. Entries that cannot be read are
left out, and so are links to other places. -/
partial def FileTree.ofDisk? (place : String) : IO (Option FileTree) := do
  try
    let disk ← IO.FS.realPath place
    if ← disk.isDir then
      let mut entries := []
      for entry in ← disk.readDir do
        if ← isOwnPlace entry.path.toString then
          if let some tree ← FileTree.ofDisk? entry.path.toString then
            entries := (entry.fileName, tree) :: entries
      return some (.directory entries)
    else return some (.file (← IO.FS.readBinFile disk))
  catch _ => return none

/-- Copies what stands at a path on the disk into a tree. -/
def FileTree.withDisk (root : FileTree) (path : Path) : IO FileTree := do
  try
    let place ← IO.FS.realPath path.text
    match ← FileTree.ofDisk? place.toString with
    | some tree => return root.put (Path.names ⟨place.toString⟩) tree
    | none => return root
  catch _ => return root

/-- The part of the disk that a command line is about. -/
def Files.ofDisk (words : List String) : IO Files := do
  let here := Path.names ⟨(← IO.currentDir).toString⟩
  let root := (FileTree.directory []).makeDirectory here
  match Invocation.ofArguments words with
  | .ok invocation => return ⟨← invocation.paths.foldlM FileTree.withDisk root, here⟩
  | .error _ => return ⟨root, here⟩

end ImportAtlas

/-- Runs the program. -/
def main (words : List String) : IO UInt32 := do
  let files ← ImportAtlas.Files.ofDisk words
  let outcome := ImportAtlas.Outcome.ofArguments files words
  IO.print outcome.output
  IO.eprint outcome.errors
  return outcome.code.toUInt32
