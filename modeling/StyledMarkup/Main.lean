import StyledMarkup.Command

/-!
# The program

The program reads the files below its working directory, runs the command on them, writes back what
the command changed, and prints what it has to show. It sees no files outside its working directory.
-/

namespace StyledMarkup.Main

/-- Takes directory entries and all that is below them into a file system, under the names that
lead to their directory. -/
partial def takeEntries (fs : FileSystem) (names : Location) (entries : List IO.FS.DirEntry) :
    IO FileSystem :=
  entries.foldlM (fun fs entry ↦ do
    let here := names ++ [entry.fileName.toList]
    if ← entry.path.isDir then
      let inside ← entry.path.readDir
      takeEntries (fs.put here .directory) here inside.toList
    else
      let content ← IO.FS.readBinFile entry.path
      return fs.put here (.file content.data.toList)) fs

/-- The files below the working directory. -/
def snapshot : IO FileSystem := do
  let inside ← (← IO.currentDir).readDir
  takeEntries FileSystem.empty [] inside.toList

def writeEntry (names : Location) (entry : Entry) : IO Unit := do
  let path := String.ofList (['/'].intercalate names)
  match entry with
  | .directory => IO.FS.createDirAll path
  | .file content => IO.FS.writeBinFile path ⟨content.toArray⟩

def run (args : List String) : IO UInt32 := do
  let before ← snapshot
  let (outcome, after) := Command.run before (args.map String.toList)
  (FileSystem.changes before after).forM fun (names, entry) ↦ writeEntry names entry
  IO.print outcome.stdout
  IO.eprint outcome.stderr
  return outcome.exit.toUInt32

end StyledMarkup.Main

def main (args : List String) : IO UInt32 :=
  StyledMarkup.Main.run args
