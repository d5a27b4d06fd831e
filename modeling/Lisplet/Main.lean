import Lisplet.Repl

/-! The command line program. It hands its arguments, its input and the files of the working
directory to `Repl.runProgram`, then writes what that leaves behind. -/
open Lisplet

def diskHere (directory : String) : IO Disk := do
  let here : Place := ((directory.splitOn "/").filter (· != "")).reverse
  let mut disk := Disk.inDirectory here
  for item in ← (← IO.currentDir).readDir do
    if ← item.path.isDir then
      disk := disk.putDirectory (item.fileName :: here)
    else
      try disk := disk.putFile item.fileName (← IO.FS.readBinFile item.path)
      catch _ => pure ()
  return disk

/-- Writes the files that are new or have another content than before. -/
def writeBack (before after : Disk) : IO Unit := do
  for (path, entry) in after.entries.toList do
    if let .file content := entry then
      let unchanged := match before.entries[path]? with
        | some (.file old) => old.toList == content.toList
        | _ => false
      unless unchanged do
        IO.FS.writeBinFile path content

def main (paths : List String) : IO UInt32 := do
  let directory := (← IO.currentDir).toString
  let before ← diskHere directory
  let input ← (← IO.getStdin).readBinToEnd
  let exit := Repl.runProgram ampleFuel directory paths input before
  writeBack before exit.disk
  (← IO.getStdout).putStr exit.output
  (← IO.getStderr).putStr exit.errors
  return UInt32.ofNat exit.code
