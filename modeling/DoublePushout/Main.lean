import DoublePushout.Command.Run

/-!
# `DoublePushout.Main`: the program

The outer layer: it collects the files that the command line may mean, runs the command, and
carries out what the report says. Files are written before anything is printed. Where one cannot
be written its folder is missing, which is a mistake on the command line.
-/

set_option autoImplicit false

namespace DoublePushout.Command

/-- The folder of a path, as a path. -/
def folderOf (path : String) : String := String.intercalate "/" (pathParts path).dropLast

/-- The files that a command line may mean. The folders of all paths are taken to exist. -/
def gatherFiles (args : List String) : IO Workspace := do
  let mut files : List (String × String) := []
  for path in possiblePaths args do
    try
      files := files ++ [(path, textOf (← IO.FS.readBinFile path))]
    catch _ => pure ()
  return { files, folders := (possiblePaths args).map folderOf }

/-- The rest of a stream, after what has been read of it. -/
partial def readRest (stream : IO.FS.Stream) (bytes : ByteArray) : IO ByteArray := do
  let more ← stream.read 65536
  if more.isEmpty then return bytes else readRest stream (bytes ++ more)

/-- Carries out a report and returns the exit code. -/
def carryOut (report : Report) : IO Nat := do
  try
    for (path, text) in report.files do
      IO.FS.writeFile path text
  catch _ => return 2
  IO.print report.stdout
  for line in report.stderr do
    IO.eprintln line
  return report.exit

end DoublePushout.Command

open DoublePushout.Command in
def main (args : List String) : IO UInt32 := do
  let files ← gatherFiles args
  let stdin ← if readsStdin files args then readRest (← IO.getStdin) .empty else pure .empty
  return (← carryOut (run { files with stdin := textOf stdin } args)).toUInt32
