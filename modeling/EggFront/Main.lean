import EggFront.Cli.Run

/-!
# The `egg` program

Runs the command line on the real file system: locations are found from the
working directory, and a command's streams and exit code become the program's.
An uncaught error of a command is reported on the error stream, by its message.
-/

namespace EggFront

/-- The real path of a location. -/
def realPath (loc : Location) := do
  let cwd ← IO.currentDir
  let ups := List.replicate loc.up ".."
  return { cwd with toString := "/".intercalate (cwd.toString :: ups ++ loc.parts) }

/-- The disk, seen from the working directory. -/
instance : FileSystem IO where
  kind? loc := do
    let p ← realPath loc
    if ← p.isDir then return some .directory
    else if ← p.pathExists then return some .file
    else return none
  read loc := do IO.FS.readFile (← realPath loc)
  write loc text := do IO.FS.writeFile (← realPath loc) text
  makeDir loc := do IO.FS.createDir (← realPath loc)
  below loc := do
    let root ← realPath loc
    let depth := root.components.length
    let entries ← root.walkDir
    return entries.toList.map fun p => { loc with parts := loc.parts ++ p.components.drop depth }
  levelsAbove := do
    return (((← IO.currentDir).toString.splitOn "/").filter (· != "")).length

end EggFront

/-- Runs `egg` with the program's arguments. -/
def main (args : List String) : IO UInt32 := do
  let cwd := (← IO.currentDir).toString
  let o ← (EggFront.Cli.run cwd args).outcome
  IO.print o.out
  IO.eprint o.err
  if let some c := o.crash then IO.eprintln ("error: " ++ c.message)
  return o.code.toUInt32
