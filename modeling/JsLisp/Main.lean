/-
The command line.

`Tool.run` decides everything.  Here the files it may look at are loaded into a
disk beforehand, and what it changed is carried out afterwards.
-/
import JsLisp.Command.Tool

namespace JsLisp
namespace Main

/-- The path of a place on the real disk. -/
def realPath (place : Place) : String :=
  "/" ++ "/".intercalate place

/-- Copy what really stands at a place, if anything does. -/
def loadPlace (disk : Disk) (place : Place) : IO Disk := do
  try
    let path ← IO.FS.realPath (realPath place)
    if ← path.isDir then return disk.put place .directory
    return disk.put place (.file (← IO.FS.readBinFile path))
  catch _ => return disk

/-- Copy what stands where a path leads, and where its parents lead. -/
def loadPath (disk : Disk) (path : Path) : IO Disk :=
  path.ancestors.reverse.foldlM (fun disk path =>
    match disk.locate path with
    | .ok place => if place.isEmpty then pure disk else loadPlace disk place
    | .error _ => pure disk) disk

/-- The real working directory, with the directories above it. -/
def loadHere : IO Disk := do
  let here := ((← IO.currentDir).toString.splitOn "/").filter (· ≠ "")
  let parents := (List.range here.length).map fun n => (here.take (n + 1), Entry.directory)
  return { here := here, entries := parents }

/-- Carry out on the real disk what changed between two disks, outer
directories first. -/
def save (old new : Disk) : IO Unit := do
  let changed := new.entries.filter fun entry => old.entry? entry.1 != some entry.2
  for (place, entry) in changed.mergeSort (fun a b => a.1.length ≤ b.1.length) do
    match entry with
    | .directory => IO.FS.createDirAll (realPath place)
    | .file content => IO.FS.writeBinFile (realPath place) content

end Main
end JsLisp

open JsLisp in
def main (arguments : List String) : IO UInt32 := do
  let mut disk ← Main.loadHere
  -- The settings say where outputs go, so they are loaded first.
  for _ in [0, 1] do
    disk ← (Tool.mentioned disk arguments).foldlM Main.loadPath disk
  let input ← if Tool.readsInput arguments then (← IO.getStdin).readBinToEnd else pure .empty
  let report := Tool.run disk input arguments
  Main.save disk report.disk
  IO.print (Chunk.allText report.output)
  IO.eprint report.complaints
  if let some error := report.failure then IO.eprintln ("Error: " ++ error.inspect)
  return UInt32.ofNat report.exitCode
