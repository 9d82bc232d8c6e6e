import PathRegistry.CommandLine
import PathRegistry.StoreFile

/-!
# The program

Reads the arguments and the environment, looks at the files that the run can
meet, lets `CommandLine.run` decide, and writes what it has changed.
-/

namespace PathRegistry.Main

/-- The name of a place, taken from the root. -/
def nameOf (l : Location) : String :=
  String.ofList (l.flatMap fun step => '/' :: step)

/-- What is at a place whose directory is there, if anything.  What is there and
cannot be read as a file is a directory. -/
def look (l : Location) : IO (Option Node) := do
  try
    return some (StoreFile.decode (← IO.FS.readBinFile (nameOf l)).data.toList)
  catch
    | .noFileOrDirectory .. => return none
    | _ => return some .directory

/-- The disk with what is at a place and at every place above it. -/
def lookAlong (d : Disk) (l : Location) : IO Disk := do
  let mut d := d
  for n in List.range l.length do
    let place := l.take (n + 1)
    if (d.node? place).isNone && d.node? (l.take n) == some .directory then
      if let some node ← look place then
        d := d.put place node
  return d

/-- The places at and beside a place. -/
def around (l : Location) : List Location := [l, l.log, l.index]

/-- The disk with what is at and beside the place that a name leads to, and at
every place above it. -/
def lookAround (d : Disk) (working : Location) (name : Text) : IO Disk := do
  let address := match Address.ofText name with
    | .ok a => a.name
    | .error _ => name
  let names := [name, address]
  let mut d := d
  for name in names do
    let steps := (Text.steps name).filter fun s => s ≠ [] ∧ s ≠ ['.']
    let start := Disk.base working (Text.isRooted name)
    for n in List.range (steps.length + 1) do
      for l in around ((steps.take n).foldl step start) do
        d ← lookAlong d l
  return d
where
  /-- The place that a step leads to. -/
  step (l : Location) (name : Text) : Location :=
    if name = ['.', '.'] then l.dropLast else l ++ [name]

/-- Writes what a place holds. -/
def store (l : Location) (n : Node) : IO Unit :=
  match StoreFile.encode n with
  | none => IO.FS.createDirAll (nameOf l)
  | some content => IO.FS.writeBinFile (nameOf l) ⟨content.toArray⟩

/-- The number that octets stand for. -/
def number (octets : ByteArray) : Nat :=
  octets.data.toList.foldl (fun n b => n * 256 + b.toNat) 0

end PathRegistry.Main

open PathRegistry in
/-- One run of the program. -/
def main (arguments : List String) : IO UInt32 := do
  let args := arguments.map String.toList
  let setting (name : String) : IO (Option Text) := do
    return (← IO.getEnv name).map String.toList
  let environment : Environment :=
    ⟨← setting "XDG_DATA_HOME", ← setting "HOME", none⟩
  let working := (Text.steps (← IO.currentDir).toString.toList).filter (· ≠ [])
  let mut disk ← Main.lookAlong [] working
  if let .ok (some file, _) := CommandLine.extractOption CommandLine.configOption args then
    disk ← Main.lookAround disk working file
  if let .ok asked := CommandLine.invocation environment disk working args then
    disk ← Main.lookAround disk working asked.storePath
  let supply := Supply.ofSeed (Main.number (← IO.getRandomBytes 16))
  let (output, after, _) := CommandLine.run environment working disk supply args
  for (l, node) in after do
    if disk.node? l ≠ some node then
      Main.store l node
  for (l, _) in disk do
    if (after.node? l).isNone then
      IO.FS.removeFile (Main.nameOf l)
  IO.print (String.ofList output.out)
  IO.eprint (String.ofList output.err)
  return output.code.toUInt32
