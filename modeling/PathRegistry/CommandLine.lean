import PathRegistry.Config
import PathRegistry.Listing
import PathRegistry.Report
import PathRegistry.Workspace

/-!
# The command line

A run reads its arguments, loads the configuration, opens the store, carries out
one command and prints what it yields.  Options may stand anywhere among the
arguments: each is taken out with its value where it first stands, one option
after the other, and what remains are the words of the command.

A run that fails prints a report and ends with code 1.
-/

namespace PathRegistry

/-- What a run leaves: its code and what it has printed. -/
structure Output where
  /-- 0 if the run succeeded. -/
  code : Nat
  /-- What it has printed. -/
  out : Text
  /-- What it has printed about errors. -/
  err : Text
deriving DecidableEq, Repr

/-- The commands. -/
inductive Verb where
  | index
  | insert
  | id
  | path
  | move
  | copy
  | delete
  | list
deriving DecidableEq, Repr

namespace Verb

/-- All commands. -/
def all : List Verb := [index, insert, id, path, move, copy, delete, list]

/-- The word of a command. -/
def word : Verb → Text
  | index => ['i', 'n', 'd', 'e', 'x']
  | insert => ['i', 'n', 's', 'e', 'r', 't']
  | id => ['i', 'd']
  | path => ['p', 'a', 't', 'h']
  | move => ['m', 'o', 'v', 'e']
  | copy => ['c', 'o', 'p', 'y']
  | delete => ['d', 'e', 'l', 'e', 't', 'e']
  | list => ['l', 'i', 's', 't']

/-- The command of a word. -/
def ofWord? (t : Text) : Option Verb := all.find? (·.word == t)

end Verb

/-- What the arguments of a run ask for. -/
structure Invocation where
  /-- The file of the store. -/
  storePath : Text
  /-- Whether a command carries along what lies below a path. -/
  recursive : Bool
  /-- The command and its arguments. -/
  words : List Text
deriving DecidableEq, Repr

namespace CommandLine

/-- How the program is used. -/
def usage : String :=
  String.intercalate "\n" [
    "Usage: fileid [--config FILE] [--db PATH] [-r] <command> [args]",
    "",
    "Commands:",
    "  index <path>            print the identifier of <path>, indexing it if needed",
    "  insert <path> [id]      record <path> under [id] or a fresh identifier",
    "  id <path>               print the identifier of <path>",
    "  path <id>               print the path currently holding <id>",
    "  move <from> <to>        record a rename (-r: with everything under <from>)",
    "  copy <from> <to>        record a copy (-r: with everything under <from>)",
    "  delete <path>           forget <path> (-r: with everything under it)",
    "  list                    print every record as one JSON object per line"]

/-- The option that names a configuration file. -/
def configOption : Text := ['-', '-', 'c', 'o', 'n', 'f', 'i', 'g']

/-- The option that names the file of the store. -/
def storeOption : Text := ['-', '-', 'd', 'b']

/-- The short flag for carrying along what lies below. -/
def shortFlag : Text := ['-', 'r']

/-- The long flag for carrying along what lies below. -/
def longFlag : Text := ['-', '-', 'r', 'e', 'c', 'u', 'r', 's', 'i', 'v', 'e']

/-! ## Arguments -/

/-- The value behind the first place where an option stands, and the arguments
without the two. -/
def extractOption (name : Text) : List Text → Except Report (Option Text × List Text)
  | [] => .ok (none, [])
  | a :: args =>
    if a = name then
      match args with
      | [] => .error (.plain (String.ofList name ++ " needs a value"))
      | value :: args => .ok (some value, args)
    else
      match extractOption name args with
      | .ok (value, args) => .ok (value, a :: args)
      | .error r => .error r

/-- Whether a flag stands among the arguments, and the arguments without the
first place where it does. -/
def extractFlag (name : Text) : List Text → Bool × List Text
  | [] => (false, [])
  | a :: args =>
    if a = name then (true, args)
    else
      let (found, args) := extractFlag name args
      (found, a :: args)

/-- The configuration of a run. -/
def configuration (e : Environment) (d : Disk) (working : Location) :
    Option Text → Except Report Config
  | none => .ok (Config.default e)
  | some name =>
    match Config.load (Config.default e) d working name with
    | .ok c => .ok c
    | .error f => .error (.whileDoing ("loading config " ++ String.ofList name) f)

/-- What the arguments ask for. -/
def invocation (e : Environment) (d : Disk) (working : Location) (args : List Text) :
    Except Report Invocation :=
  match extractOption configOption args with
  | .error r => .error r
  | .ok (file, args) =>
    match configuration e d working file with
    | .error r => .error r
    | .ok config =>
      match extractOption storeOption args with
      | .error r => .error r
      | .ok (store, args) =>
        let (short, args) := extractFlag shortFlag args
        let (long, args) := extractFlag longFlag args
        if args = [] then .error (.plain usage)
        else .ok ⟨store.getD config.storePath, short || long, args⟩

/-! ## Commands -/

/-- The identifier that an argument gives. -/
def readId (t : Text) : Except Report Identifier :=
  match Identifier.ofText? t with
  | some i => .ok i
  | none => .error (.ofFailure (.invalidIdentifier t))

/-- The call that the words of a command ask for. -/
def call (recursive : Bool) : List Text → Except Report Call
  | [] => .error (.plain usage)
  | word :: args =>
    match Verb.ofWord? word, args with
    | some .index, [p] => .ok (.index p)
    | some .insert, [p] => .ok (.insert p none)
    | some .insert, [p, i] => (readId i).map fun i => .insert p (some i)
    | some .id, [p] => .ok (.lookUp p)
    | some .path, [i] => (readId i).map .locate
    | some .move, [source, target] => .ok (.move source target recursive)
    | some .copy, [source, target] => .ok (.copy source target recursive)
    | some .delete, [p] => .ok (.delete p recursive)
    | some .list, [] => .ok .entries
    | _, _ => .error (.plain usage)

/-- A text on a line of its own. -/
def line (t : Text) : Text := t ++ ['\n']

/-- What is printed for the answer to a call. -/
def print : Call → Answer → Except Report Text
  | .lookUp p, .id? none => .error (.plain (String.ofList p ++ " is not indexed"))
  | .locate i, .path? none => .error (.plain ("no record for " ++ String.ofList i.text))
  | _, .id i => .ok (line i.text)
  | _, .id? (some i) => .ok (line i.text)
  | _, .path? (some p) => .ok (line p)
  | _, .copied report => .ok (line report.root.id.text)
  | _, .entries entries => .ok (listing entries)
  | _, _ => .ok []

/-- The output of a run that failed. -/
def failed (r : Report) : Output := ⟨1, [], r.text⟩

/-- The output of a run that carried out a call. -/
def finished (c : Call) : Except Failure Answer → Output
  | .error f => failed (.ofFailure f)
  | .ok answer =>
    match print c answer with
    | .ok out => ⟨0, out, []⟩
    | .error r => failed r

/-- The name of the handle that a run opens. -/
def handleName : Text := []

/-- What a run prints for the outcome of its call. -/
def outcome (c : Call) : Outcome → Output
  | .failed f => finished c (.error f)
  | .done answer _ => finished c (.ok answer)
  | .notOpen => failed (.plain usage)

/-- Carries out the words of a command on the store of the run's handle. -/
def carryOut (w : Workspace) (recursive : Bool) (words : List Text) : Output × Workspace :=
  match call recursive words with
  | .error r => (failed r, w)
  | .ok c =>
    let (o, w) := w.call handleName c
    (outcome c o, w)

/-- Opens the store that is asked for, carries out the command and gives the store
up again. -/
def perform (w : Workspace) (asked : Invocation) : Output × Workspace :=
  match w.openStore handleName asked.storePath with
  | (.error f, w) =>
    (failed (.whileDoing ("opening " ++ String.ofList asked.storePath) f), w)
  | (.ok (), w) =>
    let (output, w) := carryOut w asked.recursive asked.words
    (output, w.release handleName)

/-- A run with the given arguments. -/
def run (e : Environment) (working : Location) (d : Disk) (supply : Supply)
    (args : List Text) : Output × Disk × Supply :=
  match invocation e d working args with
  | .error r => (failed r, d, supply)
  | .ok asked =>
    let (output, w) := perform (Workspace.ofDisk d working supply) asked
    (output, w.disk, w.supply)

end CommandLine

end PathRegistry
