import PathRegistry.Table

/-!
# A disk of directories, documents and stores

A disk is a tree, kept as the list of its places.  A place is reached by the
names to enter from the root; the root is a directory that is always there.  A
place holds a directory, a document, that is, a file of any content, a store,
that is, a file with a table, or what lies beside a store in use: its log and
the index of the log.

A file name is a text cut at `/`.  Names that start with `/` are taken from the
root, others from the working directory.  Looking a name up goes step by step:
`.` and an empty step stay, `..` goes back, and every place that is left by a
step must be a directory.  No step has more than 255 octets, no name 4096 or
more, and none has the character zero.
-/

namespace PathRegistry

/-- The names to enter from the root, outermost first. -/
abbrev Location := List Text

/-- What a place holds. -/
inductive Node where
  | directory
  | document (content : List UInt8)
  /-- A store: the table that was settled in the file last, if one was, and whether
  changes go to a log beside it. -/
  | store (settled : Option Table) (logged : Bool)
  /-- The log of a store: the table after the changes that are not settled yet, if
  there are any. -/
  | log (pending : Option Table)
  /-- The index of a log. -/
  | index
deriving DecidableEq

/-- The places other than the root, each listed once. -/
abbrev Disk := List (Location × Node)

/-! ## File names -/

/-- A file name as the steps that matter: empty ones are left out, and so is `.`
except where a name that is not taken from the root starts with it. -/
structure Route where
  /-- Whether the name is taken from the root. -/
  rooted : Bool
  /-- The steps. -/
  steps : List Text
deriving DecidableEq, Repr

/-- The steps of a file name, empty ones included. -/
def Text.steps (name : Text) : List Text := Text.pieces (· == '/') name

/-- Whether a file name is taken from the root. -/
def Text.isRooted (name : Text) : Bool := name.head? == some '/'

/-- The steps of a file name that matter. -/
def Route.ofText (name : Text) : Route :=
  let steps := (Text.steps name).filter (· != [])
  let kept := steps.filter (· != ['.'])
  if Text.isRooted name then ⟨true, kept⟩
  else if steps.head? = some ['.'] then ⟨false, ['.'] :: kept⟩
  else ⟨false, kept⟩

/-- The directory part of a file name; there is none without a step. -/
def Route.parent? (r : Route) : Option Route :=
  if r.steps = [] then none else some ⟨r.rooted, r.steps.dropLast⟩

/-- The text of a route, with one `/` between its steps. -/
def Route.text (r : Route) : Text :=
  (if r.rooted then ['/'] else []) ++ ['/'].intercalate r.steps

/-- The octets that a step may have. -/
def longestStep : Nat := 255

/-- The octets that a file name must not reach. -/
def nameLimit : Nat := 4096

/-- Why no place can have a name, whatever the disk holds. -/
def Text.nameProblem? (name : Text) : Option FileProblem :=
  if name.contains '\x00' then some .nulInName
  else if nameLimit ≤ Text.utf8Length name then some .nameTooLong
  else none

/-- A file name put below a directory name. -/
def Text.join (directory name : Text) : Text :=
  if Text.isRooted name || directory = [] then name
  else if directory.getLast? = some '/' then directory ++ name
  else directory ++ '/' :: name

namespace Disk

/-! ## Places -/

/-- What a place holds, if there is such a place. -/
def node? (d : Disk) (l : Location) : Option Node :=
  if l = [] then some .directory else d.lookup l

/-- The disk with a place added or its content replaced. -/
def put (d : Disk) (l : Location) (n : Node) : Disk :=
  if (d.lookup l).isSome then d.map fun p => if p.1 == l then (l, n) else p
  else d ++ [(l, n)]

/-- The disk without a place. -/
def remove (d : Disk) (l : Location) : Disk := d.filter (·.1 != l)

/-- One step of a look-up. -/
def step (d : Disk) (l : Location) (name : Text) : Except FileProblem Location :=
  match d.node? l with
  | some .directory =>
    if name = [] ∨ name = ['.'] then .ok l
    else if name = ['.', '.'] then .ok l.dropLast
    else if (d.node? (l ++ [name])).isSome then .ok (l ++ [name])
    else if longestStep < Text.utf8Length name then .error .nameTooLong
    else .error .notFound
  | some _ => .error .notADirectory
  | none => .error .notFound

/-- The place reached from `l` by several steps. -/
def follow (d : Disk) (l : Location) : List Text → Except FileProblem Location
  | [] => .ok l
  | name :: names =>
    match d.step l name with
    | .ok l' => d.follow l' names
    | .error e => .error e

/-- The place that a file name is taken from. -/
def base (working : Location) (rooted : Bool) : Location :=
  if rooted then [] else working

/-- The place of a file name. -/
def find (d : Disk) (working : Location) (name : Text) : Except FileProblem Location :=
  match Text.nameProblem? name with
  | some e => .error e
  | none =>
    if name = [] then .error .notFound
    else d.follow (base working (Text.isRooted name)) (Text.steps name)

/-- Whether the disk holds a place of that name. -/
def holds (d : Disk) (working : Location) (name : Text) : Bool :=
  match d.find working name with
  | .ok _ => true
  | .error _ => false

/-- The content of a file as a text. -/
def readText (d : Disk) (working : Location) (name : Text) : Except FileProblem Text :=
  match d.find working name with
  | .error e => .error e
  | .ok l =>
    match d.node? l with
    | some (.document content) =>
      match String.fromUTF8? ⟨content.toArray⟩ with
      | some s => .ok s.toList
      | none => .error .notText
    | some (.log none) => .ok []
    | some (.store ..) | some (.log _) | some .index => .error .notText
    | some .directory => .error .isADirectory
    | none => .error .notFound

/-! ## Directories -/

/-- Makes the directory `name` in the directory reached by `parents`, if that is one. -/
def makeDirectory (d : Disk) (l : Location) (parents : List Text) (name : Text) :
    Except FileProblem Disk :=
  match d.follow l parents with
  | .error e => .error e
  | .ok l' =>
    match d.step l' name with
    | .ok _ => .error .alreadyExists
    | .error .notFound =>
      if d.node? l' = some .directory then .ok (d.put (l' ++ [name]) .directory)
      else .error .notFound
    | .error e => .error e

/-- Whether the steps lead to a directory. -/
def isDirectory (d : Disk) (l : Location) (steps : List Text) : Bool :=
  match d.follow l steps with
  | .ok l' => d.node? l' == some .directory
  | .error _ => false

/-- Makes a directory and those above it that are missing.  The steps are given
innermost first.  The innermost directory is tried first, so a file in the way is
noticed where the deepest attempt meets it.  Directories made before a failure
stay. -/
def makeDirectories (d : Disk) (l : Location) :
    (inner : List Text) → Except FileProblem Unit × Disk
  | [] => (.ok (), d)
  | name :: outer =>
    match d.makeDirectory l outer.reverse name with
    | .ok d' => (.ok (), d')
    | .error .notFound =>
      match d.makeDirectories l outer with
      | (.error e, d') => (.error e, d')
      | (.ok (), d') =>
        match d'.makeDirectory l outer.reverse name with
        | .ok d'' => (.ok (), d'')
        | .error e =>
          if d'.isDirectory l (outer.reverse ++ [name]) then (.ok (), d') else (.error e, d')
    | .error e =>
      if d.isDirectory l (outer.reverse ++ [name]) then (.ok (), d) else (.error e, d)

/-- Makes the directory of a route and those above it that are missing. -/
def makeRoute (d : Disk) (working : Location) (r : Route) : Except FileProblem Unit × Disk :=
  match Text.nameProblem? r.text with
  | some e => (.error e, d)
  | none => d.makeDirectories (base working r.rooted) r.steps.reverse

/-! ## Documents -/

/-- The steps of a name up to the last one that is not empty, and whether empty
ones follow it. -/
def trimSteps (steps : List Text) : List Text × Bool :=
  let kept := (steps.reverse.dropWhile (· = [])).reverse
  (kept, kept.length < steps.length)

/-- The place that a document of the given name is written to.  A name that ends
with `/` is no name of a document, nor is one that ends with `.` or `..`. -/
def documentPlace (d : Disk) (working : Location) (name : Text) :
    Except FileProblem Location :=
  let start := base working (Text.isRooted name)
  let (steps, closed) := trimSteps (Text.steps name)
  let last := steps.getLastD []
  if last = [] ∨ last = ['.'] ∨ last = ['.', '.'] then
    match d.find working name with
    | .ok _ => .error .isADirectory
    | .error e => .error e
  else
    match d.follow start steps.dropLast with
    | .error e => .error e
    | .ok l =>
      match d.node? l with
      | some .directory =>
        if closed then .error .isADirectory
        else
          match d.step l last with
          | .ok l' => if d.node? l' = some .directory then .error .isADirectory else .ok l'
          | .error .notFound => .ok (l ++ [last])
          | .error e => .error e
      | _ => .error .notADirectory

/-- Writes a document, replacing what was there, and makes the directories
above it.  These stay even if the document cannot be written. -/
def writeDocument (d : Disk) (working : Location) (name : Text) (content : List UInt8) :
    Except FileProblem Unit × Disk :=
  let made := match (Route.ofText name).parent? with
    | some parent => d.makeRoute working parent
    | none => (.ok (), d)
  match made with
  | (.error e, d') => (.error e, d')
  | (.ok (), d') =>
    match Text.nameProblem? name with
    | some e => (.error e, d')
    | none =>
      match d'.documentPlace working name with
      | .ok l => (.ok (), d'.put l (.document content))
      | .error e => (.error e, d')

end Disk

end PathRegistry
