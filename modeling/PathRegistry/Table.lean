import PathRegistry.Failure
import PathRegistry.Identifier
import PathRegistry.Subtree

/-!
# The table of paths and their keys

A table is its rows in the order of their creation.  A row has a path and a key
cell.  The library writes identifiers into key cells and nothing else, but other
writers may have left octets of another length, texts, integers, or nothing; a
statement that reads such a key fails.

No two rows share a path and no two share a key, except that empty keys may
repeat.  Statements that write check this row by row and change nothing when a
row would clash.
-/

namespace PathRegistry

/-- The content of a key cell. -/
inductive Key where
  | octets (content : List UInt8)
  | text (content : Text)
  | integer (value : Int)
  | null
deriving DecidableEq

/-- One row of the table. -/
structure Row where
  /-- The key cell. -/
  key : Key
  /-- The path. -/
  path : Text
deriving DecidableEq

/-- The rows in the order of their creation. -/
abbrev Table := List Row

/-- An identifier and the path that it belongs to. -/
structure Entry where
  /-- The identifier. -/
  id : Identifier
  /-- Its path. -/
  path : Text
deriving DecidableEq

/-- The key cell of an identifier. -/
def Key.ofId (i : Identifier) : Key := .octets i.octets

/-- The identifier in a key cell. -/
def Key.id : Key → Except Failure Identifier
  | .octets content =>
    match Identifier.ofOctets? content with
    | some i => .ok i
    | none => .error (.store (.keyLength content.length))
  | .text _ => .error (.store (.keyKind .text))
  | .integer _ => .error (.store (.keyKind .integer))
  | .null => .error (.store (.keyKind .null))

/-- The entry in a row. -/
def Row.entry (r : Row) : Except Failure Entry :=
  match r.key.id with
  | .ok i => .ok ⟨i, r.path⟩
  | .error e => .error e

/-- The row of an entry. -/
def Entry.row (e : Entry) : Row := ⟨Key.ofId e.id, e.path⟩

/-- What a new row has in common with one that exists. -/
inductive Clash where
  | path
  | key
deriving DecidableEq, Repr

namespace Table

/-! ## Reading -/

/-- Whether a row has the path. -/
def holdsPath (t : Table) (path : Text) : Bool := t.any (·.path == path)

/-- Whether a row has the key; an empty key counts as absent. -/
def holdsKey (t : Table) (key : Key) : Bool := key != .null && t.any (·.key == key)

/-- The row of a path. -/
def rowAt? (t : Table) (path : Text) : Option Row := t.find? (·.path == path)

/-- The identifier of a path. -/
def idAt (t : Table) (path : Text) : Except Failure (Option Identifier) :=
  match t.rowAt? path with
  | none => .ok none
  | some r =>
    match r.key.id with
    | .ok i => .ok (some i)
    | .error e => .error e

/-- The path of an identifier. -/
def pathOf? (t : Table) (i : Identifier) : Option Text :=
  (t.find? (·.key == Key.ofId i)).map (·.path)

/-- The rows in the order of their paths. -/
def byPath (t : Table) : List Row :=
  t.mergeSort fun r s => !Text.isBefore s.path r.path

/-- The entries of the rows, in their order, up to the first that has none. -/
def entriesOf : List Row → Except Failure (List Entry)
  | [] => .ok []
  | r :: rows =>
    match r.entry with
    | .error e => .error e
    | .ok entry =>
      match entriesOf rows with
      | .error e => .error e
      | .ok entries => .ok (entry :: entries)

/-- All entries in the order of their paths. -/
def entries (t : Table) : Except Failure (List Entry) := entriesOf t.byPath

/-- The rows whose path lies in the range. -/
def within (t : Table) (range : TextRange) : Table := t.filter (range.contains ·.path)

/-- The entries whose path lies in the range, in the order of their paths. -/
def entriesWithin (t : Table) (range : TextRange) : Except Failure (List Entry) :=
  (t.within range).entries

/-! ## Writing -/

/-- The table with one more row.  If both its path and its key are taken, the
path is the clash. -/
def add (t : Table) (r : Row) : Except Clash Table :=
  if t.holdsPath r.path then .error .path
  else if t.holdsKey r.key then .error .key
  else .ok (t ++ [r])

/-- The table with a row for a new entry. -/
def insert (t : Table) (i : Identifier) (path : Text) : Except Failure Table :=
  match t.add ⟨Key.ofId i, path⟩ with
  | .ok t => .ok t
  | .error .path => .error (.duplicatePath path)
  | .error .key => .error (.store .keyTaken)

/-- The table with a row of any content, written past the library. -/
def insertRaw (t : Table) (r : Row) : Except Failure Table :=
  match t.add r with
  | .ok t => .ok t
  | .error .path => .error (.store .pathTaken)
  | .error .key => .error (.store .keyTaken)

/-- Points the row of an identifier at a path and returns the number of rows
changed.  A row may be pointed at the path that it has. -/
def repoint (t : Table) (i : Identifier) (path : Text) : Except Failure (Nat × Table) :=
  let key := Key.ofId i
  if t.any (·.key == key) then
    if t.any fun r => r.path == path && r.key != key then .error (.duplicatePath path)
    else .ok (t.countP (·.key == key), t.map fun r => if r.key == key then ⟨r.key, path⟩ else r)
  else .ok (0, t)

/-- Removes the row of a path and returns the number of rows removed. -/
def eraseAt (t : Table) (path : Text) : Nat × Table :=
  (t.countP (·.path == path), t.filter (·.path != path))

/-- Removes the rows whose path lies in the range and returns their number. -/
def eraseWithin (t : Table) (range : TextRange) : Nat × Table :=
  (t.countP (range.contains ·.path), t.filter fun r => !range.contains r.path)

/-! ## Rerooting a range -/

/-- Visits the rows of `rest` in order and gives each the path that `target`
assigns to it, if any.  A row is refused when another row has that path at that
moment: one of `visited`, with the path it has by now, or one yet to be
visited. -/
def retarget? (target : Text → Option Text) (visited : Table) : (rest : Table) → Option Table
  | [] => some visited
  | r :: rest =>
    match target r.path with
    | none => retarget? target (visited ++ [r]) rest
    | some path =>
      if visited.holdsPath path || holdsPath rest path then none
      else retarget? target (visited ++ [⟨r.key, path⟩]) rest

/-- The first in the order of paths among the rerooted paths of the range that some
row of the table has. -/
def firstTaken? (t : Table) (range : TextRange) (reroot : Text → Text) : Option Text :=
  ((t.byPath.filter fun r =>
    (t.within range).any fun s => reroot s.path == r.path).map (·.path)).head?

/-- Gives every row in the range the path that consists of `start` and what
`remainder` leaves of its path, and returns the number of the rows.  If they
cannot be visited without a clash, nothing changes, and the failure names the
first rerooted path that is taken, or the new beginning if none is. -/
def rerootWithin (t : Table) (range : TextRange) (remainder : Text → Text) (start : Text) :
    Except Failure (Nat × Table) :=
  let reroot (path : Text) : Text := start ++ remainder path
  let target (path : Text) : Option Text :=
    if range.contains path then some (reroot path) else none
  match retarget? target [] t with
  | some t' => .ok (t.countP (range.contains ·.path), t')
  | none => .error (.duplicatePath ((t.firstTaken? range reroot).getD start))

end Table

end PathRegistry
