import PathRegistry.Table

/-!
# Actions on a table

An action reads and writes a table and takes fresh identifiers from a supply.
When a statement of an action fails, the action stops; what earlier statements
have written stays written.  `Action.atomically` runs an action as a whole: when
it fails, the table is as it was.  Identifiers that were taken stay taken.

On a table that is for reading only every statement that writes fails, even if it
would change nothing.
-/

namespace PathRegistry

/-- What an action works on. -/
structure Bench where
  /-- The table. -/
  table : Table
  /-- Whether the table may be written. -/
  writable : Bool
  /-- The fresh identifiers. -/
  supply : Supply

/-- A sequence of statements that ends with a value or a failure. -/
abbrev Action := EStateM Failure Bench

namespace Action

variable {α : Type}

/-- A statement that only reads. -/
def read (statement : Table → Except Failure α) : Action α := fun b =>
  match statement b.table with
  | .ok a => .ok a b
  | .error e => .error e b

/-- A statement that writes, and changes nothing if it fails. -/
def write (statement : Table → Except Failure (α × Table)) : Action α := fun b =>
  if b.writable then
    match statement b.table with
    | .ok (a, t) => .ok a { b with table := t }
    | .error e => .error e b
  else .error (.store .readOnly) b

/-- Takes a fresh identifier. -/
def fresh : Action Identifier := fun b =>
  .ok b.supply.next { b with supply := b.supply.rest }

/-- Adds a row for an entry. -/
def insert (i : Identifier) (path : Text) : Action Unit :=
  write fun t => (t.insert i path).map fun t => ((), t)

/-- All of an action or nothing of it. -/
def atomically (a : Action α) : Action α := fun b =>
  match a b with
  | .ok x b' => .ok x b'
  | .error e b' => .error e { b' with table := b.table }

end Action

end PathRegistry
