import PathRegistry.Relocation

/-!
# A connection and its transaction

Outside a transaction every statement is final at once.  `Connection.begin`
keeps the table as it is; until `commit` or `rollback` statements work on, and
`rollback` returns to the table that was kept.  There is one transaction at a
time.
-/

namespace PathRegistry

/-- A table under statements, with what a rollback returns to. -/
structure Connection where
  /-- The table as the next statement sees it. -/
  table : Table
  /-- The table at the beginning of the transaction, if one is open. -/
  kept : Option Table

namespace Connection

/-- A connection to a new empty table. -/
def empty : Connection := ⟨[], none⟩

/-- Opens a transaction. -/
def begin (c : Connection) : Except Failure Connection :=
  match c.kept with
  | none => .ok ⟨c.table, some c.table⟩
  | some _ => .error (.store .transactionInTransaction)

/-- Ends the transaction and keeps what was done. -/
def commit (c : Connection) : Except Failure Connection :=
  match c.kept with
  | some _ => .ok ⟨c.table, none⟩
  | none => .error (.store .commitOutsideTransaction)

/-- Ends the transaction and undoes what was done. -/
def rollback (c : Connection) : Except Failure Connection :=
  match c.kept with
  | some t => .ok ⟨t, none⟩
  | none => .error (.store .rollbackOutsideTransaction)

/-- Runs an action.  What its statements have written stays, whether or not the
action ends well. -/
def run {α : Type} (c : Connection) (supply : Supply) (a : Action α) :
    Except Failure α × Connection × Supply :=
  match a ⟨c.table, true, supply⟩ with
  | .ok x b => (.ok x, ⟨b.table, c.kept⟩, b.supply)
  | .error e b => (.error e, ⟨b.table, c.kept⟩, b.supply)

end Connection

end PathRegistry
