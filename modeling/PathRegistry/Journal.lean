import PathRegistry.Disk

/-!
# Stores and what lies beside them

A store is used in one of three ways.  In the usual one its changes go to a log
that lies beside the file while anyone uses the store; the last user settles
them in the file and removes the log together with its index.  In the second
way, which does without locks that the log would need, changes go to the file
itself.  In the third the file is trusted not to change, and is read as it is.

A store stays the kind of store that it has become: one with a log can no longer
be used without.

A journal lies beside a store only while its file is being changed.  What lies
beside a file that nobody uses, or lies where a log or a journal should be, is
swept away by the next user or keeps the store from being used.
-/

namespace PathRegistry

/-- How the file of a store is used. -/
inductive FileUse where
  /-- With a log beside the file, which may need an index. -/
  | logged (writable indexed : Bool)
  /-- By changing the file itself. -/
  | direct (writable : Bool)
  /-- As a file that does not change. -/
  | frozen
deriving DecidableEq, Repr

namespace FileUse

/-- Whether the store may be changed. -/
def writable : FileUse → Bool
  | logged w _ => w
  | direct w => w
  | frozen => false

/-- Whether a log is kept beside the file. -/
def isLogged : FileUse → Bool
  | logged .. => true
  | _ => false

end FileUse

namespace Location

/-- The place in the same directory with more at the end of its name. -/
def beside (l : Location) (ending : Text) : Location :=
  l.dropLast ++ (l.drop (l.length - 1)).map (· ++ ending)

/-- The place of the log of a store. -/
def log (l : Location) : Location := l.beside "-wal".toList

/-- The place of the index of that log. -/
def index (l : Location) : Location := l.beside "-shm".toList

/-- The place of the journal of a change to the file of a store. -/
def journal (l : Location) : Location := l.beside "-journal".toList

end Location

namespace Disk

/-- Whether the content of a file is that of a store which nothing was written
into yet. -/
def isBlank (content : List UInt8) : Bool := content.length ≤ 1

/-- Whether a place holds a document in which nothing was written yet. -/
def isBlankAt (d : Disk) (l : Location) : Bool :=
  match d.node? l with
  | some (.document content) => isBlank content
  | _ => false

/-- The table after the changes that are only in the log. -/
def pending? (d : Disk) (l : Location) : Option Table :=
  match d.node? l.log with
  | some (.log pending) => pending
  | _ => none

/-- The table that is settled in a file, or nothing if there is none yet.  An empty
log is a blank file like any other. -/
def settled (d : Disk) (l : Location) : Except Failure (Option Table) :=
  match d.node? l with
  | some (.store settled _) => .ok settled
  | some (.document content) => if isBlank content then .ok none else .error (.store .notAStore)
  | some (.log none) | none => .ok none
  | _ => .error (.store .notAStore)

/-- The table that somebody finds who begins to use a file in the given way, or
nothing if there is no table yet. -/
def found (d : Disk) (l : Location) : FileUse → Except Failure (Option Table)
  | .frozen => d.settled l
  | .direct _ =>
    match d.node? l with
    | some (.store _ true) => .error (.store .unavailable)
    | _ =>
      if (d.pending? l).isSome && !d.isBlankAt l then .error (.store .unavailable)
      else d.settled l
  | .logged .. =>
    match d.pending? l with
    | none => d.settled l
    | some t => if d.isBlankAt l then .ok none else .ok (some t)

/-- The table that a user of a file works on. -/
def current (d : Disk) (l : Location) : FileUse → Except Failure Table
  | .logged .. =>
    match d.pending? l with
    | some t => .ok t
    | none =>
      match d.node? l with
      | some (.store (some t) _) => .ok t
      | _ => .error (.store .malformed)
  | use =>
    match d.found l use with
    | .ok (some t) => .ok t
    | .ok none => .error (.store .noTable)
    | .error e => .error e

/-! ## Changes -/

/-- The disk with a log and an index beside a store.  What is there already stays. -/
def keepLog (d : Disk) (l : Location) (indexed : Bool) : Disk :=
  match d.node? l.log with
  | some (.log _) => d
  | _ =>
    let d := d.put l.log (.log none)
    if indexed && d.node? l.index != some .directory then d.put l.index .index else d

/-- The disk after the file of a store was changed.  The journal of the change
takes the place of whatever lay there. -/
def change (d : Disk) (l : Location) (n : Node) : Disk := (d.remove l.journal).put l n

/-- The disk after a user of a file has changed the table. -/
def record (d : Disk) (l : Location) (use : FileUse) (t : Table) : Disk :=
  match use, d.node? l with
  | .logged .., some (.store _ false) => d.change l (.store (some t) false)
  | .logged .., _ => d.put l.log (.log (some t))
  | _, _ => d.change l (.store (some t) false)

/-- The disk after the last user of a file has left: what was only in the log is
settled, and neither log nor index lies beside the file. -/
def settle (d : Disk) (l : Location) : Disk :=
  let d := match d.pending? l with
    | some t => d.put l (.store (some t) true)
    | none => d
  (d.remove l.log).remove l.index

/-! ## Sweeping -/

/-- Whether somebody uses the file with a log. -/
def hasLog (d : Disk) (l : Location) : Bool :=
  match d.node? l.log with
  | some (.log _) => true
  | _ => false

/-- The disk after a new user has looked for a journal. -/
def sweepJournal (d : Disk) (l : Location) (use : FileUse) : Except Failure Disk :=
  match d.node? l.journal with
  | some .directory => if d.isBlankAt l then .ok d else .error (.store .unreadable)
  | some (.document (_ :: _)) =>
    if !d.isBlankAt l && d.hasLog l then .error (.store .locked)
    else if use.writable then .ok (d.remove l.journal)
    else if d.isBlankAt l then .ok d
    else .error (.store .readOnly)
  | _ => .ok d

/-- The disk after a new user has looked for a log. -/
def sweepLog (d : Disk) (l : Location) (use : FileUse) : Except Failure Disk :=
  match d.node? l.log with
  | some .directory =>
    .error (.store (if d.isBlankAt l then .unreadable else .unavailable))
  | some (.document (_ :: _)) =>
    if d.isBlankAt l || use.isLogged then .ok (d.remove l.log)
    else .error (.store .unavailable)
  | _ => .ok d

/-- The disk after a new user has looked for what others left beside a file. -/
def sweep (d : Disk) (l : Location) (use : FileUse) : Except Failure Disk :=
  if use = .frozen then .ok d
  else
    match d.sweepJournal l use with
    | .error e => .error e
    | .ok d => d.sweepLog l use

/-- Whether a journal can be kept beside a file. -/
def canKeepJournal (d : Disk) (l : Location) : Bool :=
  (l.journal.getLast?.all fun name => Text.utf8Length name ≤ longestStep) &&
    d.node? l.journal != some .directory

end Disk

end PathRegistry
