import PathRegistry.Address
import PathRegistry.Journal

/-!
# Opening a store

Opening a store by its name first makes the directories above it, as the name is
written.  Then the name is read as an address, and the address leads to a table
in memory or to a file.  The file is found by striking out `.` and `..` in the
name without looking at the disk, except that every place on the way has to be
one that a file can be looked for.

A file that is missing or blank becomes a store without rows, a store is opened
as it is, and every other file is refused.
-/

namespace PathRegistry

/-- The file name of a table in memory. -/
def memoryName : Text := ":memory:".toList

/-- What handles have to agree in so that they share a table in memory. -/
structure SharedName where
  /-- The backend. -/
  backend : Backend
  /-- Whether the table is in a shared cache, and not kept by the backend. -/
  cached : Bool
  /-- The name. -/
  name : Text
deriving DecidableEq, Repr

/-- What an address leads to. -/
inductive Site where
  /-- A table in memory for one handle alone. -/
  | alone (writable : Bool)
  /-- A table in memory that handles share.  If there is one it may be writable
  even for those that could not make it. -/
  | shared (name : SharedName) (creates writable : Bool)
  /-- A file and how it is used.  Handles with one cache use it alike. -/
  | file (l : Location) (use : FileUse) (cache : Option Backend)
deriving DecidableEq, Repr

/-- What a handle on an opened store holds. -/
inductive Held where
  /-- A table of its own. -/
  | own (table : Table)
  /-- A table that others hold too. -/
  | shared (name : SharedName) (writable : Bool)
  /-- A table that does not change. -/
  | fixed (table : Table)
  /-- The table of a file, perhaps with a cache that others use too. -/
  | file (l : Location) (use : FileUse) (cache : Option Backend)
deriving DecidableEq

namespace Address

/-- Whether the table is kept in memory by request, whatever the backend. -/
def isInMemory (a : Address) : Bool :=
  a.name == memoryName || a.access == .memory

/-- Whether the backend keeps a table for all who ask for it by name. -/
def isKeptByName (a : Address) : Bool :=
  a.backend == .memory && match a.name with
    | c :: _ :: _ => Text.isSeparator c
    | _ => false

/-- The table in memory that an address means, if it means none in a file. -/
def memorySite? (a : Address) : Option Site :=
  let writable := a.access != .readOnly
  if a.name = [] then some (.alone writable)
  else if a.isInMemory then
    if a.shared then some (.shared ⟨a.backend, true, a.name⟩ writable true)
    else some (.alone writable)
  else if a.backend = .memory then
    let writable := writable && !a.immutable
    if a.isKeptByName then
      some (.shared ⟨.memory, false, a.name⟩ writable (writable || a.shared))
    else if a.shared then some (.shared ⟨.memory, true, a.name⟩ writable true)
    else some (.alone writable)
  else none

/-- How the file of an address is used. -/
def fileUse (a : Address) : FileUse :=
  let writable := a.access != .readOnly
  if a.immutable then .frozen
  else if a.noLock then .direct writable
  else
    match a.backend with
    | .plain => .logged writable true
    | .exclusive => .logged writable false
    | _ => .direct writable

end Address

namespace Location

/-- The octets of the name of a place, taken from the root. -/
def octets (l : Location) : Nat :=
  l.foldl (fun n name => n + 1 + Text.utf8Length name) 0

/-- The octets that the name of a store's file may have together with those of
what lies beside it. -/
def longest : Nat := 512

end Location

namespace Disk

/-! ## Finding the file -/

/-- Whether the places of a disk are such that nothing can be looked for at a
place, not even in vain. -/
def isBarred (d : Disk) (l : Location) : Bool :=
  match d.follow [] l with
  | .error .notFound => false
  | .error _ => true
  | .ok _ => false

/-- The place reached from `l` by the steps of a name, `.` and `..` being struck
out. -/
def strikeOut (d : Disk) (l : Location) : List Text → Option Location
  | [] => some l
  | name :: names =>
    if name = [] ∨ name = ['.'] then d.strikeOut l names
    else if name = ['.', '.'] then d.strikeOut l.dropLast names
    else if l.octets + Text.utf8Length name + 1 < Location.longest then
      if d.isBarred (l ++ [name]) then none else d.strikeOut (l ++ [name]) names
    else none

/-- The place of the file that a store's file name means. -/
def filePlace? (d : Disk) (working : Location) (name : Text) : Option Location :=
  match d.strikeOut (base working (Text.isRooted name)) (Text.steps name) with
  | some l => if l ≠ [] ∧ l.octets + 8 ≤ Location.longest then some l else none
  | none => none

/-- Whether a file can be made at a place where there is none. -/
def canCreate (d : Disk) (l : Location) : Bool :=
  d.node? l.dropLast == some .directory

/-- The disk with a file at a place, made if it is missing and may be made.
`given` is what a refusal shows. -/
def withFile (d : Disk) (l : Location) (access : Access) (given : Text) :
    Except Failure Disk :=
  match d.node? l with
  | some .directory =>
    .error (.store (if access = .readOnly then .unreadable else .cannotOpen given))
  | some _ => .ok d
  | none =>
    if access = .create && d.canCreate l then .ok (d.put l (.document []))
    else .error (.store (.cannotOpen given))

/-- The use of a file that a user gets.  Who cannot keep the index of a log may
only read. -/
def grantedUse (d : Disk) (l : Location) : FileUse → FileUse
  | .logged true true => .logged (d.node? l.index != some .directory) true
  | use => use

/-- What the name of a store leads to. -/
def site (d : Disk) (working : Location) (given : Text) : Except Failure Site × Disk :=
  if given.contains '\x00' then
    (.error (.store (.nulInName (Text.utf8Length (given.takeWhile (· != '\x00'))))), d)
  else
    match Address.ofText given with
    | .error e => (.error (.store e), d)
    | .ok a =>
      match a.memorySite? with
      | some s => (.ok s, d)
      | none =>
        match d.filePlace? working a.name with
        | none => (.error (.store (.cannotOpen given)), d)
        | some l =>
          match d.withFile l a.access given with
          | .error e => (.error e, d)
          | .ok d' =>
            match d'.sweep l a.fileUse with
            | .error e => (.error e, d')
            | .ok d'' =>
              let cache := if a.shared then some a.backend else none
              (.ok (.file l (d''.grantedUse l a.fileUse) cache), d'')

/-! ## Setting the store up -/

/-- Begins to use the file at a place as a store. -/
def setUpFile (d : Disk) (l : Location) (use : FileUse) (cache : Option Backend) :
    Except Failure Held × Disk :=
  let held : Held := .file l use cache
  match d.found l use with
  | .error e => (.error e, d)
  | .ok none =>
    if !use.writable then (.error (.store .readOnly), d)
    else if d.isBlankAt l && d.hasLog l then (.error (.store .locked), d)
    else if !d.canKeepJournal l then (.error (.store .unavailable), d)
    else
      match use with
      | .logged _ indexed =>
        (.ok held,
          ((d.change l (.store none true)).keepLog l indexed).put l.log (.log (some [])))
      | _ => (.ok held, d.change l (.store (some []) false))
  | .ok (some t) =>
    match use, d.node? l with
    | .frozen, _ => (.ok (.fixed t), d)
    | .direct _, _ => (.ok held, d)
    | .logged false _, some (.store _ false) => (.error (.store .readOnly), d)
    | .logged true indexed, some (.store _ false) =>
      (.ok held, (d.change l (.store (some t) true)).keepLog l indexed)
    | .logged _ indexed, _ => (.ok held, d.keepLog l indexed)

/-- Makes the directories above the store of a name and finds out where the name
leads.  Directories that were made stay, even if the store is refused. -/
def approach (d : Disk) (working : Location) (name : Text) : Except Failure Site × Disk :=
  match (Route.ofText name).parent? with
  | none => (.error (.noDirectory name), d)
  | some parent =>
    match d.makeRoute working parent with
    | (.error e, d') => (.error (.file e), d')
    | (.ok (), d') => d'.site working name

end Disk

end PathRegistry
