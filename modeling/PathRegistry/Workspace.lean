import PathRegistry.Opening
import PathRegistry.Registry

/-!
# Handles on stores

A workspace has a disk and handles on opened stores, by name.  Several handles
may hold the same file; each call works on the table that the file has at that
time and leaves its changes there, so they see each other's work.  The last of
them to be given up settles the store.  Tables in memory belong to a single
handle or are shared by name, and are gone with the last handle on them.

A handle may be observed.  Then each successful copy through it is reported, the
copied path first.
-/

namespace PathRegistry

/-- An opened store. -/
structure Handle where
  /-- What it holds. -/
  held : Held
  /-- Whether its copies are reported. -/
  observed : Bool
deriving DecidableEq

/-- A disk with the handles on its stores. -/
structure Workspace where
  /-- The disk. -/
  disk : Disk
  /-- The directory that file names are taken from. -/
  working : Location
  /-- The open handles by name. -/
  handles : List (Text × Handle)
  /-- The tables in memory that are shared. -/
  shared : List (SharedName × Table)
  /-- The fresh identifiers. -/
  supply : Supply

/-- What a step yields. -/
inductive Outcome where
  /-- There is no such handle. -/
  | notOpen
  /-- Nothing was changed in any table. -/
  | failed (failure : Failure)
  /-- The answer, and each report that an observer got. -/
  | done (answer : Answer) (reports : List CopyReport)
deriving DecidableEq

/-- Something done in a workspace. -/
inductive Step where
  /-- A call through a handle. -/
  | call (handle : Text) (c : Call)
  /-- From now on copies through the handle are reported. -/
  | observe (handle : Text)
  /-- Opens a store under a handle, which keeps what it had if that fails. -/
  | openFile (handle name : Text)
  /-- Opens a new private table under a handle. -/
  | openMemory (handle : Text)
  /-- Gives the handle up. -/
  | close (handle : Text)
  /-- Writes a document. -/
  | writeDocument (name : Text) (content : List UInt8)
  /-- Writes a row past the library. -/
  | insertRaw (name : Text) (row : Row)
deriving DecidableEq

/-- The result of running an action on a table: what it yields, the table it
leaves and the identifiers that are left. -/
def Action.on {α : Type} (a : Action α) (t : Table) (writable : Bool) (supply : Supply) :
    Except Failure α × Table × Supply :=
  match a ⟨t, writable, supply⟩ with
  | .ok x b => (.ok x, b.table, b.supply)
  | .error e b => (.error e, b.table, b.supply)

/-- The reports in an answer. -/
def Answer.reports : Answer → List CopyReport
  | .copied report => [report]
  | _ => []

namespace Held

/-- Whether the table may be changed. -/
def writable : Held → Bool
  | own _ => true
  | shared _ w => w
  | fixed _ => false
  | file _ use _ => use.writable

/-- Whether two handles hold the same thing that has to be tidied up behind the
last of them. -/
def sharesWith : Held → Held → Bool
  | file l use _, file l' use' _ => l == l' && use.isLogged && use'.isLogged
  | shared name _, shared name' _ => name == name'
  | _, _ => false

end Held

namespace Workspace

/-! ## Handles -/

/-- A workspace without handles. -/
def ofDisk (d : Disk) (working : Location) (supply : Supply) : Workspace :=
  ⟨d, working, [], [], supply⟩

/-- The handle of a name. -/
def handle? (w : Workspace) (name : Text) : Option Handle := w.handles.lookup name

/-- The workspace after something that was held is held by one handle less. -/
def leave (w : Workspace) (held : Held) : Workspace :=
  if w.handles.any fun h => held.sharesWith h.2.held then w
  else
    match held with
    | .file l (.logged true _) _ => { w with disk := w.disk.settle l }
    | .shared name _ => { w with shared := w.shared.filter (·.1 != name) }
    | _ => w

/-- The workspace with what a handle is put in place, and nothing else. -/
def put (w : Workspace) (name : Text) (h : Handle) : Workspace :=
  { w with handles := (name, h) :: w.handles.filter fun h => h.1 != name }

/-- The workspace without a handle. -/
def release (w : Workspace) (name : Text) : Workspace :=
  match w.handle? name with
  | none => w
  | some h => { w with handles := w.handles.filter fun h => h.1 != name }.leave h.held

/-- The workspace with a new handle.  The one that had the name is given up after
the new one has come. -/
def hold (w : Workspace) (name : Text) (h : Handle) : Workspace :=
  match w.handle? name with
  | none => w.put name h
  | some old => (w.put name h).leave old.held

/-! ## Tables -/

/-- The table of what is held. -/
def table (w : Workspace) : Held → Except Failure Table
  | .own t => .ok t
  | .fixed t => .ok t
  | .shared name _ =>
    match w.shared.lookup name with
    | some t => .ok t
    | none => .error (.store .noTable)
  | .file l use _ => w.disk.current l use

/-- The workspace with a shared table changed to `t`. -/
def recordShared (w : Workspace) (name : SharedName) (t : Table) : Workspace :=
  { w with shared := w.shared.map fun p => if p.1 == name then (name, t) else p }

/-- The workspace with the table of a handle changed to `t`. -/
def record (w : Workspace) (name : Text) (h : Handle) (t : Table) : Workspace :=
  match h.held with
  | .own _ => w.put name { h with held := .own t }
  | .fixed _ => w
  | .shared shared _ => w.recordShared shared t
  | .file l use _ => { w with disk := w.disk.record l use t }

/-- A call through a handle.  What keeps the table is written only if the call
changes it. -/
def call (w : Workspace) (name : Text) (c : Call) : Outcome × Workspace :=
  match w.handle? name with
  | none => (.notOpen, w)
  | some h =>
    match w.table h.held with
    | .error e => (.failed e, w)
    | .ok t =>
      let (result, t', supply) := c.action.on t h.held.writable w.supply
      let w' := if t' = t then w else w.record name h t'
      let w' := { w' with supply := supply }
      match result with
      | .error e => (.failed e, w')
      | .ok answer => (.done answer (if h.observed then answer.reports else []), w')

/-! ## Opening -/

/-- How a file is used by the handles on it that share a cache. -/
def cachedUse? (w : Workspace) (l : Location) (cache : Option Backend) : Option FileUse :=
  w.handles.findSome? fun h =>
    match h.2.held with
    | .file l' use cache' => if cache.isSome && l == l' && cache == cache' then some use else none
    | _ => none

/-- Opens the store of a name under a handle, which keeps what it had if that
fails. -/
def openStore (w : Workspace) (handle name : Text) : Except Failure Unit × Workspace :=
  match w.disk.approach w.working name with
  | (.error e, d) => (.error e, { w with disk := d })
  | (.ok site, d) =>
    let w := { w with disk := d }
    match site with
    | .alone writable =>
      if writable then (.ok (), w.hold handle ⟨.own [], false⟩)
      else (.error (.store .readOnly), w)
    | .shared shared creates writable =>
      if (w.shared.lookup shared).isSome then
        (.ok (), w.hold handle ⟨.shared shared writable, false⟩)
      else if creates then
        (.ok (), { w with shared := (shared, []) :: w.shared }.hold handle
          ⟨.shared shared true, false⟩)
      else (.error (.store .readOnly), w)
    | .file l use cache =>
      match w.cachedUse? l cache with
      | some use => (.ok (), w.hold handle ⟨.file l use cache, false⟩)
      | none =>
        match w.disk.setUpFile l use cache with
        | (.ok held, d) => (.ok (), { w with disk := d }.hold handle ⟨held, false⟩)
        | (.error e, d) => (.error e, { w with disk := d })

/-! ## Writing past the library -/

/-- Writes a row of any content into a table, if it may be written. -/
def insertInto (t : Table) (writable : Bool) (r : Row) : Except Failure Table :=
  if writable then t.insertRaw r else .error (.store .readOnly)

/-- Writes a row of any content into the store of a file.  Whoever does this uses
the file as a handle would, and leaves at once. -/
def insertIntoFile (w : Workspace) (l : Location) (use : FileUse) (r : Row) :
    Except Failure Unit × Workspace :=
  match w.disk.found l use with
  | .error e => (.error e, w)
  | .ok none => (.error (.store .noTable), w)
  | .ok (some t) =>
    let changed := insertInto t use.writable r
    let result := changed.map fun _ => ()
    let record (d : Disk) : Disk :=
      match changed with
      | .ok t => d.record l use t
      | .error _ => d
    match use, w.disk.node? l with
    | .logged .., some (.store _ false) => (result, { w with disk := record w.disk })
    | .logged _ indexed, _ =>
      (result, { w with disk := record (w.disk.keepLog l indexed) }.leave (.file l use none))
    | _, _ => (result, { w with disk := record w.disk })

/-- Writes a row of any content into the store of a name.  Neither directories nor
a table are made, though an empty file is if there is none. -/
def insertRaw (w : Workspace) (name : Text) (r : Row) : Except Failure Unit × Workspace :=
  match w.disk.site w.working name with
  | (.error e, d) => (.error e, { w with disk := d })
  | (.ok (.alone _), d) => (.error (.store .noTable), { w with disk := d })
  | (.ok (.shared shared _ writable), d) =>
    let w := { w with disk := d }
    match w.shared.lookup shared with
    | none => (.error (.store .noTable), w)
    | some t =>
      match insertInto t writable r with
      | .error e => (.error e, w)
      | .ok t => (.ok (), w.recordShared shared t)
  | (.ok (.file l use cache), d) =>
    { w with disk := d }.insertIntoFile l ((w.cachedUse? l cache).getD use) r

/-! ## Steps -/

/-- One step in a workspace. -/
def step (w : Workspace) : Step → Outcome × Workspace
  | .call name c => w.call name c
  | .observe name =>
    match w.handle? name with
    | none => (.notOpen, w)
    | some h => (.done .nothing [], w.put name { h with observed := true })
  | .openFile handle name =>
    match w.openStore handle name with
    | (.ok (), w) => (.done .nothing [], w)
    | (.error e, w) => (.failed e, w)
  | .openMemory handle => (.done .nothing [], w.hold handle ⟨.own [], false⟩)
  | .close handle =>
    match w.handle? handle with
    | none => (.notOpen, w)
    | some _ => (.done .nothing [], w.release handle)
  | .writeDocument name content =>
    match w.disk.writeDocument w.working name content with
    | (.ok (), d) => (.done .nothing [], { w with disk := d })
    | (.error e, d) => (.failed (.file e), { w with disk := d })
  | .insertRaw name r =>
    match w.insertRaw name r with
    | (.ok (), w) => (.done (.count 1) [], w)
    | (.error e, w) => (.failed e, w)

end Workspace

end PathRegistry
