import PathRegistry.Relocation

/-!
# The registry: calls on a table

A `Call` is one request to the registry and an `Answer` what it yields.  Every
call normalizes the paths it is given and happens as a whole: if it fails, the
table is as before.

* `index` yields the identifier of a path and gives it a fresh one the first
  time; `indexAll` does so for several paths.
* `insert` records a path under a given or fresh identifier and refuses a path
  that has one.
* `move` points the entry of a path at another path.  If there is no such entry,
  the other path is indexed.
* `copy` gives the target a fresh identifier and indexes the source on the way.
* `delete` forgets a path.

The last three also carry along what lies below the path, when asked to.
-/

namespace PathRegistry

/-- What a copy has added: the row of the target first. -/
structure CopyReport where
  /-- The copy of the path itself. -/
  root : CopiedEntry
  /-- The copies of what lay below it, in the order of the source paths. -/
  descendants : List CopiedEntry
deriving DecidableEq

/-- All copies of a report, the path itself first. -/
def CopyReport.entries (r : CopyReport) : List CopiedEntry := r.root :: r.descendants

namespace Registry

/-- The identifier of a path, a fresh one if it has none. -/
def indexPath (p : Path) : Action Identifier := do
  match ← Action.read fun t => t.idAt p.text with
  | some i => return i
  | none =>
    let i ← Action.fresh
    Action.insert i p.text
    return i

/-- The identifiers of several paths, one after the other. -/
def indexPaths : List Path → Action (List Identifier)
  | [] => pure []
  | p :: ps => do
    let i ← indexPath p
    let is ← indexPaths ps
    return i :: is

/-- Points the entry of `source` at `target`, or indexes `target` if `source` has
no entry. -/
def movePath (source target : Path) : Action Identifier := do
  match ← Action.read fun t => t.idAt source.text with
  | some i =>
    discard <| Action.write fun t => t.repoint i target.text
    return i
  | none => indexPath target

/-- The identifier of a path, indexing it if needed. -/
def index (path : Text) : Action Identifier :=
  Action.atomically (indexPath (Path.ofText path))

/-- The identifiers of several paths, indexing them if needed. -/
def indexAll (paths : List Text) : Action (List Identifier) :=
  Action.atomically (indexPaths (paths.map Path.ofText))

/-- Records a path under the given identifier or a fresh one. -/
def insert (path : Text) (id? : Option Identifier) : Action Identifier :=
  Action.atomically do
    let i ← match id? with
      | some i => pure i
      | none => Action.fresh
    Action.insert i (normalize path)
    return i

/-- The identifier of a path, if it has one. -/
def lookUp (path : Text) : Action (Option Identifier) :=
  Action.read fun t => t.idAt (normalize path)

/-- The path of an identifier, if it has one. -/
def locate (i : Identifier) : Action (Option Text) :=
  Action.read fun t => .ok (t.pathOf? i)

/-- Records a rename and yields the identifier that the target has then. -/
def move (source target : Text) (recursive : Bool) : Action Identifier :=
  Action.atomically do
    let source := Path.ofText source
    let target := Path.ofText target
    if recursive then
      discard <| Relocation.move source target
    movePath source target

/-- Records a copy and yields what it has added. -/
def copy (source target : Text) (recursive : Bool) : Action CopyReport :=
  Action.atomically do
    let source := Path.ofText source
    let target := Path.ofText target
    let descendants ← if recursive then Relocation.copy source target else pure []
    let sourceId ← indexPath source
    let i ← Action.fresh
    Action.insert i target.text
    return ⟨⟨sourceId, i, target.text⟩, descendants⟩

/-- Forgets a path. -/
def delete (path : Text) (recursive : Bool) : Action Unit :=
  Action.atomically do
    let path := Path.ofText path
    if recursive then
      discard <| Relocation.delete path
    discard <| Action.write fun t => .ok (t.eraseAt path.text)

/-- All entries in the order of their paths. -/
def entries : Action (List Entry) :=
  Action.read fun t => t.entries

/-- The number of rows. -/
def count : Action Nat :=
  Action.read fun t => .ok t.length

end Registry

/-- A request to the registry. -/
inductive Call where
  | index (path : Text)
  | indexAll (paths : List Text)
  | insert (path : Text) (id? : Option Identifier)
  | lookUp (path : Text)
  | locate (id : Identifier)
  | move (source target : Text) (recursive : Bool)
  | copy (source target : Text) (recursive : Bool)
  | delete (path : Text) (recursive : Bool)
  | entries
  | count
deriving DecidableEq

/-- What a request yields. -/
inductive Answer where
  | nothing
  | id (id : Identifier)
  | ids (ids : List Identifier)
  | id? (id : Option Identifier)
  | path? (path : Option Text)
  | copied (report : CopyReport)
  | entries (entries : List Entry)
  | count (n : Nat)
deriving DecidableEq

/-- What a request does. -/
def Call.action : Call → Action Answer
  | .index path => .id <$> Registry.index path
  | .indexAll paths => .ids <$> Registry.indexAll paths
  | .insert path i => .id <$> Registry.insert path i
  | .lookUp path => .id? <$> Registry.lookUp path
  | .locate i => .path? <$> Registry.locate i
  | .move source target recursive => .id <$> Registry.move source target recursive
  | .copy source target recursive => .copied <$> Registry.copy source target recursive
  | .delete path recursive => (fun _ => .nothing) <$> Registry.delete path recursive
  | .entries => .entries <$> Registry.entries
  | .count => .count <$> Registry.count

end PathRegistry
