import PathRegistry.Action

/-!
# Moving, copying and deleting what lies below a path

The descendants of a path are the rows in the range of its subtree.  Moving
keeps their identifiers and gives them new paths, copying adds rows with fresh
identifiers, deleting removes them; the path itself is left alone by all three.

In general a descendant keeps what follows the stem of the source, so one
statement reroots the whole range.  It takes paths without NUL: of a path with
one, the store would keep only what stands before it.  Below a path made of
parent steps only, what follows the stem may itself start with parent steps,
which have to be resolved against the target; these rows are moved one by one,
in the order of their paths.
-/

namespace PathRegistry

/-- A row that a copy has added. -/
structure CopiedEntry where
  /-- The identifier of the entry that was copied. -/
  source : Identifier
  /-- The identifier of the new entry. -/
  id : Identifier
  /-- The path of the new entry. -/
  path : Text
deriving DecidableEq

namespace Relocation

/-- Points each entry at the path it has after the change of subtree, one after
the other. -/
def repointAll (source target : Subtree) : List Entry → Action Unit
  | [] => pure ()
  | e :: entries => do
    match source.carry? e.path target with
    | some path => discard <| Action.write fun t => t.repoint e.id path
    | none => pure ()
    repointAll source target entries

/-- Moves the descendants of `source` below `target` and returns their number. -/
def move (source target : Path) : Action Nat := do
  let origin := Subtree.below source
  let destination := Subtree.below target
  if origin.isEmpty then
    return 0
  else if source.climbsOnly then
    let entries ← Action.read fun t => t.entriesWithin origin.range
    repointAll origin destination entries
    return entries.length
  else
    Action.write fun t =>
      t.rerootWithin origin.range (·.drop origin.stem.length) destination.stem

/-- The copies of the entries, each with a fresh identifier and the path it has
after the change of subtree. -/
def prepareCopies (source target : Subtree) : List Entry → Action (List CopiedEntry)
  | [] => pure []
  | e :: entries => do
    match source.carry? e.path target with
    | some path =>
      let i ← Action.fresh
      let copies ← prepareCopies source target entries
      return ⟨e.id, i, path⟩ :: copies
    | none => prepareCopies source target entries

/-- Adds rows for the entries, one after the other. -/
def insertAll : List Entry → Action Unit
  | [] => pure ()
  | e :: entries => do
    Action.insert e.id e.path
    insertAll entries

/-- Copies the descendants of `source` below `target`, in the order of their
paths. -/
def copy (source target : Path) : Action (List CopiedEntry) := do
  let origin := Subtree.below source
  if origin.isEmpty then
    return []
  else
    let entries ← Action.read fun t => t.entriesWithin origin.range
    let copies ← prepareCopies origin (Subtree.below target) entries
    insertAll (copies.map fun c => ⟨c.id, c.path⟩)
    return copies

/-- Deletes the descendants of a path and returns their number. -/
def delete (root : Path) : Action Nat := do
  let subtree := Subtree.below root
  if subtree.isEmpty then
    return 0
  else
    Action.write fun t => .ok (t.eraseWithin subtree.range)

end Relocation

end PathRegistry
