import PathRegistry.Proofs.Copying
import PathRegistry.Proofs.Retention

/-!
# The identifiers that calls return

Indexing, inserting, moving and copying return the identifier of a path that the caller has
named, the target in the last two cases.  They find it out at different times: an index may have
found it in the table, a move looks it up while the rows below the source have been carried
already, and indexing several paths goes on adding rows after the first identifier is known.

In every case the table that the call leaves has a row with that identifier and that path.  On a
consistent table nothing else is needed: the identifier leads to the path, and whatever text
means the same path leads to the identifier.

## Main statements

* `Call.grants` — the rows of the identifiers that a call returns.
* `Table.Reachable.granted_resolve` — they resolve, and only for their own paths.
-/

namespace PathRegistry

open PathRegistry.Action Subtree Table

/-! ## What is asked for and what is returned -/

/-- The paths whose identifiers a call returns, in the order in which it returns them. -/
def Call.requested : Call → List Text
  | .index path => [path]
  | .indexAll paths => paths
  | .insert path _ => [path]
  | .move _ target _ => [target]
  | .copy _ target _ => [target]
  | .lookUp _ | .locate _ | .delete .. | .entries | .count => []

/-- The identifiers that an answer gives for the paths of its call. -/
def Answer.granted : Answer → List Identifier
  | .id i => [i]
  | .ids is => is
  | .copied report => [report.root.id]
  | .nothing | .id? _ | .path? _ | .entries _ | .count _ => []

/-- Whoever asks for the path of the identifier is told the normal form of `path`, and whoever
asks for the identifier of a text is told this one just if the text means the same path. -/
def Table.Resolves (t : Table) (i : Identifier) (path : Text) : Prop :=
  ∀ writable supply,
    ((Registry.locate i).on t writable supply).1 = .ok (some (normalize path)) ∧
      ∀ text, ((Registry.lookUp text).on t writable supply).1 = .ok (some i) ↔
        normalize text = normalize path

/-- **A row resolves**: on a consistent table its identifier and its path lead to each other. -/
theorem Table.Consistent.resolves {t : Table} (h : t.Consistent) {i : Identifier} {path : Text}
    (hRow : ⟨Key.ofId i, normalize path⟩ ∈ t) : t.Resolves i path := by
  intro writable supply
  constructor
  · rw [Registry.locate, read_on, Except.ok.injEq, h.pathOf?_eq_some]
    exact hRow
  · intro text
    rw [Registry.lookUp, read_on, h.idAt_eq_some]
    constructor
    · intro hText
      exact congrArg Row.path (h.eq_of_key hText hRow rfl)
    · intro hSame
      rw [hSame]
      exact hRow

/-! ## The rows of the identifiers -/

namespace Registry

variable {t : Table} {i : Identifier} {writable : Bool} {supply : Supply} {b b' : Bench}

/-- Each of several paths has its row in the end: what is indexed later only adds rows. -/
theorem indexPaths_grants {ps : List Path} {is : List Identifier} (hps : ∀ p ∈ ps, p.IsNormal)
    (h : b.table.Consistent) (hRun : indexPaths ps b = .ok is b') :
    List.Forall₂ (fun i p => ⟨Key.ofId i, p.text⟩ ∈ b'.table) is ps := by
  induction ps generalizing is b with
  | nil =>
    obtain ⟨rfl, -⟩ := pure_eq_ok.mp hRun
    exact .nil
  | cons p ps ih =>
    obtain ⟨i, c, hFirst, hRun⟩ := bind_eq_ok.mp hRun
    obtain ⟨js, d, hRest, hRun⟩ := bind_eq_ok.mp hRun
    obtain ⟨rfl, rfl⟩ := pure_eq_ok.mp hRun
    have hCons : c.table.Consistent := by
      have hKept := keeps_indexPath (hps p List.mem_cons_self) b h
      rwa [hFirst] at hKept
    have hRow : ⟨Key.ofId i, p.text⟩ ∈ c.table := (indexPath_adds h hFirst).2.1
    have hStays : Retains ⟨Key.ofId i, p.text⟩ (indexPaths ps) :=
      Keeps.indexPaths fun q _ j => Action.insert_retains _ j q.text
    have hStays := hStays c hRow
    rw [hRest] at hStays
    exact .cons hStays (ih (fun q hq => hps q (List.mem_cons_of_mem p hq)) hCons hRest)

theorem insert_grants {path : Text} {id? : Option Identifier}
    (hRun : insert path id? b = .ok i b') : ⟨Key.ofId i, normalize path⟩ ∈ b'.table := by
  have hStatement {j : Identifier} {c : Bench}
      (hRun : (do Action.insert j (normalize path); return j : Action Identifier) c = .ok i b') :
      ⟨Key.ofId i, normalize path⟩ ∈ b'.table := by
    obtain ⟨u, d, hInsert, hRun⟩ := bind_eq_ok.mp hRun
    obtain ⟨rfl, rfl⟩ := pure_eq_ok.mp hRun
    obtain ⟨-, t', hTable, rfl⟩ := Action.insert_eq_ok.mp hInsert
    obtain ⟨-, -, rfl⟩ := Table.insert_eq_ok.mp hTable
    exact List.mem_append_right _ List.mem_cons_self
  rw [insert, atomically_eq_ok] at hRun
  cases id? with
  | some j => exact hStatement hRun
  | none =>
    obtain ⟨j, c, -, hRun⟩ := bind_eq_ok.mp hRun
    exact hStatement hRun

/-- The row at the target has the identifier that is returned, whether it was the row of the
source, was there before, or is new. -/
theorem movePath_grants {source target : Path} (h : t.Consistent)
    (hRun : movePath source target ⟨t, writable, supply⟩ = .ok i b') :
    ⟨Key.ofId i, target.text⟩ ∈ b'.table := by
  rcases (movePath_eq_ok h).mp hRun with ⟨hRow, -, -, rfl⟩ | ⟨-, hIndex⟩
  · refine List.mem_map.mpr ⟨_, hRow, ?_⟩
    rw [Row.relocate, Text.redirect, if_pos rfl]
  · exact (indexPath_adds h hIndex).2.1

theorem move_grants {source target : Text} {recursive : Bool} (h : t.Consistent)
    (hRun : move source target recursive ⟨t, writable, supply⟩ = .ok i b') :
    ⟨Key.ofId i, normalize target⟩ ∈ b'.table := by
  cases recursive with
  | true =>
    -- the rows below the source have been carried by the time the path itself is moved
    obtain ⟨-, ⟨hNodup, -⟩, hPath⟩ := (move_eq_ok h).mp hRun
    exact movePath_grants (h.carry hNodup) hPath
  | false => exact movePath_grants h (atomically_eq_ok.mp hRun)

theorem copy_grants {source target : Text} {recursive : Bool} {report : CopyReport}
    (h : t.Consistent) (hRun : copy source target recursive ⟨t, writable, supply⟩ = .ok report b') :
    ⟨Key.ofId report.root.id, normalize target⟩ ∈ b'.table := by
  obtain ⟨es, hRows⟩ := h.exists_originals (.ofText source) recursive
  obtain ⟨added, hTable, -, hRow⟩ := added_of_copy h hRows hRun
  rw [hTable]
  exact List.mem_append_right _ hRow

end Registry

/-- **What a call returns is in the table**: a row for each identifier, with the path that it was
asked for. -/
theorem Call.grants {c : Call} {t : Table} {writable : Bool} {supply : Supply} {answer : Answer}
    {b' : Bench} (h : t.Consistent) (hRun : c.action ⟨t, writable, supply⟩ = .ok answer b') :
    List.Forall₂ (fun i path => ⟨Key.ofId i, normalize path⟩ ∈ b'.table)
      answer.granted c.requested := by
  cases c with
  | index path =>
    obtain ⟨i, hIndex, rfl⟩ := map_eq_ok.mp hRun
    exact .cons (Registry.indexPath_adds h (atomically_eq_ok.mp hIndex)).2.1 .nil
  | indexAll paths =>
    obtain ⟨is, hIndex, rfl⟩ := map_eq_ok.mp hRun
    have hNormal : ∀ p ∈ paths.map Path.ofText, p.IsNormal := by
      intro p hp
      obtain ⟨text, -, rfl⟩ := List.mem_map.mp hp
      exact Path.ofText_isNormal text
    have hRows := Registry.indexPaths_grants hNormal h (atomically_eq_ok.mp hIndex)
    exact List.forall₂_map_right_iff.mp hRows
  | insert path id? =>
    obtain ⟨i, hInsert, rfl⟩ := map_eq_ok.mp hRun
    exact .cons (Registry.insert_grants hInsert) .nil
  | move source target recursive =>
    obtain ⟨i, hMove, rfl⟩ := map_eq_ok.mp hRun
    exact .cons (Registry.move_grants h hMove) .nil
  | copy source target recursive =>
    obtain ⟨report, hCopy, rfl⟩ := map_eq_ok.mp hRun
    exact .cons (Registry.copy_grants h hCopy) .nil
  | lookUp | locate | delete | entries | count =>
    obtain ⟨x, -, rfl⟩ := map_eq_ok.mp hRun
    exact .nil

namespace Table.Reachable

variable {t t' : Table}

/-- **Returned identifiers resolve, and only for their own paths.**  Whatever call succeeds on a
reachable table, the identifiers that it returns are as many as the paths that it returns them
for, and on the table that it leaves each leads to the normal form of its path, and is found by
the texts that mean that path and by no others. -/
theorem granted_resolve (h : t.Reachable) {c : Call} {writable : Bool} {supply supply' : Supply}
    {answer : Answer} (hRun : c.action.on t writable supply = (.ok answer, t', supply')) :
    List.Forall₂ t'.Resolves answer.granted c.requested := by
  have hLeft := c.consistent_on h.consistent writable supply
  rw [hRun] at hLeft
  obtain ⟨w, hOk⟩ := on_eq_ok.mp hRun
  exact (Call.grants h.consistent hOk).imp fun _ _ hRow => hLeft.resolves hRow

/-- The row of `a/a` is carried onto `a`, which has no row of its own, and then moved on to the
current directory: its identifier is returned, and found under every spelling of that. -/
theorem granted_resolve_of_carried :
    let i := (Supply.ofSeed 0).next
    let t : Table := ((Call.index ['a', '/', 'a']).action.on [] true (.ofSeed 0)).2.1
    let moved := (Call.move ['A'] ['b', '/', '.', '.'] true).action.on t true (.ofSeed 1)
    t.Reachable ∧ moved.1 = .ok (.id i) ∧
      ((Registry.locate i).on moved.2.1 true (.ofSeed 1)).1 = .ok (some ['.']) ∧
      ((Registry.lookUp ['c', '\\', '.', '.']).on moved.2.1 true (.ofSeed 1)).1 = .ok (some i) ∧
      ((Registry.lookUp ['a']).on moved.2.1 true (.ofSeed 1)).1 ≠ .ok (some i) := by
  intro i t moved
  have hReachable : t.Reachable := .call _ _ _ (by decide) .empty
  have hOk : moved.1 = .ok (.id i) := by decide +kernel
  have hMoved : moved = (.ok (.id i), moved.2.1, moved.2.2) := by rw [← hOk]
  have hResolves : moved.2.1.Resolves i ['b', '/', '.', '.'] := by
    cases hReachable.granted_resolve hMoved with
    | cons hFirst _ => exact hFirst
  obtain ⟨hLocate, hLookUp⟩ := hResolves true (.ofSeed 1)
  have hTarget : normalize ['b', '/', '.', '.'] = ['.'] := by decide +kernel
  rw [hTarget] at hLocate
  refine ⟨hReachable, hOk, hLocate, (hLookUp _).mpr (by decide +kernel), fun hFound => ?_⟩
  exact absurd ((hLookUp _).mp hFound) (by decide +kernel)

end Table.Reachable

end PathRegistry
