import PathRegistry.Proofs.Atomicity
import PathRegistry.Proofs.Deleting
import PathRegistry.Proofs.Moving

/-!
# What a call leaves alone

A call that indexes, inserts, copies or reads leaves every row as it is, identifier and path.
A move or a delete may touch the row at its source and, if it is recursive, those below it, and
no other: not a sibling whose name begins like that of the source, nor a row at or below the
target of a move.  Only a delete takes an identifier away, and a move adds one row at most.
All of this holds whether the call ends well or not.

A statement that only adds rows retains each row that is there, and so does an action made of
such statements, wherever it stops.  A move is not made of such statements: it is followed by
what it makes of the table as a whole.

## Main statements

* `Call.retains` — a call that is neither a move nor a delete retains every row.
* `Registry.rows_of_move` — a move gives new paths to rows that its source covers.
* `Table.Reachable.records_retained` — what any call leaves alone.
-/

namespace PathRegistry

open PathRegistry.Action Subtree Table

/-! ## Actions that retain a row -/

/-- The action leaves the row in the table whenever it finds it there, whether it ends well or
not. -/
abbrev Action.Retains {α : Type} (r : Row) (a : Action α) : Prop := Keeps (r ∈ ·) a

theorem Action.insert_retains (r : Row) (i : Identifier) (path : Text) :
    Retains r (Action.insert i path) := by
  refine Keeps.insert fun t t' hr hInsert => ?_
  obtain ⟨-, -, rfl⟩ := Table.insert_eq_ok.mp hInsert
  exact List.mem_append_left _ hr

namespace Relocation

/-- Deleting what lies below a path retains every other row. -/
theorem delete_retains {r : Row} {root : Path} (hOut : (below root).contains r.path = false) :
    Retains r (delete root) := by
  unfold delete
  dsimp only
  split
  · exact Keeps.pure 0
  · refine Keeps.write fun t n t' hr hRun => ?_
    cases hRun
    exact List.mem_filter.mpr ⟨hr, by rw [contains_range, hOut]; rfl⟩

end Relocation

namespace Registry

/-- A delete retains every row that its path does not cover. -/
theorem delete_retains {r : Row} {path : Text} {recursive : Bool}
    (hOut : (Path.ofText path).covers recursive r.path = false) :
    Retains r (delete path recursive) := by
  obtain ⟨hAway, hBelow⟩ := Path.covers_eq_false.mp hOut
  have hErase : Retains r (discard <| Action.write fun t =>
      .ok (t.eraseAt (Path.ofText path).text)) := by
    refine (Keeps.write fun t n t' hr hRun => ?_).discard
    cases hRun
    exact List.mem_filter.mpr ⟨hr, by simpa using hAway⟩
  apply Keeps.atomically
  cases recursive with
  | true =>
    exact Keeps.bind (Relocation.delete_retains (hBelow rfl)).discard fun _ _ => hErase
  | false => exact hErase

end Registry

/-- Whether the call may touch a row at the path: a move or a delete, if its source covers the
path. -/
def Call.touches : Call → Text → Bool
  | .move source _ recursive, path => (Path.ofText source).covers recursive path
  | .delete root recursive, path => (Path.ofText root).covers recursive path
  | _, _ => false

/-- **A call that is not a move retains every row that it does not touch.** -/
theorem Call.retains {c : Call} {r : Row} (hc : ∀ source target recursive,
    c ≠ .move source target recursive) (hr : c.touches r.path = false) : Retains r c.action := by
  cases c with
  | index path =>
    exact (Keeps.atomically (Keeps.indexPath fun i => insert_retains r i _)).map _
  | indexAll paths =>
    exact (Keeps.atomically (Keeps.indexPaths fun p _ i => insert_retains r i p.text)).map _
  | insert path id? => exact (Keeps.insertPath id? fun i => insert_retains r i _).map _
  | lookUp path => exact (Keeps.read _).map _
  | locate i => exact (Keeps.read _).map _
  | move source target recursive => exact absurd rfl (hc source target recursive)
  | copy source target recursive =>
    exact (Keeps.copy (fun i path _ => insert_retains r i path) source target recursive).map _
  | delete root recursive => exact (Registry.delete_retains hr).map _
  | entries => exact (Keeps.read _).map _
  | count => exact (Keeps.read _).map _

/-! ## Moves -/

namespace Subtree

variable {source target : Path} {path : Text}

theorem arrival_of_uncovered (h : source.covers true path = false) :
    arrival source target path = path := by
  obtain ⟨hAway, hBelow⟩ := Path.covers_eq_false.mp h
  rw [arrival, carried_of_outside (hBelow rfl), Text.redirect, if_neg hAway]

end Subtree

/-- **A move** gives new paths to rows that its source covers, leaves the others where they are,
and adds one row at most. -/
theorem Registry.rows_of_move {t : Table} (h : t.Consistent) {source target : Text}
    {recursive writable : Bool} {supply : Supply} {i : Identifier} {b' : Bench}
    (hRun : move source target recursive ⟨t, writable, supply⟩ = .ok i b') :
    ∃ (f : Text → Text) (added : Table), b'.table = t.relocate f ++ added ∧ added.length ≤ 1 ∧
      ∀ path, (Path.ofText source).covers recursive path = false → f path = path := by
  cases recursive with
  | true =>
    obtain ⟨added, hOne, -, hTable⟩ := table_of_move h hRun
    exact ⟨_, added, hTable, hOne, fun path hOut => arrival_of_uncovered hOut⟩
  | false =>
    unfold move at hRun
    rw [atomically_eq_ok] at hRun
    obtain ⟨added, hOne, -, hTable⟩ := table_of_movePath h hRun
    exact ⟨_, added, hTable, hOne, fun path hOut => if_neg (Path.covers_eq_false.mp hOut).1⟩

namespace Table.Reachable

variable {t : Table}

/-- A move leaves the table as it was, or gives new paths to rows that its source covers and
adds one row at most. -/
theorem rows_after_move (h : t.Reachable) (source target : Text) (recursive writable : Bool)
    (supply : Supply) :
    ∃ (f : Text → Text) (added : Table),
      ((Call.move source target recursive).action.on t writable supply).2.1 =
        t.relocate f ++ added ∧ added.length ≤ 1 ∧
      ∀ path, (Path.ofText source).covers recursive path = false → f path = path := by
  cases hResult : ((Call.move source target recursive).action.on t writable supply).1 with
  | error e =>
    refine ⟨id, [], ?_, Nat.zero_le 1, fun _ _ => rfl⟩
    rw [(Call.whole _).table_on hResult, List.append_nil]
    exact (relocate_eq_self fun _ _ => rfl).symm
  | ok answer =>
    obtain ⟨b', hRun⟩ := on_fst_eq_ok.mp hResult
    rw [on_table, hRun]
    obtain ⟨i, hRun, -⟩ := map_eq_ok.mp hRun
    exact Registry.rows_of_move h.consistent hRun

/-- **No loss and no collateral change.**  Whatever a call does, and whether or not it fails:
every record that it does not touch keeps its identifier and its path, where only a move or a
delete touches any, at its source and, if it is recursive, below it; every identifier stays,
unless the call is a delete; and a move takes no row away and adds one at most. -/
theorem records_retained (h : t.Reachable) (c : Call) (writable : Bool) (supply : Supply) :
    let t' := (c.action.on t writable supply).2.1
    (∀ i path, t.pathOf? i = some path → c.touches path = false → t'.pathOf? i = some path) ∧
      ((∀ root recursive, c ≠ .delete root recursive) →
        ∀ i path, t.pathOf? i = some path → ∃ path', t'.pathOf? i = some path') ∧
      (∀ source target recursive, c = .move source target recursive →
        t.length ≤ t'.length ∧ t'.length ≤ t.length + 1) := by
  intro t'
  have hCons := h.consistent
  have hCons' : t'.Consistent := c.consistent_on hCons writable supply
  by_cases hMove : ∃ source target recursive, c = .move source target recursive
  · obtain ⟨source, target, recursive, rfl⟩ := hMove
    obtain ⟨f, added, hTable, hOne, hStay⟩ :=
      h.rows_after_move source target recursive writable supply
    have hRow {i : Identifier} {path : Text} (hPath : t.pathOf? i = some path) :
        t'.pathOf? i = some (f path) := by
      rw [hCons'.pathOf?_eq_some, show t' = _ from hTable]
      exact List.mem_append_left _ (List.mem_map.mpr ⟨_, hCons.pathOf?_eq_some.mp hPath, rfl⟩)
    refine ⟨fun i path hPath hOut => ?_, fun _ i path hPath => ⟨_, hRow hPath⟩,
      fun _ _ _ _ => ?_⟩
    · rw [hRow hPath, hStay path hOut]
    · rw [show t' = _ from hTable, List.length_append, relocate, List.length_map]
      omega
  · have hOther : ∀ source target recursive, c ≠ .move source target recursive :=
      fun source target recursive hSame => hMove ⟨source, target, recursive, hSame⟩
    have hRetained : ∀ i path, t.pathOf? i = some path → c.touches path = false →
        t'.pathOf? i = some path := by
      intro i path hPath hOut
      rw [hCons'.pathOf?_eq_some, show t' = _ from on_table]
      exact Call.retains (r := ⟨Key.ofId i, path⟩) hOther hOut _ (hCons.pathOf?_eq_some.mp hPath)
    refine ⟨hRetained, fun hNoDelete i path hPath => ⟨path, hRetained i path hPath ?_⟩,
      fun source target recursive hSame => absurd hSame (hOther source target recursive)⟩
    cases c with
    | move source target recursive => exact absurd rfl (hOther source target recursive)
    | delete root recursive => exact absurd rfl (hNoDelete root recursive)
    | _ => rfl

/-- A path that is moved takes along what lies below it and nothing else: neither a sibling whose
name begins like its own nor what lies below the target already. -/
theorem records_retained_of_siblings :
    let i := (Supply.ofSeed 0).draw
    let t : Table := ((Call.indexAll [['p'], ['p', '/', 'a'], ['p', 'x'], ['p', '.', 't'],
      ['q', '/', 'p']]).action.on [] true (.ofSeed 0)).2.1
    let t' := ((Call.move ['p'] ['q'] true).action.on t true (.ofSeed 5)).2.1
    t.Reachable ∧ t.pathOf? (i 2) = some ['p', 'x'] ∧ t'.pathOf? (i 2) = some ['p', 'x'] ∧
      t'.pathOf? (i 4) = some ['q', '/', 'p'] ∧ (∃ path, t'.pathOf? (i 1) = some path) ∧
      t.length ≤ t'.length ∧ t'.length ≤ t.length + 1 := by
  intro i t t'
  have hReachable : t.Reachable := .call _ _ _ (by decide) .empty
  have hSibling : t.pathOf? (i 2) = some ['p', 'x'] := by decide +kernel
  have hAtTarget : t.pathOf? (i 4) = some ['q', '/', 'p'] := by decide +kernel
  have hMoved : t.pathOf? (i 1) = some ['p', '/', 'a'] := by decide +kernel
  obtain ⟨hRetained, hKept, hCount⟩ :=
    hReachable.records_retained (.move ['p'] ['q'] true) true (.ofSeed 5)
  exact ⟨hReachable, hSibling, hRetained _ _ hSibling (by decide +kernel),
    hRetained _ _ hAtTarget (by decide +kernel), hKept (by simp) _ _ hMoved, hCount _ _ _ rfl⟩

end Table.Reachable

end PathRegistry
