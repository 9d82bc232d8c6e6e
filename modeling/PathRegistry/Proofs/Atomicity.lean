import PathRegistry.Proofs.Run

/-!
# All or nothing

A call is a sequence of statements, any of which may fail after others have
written: a path of several is taken, a key is not that of an identifier, a
descendant would come to lie on another row.  Whatever the table holds and
wherever the call stops, what it has written is undone, and nothing is reported.

An action is *whole* if it leaves the table as it was whenever it fails.  Reading
alone is whole, and so is what runs in a transaction of its own
(`Connection.transaction_eq`); a sequence of whole actions need not be.

## Main statements

* `Call.whole` — every call is whole, on tables of any content.
* `Workspace.unchanged_of_failed` — a failed call changes no table of any handle and
  is not reported.
-/

namespace PathRegistry

namespace Action

variable {α β : Type} {a : Action α}

/-- The action leaves the table as it was whenever it fails. -/
def Whole (a : Action α) : Prop := ∀ b e b', a b = .error e b' → b'.table = b.table

theorem Whole.atomically (a : Action α) : Whole (atomically a) :=
  fun _ _ _ h => table_of_atomically_eq_error h

theorem Whole.read (statement : Table → Except Failure α) : Whole (read statement) := by
  intro b e b' h
  unfold Action.read at h
  cases hRun : statement b.table with
  | ok x => simp [hRun] at h
  | error d =>
    simp only [hRun, EStateM.Result.error.injEq] at h
    rw [h.2]

theorem Whole.map (ha : Whole a) (g : α → β) : Whole (g <$> a) := by
  intro b e b' h
  rw [map_run] at h
  cases hRun : a b with
  | ok x c => simp [hRun] at h
  | error d c =>
    simp only [hRun, EStateM.Result.error.injEq] at h
    rw [← h.2]
    exact ha b d c hRun

theorem Whole.table_on (ha : Whole a) {t : Table} {writable : Bool} {supply : Supply}
    {e : Failure} (h : (a.on t writable supply).1 = .error e) :
    (a.on t writable supply).2.1 = t := by
  obtain ⟨b, hRun⟩ := on_fst_eq_error.mp h
  rw [on_table, hRun]
  exact ha _ e b hRun

end Action

open PathRegistry.Action

/-- **Every call is whole**, whatever the table holds. -/
theorem Call.whole (c : Call) : Whole c.action := by
  cases c with
  | index path => exact (Whole.atomically _).map _
  | indexAll paths => exact (Whole.atomically _).map _
  | insert path id? => exact (Whole.atomically _).map _
  | lookUp path => exact (Whole.read _).map _
  | locate i => exact (Whole.read _).map _
  | move source target recursive => exact (Whole.atomically _).map _
  | copy source target recursive => exact (Whole.atomically _).map _
  | delete path recursive => exact (Whole.atomically _).map _
  | entries => exact (Whole.read _).map _
  | count => exact (Whole.read _).map _

/-- The reports that an observer got. -/
def Outcome.reports : Outcome → List CopyReport
  | .done _ reports => reports
  | _ => []

namespace Workspace

/-- **A failed call is as if it had not been made**: every handle, whatever its table
holds and whether or not it may be written, has the rows that it had, in their order,
the disk is as it was, and no copy has been reported.  Only the identifiers that the
call has drawn are used up. -/
theorem unchanged_of_failed {w : Workspace} {name : Text} {c : Call} {e : Failure}
    (h : (w.call name c).1 = .failed e) :
    (∀ held, (w.call name c).2.table held = w.table held) ∧
      (∃ supply, (w.call name c).2 = { w with supply := supply }) ∧
      (w.call name c).1.reports = [] := by
  have hSame : ∃ supply, (w.call name c).2 = { w with supply := supply } := by
    unfold call at h ⊢
    cases hHandle : w.handle? name with
    | none => simp [hHandle] at h
    | some handle =>
      simp only [hHandle] at h ⊢
      cases hTable : w.table handle.held with
      | error d => exact ⟨w.supply, rfl⟩
      | ok t =>
        simp only [hTable] at h ⊢
        cases hRun : (c.action.on t handle.held.writable w.supply).1 with
        | ok answer => simp [hRun] at h
        | error d =>
          refine ⟨(c.action.on t handle.held.writable w.supply).2.2, ?_⟩
          simp [c.whole.table_on hRun]
  obtain ⟨supply, hSupply⟩ := hSame
  refine ⟨fun held => ?_, ⟨supply, hSupply⟩, by rw [h]; rfl⟩
  rw [hSupply]
  rfl

/-- A copy that indexes its source, draws an identifier for the target and only then
finds the target taken, by a row without an identifier, on a handle that is observed. -/
theorem unchanged_of_failed_copy :
    let w : Workspace := ⟨[], [], [(['h'], ⟨.own [⟨.null, ['b']⟩], true⟩)], [], .ofSeed 0⟩
    (w.call ['h'] (.copy ['a'] ['b'] false)).1 = .failed (.duplicatePath ['b']) ∧
      (w.call ['h'] (.copy ['a'] ['b'] false)).1.reports = [] ∧
      (w.call ['h'] (.copy ['a'] ['b'] false)).2.handles = w.handles := by
  intro w
  have hFailed : (w.call ['h'] (.copy ['a'] ['b'] false)).1 = .failed (.duplicatePath ['b']) := by
    decide +kernel
  obtain ⟨-, ⟨supply, hSame⟩, hReports⟩ := unchanged_of_failed hFailed
  refine ⟨hFailed, hReports, ?_⟩
  rw [hSame]

end Workspace

end PathRegistry
