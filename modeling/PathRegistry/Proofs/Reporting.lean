import PathRegistry.Proofs.Atomicity
import PathRegistry.Proofs.Copying

/-!
# What is reported of a copy

Whoever observes a handle is told once of each copy that succeeds: for the path itself and
then for every row below it, which identifier was copied and which is new.  Data that is
kept under the old identifiers can so be copied to the new ones.

The identifier of the source is looked up only after the rows below it have been copied.
A source that had no row may have one by then, if it is itself one of the mirrored paths;
then the report takes the copy of another row for the source.  In every other case no
identifier of the report is both copied and new.

## Main statements

* `Registry.origins_of_report`, `Registry.rows_of_report` — what a report says of the table
  before and of the table after.
* `Registry.sources_apart_iff` — when the copied identifiers are apart from the new ones.
* `Workspace.copy_reported` — what the observer of a handle is told.
-/

namespace PathRegistry

open PathRegistry.Action Subtree Table

namespace Registry

open Relocation

variable {source target : Text} {recursive : Bool} {t : Table} {writable : Bool}
  {supply : Supply} {report : CopyReport} {b' : Bench}

section Reported

variable (h : t.Consistent)
  (hRun : copy source target recursive ⟨t, writable, supply⟩ = .ok report b')

include h hRun

/-- The copies below the target are those of the rows below the source, in the order of
their paths. -/
theorem origins_of_report :
    report.descendants.map (fun c => (⟨Key.ofId c.source, c.path⟩ : Row)) =
      relocate (carried (.ofText source) (.ofText target))
        (t.originals (.ofText source) recursive) := by
  obtain ⟨es, hRows⟩ := h.exists_originals (.ofText source) recursive
  rw [(table_of_copy h hRows hRun).1, hRows]
  exact copies_origins _ _ _ _

theorem root_of_report :
    report.root.path = normalize target ∧ normalize target ≠ normalize source ∧
      ⟨Key.ofId report.root.source, normalize source⟩ ∈ b'.table := by
  obtain ⟨es, hRows⟩ := h.exists_originals (.ofText source) recursive
  obtain ⟨-, hPath, -, hMem, hApart⟩ := table_of_copy h hRows hRun
  exact ⟨hPath, hApart, hMem⟩

/-- The new entries of a report are among the rows that the copy has added. -/
theorem rows_of_report :
    ∃ added, b'.table = t ++ added ∧ ∀ c ∈ report.entries, c.row ∈ added := by
  obtain ⟨es, hRows⟩ := h.exists_originals (.ofText source) recursive
  obtain ⟨-, -, hTable, -⟩ := table_of_copy h hRows hRun
  rw [List.append_assoc, List.append_assoc] at hTable
  refine ⟨_, hTable, fun c hc => ?_⟩
  rcases List.mem_cons.mp hc with rfl | hBelow
  · exact List.mem_append_right _ (List.mem_append_right _ List.mem_cons_self)
  · exact List.mem_append_left _ (List.mem_map_of_mem hBelow)

/-- The new paths of a report are the target and the mirrored paths. -/
theorem paths_of_report : report.entries.map (·.path) =
    normalize target :: t.mirrored (.ofText source) (.ofText target) recursive := by
  obtain ⟨es, hRows⟩ := h.exists_originals (.ofText source) recursive
  obtain ⟨hCopies, hRoot, -⟩ := table_of_copy h hRows hRun
  rw [CopyReport.entries, List.map_cons, hRoot, hCopies, ← copies_row_paths hRows, List.map_map]
  rfl

/-- What the report takes for the source is what the source had before, if it had a row. -/
theorem source_of_report : ⟨Key.ofId report.root.source, normalize source⟩ ∈ t ∨
    t.holdsPath (normalize source) = false := by
  cases hHolds : t.holdsPath (normalize source) with
  | false => exact .inr rfl
  | true =>
    obtain ⟨r, hr, hPath⟩ := holdsPath_iff.mp hHolds
    obtain ⟨added, hTable, -⟩ := rows_of_report h hRun
    have hStays : r ∈ b'.table := hTable ▸ List.mem_append_left _ hr
    have hSame := (consistent_of_copy h hRun).eq_of_path hStays (root_of_report h hRun).2.2 hPath
    exact .inl (hSame ▸ hr)

/-- What a report takes for the source of a row below the target is an old identifier. -/
theorem source_of_descendant {c : CopiedEntry} (hc : c ∈ report.descendants) :
    ∃ r ∈ t, r.key = Key.ofId c.source := by
  have hMem : (⟨Key.ofId c.source, c.path⟩ : Row) ∈
      report.descendants.map fun c => (⟨Key.ofId c.source, c.path⟩ : Row) :=
    List.mem_map_of_mem hc
  rw [origins_of_report h hRun] at hMem
  obtain ⟨r, hr, hRow⟩ := List.mem_map.mp hMem
  exact ⟨r, (mem_originals.mp hr).2.1, congrArg Row.key hRow⟩

/-- No row that was there before has one of the new identifiers. -/
theorem key_ne_new {r : Row} (hr : r ∈ t) {c : CopiedEntry} (hc : c ∈ report.entries) :
    r.key ≠ Key.ofId c.id := by
  obtain ⟨added, hTable, hNew⟩ := rows_of_report h hRun
  have hKeys := (consistent_of_copy h hRun).keys_nodup
  rw [hTable, List.map_append, List.nodup_append] at hKeys
  exact hKeys.2.2 r.key (List.mem_map_of_mem hr) c.row.key (List.mem_map_of_mem (hNew c hc))

/-- **The copied identifiers are apart from the new ones** unless the source had no row and
is one of the mirrored paths. -/
theorem sources_apart_iff :
    (∀ c ∈ report.entries, ∀ d ∈ report.entries, c.source ≠ d.id) ↔
      (t.holdsPath (normalize source) = false →
        normalize source ∉ t.mirrored (.ofText source) (.ofText target) recursive) := by
  have hAfter := consistent_of_copy h hRun
  obtain ⟨-, hTarget, hSource⟩ := root_of_report h hRun
  have hMem {d : CopiedEntry} (hd : d ∈ report.entries) : d.row ∈ b'.table := by
    obtain ⟨added, hTable, hNew⟩ := rows_of_report h hRun
    exact hTable ▸ List.mem_append_right _ (hNew d hd)
  constructor
  · -- the copy that got the path of the source is what is found when the source is looked up
    intro hApart _ hMirrored
    have hPath : normalize source ∈ report.entries.map (·.path) := by
      rw [paths_of_report h hRun]
      exact List.mem_cons_of_mem _ hMirrored
    obtain ⟨d, hd, hSame⟩ := List.mem_map.mp hPath
    have hRow := hAfter.eq_of_path (hMem hd) hSource hSame
    exact hApart report.root List.mem_cons_self d hd
      (Key.ofId_injective (congrArg Row.key hRow).symm)
  · intro hFree c hc d hd hSame
    rcases List.mem_cons.mp hc with rfl | hBelow
    · rcases source_of_report h hRun with hOld | hNone
      · exact key_ne_new h hRun hOld hd (congrArg Key.ofId hSame)
      · -- one identifier has one path, and no new entry has that of the source
        have hRow := hAfter.eq_of_key hSource (hMem hd) (congrArg Key.ofId hSame)
        have hPath : d.path ∈ report.entries.map (·.path) := List.mem_map_of_mem hd
        rw [paths_of_report h hRun, show d.path = normalize source from
          (congrArg Row.path hRow).symm] at hPath
        rcases List.mem_cons.mp hPath with hEq | hMirrored
        · exact hTarget hEq.symm
        · exact hFree hNone hMirrored
    · obtain ⟨r, hr, hKey⟩ := source_of_descendant h hRun hBelow
      exact key_ne_new h hRun hr hd (hKey.trans (congrArg Key.ofId hSame))

end Reported

end Registry

namespace Workspace

variable {w w' : Workspace} {name : Text} {h : Handle} {t : Table} {source target : Text}
  {recursive : Bool}

/-- **A call that succeeds** answers what the action yields on the table of the handle, and
reports what is in the answer if the handle is observed. -/
theorem call_eq_done {c : Call} {answer : Answer} {reports : List CopyReport}
    (hHandle : w.handle? name = some h) (hTable : w.table h.held = .ok t) :
    w.call name c = (.done answer reports, w') ↔
      reports = (if h.observed then answer.reports else []) ∧ ∃ b',
        c.action ⟨t, h.held.writable, w.supply⟩ = .ok answer b' ∧
        w' = { if b'.table = t then w else w.record name h b'.table with supply := b'.supply } := by
  unfold call Action.on
  simp only [hHandle, hTable]
  cases hRun : c.action ⟨t, h.held.writable, w.supply⟩ with
  | ok x b' =>
    simp only [Prod.mk.injEq, Outcome.done.injEq]
    constructor
    · rintro ⟨⟨rfl, rfl⟩, rfl⟩
      exact ⟨rfl, b', rfl, rfl⟩
    · rintro ⟨rfl, b'', hSame, rfl⟩
      cases hSame
      exact ⟨⟨rfl, rfl⟩, rfl⟩
  | error e b' => simp

/-- A copy through an observed handle that may write is reported if the new paths are
distinct and free. -/
theorem call_copy_done (hHandle : w.handle? name = some h) (hObserved : h.observed = true)
    (hWritable : h.held.writable = true) (hTable : w.table h.held = .ok t) (ht : t.Consistent)
    {paths : List Text} (hMirrored : t.mirrored (.ofText source) (.ofText target) recursive = paths)
    (hFresh : w.supply.IsFreshFor (paths.length + 2) t)
    (hNodup : (paths ++ [normalize target]).Nodup)
    (hFree : ∀ p ∈ paths ++ [normalize target], t.holdsPath p = false)
    (hApart : normalize target ≠ normalize source) :
    ∃ report w', w.call name (.copy source target recursive) =
      (.done (.copied report) [report], w') := by
  obtain ⟨es, hRows⟩ := ht.exists_originals (.ofText source) recursive
  rw [← hMirrored] at hFresh hNodup hFree
  rw [mirrored, hRows, List.length_map, List.length_map] at hFresh
  obtain ⟨report, hOk⟩ := (Registry.copy_succeeds ht hRows hFresh).mpr ⟨hNodup, hFree, hApart⟩
  obtain ⟨b', hRun⟩ := on_fst_eq_ok.mp hOk
  refine ⟨report, _, (call_eq_done hHandle hTable).mpr ⟨?_, b', ?_, rfl⟩⟩
  · rw [hObserved, if_pos rfl]
    rfl
  · rw [hWritable]
    exact map_eq_ok.mpr ⟨report, hRun, rfl⟩

/-- **What the observer of a handle is told** when a copy through it succeeds.  It is told
once, of the table that the call records: the target first, then, in ascending order of their
paths, the rows below the source, each with the identifier that it had and the path that it
is carried to.  Every new identifier is the one at its path.  For the source the report has
the identifier that it had, or, if it had none, a new one that it has in the end.  So the
copied identifiers are apart from the new ones, unless the source had no row and is one of
the mirrored paths. -/
theorem copy_reported {answer : Answer} {reports : List CopyReport}
    (hHandle : w.handle? name = some h) (hObserved : h.observed = true)
    (hTable : w.table h.held = .ok t) (hReachable : t.Reachable)
    (hDone : w.call name (.copy source target recursive) = (.done answer reports, w')) :
    ∃ report t' supply', answer = .copied report ∧ reports = [report] ∧
      w' = { w.record name h t' with supply := supply' } ∧
      report.root.path = normalize target ∧
      report.descendants.map (fun c => (⟨Key.ofId c.source, c.path⟩ : Row)) =
        relocate (carried (.ofText source) (.ofText target))
          (t.originals (.ofText source) recursive) ∧
      (∀ r, r ∈ t.originals (.ofText source) recursive ↔
        recursive = true ∧ r ∈ t ∧ (Subtree.below (.ofText source)).contains r.path = true) ∧
      ((t.originals (.ofText source) recursive).Pairwise fun r s =>
        Text.octets r.path < Text.octets s.path) ∧
      (∀ c ∈ report.entries, t'.idAt c.path = .ok (some c.id)) ∧
      (t.idAt (normalize source) = .ok (some report.root.source) ∨
        t.idAt (normalize source) = .ok none ∧
          t'.idAt (normalize source) = .ok (some report.root.source) ∧
          ∀ r ∈ t, r.key ≠ Key.ofId report.root.source) ∧
      ((∀ c ∈ report.entries, ∀ d ∈ report.entries, c.source ≠ d.id) ↔
        (t.idAt (normalize source) = .ok none →
          normalize source ∉ t.mirrored (.ofText source) (.ofText target) recursive)) := by
  have hCons := hReachable.consistent
  obtain ⟨hReports, b', hAction, hLeft⟩ := (call_eq_done hHandle hTable).mp hDone
  obtain ⟨report, hRun, rfl⟩ := map_eq_ok.mp hAction
  have hAfter := Registry.consistent_of_copy hCons hRun
  obtain ⟨added, hAdded, hNew⟩ := Registry.rows_of_report hCons hRun
  obtain ⟨hRoot, -, hSource⟩ := Registry.root_of_report hCons hRun
  -- the target is always added, so the table is recorded
  have hChanged : b'.table ≠ t := by
    have hSome : report.root.row ∈ added := hNew report.root List.mem_cons_self
    rw [hAdded]
    exact fun hSame => List.ne_nil_of_mem hSome (List.append_right_eq_self.mp hSame)
  rw [if_neg hChanged] at hLeft
  rw [hObserved, if_pos rfl] at hReports
  refine ⟨report, b'.table, b'.supply, rfl, hReports, hLeft, hRoot,
    Registry.origins_of_report hCons hRun, fun r => mem_originals, hCons.originals_ascend _ _,
    fun c hc => ?_, ?_, ?_⟩
  · rw [hAfter.idAt_eq_some, hAdded]
    exact List.mem_append_right _ (hNew c hc)
  · rw [hCons.idAt_eq_some, hAfter.idAt_eq_some, idAt_eq_none]
    refine (Registry.source_of_report hCons hRun).imp_right fun hNone => ⟨hNone, hSource, ?_⟩
    intro r hr hKey
    have hStays : r ∈ b'.table := hAdded ▸ List.mem_append_left _ hr
    have hSame := hAfter.eq_of_key hStays hSource hKey
    exact holdsPath_eq_false.mp hNone r hr (congrArg Row.path hSame)
  · rw [idAt_eq_none]
    exact Registry.sources_apart_iff hCons hRun

/-- A path without a row, copied with what lies below it: two entries are reported, and no
identifier is both copied and new. -/
theorem copy_reported_apart :
    let t : Table := ((Call.index ['a', '/', 'b']).action.on [] true (.ofSeed 0)).2.1
    let w : Workspace := ⟨[], [], [(['h'], ⟨.own t, true⟩)], [], .ofSeed 1⟩
    t.Reachable ∧ ∃ report w',
      w.call ['h'] (.copy ['a'] ['c'] true) = (.done (.copied report) [report], w') ∧
      report.entries.map (·.path) = [['c'], ['c', '/', 'b']] ∧
      ∀ c ∈ report.entries, ∀ d ∈ report.entries, c.source ≠ d.id := by
  intro t w
  have hReachable : t.Reachable := .call _ _ _ (by decide) .empty
  have hMirrored : t.mirrored (.ofText ['a']) (.ofText ['c']) true = [['c', '/', 'b']] := by
    rw [mirrored_of_sorted (by decide +kernel) (by decide +kernel)]
    decide +kernel
  have hHandle : w.handle? ['h'] = some ⟨.own t, true⟩ := rfl
  obtain ⟨report, w', hDone⟩ : ∃ report w',
      w.call ['h'] (.copy ['a'] ['c'] true) = (.done (.copied report) [report], w') :=
    call_copy_done hHandle rfl rfl rfl hReachable.consistent hMirrored
      ⟨by decide +kernel, by decide +kernel⟩ (by decide +kernel) (by decide +kernel)
      (by decide +kernel)
  obtain ⟨r, t', supply', hAnswer, -, -, hRoot, hOrigins, -, -, -, -, hApart⟩ :=
    copy_reported hHandle rfl rfl hReachable hDone
  cases hAnswer
  have hBelow : report.descendants.map (·.path) = [['c', '/', 'b']] := by
    rw [← hMirrored, mirrored, ← relocate_paths, ← hOrigins, List.map_map]
    rfl
  refine ⟨hReachable, report, w', hDone, ?_, hApart.mpr fun _ => ?_⟩
  · rw [CopyReport.entries, List.map_cons, hRoot, hBelow]
    decide +kernel
  · rw [hMirrored]
    decide +kernel

/-- A copied identifier may be new: when `a` without a row is copied to the current
directory, the copy of `a/a` gets the path `a`, and is then taken for the source. -/
theorem not_always_apart :
    ¬ ∀ (w w' : Workspace) (name : Text) (h : Handle) (t : Table) (source target : Text)
        (recursive : Bool) (report : CopyReport), w.handle? name = some h → h.observed = true →
        w.table h.held = .ok t → t.Reachable →
        w.call name (.copy source target recursive) = (.done (.copied report) [report], w') →
        ∀ c ∈ report.entries, ∀ d ∈ report.entries, c.source ≠ d.id := by
  intro hAll
  let t : Table := ((Call.index ['a', '/', 'a']).action.on [] true (.ofSeed 0)).2.1
  let w : Workspace := ⟨[], [], [(['h'], ⟨.own t, true⟩)], [], .ofSeed 1⟩
  have hReachable : t.Reachable := .call _ _ _ (by decide) .empty
  have hMirrored : t.mirrored (.ofText ['a']) (.ofText ['.']) true = [['a']] := by
    rw [mirrored_of_sorted (by decide +kernel) (by decide +kernel)]
    decide +kernel
  have hHandle : w.handle? ['h'] = some ⟨.own t, true⟩ := rfl
  obtain ⟨report, w', hDone⟩ : ∃ report w',
      w.call ['h'] (.copy ['a'] ['.'] true) = (.done (.copied report) [report], w') :=
    call_copy_done hHandle rfl rfl rfl hReachable.consistent hMirrored
      ⟨by decide +kernel, by decide +kernel⟩ (by decide +kernel) (by decide +kernel)
      (by decide +kernel)
  have hApart := hAll w w' ['h'] _ t ['a'] ['.'] true report hHandle rfl rfl hReachable hDone
  obtain ⟨-, b', hAction, -⟩ := (call_eq_done hHandle rfl).mp hDone
  obtain ⟨r, hRun, hSame⟩ := map_eq_ok.mp hAction
  cases hSame
  have hNew := (Registry.sources_apart_iff hReachable.consistent hRun).mp hApart
    (by decide +kernel)
  have hSource : normalize ['a'] = ['a'] := by decide +kernel
  rw [hMirrored, hSource] at hNew
  exact hNew List.mem_cons_self

end Workspace

end PathRegistry
