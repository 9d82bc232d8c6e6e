import PathRegistry.Proofs.Freshness
import PathRegistry.Proofs.Moving

/-!
# Copying a path with what lies below it

A copy adds rows and changes none.  First come the mirrored paths, one for each row below
the source, in the order of these rows' paths; then the source itself, if it has no row by
then; then the target.  A row is refused when its path is taken, by a row that was there or
by one that the copy has added before.  As long as the identifiers are fresh, nothing else
can go wrong.

So a copy is a list of inserts, and all that has to be said about it is in the list of
paths: whether they are distinct and free, and which is the first that is not.

## Main statements

* `Relocation.insertAll_eq_ok`, `Relocation.refused_of_insertAll` — inserts one after the
  other: when all of them succeed, and which of them is refused.
* `Registry.copy_eq_ok`, `Registry.table_of_copy` — the steps of a copy and what they add.
* `Registry.copy_succeeds`, `Registry.failure_of_copy` — which copies fail, and of what.
* `Table.Reachable.copy_exact` — success, result and failure of a copy.
-/

namespace PathRegistry

open PathRegistry.Action Subtree Table

/-- The new entry. -/
def CopiedEntry.entry (c : CopiedEntry) : Entry := ⟨c.id, c.path⟩

/-- The row of the new entry. -/
def CopiedEntry.row (c : CopiedEntry) : Row := c.entry.row

theorem CopiedEntry.map_entry_row (cs : List CopiedEntry) :
    (cs.map entry).map Entry.row = cs.map row := List.map_map

namespace Table

/-- The rows that a copy mirrors, in the order of their paths. -/
def originals (t : Table) (source : Path) (recursive : Bool) : List Row :=
  if recursive then byPath (t.filter fun r => (below source).contains r.path) else []

/-- The paths that a copy gives to the rows below the source, in the order of these rows'
paths. -/
def mirrored (t : Table) (source target : Path) (recursive : Bool) : List Text :=
  (t.originals source recursive).map fun r => carried source target r.path

theorem mem_originals {t : Table} {source : Path} {recursive : Bool} {r : Row} :
    r ∈ t.originals source recursive ↔
      recursive = true ∧ r ∈ t ∧ (below source).contains r.path = true := by
  unfold originals
  cases recursive with
  | true => simp [mem_byPath]
  | false => simp

/-- Rows below the source that were created in the order of their paths are mirrored in
the order of the table. -/
theorem originals_of_sorted {t : Table} {source : Path}
    (hSorted : (t.filter fun r => (below source).contains r.path).Pairwise
      fun r s => (!Text.isBefore s.path r.path) = true) :
    t.originals source true = t.filter fun r => (below source).contains r.path := by
  rw [originals, if_pos rfl, byPath, List.mergeSort_of_pairwise hSorted]

/-- Rows that all lie below the source and are in order are mirrored as they are. -/
theorem mirrored_of_sorted {t : Table} {source target : Path}
    (hBelow : ∀ r ∈ t, (below source).contains r.path = true)
    (hSorted : t.Pairwise fun r s => (!Text.isBefore s.path r.path) = true) :
    t.mirrored source target true = t.map fun r => carried source target r.path := by
  have hAll : (t.filter fun r => (below source).contains r.path) = t :=
    List.filter_eq_self.mpr hBelow
  rw [mirrored, originals_of_sorted (by rwa [hAll]), hAll]

/-- The rows that a copy mirrors ascend by their paths, octet by octet. -/
theorem Consistent.originals_ascend {t : Table} (h : t.Consistent) (source : Path)
    (recursive : Bool) : (t.originals source recursive).Pairwise
      fun r s => Text.octets r.path < Text.octets s.path := by
  unfold originals
  split
  · exact (h.filter _).byPath_pairwise.imp fun {r s} hBefore =>
      (Text.isBefore_iff_octets r.path s.path).mp hBefore
  · exact .nil

theorem Consistent.exists_originals {t : Table} (h : t.Consistent) (source : Path)
    (recursive : Bool) : ∃ es : List Entry, t.originals source recursive = es.map Entry.row := by
  cases recursive with
  | true => exact (h.filter _).exists_entries
  | false => exact ⟨[], rfl⟩

end Table

namespace Relocation

variable {source target : Path} {t : Table} {es : List Entry} {writable : Bool}
  {supply : Supply} {b' : Bench}

/-! ## Inserts one after the other -/

/-- **Inserting entries** succeeds exactly if all paths and all keys stay distinct. -/
theorem insertAll_eq_ok (hPaths : (t.map (·.path)).Nodup) (hKeys : (t.map (·.key)).Nodup)
    {u : Unit} : insertAll es ⟨t, writable, supply⟩ = .ok u b' ↔
      (es ≠ [] → writable = true) ∧ ((t ++ es.map Entry.row).map (·.path)).Nodup ∧
        ((t ++ es.map Entry.row).map (·.key)).Nodup ∧
        b' = ⟨t ++ es.map Entry.row, writable, supply⟩ := by
  -- the table grows with every insert, and what is left is inserted into the longer one
  induction es generalizing t with
  | nil =>
    rw [insertAll, pure_eq_ok, List.map_nil, List.append_nil]
    simp [hPaths, hKeys, eq_comm]
  | cons e es ih =>
    have hRows : t ++ (e :: es).map Entry.row = (t ++ [e.row]) ++ es.map Entry.row := by simp
    rw [insertAll, hRows]
    simp only [bind_eq_ok, Action.insert_eq_ok, Table.insert_eq_ok]
    constructor
    · rintro ⟨v, c, ⟨hWritable, t₁, ⟨hFree, hUnused, rfl⟩, rfl⟩, hRest⟩
      have hPaths₁ := (paths_nodup_concat (r := e.row)).mpr ⟨hPaths, hFree⟩
      have hKeys₁ := (keys_nodup_concat (r := e.row)).mpr ⟨hKeys, hUnused⟩
      exact ⟨fun _ => hWritable, ((ih hPaths₁ hKeys₁).mp hRest).2⟩
    · rintro ⟨hWritable, hPathsAll, hKeysAll, hEnd⟩
      have hPaths₁ : ((t ++ [e.row]).map (·.path)).Nodup :=
        hPathsAll.sublist ((List.sublist_append_left _ _).map _)
      have hKeys₁ : ((t ++ [e.row]).map (·.key)).Nodup :=
        hKeysAll.sublist ((List.sublist_append_left _ _).map _)
      have hMayWrite := hWritable (List.cons_ne_nil e es)
      refine ⟨(), _, ⟨hMayWrite, _, ⟨(paths_nodup_concat.mp hPaths₁).2,
        (keys_nodup_concat.mp hKeys₁).2, rfl⟩, rfl⟩, ?_⟩
      exact (ih hPaths₁ hKeys₁).mpr ⟨fun _ => hMayWrite, hPathsAll, hKeysAll, hEnd⟩

/-- **The insert that is refused** is the first whose path is taken by then. -/
theorem refused_of_insertAll (hPaths : (t.map (·.path)).Nodup)
    (hKeys : ((t ++ es.map Entry.row).map (·.key)).Nodup) {x : Failure}
    (hRun : insertAll es ⟨t, true, supply⟩ = .error x b') :
    ∃ before e after, es = before ++ e :: after ∧
      ((t ++ before.map Entry.row).map (·.path)).Nodup ∧
      (t ++ before.map Entry.row).holdsPath e.path = true ∧ x = .duplicatePath e.path := by
  induction es generalizing t with
  | nil => cases hRun
  | cons e es ih =>
    have hRows : t ++ (e :: es).map Entry.row = (t ++ [e.row]) ++ es.map Entry.row := by simp
    rw [hRows] at hKeys
    have hUnused : ∀ r ∈ t, r.key ≠ Key.ofId e.id :=
      (keys_nodup_concat.mp (hKeys.sublist ((List.sublist_append_left _ _).map _))).2
    rw [insertAll] at hRun
    rcases bind_eq_error.mp hRun with hRefused | ⟨v, c, hInsert, hRest⟩
    · obtain ⟨hStatement, -⟩ := (Action.insert_eq_error rfl).mp hRefused
      obtain ⟨hTaken, rfl⟩ := (Table.insert_eq_error hUnused).mp hStatement
      refine ⟨[], e, es, rfl, ?_, ?_, rfl⟩
      · rwa [List.map_nil, List.append_nil]
      · rwa [List.map_nil, List.append_nil]
    · obtain ⟨-, t₁, hStatement, rfl⟩ := Action.insert_eq_ok.mp hInsert
      obtain ⟨hFree, -, rfl⟩ := Table.insert_eq_ok.mp hStatement
      obtain ⟨before, f, after, rfl, hBefore, hTaken, rfl⟩ :=
        ih ((paths_nodup_concat (r := e.row)).mpr ⟨hPaths, hFree⟩) hKeys hRest
      have hSplit : t ++ (e :: before).map Entry.row =
          (t ++ [e.row]) ++ before.map Entry.row := by simp
      refine ⟨e :: before, f, after, rfl, ?_, ?_, rfl⟩
      · rwa [hSplit]
      · rwa [hSplit]

/-! ## The copies of the rows below a path -/

/-- The copies of entries, with identifiers from the supply. -/
def copies (source target : Path) : Supply → List Entry → List CopiedEntry
  | _, [] => []
  | s, e :: es => ⟨e.id, s.next, carried source target e.path⟩ :: copies source target s.rest es

/-- The copies tell which entries they come from. -/
theorem copies_origins (source target : Path) (supply : Supply) (es : List Entry) :
    (copies source target supply es).map (fun c => (⟨Key.ofId c.source, c.path⟩ : Row)) =
      relocate (carried source target) (es.map Entry.row) := by
  induction es generalizing supply with
  | nil => rfl
  | cons e es ih =>
    rw [copies, List.map_cons, ih]
    rfl

theorem copies_paths (source target : Path) (supply : Supply) (es : List Entry) :
    (copies source target supply es).map (·.path) =
      es.map fun e => carried source target e.path := by
  induction es generalizing supply with
  | nil => rfl
  | cons e es ih => rw [copies, List.map_cons, List.map_cons, ih]

theorem copies_ids (source target : Path) (supply : Supply) (es : List Entry) :
    (copies source target supply es).map (·.id) = supply.ahead es.length := by
  induction es generalizing supply with
  | nil => rfl
  | cons e es ih => rw [copies, List.map_cons, ih, List.length_cons, Supply.ahead]

/-- The rows of the copies have the mirrored paths. -/
theorem copies_row_paths {recursive : Bool}
    (hRows : t.originals source recursive = es.map Entry.row) :
    ((copies source target supply es).map CopiedEntry.row).map (·.path) =
      t.mirrored source target recursive := by
  rw [mirrored, hRows, List.map_map, List.map_map]
  exact copies_paths source target supply es

/-- The rows of the copies have the next identifiers. -/
theorem copies_row_keys (source target : Path) (supply : Supply) (es : List Entry) :
    ((copies source target supply es).map CopiedEntry.row).map (·.key) =
      (supply.ahead es.length).map Key.ofId := by
  rw [← copies_ids source target supply es, List.map_map, List.map_map]
  rfl

/-- Preparing the copies does not fail, and takes an identifier for each. -/
theorem prepareCopies_run (hBelow : ∀ e ∈ es, (below source).contains e.path = true) :
    prepareCopies (below source) (below target) es ⟨t, writable, supply⟩ =
      .ok (copies source target supply es) ⟨t, writable, supply.skip es.length⟩ := by
  induction es generalizing supply with
  | nil => rfl
  | cons e es ih =>
    obtain ⟨hFirst, hRest⟩ := List.forall_mem_cons.mp hBelow
    rw [prepareCopies, carry?_eq_some_carried hFirst]
    refine bind_eq_ok.mpr ⟨_, _, fresh_eq_ok.mpr ⟨rfl, rfl⟩, ?_⟩
    refine bind_eq_ok.mpr ⟨_, _, ih hRest, ?_⟩
    rw [pure_eq_ok, Supply.rest_skip]
    exact ⟨rfl, rfl⟩

/-- **Copying the rows below a path** is inserting their copies. -/
theorem copy_run (hRows : t.originals source true = es.map Entry.row) :
    copy source target ⟨t, writable, supply⟩ =
      (do insertAll ((copies source target supply es).map CopiedEntry.entry)
          return copies source target supply es : Action (List CopiedEntry))
        ⟨t, writable, supply.skip es.length⟩ := by
  have hBelow : ∀ e ∈ es, (below source).contains e.path = true := by
    intro e he
    have hMem : e.row ∈ t.originals source true := hRows ▸ List.mem_map_of_mem he
    exact (mem_originals.mp hMem).2.2
  by_cases hCurrent : source = .current
  · -- nothing lies below the current directory, and the table is not even read
    have hNone : es = [] := by
      refine List.eq_nil_iff_forall_not_mem.mpr fun e he => ?_
      have hIn := hBelow e he
      rw [hCurrent] at hIn
      cases hIn
    rw [hCurrent, hNone]
    rfl
  · have hEntries : t.entriesWithin (below source).range = .ok es := by
      rw [entriesWithin, entries, within_below]
      rw [show byPath (t.filter fun r => (below source).contains r.path) = es.map Entry.row
        from hRows, entriesOf_row]
    unfold copy
    rw [if_neg (mt isEmpty_below.mp hCurrent), read_bind hEntries, bind_run,
      prepareCopies_run hBelow]
    rfl

/-- The copies that are inserted have normal paths and are the rows of identifiers. -/
theorem copies_rows (hNormal : ∀ e ∈ es, normalize e.path = e.path) :
    ∀ r ∈ (copies source target supply es).map CopiedEntry.row,
      (∃ i, r.key = Key.ofId i) ∧ normalize r.path = r.path := by
  intro r hr
  obtain ⟨c, hc, rfl⟩ := List.mem_map.mp hr
  have hPath : c.path ∈ (copies source target supply es).map (·.path) := List.mem_map_of_mem hc
  rw [copies_paths] at hPath
  obtain ⟨e, he, hSame⟩ := List.mem_map.mp hPath
  refine ⟨⟨c.id, rfl⟩, ?_⟩
  show normalize c.path = c.path
  rw [← hSame]
  exact normalize_carried (hNormal e he)

end Relocation

namespace Registry

open Relocation Supply

/-- Indexing a path adds a row if there is none yet. -/
theorem indexPath_adds {p : Path} {t : Table} {i : Identifier} {writable : Bool}
    {supply : Supply} {b' : Bench} (h : t.Consistent)
    (hRun : indexPath p ⟨t, writable, supply⟩ = .ok i b') :
    b'.table = t ++ (if t.holdsPath p.text then [] else [⟨Key.ofId i, p.text⟩]) ∧
      ⟨Key.ofId i, p.text⟩ ∈ b'.table ∧ b'.writable = writable := by
  rcases (indexPath_eq_ok h).mp hRun with ⟨hMem, rfl⟩ | ⟨hFree, -, -, rfl, rfl⟩
  · have hHolds : t.holdsPath p.text = true := holdsPath_iff.mpr ⟨_, hMem, rfl⟩
    rw [hHolds, if_pos rfl, List.append_nil]
    exact ⟨rfl, hMem, rfl⟩
  · rw [hFree, if_neg Bool.false_ne_true]
    exact ⟨rfl, List.mem_append_right _ List.mem_cons_self, rfl⟩

/-- After a path has been indexed with two fresh identifiers at hand, one of them is left,
and the path is taken. -/
theorem indexPath_leaves {p : Path} {t : Table} {i : Identifier} {writable : Bool}
    {supply : Supply} {b' : Bench} (h : t.Consistent) (hFresh : supply.IsFreshFor 2 t)
    (hRun : indexPath p ⟨t, writable, supply⟩ = .ok i b') :
    (∀ r ∈ b'.table, r.key ≠ Key.ofId b'.supply.next) ∧
      ∀ path, b'.table.holdsPath path = true ↔ t.holdsPath path = true ∨ path = p.text := by
  rcases (indexPath_eq_ok h).mp hRun with ⟨hMem, rfl⟩ | ⟨-, -, -, rfl, rfl⟩
  · refine ⟨hFresh.next, fun path => ⟨.inl, ?_⟩⟩
    rintro (hHolds | rfl)
    · exact hHolds
    · exact holdsPath_iff.mpr ⟨_, hMem, rfl⟩
  · have hLeft : (supply.skip 1).IsFreshFor 1 (t ++ [⟨Key.ofId supply.next, p.text⟩]) :=
      IsFreshFor.skip (m := 1) (n := 1) hFresh rfl
    refine ⟨hLeft.next, fun path => ?_⟩
    rw [holdsPath_append, Bool.or_eq_true, holdsPath_iff_mem (t := [_])]
    exact or_congr_right List.mem_singleton

variable {source target : Text} {recursive : Bool} {t : Table} {es : List Entry}
  {writable : Bool} {supply : Supply} {report : CopyReport} {b' : Bench}

/-- The table after the copies of the rows below the source. -/
def afterCopies (source target : Text) (supply : Supply) (es : List Entry) (t : Table) : Table :=
  t ++ (copies (.ofText source) (.ofText target) supply es).map CopiedEntry.row

/-- Whether or not a copy is recursive, it begins with the copies of the originals. -/
theorem copyBelow_run (hRows : t.originals (.ofText source) recursive = es.map Entry.row) :
    (if recursive then Relocation.copy (.ofText source) (.ofText target) else pure [] :
        Action (List CopiedEntry)) ⟨t, writable, supply⟩ =
      (do insertAll ((copies (.ofText source) (.ofText target) supply es).map CopiedEntry.entry)
          return copies (.ofText source) (.ofText target) supply es : Action (List CopiedEntry))
        ⟨t, writable, supply.skip es.length⟩ := by
  cases recursive with
  | true => exact copy_run hRows
  | false =>
    have hNone : es = [] := List.map_eq_nil_iff.mp hRows.symm
    rw [hNone]
    rfl

/-- Whether or not it is recursive, a copy goes on in the same way after the copies of the
rows below the source. -/
theorem copy_eq (source target : Text) (recursive : Bool) :
    copy source target recursive = Action.atomically
      ((if recursive then Relocation.copy (.ofText source) (.ofText target) else pure []) >>=
        fun descendants => do
          let sourceId ← indexPath (.ofText source)
          let i ← Action.fresh
          Action.insert i (normalize target)
          return ⟨⟨sourceId, i, normalize target⟩, descendants⟩) := by
  cases recursive <;> rfl

theorem consistent_of_copy (h : t.Consistent)
    (hRun : copy source target recursive ⟨t, writable, supply⟩ = .ok report b') :
    b'.table.Consistent := by
  have hKept := keeps_copy source target recursive ⟨t, writable, supply⟩ h
  rwa [hRun] at hKept

section Steps

variable (h : t.Consistent)
  (hRows : t.originals (.ofText source) recursive = es.map Entry.row)

include hRows

theorem afterCopies_holdsPath (path : Text) :
    (afterCopies source target supply es t).holdsPath path = true ↔
      t.holdsPath path = true ∨
        path ∈ t.mirrored (.ofText source) (.ofText target) recursive := by
  rw [afterCopies, holdsPath_append, Bool.or_eq_true, holdsPath_iff_mem (t := List.map _ _),
    copies_row_paths hRows]

include h

theorem afterCopies_consistent
    (hPaths : ((afterCopies source target supply es t).map (·.path)).Nodup)
    (hKeys : ((afterCopies source target supply es t).map (·.key)).Nodup) :
    (afterCopies source target supply es t).Consistent := by
  have hNormal : ∀ e ∈ es, normalize e.path = e.path := by
    intro e he
    have hMem : e.row ∈ t.originals (.ofText source) recursive := hRows ▸ List.mem_map_of_mem he
    exact h.normal e.row (mem_originals.mp hMem).2.1
  exact h.append (fun r hr => (copies_rows hNormal r hr).1)
    (fun r hr => (copies_rows hNormal r hr).2) hPaths hKeys

/-- **The steps of a copy**: the copies of the rows below the source are inserted, the
source is indexed on the table that results, and the target is inserted last. -/
theorem copy_eq_ok :
    copy source target recursive ⟨t, writable, supply⟩ = .ok report b' ↔
      ∃ j c, ((afterCopies source target supply es t).map (·.path)).Nodup ∧
        ((afterCopies source target supply es t).map (·.key)).Nodup ∧
        indexPath (.ofText source)
          ⟨afterCopies source target supply es t, writable, supply.skip es.length⟩ = .ok j c ∧
        c.table.holdsPath (normalize target) = false ∧
        (∀ r ∈ c.table, r.key ≠ Key.ofId c.supply.next) ∧ c.writable = true ∧
        report = ⟨⟨j, c.supply.next, normalize target⟩,
          copies (.ofText source) (.ofText target) supply es⟩ ∧
        b' = ⟨c.table ++ [⟨Key.ofId c.supply.next, normalize target⟩], c.writable,
          c.supply.rest⟩ := by
  rw [copy_eq, atomically_eq_ok, bind_eq_ok]
  simp only [copyBelow_run hRows, bind_eq_ok, pure_eq_ok, insertAll_eq_ok h.paths_nodup
    h.keys_nodup, CopiedEntry.map_entry_row, fresh_eq_ok, Action.insert_eq_ok, Table.insert_eq_ok]
  constructor
  · rintro ⟨ds, c₁, ⟨u, c₂, ⟨hWritable, hPaths, hKeys, rfl⟩, rfl, rfl⟩, j, c, hIndex, i, c₃,
      ⟨rfl, rfl⟩, v, c₄, ⟨hMayWrite, t', ⟨hFree, hUnused, rfl⟩, rfl⟩, rfl, rfl⟩
    exact ⟨j, c, hPaths, hKeys, hIndex, hFree, hUnused, hMayWrite, rfl, rfl⟩
  · rintro ⟨j, c, hPaths, hKeys, hIndex, hFree, hUnused, hMayWrite, rfl, rfl⟩
    have hSame := (indexPath_adds (afterCopies_consistent h hRows hPaths hKeys) hIndex).2.2
    have hWritable : writable = true := hSame.symm.trans hMayWrite
    exact ⟨_, _, ⟨(), _, ⟨fun _ => hWritable, hPaths, hKeys, rfl⟩, rfl, rfl⟩, j, c, hIndex, _, _,
      ⟨rfl, rfl⟩, (), _, ⟨hMayWrite, _, ⟨hFree, hUnused, rfl⟩, rfl⟩, rfl, rfl⟩

/-- **What a copy leaves**: the rows of the copies, one for the source if it had none by
then, and one for the target, which is not the source. -/
theorem table_of_copy
    (hRun : copy source target recursive ⟨t, writable, supply⟩ = .ok report b') :
    report.descendants = copies (.ofText source) (.ofText target) supply es ∧
      report.root.path = normalize target ∧
      b'.table = t ++ report.descendants.map CopiedEntry.row ++
        (if t.holdsPath (normalize source) = true ∨
            normalize source ∈ t.mirrored (.ofText source) (.ofText target) recursive
          then [] else [⟨Key.ofId report.root.source, normalize source⟩]) ++
        [report.root.row] ∧
      ⟨Key.ofId report.root.source, normalize source⟩ ∈ b'.table ∧
      normalize target ≠ normalize source := by
  obtain ⟨j, c, hPaths, hKeys, hIndex, hFree, -, -, rfl, rfl⟩ := (copy_eq_ok h hRows).mp hRun
  obtain ⟨hTable, hMem, -⟩ := indexPath_adds (afterCopies_consistent h hRows hPaths hKeys) hIndex
  have hHolds : (afterCopies source target supply es t).holdsPath (normalize source) = true ↔ _ :=
    afterCopies_holdsPath hRows _
  refine ⟨rfl, rfl, ?_, List.mem_append_left _ hMem, fun hSame => ?_⟩
  · simp only [hTable, ← hHolds]
    rfl
  · exact holdsPath_eq_false.mp hFree _ hMem hSame.symm

/-- **What a copy adds**: a row for each mirrored path, one for the source if it had none
by then, and one for the target, whose identifier is that of the report. -/
theorem added_of_copy
    (hRun : copy source target recursive ⟨t, writable, supply⟩ = .ok report b') :
    ∃ added, b'.table = t ++ added ∧
      added.map (·.path) = t.mirrored (.ofText source) (.ofText target) recursive ++
        (if t.holdsPath (normalize source) = true ∨
            normalize source ∈ t.mirrored (.ofText source) (.ofText target) recursive
          then [] else [normalize source]) ++ [normalize target] ∧
      ⟨Key.ofId report.root.id, normalize target⟩ ∈ added := by
  obtain ⟨hCopies, hRoot, hTable, -, -⟩ := table_of_copy h hRows hRun
  rw [List.append_assoc, List.append_assoc, hCopies] at hTable
  refine ⟨_, hTable, ?_, ?_⟩
  · rw [List.map_append, List.map_append, copies_row_paths hRows, ← List.append_assoc, ← hRoot]
    split <;> rfl
  · rw [← hRoot]
    exact List.mem_append_right _ (List.mem_append_right _ List.mem_cons_self)

theorem afterCopies_paths_nodup :
    ((afterCopies source target supply es t).map (·.path)).Nodup ↔
      (t.mirrored (.ofText source) (.ofText target) recursive).Nodup ∧
        ∀ p ∈ t.mirrored (.ofText source) (.ofText target) recursive, t.holdsPath p = false := by
  rw [afterCopies, h.paths_nodup_append, copies_row_paths hRows]

section Fresh

variable (hFresh : supply.IsFreshFor (es.length + 2) t)

include hFresh

omit hRows in
theorem afterCopies_keys_nodup :
    ((afterCopies source target supply es t).map (·.key)).Nodup :=
  hFresh.take.keys_nodup h.keys_nodup (copies_row_keys _ _ _ _)

/-- Once the copies of the rows below the source are in, the source can be indexed; then
an identifier is left for the target, which is taken if it was, if it is among the
mirrored paths, or if it is the source. -/
theorem source_indexed
    (hPaths : ((afterCopies source target supply es t).map (·.path)).Nodup) :
    ∃ j c, indexPath (.ofText source)
        ⟨afterCopies source target supply es t, true, supply.skip es.length⟩ = .ok j c ∧
      c.writable = true ∧ (∀ r ∈ c.table, r.key ≠ Key.ofId c.supply.next) ∧
      (c.table.holdsPath (normalize target) = true ↔
        (t.holdsPath (normalize target) = true ∨
          normalize target ∈ t.mirrored (.ofText source) (.ofText target) recursive) ∨
        normalize target = normalize source) := by
  have hCons := afterCopies_consistent h hRows hPaths (afterCopies_keys_nodup h hFresh)
  have hLeft : (supply.skip es.length).IsFreshFor 2 (afterCopies source target supply es t) :=
    hFresh.skip (copies_row_keys _ _ _ _)
  obtain ⟨j, c, hIndex⟩ := indexPath_succeeds (p := .ofText source) hCons hLeft.next
  obtain ⟨hUnused, hTaken⟩ := indexPath_leaves hCons hLeft hIndex
  refine ⟨j, c, hIndex, (indexPath_adds hCons hIndex).2.2, hUnused, ?_⟩
  rw [hTaken, afterCopies_holdsPath hRows]
  rfl

/-- With fresh identifiers at hand, **a copy succeeds** exactly if the new paths are
distinct and free, and the target is not the source. -/
theorem copy_succeeds :
    (∃ report, ((copy source target recursive).on t true supply).1 = .ok report) ↔
      (t.mirrored (.ofText source) (.ofText target) recursive ++ [normalize target]).Nodup ∧
        (∀ p ∈ t.mirrored (.ofText source) (.ofText target) recursive ++ [normalize target],
          t.holdsPath p = false) ∧
        normalize target ≠ normalize source := by
  have hKeys : ((afterCopies source target supply es t).map (·.key)).Nodup :=
    afterCopies_keys_nodup h hFresh
  have hPathsIff : ((afterCopies source target supply es t).map (·.path)).Nodup ↔ _ :=
    afterCopies_paths_nodup h hRows
  have hConcat (l : List Text) (p : Text) : (l ++ [p]).Nodup ↔ p ∉ l ∧ l.Nodup := by
    rw [← List.concat_eq_append, List.nodup_concat]
  rw [hConcat, List.forall_mem_append, List.forall_mem_singleton]
  simp only [on_fst_eq_ok]
  constructor
  · rintro ⟨report, b', hRun⟩
    obtain ⟨j, c, hPaths, -, hIndex, hFree, -⟩ := (copy_eq_ok h hRows).mp hRun
    obtain ⟨j', c', hIndex', -, -, hTaken⟩ := source_indexed h hRows hFresh hPaths
    cases hIndex.symm.trans hIndex'
    rw [← Bool.not_eq_true, hTaken, not_or, not_or, Bool.not_eq_true] at hFree
    obtain ⟨⟨hTarget, hNew⟩, hApart⟩ := hFree
    obtain ⟨hNodup, hMirrored⟩ := hPathsIff.mp hPaths
    exact ⟨⟨hNew, hNodup⟩, ⟨hMirrored, hTarget⟩, hApart⟩
  · rintro ⟨⟨hNew, hNodup⟩, ⟨hMirrored, hTarget⟩, hApart⟩
    have hPaths := hPathsIff.mpr ⟨hNodup, hMirrored⟩
    obtain ⟨j, c, hIndex, hWritable, hUnused, hTaken⟩ := source_indexed h hRows hFresh hPaths
    have hFree : c.table.holdsPath (normalize target) = false := by
      rw [← Bool.not_eq_true, hTaken, not_or, not_or, Bool.not_eq_true]
      exact ⟨⟨hTarget, hNew⟩, hApart⟩
    exact ⟨_, _, (copy_eq_ok h hRows).mpr
      ⟨j, c, hPaths, hKeys, hIndex, hFree, hUnused, hWritable, rfl, rfl⟩⟩

/-- If a copy stops below the source, one of the mirrored paths is refused: the first that
is taken by then. -/
theorem refused_below {e : Failure}
    (hRun : (if recursive then Relocation.copy (.ofText source) (.ofText target) else pure [] :
        Action (List CopiedEntry)) ⟨t, true, supply⟩ = .error e b') :
    ∃ before q after,
      t.mirrored (.ofText source) (.ofText target) recursive = before ++ q :: after ∧
      before.Nodup ∧ (∀ p ∈ before, t.holdsPath p = false) ∧
      (t.holdsPath q = true ∨ q ∈ before) ∧ e = .duplicatePath q := by
  have hKeys : ((t ++ ((copies (.ofText source) (.ofText target) supply es).map
      CopiedEntry.entry).map Entry.row).map (·.key)).Nodup := by
    rw [CopiedEntry.map_entry_row]
    exact afterCopies_keys_nodup h hFresh
  rw [copyBelow_run hRows] at hRun
  rcases bind_eq_error.mp hRun with hRefused | ⟨u, d, -, hEnd⟩
  · obtain ⟨before, f, after, hSplit, hBefore, hTaken, rfl⟩ :=
      refused_of_insertAll h.paths_nodup hKeys hRefused
    obtain ⟨hNodup, hFree⟩ := h.paths_nodup_append.mp hBefore
    rw [holdsPath_append, Bool.or_eq_true, holdsPath_iff_mem (t := List.map _ _)] at hTaken
    refine ⟨(before.map Entry.row).map (·.path), f.path, (after.map Entry.row).map (·.path), ?_,
      hNodup, hFree, hTaken, rfl⟩
    rw [← copies_row_paths hRows, ← CopiedEntry.map_entry_row, hSplit, List.map_append,
      List.map_append]
    rfl
  · cases hEnd

/-- If a copy stops at the target, the target is what is refused. -/
theorem refused_target {e : Failure} {c : Bench} {ds : List CopiedEntry}
    (hPaths : ((afterCopies source target supply es t).map (·.path)).Nodup)
    (hRun : (do
        let sourceId ← indexPath (.ofText source)
        let i ← Action.fresh
        Action.insert i (normalize target)
        return ⟨⟨sourceId, i, normalize target⟩, ds⟩ : Action CopyReport)
      ⟨afterCopies source target supply es t, true, supply.skip es.length⟩ = .error e c) :
    ((t.holdsPath (normalize target) = true ∨
        normalize target ∈ t.mirrored (.ofText source) (.ofText target) recursive) ∨
      normalize target = normalize source) ∧ e = .duplicatePath (normalize target) := by
  obtain ⟨j, d, hIndex, hWritable, hUnused, hTaken⟩ := source_indexed h hRows hFresh hPaths
  rcases bind_eq_error.mp hRun with hFail | ⟨j', d', hIndex', hRun⟩
  · cases hIndex.symm.trans hFail
  · cases hIndex.symm.trans hIndex'
    rcases bind_eq_error.mp hRun with hFail | ⟨i, d', hNext, hRun⟩
    · cases hFail
    · obtain ⟨rfl, rfl⟩ := fresh_eq_ok.mp hNext
      rcases bind_eq_error.mp hRun with hRefused | ⟨u, d', -, hEnd⟩
      · obtain ⟨hStatement, -⟩ :=
          (Action.insert_eq_error (b := { d with supply := d.supply.rest }) hWritable).mp hRefused
        obtain ⟨hHolds, rfl⟩ := (Table.insert_eq_error hUnused).mp hStatement
        exact ⟨hTaken.mp hHolds, rfl⟩
      · cases hEnd

/-- With fresh identifiers at hand, **a copy that fails** names the first new path that is
taken by then; the target counts as taken too if it is the source. -/
theorem failure_of_copy {e : Failure}
    (hRun : copy source target recursive ⟨t, true, supply⟩ = .error e b') :
    ∃ before q after,
      t.mirrored (.ofText source) (.ofText target) recursive ++ [normalize target] =
        before ++ q :: after ∧
      before.Nodup ∧ (∀ p ∈ before, t.holdsPath p = false) ∧
      (t.holdsPath q = true ∨ q ∈ before ∨ after = [] ∧ q = normalize source) ∧
      e = .duplicatePath q := by
  rw [copy_eq] at hRun
  obtain ⟨c, hRun, -⟩ := atomically_eq_error.mp hRun
  rcases bind_eq_error.mp hRun with hBelow | ⟨ds, c₁, hBelow, hRest⟩
  · -- the target was not reached, so it comes after the path that is refused
    obtain ⟨before, q, after, hSplit, hNodup, hFree, hTaken, rfl⟩ :=
      refused_below h hRows hFresh hBelow
    refine ⟨before, q, after ++ [normalize target], ?_, hNodup, hFree, ?_, rfl⟩
    · rw [hSplit, List.append_assoc, List.cons_append]
    · exact hTaken.imp_right .inl
  · -- all mirrored paths were distinct and free, and the target is what is refused
    rw [copyBelow_run hRows] at hBelow
    obtain ⟨u, c₂, hInserted, hEnd⟩ := bind_eq_ok.mp hBelow
    obtain ⟨rfl, rfl⟩ := pure_eq_ok.mp hEnd
    obtain ⟨-, hPaths, -, rfl⟩ := (insertAll_eq_ok h.paths_nodup h.keys_nodup).mp hInserted
    rw [CopiedEntry.map_entry_row] at hPaths hRest
    obtain ⟨hNodup, hFree⟩ := (afterCopies_paths_nodup h hRows).mp hPaths
    obtain ⟨hTaken, rfl⟩ := refused_target h hRows hFresh hPaths hRest
    refine ⟨_, normalize target, [], rfl, hNodup, hFree, ?_, rfl⟩
    rcases hTaken with (hHeld | hNew) | hSame
    · exact .inl hHeld
    · exact .inr (.inl hNew)
    · exact .inr (.inr ⟨rfl, hSame⟩)

end Fresh

end Steps

end Registry

namespace Table.Reachable

variable {t : Table} {source target : Text} {recursive : Bool} {supply : Supply}

/-- **A copy.**  The rows that it mirrors are those below the source if it is recursive, in
ascending order of their paths.  It succeeds exactly if the mirrored paths and the target are
distinct, no row has one of them, and the target is not the source.  Then every row stays, one
row is added for each mirrored path, one for the source if it has none by then, and one for the
target, with new identifiers.  If it fails, the failure names the first of the mirrored
paths and the target that a row had, that came before, or that, as the target, is the
source. -/
theorem copy_exact (h : t.Reachable) (hFresh : supply.IsFreshFor
      ((t.mirrored (.ofText source) (.ofText target) recursive).length + 2) t) :
    (∀ r, r ∈ t.originals (.ofText source) recursive ↔
      recursive = true ∧ r ∈ t ∧ (Subtree.below (.ofText source)).contains r.path = true) ∧
    ((t.originals (.ofText source) recursive).Pairwise fun r s =>
      Text.octets r.path < Text.octets s.path) ∧
    ((∃ report, ((Registry.copy source target recursive).on t true supply).1 = .ok report) ↔
      (t.mirrored (.ofText source) (.ofText target) recursive ++ [normalize target]).Nodup ∧
        (∀ p ∈ t.mirrored (.ofText source) (.ofText target) recursive ++ [normalize target],
          t.holdsPath p = false) ∧
        normalize target ≠ normalize source) ∧
    (∀ report t' supply',
      (Registry.copy source target recursive).on t true supply = (.ok report, t', supply') →
      ∃ added, t' = t ++ added ∧
        added.map (·.path) = t.mirrored (.ofText source) (.ofText target) recursive ++
          (if t.holdsPath (normalize source) = true ∨
              normalize source ∈ t.mirrored (.ofText source) (.ofText target) recursive
            then [] else [normalize source]) ++ [normalize target] ∧
        ⟨Key.ofId report.root.id, normalize target⟩ ∈ added ∧
        (∀ r ∈ added, ∃ i, r.key = Key.ofId i) ∧ (added.map (·.key)).Nodup ∧
        ∀ r ∈ added, ∀ s ∈ t, r.key ≠ s.key) ∧
    ∀ e, ((Registry.copy source target recursive).on t true supply).1 = .error e →
      ∃ before q after,
        t.mirrored (.ofText source) (.ofText target) recursive ++ [normalize target] =
          before ++ q :: after ∧
        before.Nodup ∧ (∀ p ∈ before, t.holdsPath p = false) ∧
        (t.holdsPath q = true ∨ q ∈ before ∨ after = [] ∧ q = normalize source) ∧
        e = .duplicatePath q := by
  have hCons := h.consistent
  obtain ⟨es, hRows⟩ := hCons.exists_originals (.ofText source) recursive
  rw [mirrored, hRows, List.length_map, List.length_map] at hFresh
  refine ⟨fun r => mem_originals, hCons.originals_ascend _ _,
    Registry.copy_succeeds hCons hRows hFresh, fun report t' supply' hCopy => ?_,
    fun e hFail => ?_⟩
  · obtain ⟨w, hRun⟩ := on_eq_ok.mp hCopy
    obtain ⟨added, hTable, hPaths, hRoot⟩ := Registry.added_of_copy hCons hRows hRun
    obtain ⟨hIdentified, -, -, hKeys⟩ := Registry.consistent_of_copy hCons hRun
    obtain rfl : t' = t ++ added := hTable
    rw [List.map_append, List.nodup_append] at hKeys
    refine ⟨added, rfl, hPaths, hRoot, fun r hr => ?_, hKeys.2.1, fun r hr s hs hSame => ?_⟩
    · exact hIdentified r (List.mem_append_right t hr)
    · exact hKeys.2.2 s.key (List.mem_map_of_mem hs) r.key (List.mem_map_of_mem hr) hSame.symm
  · obtain ⟨b', hRun⟩ := on_fst_eq_error.mp hFail
    exact Registry.failure_of_copy hCons hRows hFresh hRun

/-- A path without a row that is copied to the current directory: what lay below it is
mirrored, and both paths get a row. -/
theorem copy_exact_upwards :
    let t : Table := ((Call.indexAll [['a', '/', 'b'], ['a', '/', 'c']]).action.on
      [] true (.ofSeed 0)).2.1
    let copied := (Registry.copy ['A', '/'] ['.'] true).on t true (.ofSeed 2)
    t.Reachable ∧ (Supply.ofSeed 2).IsFreshFor
        ((t.mirrored (.ofText ['A', '/']) (.ofText ['.']) true).length + 2) t ∧
      (∃ report, copied.1 = .ok report) ∧
      ∃ added, copied.2.1 = t ++ added ∧ added.map (·.path) = [['b'], ['c'], ['a'], ['.']] := by
  intro t copied
  have hReachable : t.Reachable := .call _ _ _ (by decide) .empty
  have hMirrored : t.mirrored (.ofText ['A', '/']) (.ofText ['.']) true = [['b'], ['c']] := by
    rw [mirrored_of_sorted (by decide +kernel) (by decide +kernel)]
    decide +kernel
  have hFresh : (Supply.ofSeed 2).IsFreshFor
      ((t.mirrored (.ofText ['A', '/']) (.ofText ['.']) true).length + 2) t := by
    rw [hMirrored]
    exact ⟨by decide +kernel, by decide +kernel⟩
  obtain ⟨-, -, hSucceeds, hAdds, -⟩ := hReachable.copy_exact hFresh
  rw [hMirrored] at hSucceeds hAdds
  obtain ⟨report, hOk⟩ := hSucceeds.mpr (by decide +kernel)
  have hCopy : copied = (.ok report, copied.2.1, copied.2.2) := by rw [← hOk]
  obtain ⟨added, hTable, hPaths, -⟩ := hAdds _ _ _ hCopy
  refine ⟨hReachable, hFresh, ⟨report, hOk⟩, added, hTable, hPaths.trans ?_⟩
  decide +kernel

end Table.Reachable

end PathRegistry
