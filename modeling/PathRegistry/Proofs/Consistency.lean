import Mathlib.Data.List.Nodup
import PathRegistry.Table
import PathRegistry.Proofs.NormalForm

/-!
# Consistent tables

A table is consistent if every key is that of an identifier, every path is in
normal form, and neither a path nor a key occurs twice.  On such a table the two
look-ups are each other's inverse: both say that a certain row is there.

Statements that write keep a table consistent as long as the paths they write
are normal.  Rows only ever come by `add`, change by `map`, and go by
`filter`, so three lemmas serve all statements.

## Main statements

* `Consistent.idAt_eq_some`, `Consistent.pathOf?_eq_some` — what a look-up finds.
* `Consistent.add`, `Consistent.map`, `Consistent.filter` — what keeps a table
  consistent.
* `repoint_eq_ok` — when a row can be pointed at a path, and what results.
-/

namespace PathRegistry

namespace Key

theorem ofId_injective : Function.Injective ofId := by
  intro i j h
  obtain ⟨octets, hLength⟩ := i
  obtain ⟨octets', hLength'⟩ := j
  obtain rfl : octets = octets' := Key.octets.inj h
  rfl

@[simp] theorem ofId_inj {i j : Identifier} : ofId i = ofId j ↔ i = j :=
  ofId_injective.eq_iff

@[simp] theorem id_ofId (i : Identifier) : (ofId i).id = .ok i := by
  simp [ofId, id, Identifier.ofOctets?, i.length_octets]

theorem eq_ofId_of_id {k : Key} {i : Identifier} (h : k.id = .ok i) : k = ofId i := by
  cases k with
  | octets content =>
    by_cases hLength : content.length = 16
    · simp only [id, Identifier.ofOctets?, dif_pos hLength] at h
      cases h
      rfl
    · simp [id, Identifier.ofOctets?, hLength] at h
  | text | integer | null => simp [id] at h

end Key

/-- The row with its path changed by `f`. -/
def Row.relocate (f : Text → Text) (r : Row) : Row := ⟨r.key, f r.path⟩

@[simp] theorem Row.relocate_key (f : Text → Text) (r : Row) : (r.relocate f).key = r.key := rfl

@[simp] theorem Row.relocate_path (f : Text → Text) (r : Row) :
    (r.relocate f).path = f r.path := rfl

namespace Table

variable {t t' : Table} {i : Identifier} {path : Text}

/-- The table with the path of every row changed by `f`. -/
def relocate (f : Text → Text) (t : Table) : Table := t.map (Row.relocate f)

/-- Every key is that of an identifier, every path is normal, and neither a path nor
a key occurs twice. -/
structure Consistent (t : Table) : Prop where
  /-- Every key is that of an identifier. -/
  identified : ∀ r ∈ t, ∃ i, r.key = Key.ofId i
  /-- Every path is normal. -/
  normal : ∀ r ∈ t, normalize r.path = r.path
  /-- No path occurs twice. -/
  paths_nodup : (t.map (·.path)).Nodup
  /-- No key occurs twice. -/
  keys_nodup : (t.map (·.key)).Nodup

/-! ## Reading -/

theorem holdsPath_iff : t.holdsPath path = true ↔ ∃ r ∈ t, r.path = path := by
  simp [holdsPath]

theorem holdsPath_eq_false : t.holdsPath path = false ↔ ∀ r ∈ t, r.path ≠ path := by
  simp [holdsPath]

theorem holdsPath_append (t rows : Table) (path : Text) :
    (t ++ rows).holdsPath path = (t.holdsPath path || rows.holdsPath path) := List.any_append

theorem holdsPath_iff_mem : t.holdsPath path = true ↔ path ∈ t.map (·.path) := by
  rw [holdsPath_iff, List.mem_map]

theorem holdsKey_ofId : t.holdsKey (Key.ofId i) = true ↔ ∃ r ∈ t, r.key = Key.ofId i := by
  simp [holdsKey, Key.ofId]

/-- One more row keeps the paths distinct unless its path is taken. -/
theorem paths_nodup_concat {r : Row} : ((t ++ [r]).map (·.path)).Nodup ↔
    (t.map (·.path)).Nodup ∧ t.holdsPath r.path = false := by
  rw [holdsPath_eq_false, List.map_append, List.map_singleton, List.nodup_append]
  simp

/-- One more row keeps the keys distinct unless its key is in use. -/
theorem keys_nodup_concat {r : Row} : ((t ++ [r]).map (·.key)).Nodup ↔
    (t.map (·.key)).Nodup ∧ ∀ s ∈ t, s.key ≠ r.key := by
  rw [List.map_append, List.map_singleton, List.nodup_append]
  simp

theorem idAt_eq_none : t.idAt path = .ok none ↔ t.holdsPath path = false := by
  rw [holdsPath_eq_false, idAt]
  cases hRow : t.rowAt? path with
  | none => simpa [rowAt?, List.find?_eq_none] using hRow
  | some r =>
    have hPath : r.path = path := by simpa using List.find?_some hRow
    have hMem : r ∈ t := List.mem_of_find?_eq_some hRow
    refine iff_of_false ?_ fun hNone => hNone r hMem hPath
    dsimp only
    split <;> simp

theorem idAt_mem (h : t.idAt path = .ok (some i)) : ⟨Key.ofId i, path⟩ ∈ t := by
  unfold idAt at h
  cases hRow : t.rowAt? path with
  | none => simp [hRow] at h
  | some r =>
    have hPath : r.path = path := by simpa using List.find?_some hRow
    have hMem : r ∈ t := List.mem_of_find?_eq_some hRow
    cases hKey : r.key.id with
    | error e => simp [hRow, hKey] at h
    | ok j =>
      simp only [hRow, hKey, Except.ok.injEq, Option.some.injEq] at h
      rw [← h, ← hPath, ← Key.eq_ofId_of_id hKey]
      exact hMem

namespace Consistent

theorem nil : Consistent [] := ⟨by simp, by simp, by simp, by simp⟩

theorem eq_of_path (h : t.Consistent) {r s : Row} (hr : r ∈ t) (hs : s ∈ t)
    (hPath : r.path = s.path) : r = s :=
  List.inj_on_of_nodup_map h.paths_nodup hr hs hPath

theorem eq_of_key (h : t.Consistent) {r s : Row} (hr : r ∈ t) (hs : s ∈ t)
    (hKey : r.key = s.key) : r = s :=
  List.inj_on_of_nodup_map h.keys_nodup hr hs hKey

/-- Any two rows differ in both path and key. -/
theorem pairwise_ne (h : t.Consistent) :
    t.Pairwise fun r s => r.path ≠ s.path ∧ r.key ≠ s.key :=
  (List.pairwise_map.mp h.paths_nodup).and (List.pairwise_map.mp h.keys_nodup)

theorem rowAt?_eq_some (h : t.Consistent) {r : Row} :
    t.rowAt? path = some r ↔ r ∈ t ∧ r.path = path := by
  constructor
  · intro hRow
    exact ⟨List.mem_of_find?_eq_some hRow, by simpa using List.find?_some hRow⟩
  · rintro ⟨hMem, hPath⟩
    cases hRow : t.rowAt? path with
    | none =>
      have hNone := List.find?_eq_none.mp hRow r hMem
      simp [hPath] at hNone
    | some s =>
      have hSame : s.path = path := by simpa using List.find?_some hRow
      rw [h.eq_of_path (List.mem_of_find?_eq_some hRow) hMem (hSame.trans hPath.symm)]

/-- **Looking a path up** finds the row of that path. -/
theorem idAt_eq_some (h : t.Consistent) :
    t.idAt path = .ok (some i) ↔ ⟨Key.ofId i, path⟩ ∈ t := by
  refine ⟨idAt_mem, fun hMem => ?_⟩
  rw [idAt, h.rowAt?_eq_some.mpr ⟨hMem, rfl⟩]
  simp

/-- A look-up on a consistent table does not fail. -/
theorem idAt_ok (h : t.Consistent) (path : Text) : ∃ i?, t.idAt path = .ok i? := by
  cases hRow : t.rowAt? path with
  | none => exact ⟨none, by simp [idAt, hRow]⟩
  | some r =>
    obtain ⟨i, hKey⟩ := h.identified r (List.mem_of_find?_eq_some hRow)
    exact ⟨some i, by simp [idAt, hRow, hKey]⟩

/-- **Looking an identifier up** finds the row of that identifier. -/
theorem pathOf?_eq_some (h : t.Consistent) :
    t.pathOf? i = some path ↔ ⟨Key.ofId i, path⟩ ∈ t := by
  rw [pathOf?, Option.map_eq_some_iff]
  constructor
  · rintro ⟨r, hRow, rfl⟩
    have hKey : r.key = Key.ofId i := by simpa using List.find?_some hRow
    rw [← hKey]
    exact List.mem_of_find?_eq_some hRow
  · intro hMem
    cases hRow : t.find? (·.key == Key.ofId i) with
    | none =>
      have hNone := List.find?_eq_none.mp hRow _ hMem
      simp at hNone
    | some r =>
      have hKey : r.key = Key.ofId i := by simpa using List.find?_some hRow
      rw [h.eq_of_key (List.mem_of_find?_eq_some hRow) hMem hKey]
      exact ⟨_, rfl, rfl⟩

/-! ## What keeps a table consistent -/

/-- More rows keep the paths distinct if theirs are distinct and free. -/
theorem paths_nodup_append (h : t.Consistent) {rows : Table} :
    ((t ++ rows).map (·.path)).Nodup ↔
      (rows.map (·.path)).Nodup ∧ ∀ p ∈ rows.map (·.path), t.holdsPath p = false := by
  rw [List.map_append, List.nodup_append]
  constructor
  · rintro ⟨-, hRows, hApart⟩
    refine ⟨hRows, fun p hp => holdsPath_eq_false.mpr fun r hr => ?_⟩
    exact hApart r.path (List.mem_map_of_mem hr) p hp
  · rintro ⟨hRows, hFree⟩
    refine ⟨h.paths_nodup, hRows, fun p hp q hq hSame => ?_⟩
    obtain ⟨r, hr, rfl⟩ := List.mem_map.mp hp
    exact holdsPath_eq_false.mp (hFree q hq) r hr hSame

theorem append (h : t.Consistent) {rows : Table} (hIds : ∀ r ∈ rows, ∃ i, r.key = Key.ofId i)
    (hNormal : ∀ r ∈ rows, normalize r.path = r.path)
    (hPaths : ((t ++ rows).map (·.path)).Nodup) (hKeys : ((t ++ rows).map (·.key)).Nodup) :
    Consistent (t ++ rows) := by
  refine ⟨fun r hr => ?_, fun r hr => ?_, hPaths, hKeys⟩
  · rcases List.mem_append.mp hr with hOld | hNew
    · exact h.identified r hOld
    · exact hIds r hNew
  · rcases List.mem_append.mp hr with hOld | hNew
    · exact h.normal r hOld
    · exact hNormal r hNew

theorem add (h : t.Consistent) {r : Row} (hKey : r.key = Key.ofId i)
    (hNormal : normalize r.path = r.path) (hAdd : t.add r = .ok t') : t'.Consistent := by
  unfold Table.add at hAdd
  split at hAdd
  · cases hAdd
  · rename_i hPath
    split at hAdd
    · cases hAdd
    · rename_i hTaken
      cases hAdd
      rw [Bool.not_eq_true] at hPath
      rw [hKey, holdsKey_ofId, ← hKey] at hTaken
      refine h.append (fun s hs => ⟨i, List.mem_singleton.mp hs ▸ hKey⟩)
        (fun s hs => List.mem_singleton.mp hs ▸ hNormal) ?_ ?_
      · exact paths_nodup_concat.mpr ⟨h.paths_nodup, hPath⟩
      · exact keys_nodup_concat.mpr ⟨h.keys_nodup, fun s hs hEq => hTaken ⟨s, hs, hEq⟩⟩

theorem map (h : t.Consistent) {f : Row → Row} (hKeys : ∀ r ∈ t, (f r).key = r.key)
    (hNormal : ∀ r ∈ t, normalize (f r).path = (f r).path)
    (hNodup : ((t.map f).map (·.path)).Nodup) : Consistent (t.map f) := by
  refine ⟨fun s hs => ?_, fun s hs => ?_, hNodup, ?_⟩
  · obtain ⟨r, hr, rfl⟩ := List.mem_map.mp hs
    rw [hKeys r hr]
    exact h.identified r hr
  · obtain ⟨r, hr, rfl⟩ := List.mem_map.mp hs
    exact hNormal r hr
  · have hSame : (t.map f).map (·.key) = t.map (·.key) := by
      rw [List.map_map]
      exact List.map_congr_left hKeys
    rw [hSame]
    exact h.keys_nodup

theorem filter (h : t.Consistent) (p : Row → Bool) : Consistent (t.filter p) :=
  ⟨fun r hr => h.identified r (List.mem_of_mem_filter hr),
    fun r hr => h.normal r (List.mem_of_mem_filter hr),
    h.paths_nodup.sublist (List.filter_sublist.map _),
    h.keys_nodup.sublist (List.filter_sublist.map _)⟩

end Consistent

/-- **Inserting an entry** adds its row at the end, unless its path or its key is taken. -/
theorem insert_eq_ok : t.insert i path = .ok t' ↔
    t.holdsPath path = false ∧ (∀ r ∈ t, r.key ≠ Key.ofId i) ∧
      t' = t ++ [⟨Key.ofId i, path⟩] := by
  have hKeys : t.holdsKey (Key.ofId i) = false ↔ ∀ r ∈ t, r.key ≠ Key.ofId i := by
    rw [← Bool.not_eq_true, holdsKey_ofId]
    simp
  rw [← hKeys]
  unfold insert add
  cases t.holdsPath path <;> cases t.holdsKey (Key.ofId i) <;> simp [eq_comm]

/-- With an unused identifier, inserting fails only because the path is taken. -/
theorem insert_eq_error (hUnused : ∀ r ∈ t, r.key ≠ Key.ofId i) {e : Failure} :
    t.insert i path = .error e ↔ t.holdsPath path = true ∧ e = .duplicatePath path := by
  have hKeys : t.holdsKey (Key.ofId i) = false := by
    rw [← Bool.not_eq_true, holdsKey_ofId]
    simpa using hUnused
  unfold insert add
  cases t.holdsPath path <;> simp [hKeys, eq_comm]

/-- A path that an insert refuses is its own, and is taken. -/
theorem taken_of_insert_eq_error {q : Text} (h : t.insert i path = .error (.duplicatePath q)) :
    q = path ∧ t.holdsPath path = true := by
  unfold insert add at h
  cases hHeld : t.holdsPath path with
  | true =>
    simp only [hHeld, if_true, Except.error.injEq, Failure.duplicatePath.injEq] at h
    exact ⟨h.symm, rfl⟩
  | false => cases hKey : t.holdsKey (Key.ofId i) <;> simp [hHeld, hKey] at h

/-! ## Pointing a row at a path -/

/-- The row of the identifier pointed at the path, any other row as it is. -/
def pointed (i : Identifier) (path : Text) (r : Row) : Row :=
  if r.key == Key.ofId i then ⟨r.key, path⟩ else r

theorem pointed_of_key {r : Row} (h : r.key = Key.ofId i) : pointed i path r = ⟨r.key, path⟩ := by
  simp [pointed, h]

theorem pointed_of_ne {r : Row} (h : r.key ≠ Key.ofId i) : pointed i path r = r := by
  simp [pointed, h]

theorem pointed_key (r : Row) : (pointed i path r).key = r.key := by
  unfold pointed
  split <;> rfl

/-- **Pointing a row at a path** succeeds unless another row has the path. -/
theorem repoint_eq_ok (hKey : ∃ r ∈ t, r.key = Key.ofId i) {n : Nat} :
    t.repoint i path = .ok (n, t') ↔
      (∀ r ∈ t, r.path = path → r.key = Key.ofId i) ∧
        n = t.countP (·.key == Key.ofId i) ∧ t' = t.map (pointed i path) := by
  have hAny : (t.any fun r => r.key == Key.ofId i) = true := by
    simpa using hKey
  simp only [repoint, hAny, if_true]
  by_cases hTaken : ∀ r ∈ t, r.path = path → r.key = Key.ofId i
  · have hFree : (t.any fun r => r.path == path && r.key != Key.ofId i) = false := by
      simpa using hTaken
    rw [hFree]
    simp only [Bool.false_eq_true, if_false, Except.ok.injEq, Prod.mk.injEq]
    exact ⟨fun h => ⟨hTaken, h.1.symm, h.2.symm⟩, fun h => ⟨h.2.1.symm, h.2.2.symm⟩⟩
  · have hClash : (t.any fun r => r.path == path && r.key != Key.ofId i) = true := by
      simpa using hTaken
    rw [hClash]
    simp [hTaken]

/-- Without a row of the identifier nothing happens. -/
theorem repoint_of_absent (hKey : ¬ ∃ r ∈ t, r.key = Key.ofId i) :
    t.repoint i path = .ok (0, t) := by
  have hNone : (t.any fun r => r.key == Key.ofId i) = false := by
    simpa using hKey
  simp [repoint, hNone]

/-- A row is refused a path only because another row has it. -/
theorem repoint_eq_error {e : Failure} (h : t.repoint i path = .error e) :
    e = .duplicatePath path := by
  unfold repoint at h
  dsimp only at h
  split at h
  · split at h
    · cases h
      rfl
    · cases h
  · cases h

/-- The path that a row is refused is taken. -/
theorem holdsPath_of_repoint_eq_error {e : Failure} (h : t.repoint i path = .error e) :
    t.holdsPath path = true := by
  unfold repoint at h
  dsimp only at h
  split at h
  · split at h
    · rename_i hTaken
      obtain ⟨r, hr, hClash⟩ := List.any_eq_true.mp hTaken
      have hPath : r.path = path := by simpa using (Bool.and_eq_true_iff.mp hClash).1
      exact holdsPath_iff.mpr ⟨r, hr, hPath⟩
    · cases h
  · cases h

theorem Consistent.repoint (h : t.Consistent) (hNormal : normalize path = path) {n : Nat}
    (hOk : t.repoint i path = .ok (n, t')) : t'.Consistent := by
  by_cases hKey : ∃ r ∈ t, r.key = Key.ofId i
  · obtain ⟨hFree, -, rfl⟩ := (repoint_eq_ok hKey).mp hOk
    refine h.map (fun r _ => pointed_key r) (fun r hr => ?_) ?_
    · by_cases hr' : r.key = Key.ofId i
      · rw [pointed_of_key hr']
        exact hNormal
      · rw [pointed_of_ne hr']
        exact h.normal r hr
    · rw [List.map_map]
      refine List.pairwise_map.mpr (h.pairwise_ne.imp_of_mem fun {r s} hr hs hNe => ?_)
      -- two rows can meet only at `path`, which belongs to the row of the identifier
      simp only [Function.comp_apply]
      by_cases hr' : r.key = Key.ofId i
      · rw [pointed_of_key hr', pointed_of_ne fun hs' => hNe.2 (hr'.trans hs'.symm)]
        exact fun hMeet => hNe.2 (hr'.trans (hFree s hs hMeet.symm).symm)
      · by_cases hs' : s.key = Key.ofId i
        · rw [pointed_of_key hs', pointed_of_ne hr']
          exact fun hMeet => hNe.2 ((hFree r hr hMeet).trans hs'.symm)
        · rw [pointed_of_ne hr', pointed_of_ne hs']
          exact hNe.1
  · rw [repoint_of_absent hKey] at hOk
    cases hOk
    exact h

theorem Consistent.insert (h : t.Consistent) (hNormal : normalize path = path)
    (hOk : t.insert i path = .ok t') : t'.Consistent := by
  unfold Table.insert at hOk
  split at hOk
  · rename_i hAdd
    cases hOk
    exact h.add rfl hNormal hAdd
  · cases hOk
  · cases hOk

end Table

end PathRegistry
