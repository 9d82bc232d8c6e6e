import Mathlib.Data.List.Forall2
import PathRegistry.Proofs.Copying

/-!
# A range instead of a prefix

A table finds what lies below a path by order alone, as one open range of encodings, and what is
found is then tested for its beginning before it is carried elsewhere.  The test never fails: the
octets between the stem and the stem with a `0` for its last separator are exactly those that start
with the stem and go on, whatever follows, and a text that is not normal makes no exception.  So
every row that is read is also copied or moved.

The current directory has an empty stem, with which every text starts.  Its range is empty.

## Main statements

* `Subtree.encloses_iff` — the range of a subtree has the texts that go on behind the stem.
* `Table.rows_of_entriesWithin` — what is read from a range are its rows, in order.
* `Relocation.repointAll_eq_forM`, `Relocation.copies_forall₂` — no row that is read is dropped.
* `Relocation.range_exact` — all of this together.
-/

namespace PathRegistry

open PathRegistry.Action Subtree Table

/-- Whether the encoding of a text lies strictly between those of the ends. -/
def TextRange.Encloses (range : TextRange) (t : Text) : Prop :=
  Text.octets range.lower < Text.octets t ∧ Text.octets t < Text.octets range.upper

theorem TextRange.encloses_iff {range : TextRange} {t : Text} :
    range.Encloses t ↔ range.contains t = true := by
  rw [Encloses, contains, Bool.and_eq_true, Text.isBefore_iff_octets, Text.isBefore_iff_octets]

namespace Subtree

variable {p : Path}

/-- A member starts with the stem and is longer. -/
theorem contains_iff_starts (hCurrent : p ≠ .current) (t : Text) :
    (below p).contains t = true ↔ p.stem <+: t ∧ p.stem.length < t.length := by
  have hSome : (below p).isEmpty = false := by
    rw [Bool.eq_false_iff]
    exact mt isEmpty_below.mp hCurrent
  rw [contains, hSome, Bool.not_false, Bool.true_and, Bool.and_eq_true, decide_eq_true_eq,
    List.isPrefixOf_iff_prefix]
  exact and_comm

/-- **The range of a subtree** has the texts that start with the stem and are longer. -/
theorem encloses_iff (hCurrent : p ≠ .current) (t : Text) :
    (below p).range.Encloses t ↔ p.stem <+: t ∧ p.stem.length < t.length := by
  rw [TextRange.encloses_iff, contains_range, contains_iff_starts hCurrent]

end Subtree

/-- A row that has an entry is the row of that entry. -/
theorem Row.eq_row_of_entry {r : Row} {e : Entry} (h : r.entry = .ok e) : r = e.row := by
  rw [entry] at h
  cases hKey : r.key.id with
  | error x => simp [hKey] at h
  | ok i =>
    simp only [hKey, Except.ok.injEq] at h
    rw [← h, Entry.row, ← Key.eq_ofId_of_id hKey]

namespace Table

variable {t : Table} {range : TextRange} {es : List Entry}

theorem rows_of_entriesOf {rows : List Row} (h : entriesOf rows = .ok es) :
    rows = es.map Entry.row := by
  induction rows generalizing es with
  | nil =>
    cases h
    rfl
  | cons r rows ih =>
    rw [entriesOf] at h
    cases hFirst : r.entry with
    | error x => simp [hFirst] at h
    | ok e =>
      cases hLater : entriesOf rows with
      | error x => simp [hFirst, hLater] at h
      | ok later =>
        simp only [hFirst, hLater, Except.ok.injEq] at h
        rw [← h, List.map_cons, Row.eq_row_of_entry hFirst, ih hLater]

/-- **What is read from a range** are the rows in it, in the order of their paths. -/
theorem rows_of_entriesWithin (h : t.entriesWithin range = .ok es) :
    (t.within range).byPath = es.map Entry.row :=
  rows_of_entriesOf h

end Table

namespace Relocation

variable {source target : Path} {t : Table} {es : List Entry}

/-- Entries that are read from the range of a subtree are members of it. -/
theorem contains_of_entriesWithin (h : t.entriesWithin (below source).range = .ok es) :
    ∀ e ∈ es, (below source).contains e.path = true := by
  intro e he
  have hRow : e.row ∈ (t.within (below source).range).byPath := by
    rw [rows_of_entriesWithin h]
    exact List.mem_map_of_mem he
  exact (mem_within.mp (mem_byPath.mp hRow)).2

/-- **No row is dropped when rows are moved one by one**: each is pointed at where its path is
carried to. -/
theorem repointAll_eq_forM (hBelow : ∀ e ∈ es, (below source).contains e.path = true) :
    repointAll (below source) (below target) es =
      es.forM fun e =>
        discard <| Action.write fun t => t.repoint e.id (carried source target e.path) := by
  induction es with
  | nil => rfl
  | cons e es ih =>
    obtain ⟨hFirst, hRest⟩ := List.forall_mem_cons.mp hBelow
    rw [repointAll, carry?_eq_some_carried hFirst, ih hRest]
    rfl

/-- Each copy tells the entry that it comes from and has the path to which that is carried. -/
theorem copies_forall₂ (source target : Path) (supply : Supply) (es : List Entry) :
    List.Forall₂ (fun (e : Entry) (c : CopiedEntry) =>
      c.source = e.id ∧ c.path = carried source target e.path) es
        (copies source target supply es) := by
  induction es generalizing supply with
  | nil => exact .nil
  | cons e es ih => exact .cons ⟨rfl, rfl⟩ (ih supply.rest)

/-- **The range of a subtree is what starts with its stem.**  Unless the path is the current
directory, the texts whose encodings lie strictly between the ends of the range are those that start
with the stem and are longer, and so are the members of the subtree; the texts may be any.  Below
the current directory there is nothing, and nothing lies in its range.

So whatever rows a table has: those that are read from the range, which are all of them there, in
the order of their paths, can all be carried.  A copy prepares one new row for each before it adds
any, and where rows are moved one by one, one statement is made for each. -/
theorem range_exact (p : Path) :
    (p ≠ .current → ∀ t : Text,
      ((below p).range.Encloses t ↔ p.stem <+: t ∧ p.stem.length < t.length) ∧
        ((below p).contains t = true ↔ p.stem <+: t ∧ p.stem.length < t.length)) ∧
    ((below .current).isEmpty = true ∧ ∀ t : Text,
      ¬(below .current).range.Encloses t ∧ (below .current).contains t = false) ∧
    ∀ (target : Path) (t : Table) (es : List Entry),
      t.entriesWithin (below p).range = .ok es →
        (t.within (below p).range).byPath = es.map Entry.row ∧
        (∀ e ∈ es, (below p).carry? e.path (below target) = some (carried p target e.path)) ∧
        ∀ (writable : Bool) (supply : Supply),
          (∃ cs later, List.Forall₂ (fun (e : Entry) (c : CopiedEntry) =>
              c.source = e.id ∧ c.path = carried p target e.path) es cs ∧
            copy p target ⟨t, writable, supply⟩ =
              (do insertAll (cs.map fun c => ⟨c.id, c.path⟩)
                  return cs : Action (List CopiedEntry)) ⟨t, writable, later⟩) ∧
          (p.climbsOnly = true → move p target ⟨t, writable, supply⟩ =
            (do es.forM fun e =>
                  discard <| Action.write fun t => t.repoint e.id (carried p target e.path)
                return es.length : Action Nat) ⟨t, writable, supply⟩) := by
  refine ⟨fun hCurrent t => ⟨encloses_iff hCurrent t, contains_iff_starts hCurrent t⟩,
    ⟨rfl, fun t => ⟨?_, rfl⟩⟩, fun target t es hRead => ?_⟩
  · rw [TextRange.encloses_iff, contains_range]
    exact Bool.false_ne_true
  have hRows := rows_of_entriesWithin hRead
  have hBelow := contains_of_entriesWithin hRead
  refine ⟨hRows, fun e he => carry?_eq_some_carried (hBelow e he), fun writable supply =>
    ⟨⟨copies p target supply es, supply.skip es.length, copies_forall₂ p target supply es, ?_⟩,
      fun hClimbs => ?_⟩⟩
  · have hOriginals : t.originals p true = es.map Entry.row := by
      rw [originals, if_pos rfl, ← within_below, hRows]
    exact copy_run hOriginals
  · rw [move_climbing_run hClimbs hRead, repointAll_eq_forM hBelow]

/-- Below `..`, a text that climbs on and one that is not normal, both of them read and moved. -/
theorem range_exact_of_climbing :
    let p := Path.ofText ['.', '.']
    let target := Path.ofText ['w']
    let es : List Entry := [⟨.ofNumber 3, ['.', '.', '/', '.', '.', '/', 'y']⟩,
      ⟨.ofNumber 1, ['.', '.', '/', 'X']⟩]
    let t : Table := es.map Entry.row ++ [⟨Key.ofId (.ofNumber 2), ['z']⟩]
    p ≠ .current ∧ (below p).range.Encloses ['.', '.', '/', 'X'] ∧
      t.entriesWithin (below p).range = .ok es ∧
      es.map (fun e => (below p).carry? e.path (below target)) =
        [some ['y'], some ['w', '/', 'x']] ∧
      p.climbsOnly = true ∧
      ∃ b', move p target ⟨t, true, .ofSeed 0⟩ = .ok 2 b' ∧
        b'.table.map (·.path) = [['y'], ['w', '/', 'x'], ['z']] := by
  intro p target es t
  have hCurrent : p ≠ .current := by decide +kernel
  have hClimbs : p.climbsOnly = true := by decide +kernel
  have hWithin : t.within (below p).range = es.map Entry.row := by decide +kernel
  have hSorted : (t.within (below p).range).byPath = es.map Entry.row := by
    rw [hWithin]
    exact List.mergeSort_of_pairwise (by decide +kernel)
  have hRead : t.entriesWithin (below p).range = .ok es := by
    rw [entriesWithin, entries, hSorted, entriesOf_row]
  obtain ⟨hRange, -, hRuns⟩ := range_exact p
  obtain ⟨-, hCarry, hBoth⟩ := hRuns target t es hRead
  have hMove := (hBoth true (.ofSeed 0)).2 hClimbs
  refine ⟨hCurrent, (hRange hCurrent _).1.mpr (by decide +kernel), hRead, ?_, hClimbs, ?_⟩
  · rw [List.map_congr_left hCarry]
    decide +kernel
  · rw [hMove]
    exact ⟨_, rfl, by decide +kernel⟩

end Relocation

end PathRegistry
