import Mathlib.Data.List.Forall2
import PathRegistry.Proofs.CommandRuns
import PathRegistry.Proofs.Grammar
import PathRegistry.Proofs.NormalForm
import PathRegistry.Proofs.Ordering

/-!
# What a listing says

A listing is cut into lines by reading it: its line ends are those that the run has written behind
the entries, for the text of an entry has none.  Each line is a JSON text of one object, with the
identifier and the path of its entry, and of no other value.  So whatever characters the paths have,
what is printed tells which entries there are, one on each line, in the order of their paths.

## Main statements

* `Entry.isTextOf_json` — what the text of an entry means.
* `lines_listing` — where a listing is cut.
* `CommandLine.Run.on_of_table` — a run shows what its call finds in the store that it opens.
* `CommandLine.list_exact` — what is printed for all entries.
-/

namespace PathRegistry

namespace Entry

/-- The object of an entry, with its identifier and its path. -/
def value (e : Entry) : Json.Value :=
  .object [(['i', 'd'], .string e.id.text), (['p', 'a', 't', 'h'], .string e.path)]

/-- **The text of an entry stands for its object and for nothing else.** -/
theorem isTextOf_json {e : Entry} {v : Json.Value} : Json.IsTextOf e.json v ↔ v = e.value := by
  have hWritten : Json.IsWritten e.json e.value := Json.isWritten_object
    [⟨['i', 'd'], e.id.json, .string e.id.text, Json.isWritten_quote _⟩,
      ⟨['p', 'a', 't', 'h'], Json.quote e.path, .string e.path, Json.isWritten_quote _⟩]
  exact hWritten.isTextOf_iff

/-- The text of an entry has no line end. -/
theorem not_lineEnd_of_mem_json {e : Entry} {c : Char} (hc : c ∈ e.json) : (c == '\n') = false := by
  have hClear : 0x20 ≤ c.toNat := by
    refine Json.object_clear (fun m hm d hd => ?_) hc
    simp only [List.mem_cons, List.not_mem_nil, or_false] at hm
    obtain rfl | rfl := hm
    · exact Json.quote_clear hd
    · exact Json.quote_clear hd
  refine beq_false_of_ne fun hSame => ?_
  rw [hSame] at hClear
  exact absurd hClear (by decide)

end Entry

/-- **A listing is cut behind each entry**, and nowhere else. -/
theorem lines_listing (es : List Entry) :
    Text.pieces (· == '\n') (listing es) = es.map Entry.json ++ [[]] := by
  have hClear : ∀ s ∈ es.map Entry.json, ∀ c ∈ s, (c == '\n') = false := by
    intro s hs c hc
    obtain ⟨e, -, rfl⟩ := List.mem_map.mp hs
    exact e.not_lineEnd_of_mem_json hc
  have hPieces := Text.pieces_terminated (c := '\n') rfl hClear []
  rwa [List.append_nil, List.flatMap_map] at hPieces

namespace CommandLine

variable {r : Run} {d : Disk} {supply : Supply} {t : Table}

/-- The table that a run finds in the store that it opens. -/
def Run.table? (r : Run) (d : Disk) (supply : Supply) : Option Table :=
  match r.asked d with
  | .error _ => none
  | .ok asked =>
    match (Workspace.ofDisk d r.working supply).openStore handleName asked.storePath with
    | (.error _, _) => none
    | (.ok (), w) => (w.handle? handleName).bind fun h => (w.table h.held).toOption

/-- **A run shows what its call finds** in the store that it opens. -/
theorem Run.on_of_table {c : Call} (hCall : r.call? d = some c)
    (hTable : r.table? d supply = some t) :
    ∃ writable, ((r.on d supply).1.code, (r.on d supply).1.out) =
      shown (c.action.on t writable supply).1 := by
  cases hAsked : r.asked d with
  | error e => simp [table?, hAsked] at hTable
  | ok asked =>
    have hWords := (call?_of_asked hAsked c).mp hCall
    rcases hOpen : (Workspace.ofDisk d r.working supply).openStore handleName asked.storePath
      with ⟨_ | _, w⟩
    · simp [table?, hAsked, hOpen] at hTable
    · simp only [table?, hAsked, hOpen, Option.bind_eq_some_iff] at hTable
      obtain ⟨h, hHandle, hSome⟩ := hTable
      have hFound : w.table h.held = .ok t := by
        cases hFound : w.table h.held with
        | error e => simp [hFound, Except.toOption] at hSome
        | ok t' => simpa [hFound, Except.toOption] using hSome
      have hSupply : w.supply = supply := by
        have hKept := Workspace.supply_openStore (Workspace.ofDisk d r.working supply) handleName
          asked.storePath
        rwa [hOpen] at hKept
      obtain ⟨hResult, -⟩ := Workspace.call_of_table hHandle hFound c
      rw [hSupply] at hResult
      refine ⟨h.held.writable, ?_⟩
      rw [on_of_words hAsked hOpen hWords, outcome_of_result? hResult]
      exact finished_shows (call_eq_ok.mp hWords) _ _ _

/-- **What is printed for all entries** is one line for each, which is JSON for the object of its
identifier and its path, and for nothing else.  The entries are those of the store, in the order of
their paths, octet by octet, and as many as it counts.  The paths may be any texts. -/
theorem list_exact (hList : r.Asks d .entries) (hTable : r.table? d supply = some t)
    (hKeys : ∀ row ∈ t, ∃ i, row.key = Key.ofId i) (hPaths : (t.map (·.path)).Nodup) :
    ∃ (es : List Entry) (lines : List Text),
      (∀ writable supply, (Registry.entries.on t writable supply).1 = .ok es) ∧
      (∀ writable supply, (Registry.count.on t writable supply).1 = .ok lines.length) ∧
      (r.on d supply).1.code = 0 ∧
      Text.pieces (· == '\n') (r.on d supply).1.out = lines ++ [[]] ∧
      List.Forall₂ (fun line e => ∀ v, Json.IsTextOf line v ↔ v = .object
        [(['i', 'd'], .string e.id.text), (['p', 'a', 't', 'h'], .string e.path)]) lines es ∧
      es.Pairwise (fun e f => Text.octets e.path < Text.octets f.path) ∧
      (es.map Entry.row).Perm t := by
  obtain ⟨es, hEntries, hRows⟩ := Table.entries_of_identified hKeys
  obtain ⟨writable, hShown⟩ := Run.on_of_table (Run.call?_eq_some.mpr hList) hTable
  have hResult (writable : Bool) (supply : Supply) :
      (Registry.entries.on t writable supply).1 = .ok es := by
    rw [Registry.entries, Action.read_on, hEntries]
  have hPerm : (es.map Entry.row).Perm t := hRows ▸ Table.byPath_perm t
  have hLength : t.length = (es.map Entry.json).length := by
    rw [← hPerm.length_eq, List.length_map, List.length_map]
  have hAscends := Table.byPath_ascends hPaths
  rw [hRows, List.pairwise_map] at hAscends
  have hOutput : ((r.on d supply).1.code, (r.on d supply).1.out) = (0, listing es) := by
    rw [hShown, Call.action, Action.map_on_fst, hResult, listing_eq]
    rfl
  obtain ⟨hCode, hOut⟩ := Prod.mk.inj hOutput
  refine ⟨es, es.map Entry.json, hResult, fun _ _ => ?_, hCode, ?_, ?_, ?_, hPerm⟩
  · rw [Registry.count, Action.read_on, hLength]
  · rw [hOut, lines_listing]
  · rw [List.forall₂_map_left_iff]
    exact List.forall₂_same.mpr fun e _ v => e.isTextOf_json
  · exact hAscends.imp fun h => (Text.isBefore_iff_octets _ _).mp h

/-- Two paths with a line end, a quote, a backslash and a control character. -/
theorem list_exact_of_line_ends :
    let t : Table := [⟨Key.ofId (.ofNumber 2), ['"', '\\', '\x01', 'é']⟩,
      ⟨Key.ofId (.ofNumber 1), ['a', '\n', '"']⟩]
    let d : Disk := [([['w']], .directory), ([['w'], ['s']], .store (some t) true)]
    let r : Run := ⟨⟨none, none, none⟩, [['w']], ["--db", "s", "list"].map String.toList⟩
    ∃ first second : Text,
      Text.pieces (· == '\n') (r.on d (.ofSeed 0)).1.out = [first, second, []] ∧
      (∀ v, Json.IsTextOf first v ↔ v = Entry.value ⟨.ofNumber 2, ['"', '\\', '\x01', 'é']⟩) ∧
      ∀ v, Json.IsTextOf second v ↔ v = Entry.value ⟨.ofNumber 1, ['a', '\n', '"']⟩ := by
  intro t d r
  have hList : r.Asks d .entries := Run.call?_eq_some.mp (by decide +kernel)
  have hTable : r.table? d (.ofSeed 0) = some t := by decide +kernel
  have hKeys : ∀ row ∈ t, ∃ i, row.key = Key.ofId i := by
    intro row hRow
    simp only [t, List.mem_cons, List.not_mem_nil, or_false] at hRow
    obtain rfl | rfl := hRow
    · exact ⟨.ofNumber 2, rfl⟩
    · exact ⟨.ofNumber 1, rfl⟩
  have hPaths : (t.map (·.path)).Nodup := by decide +kernel
  obtain ⟨es, lines, hEntries, -, -, hPieces, hLines, -⟩ := list_exact hList hTable hKeys hPaths
  have hSorted : t.byPath = t := List.mergeSort_of_pairwise (by decide +kernel)
  have hFound := hEntries true (.ofSeed 0)
  rw [Registry.entries, Action.read_on, Table.entries, hSorted] at hFound
  cases hFound
  obtain _ | ⟨hFirst, _ | ⟨hSecond, _ | _⟩⟩ := hLines
  exact ⟨_, _, hPieces, hFirst, hSecond⟩

end CommandLine

end PathRegistry
