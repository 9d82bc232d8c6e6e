import PathRegistry.Proofs.Copying
import PathRegistry.Proofs.Deleting
import PathRegistry.Proofs.Departure

/-!
# Which failures can occur

On a consistent table no key is unreadable, so a call can only fail where it writes, and there
only by a clash: two rows with one path or two rows with one key.  A clash of keys would need an
identifier that was there already, and a call writes no identifiers but those of the rows that
are there, those that it takes from the supply, and the one that an insert is given.

`FailsOnly allowed a` follows this through an action.  Besides what the failures are, it says
how many identifiers a run has taken, and that every key of the table was there before or is one
of them; so those that a later part takes are still new.  Only the identifiers that a run does
take have to be fresh, also if it fails half way.

## Main statements

* `FailsOnly.bind` — the failures of a sequence are those of its parts.
* `Call.failsOnly_of_isTotal`, `Call.failsOnly_of_relocates` — the failures of the calls.
* `Table.Reachable.failures_exact` — which calls fail, and how.
-/

namespace PathRegistry

open PathRegistry.Action Subtree Table

/-! ## What a run has taken -/

/-- A run that began at `b` and has come to `b'` has taken `n` identifiers: the supply has gone
on by as many, and every key of the table was there or is one of them. -/
structure Bench.HasTaken (b b' : Bench) (n : Nat) : Prop where
  /-- The supply has gone on. -/
  supply : b'.supply = b.supply.skip n
  /-- The table may be written if it might before. -/
  writable : b'.writable = b.writable
  /-- Every key was there or is one of the identifiers taken. -/
  keys : ∀ r ∈ b'.table,
    (∃ s ∈ b.table, s.key = r.key) ∨ ∃ i ∈ b.supply.ahead n, r.key = Key.ofId i

namespace Bench.HasTaken

variable {b b' b'' : Bench} {m n : Nat}

theorem refl (b : Bench) : b.HasTaken b 0 := ⟨rfl, rfl, fun r hr => .inl ⟨r, hr, rfl⟩⟩

theorem trans (h : b.HasTaken b' m) (h' : b'.HasTaken b'' n) : b.HasTaken b'' (m + n) := by
  refine ⟨?_, h'.writable.trans h.writable, fun r hr => ?_⟩
  · rw [h'.supply, h.supply, Supply.skip_skip]
  · rw [Supply.ahead_add]
    rcases h'.keys r hr with ⟨s, hs, hSame⟩ | ⟨i, hi, hKey⟩
    · rcases h.keys s hs with ⟨u, hu, hBefore⟩ | ⟨i, hi, hKey⟩
      · exact .inl ⟨u, hu, hBefore.trans hSame⟩
      · exact .inr ⟨i, List.mem_append_left _ hi, hSame.symm.trans hKey⟩
    · rw [h.supply] at hi
      exact .inr ⟨i, List.mem_append_right _ hi, hKey⟩

/-- What has not been taken yet is still fresh. -/
theorem isFreshFor (h : b.HasTaken b' m) (hFresh : b.supply.IsFreshFor (m + n) b.table) :
    b'.supply.IsFreshFor n b'.table := by
  have hNodup := hFresh.nodup
  have hUnused := hFresh.unused
  rw [Supply.ahead_add] at hNodup hUnused
  obtain ⟨-, hLeft, hApart⟩ := List.nodup_append.mp hNodup
  rw [h.supply]
  refine ⟨hLeft, fun i hi r hr hKey => ?_⟩
  rcases h.keys r hr with ⟨s, hs, hSame⟩ | ⟨j, hj, hTaken⟩
  · exact hUnused i (List.mem_append_right _ hi) s hs (hSame.trans hKey)
  · exact hApart j hj i hi (Key.ofId_injective (hTaken.symm.trans hKey))

end Bench.HasTaken

/-! ## Actions and their failures -/

/-- Another row has the path that was to be written. -/
def Failure.IsDuplicate (e : Failure) : Prop := ∃ path, e = .duplicatePath path

namespace Action

variable {α β : Type} {allowed : Failure → Prop} {a : Action α}

/-- Started on a consistent table that may be written, the action fails in an allowed way only,
provided that the identifiers that it has taken by then were fresh. -/
structure FailsOnly (allowed : Failure → Prop) (a : Action α) : Prop where
  /-- What a run has taken that ends well. -/
  taken : ∀ b x b', b.writable = true → b.table.Consistent → a b = .ok x b' →
    ∃ n, b.HasTaken b' n
  /-- How a run fails. -/
  failure : ∀ b e b', b.writable = true → b.table.Consistent → a b = .error e b' →
    ∃ n, b'.supply = b.supply.skip n ∧ (b.supply.IsFreshFor n b.table → allowed e)

namespace FailsOnly

theorem mono {allowed' : Failure → Prop} (h : FailsOnly allowed a)
    (hMore : ∀ e, allowed e → allowed' e) : FailsOnly allowed' a := by
  refine ⟨h.taken, fun b e b' hWritable hCons hRun => ?_⟩
  obtain ⟨n, hSupply, hAllowed⟩ := h.failure b e b' hWritable hCons hRun
  exact ⟨n, hSupply, fun hFresh => hMore e (hAllowed hFresh)⟩

theorem pure (x : α) : FailsOnly allowed (Pure.pure x : Action α) := by
  refine ⟨fun b y b' _ _ hRun => ?_, fun b e b' _ _ hRun => by cases hRun⟩
  obtain ⟨-, rfl⟩ := pure_eq_ok.mp hRun
  exact ⟨0, .refl b⟩

/-- **The failures of a sequence** are those of its parts, where the second part may count on
what the first one yields. -/
theorem bind {f : α → Action β} (ha : FailsOnly allowed a) (hKeeps : Keeps Consistent a)
    (hf : ∀ x b b', b.table.Consistent → a b = .ok x b' → FailsOnly allowed (f x)) :
    FailsOnly allowed (a >>= f) := by
  have hLeft {b b' : Bench} {x : α} (hCons : b.table.Consistent) (hRun : a b = .ok x b') :
      b'.table.Consistent := by
    have hKept := hKeeps b hCons
    rwa [hRun] at hKept
  constructor
  · intro b y b'' hWritable hCons hRun
    obtain ⟨x, b', hFirst, hSecond⟩ := bind_eq_ok.mp hRun
    obtain ⟨m, hTaken⟩ := ha.taken b x b' hWritable hCons hFirst
    obtain ⟨n, hTaken'⟩ := (hf x b b' hCons hFirst).taken b' y b''
      (hTaken.writable.trans hWritable) (hLeft hCons hFirst) hSecond
    exact ⟨m + n, hTaken.trans hTaken'⟩
  · intro b e b'' hWritable hCons hRun
    rcases bind_eq_error.mp hRun with hFirst | ⟨x, b', hFirst, hSecond⟩
    · exact ha.failure b e b'' hWritable hCons hFirst
    · obtain ⟨m, hTaken⟩ := ha.taken b x b' hWritable hCons hFirst
      obtain ⟨n, hSupply, hAllowed⟩ := (hf x b b' hCons hFirst).failure b' e b''
        (hTaken.writable.trans hWritable) (hLeft hCons hFirst) hSecond
      refine ⟨m + n, ?_, fun hFresh => hAllowed (hTaken.isFreshFor hFresh)⟩
      rw [hSupply, hTaken.supply, Supply.skip_skip]

/-- The failures of a sequence whose second part need not count on anything. -/
theorem andThen {f : α → Action β} (ha : FailsOnly allowed a) (hKeeps : Keeps Consistent a)
    (hf : ∀ x, FailsOnly allowed (f x)) : FailsOnly allowed (a >>= f) :=
  ha.bind hKeeps fun x _ _ _ _ => hf x

theorem map (h : FailsOnly allowed a) (g : α → β) : FailsOnly allowed (g <$> a) := by
  constructor
  · intro b y b' hWritable hCons hRun
    obtain ⟨x, hRun, -⟩ := map_eq_ok.mp hRun
    exact h.taken b x b' hWritable hCons hRun
  · intro b e b' hWritable hCons hRun
    refine h.failure b e b' hWritable hCons ?_
    rw [map_run] at hRun
    cases hFirst : a b with
    | ok x c => simp [hFirst] at hRun
    | error d c => simpa [hFirst] using hRun

theorem discard (h : FailsOnly allowed a) : FailsOnly allowed (Functor.discard a) :=
  h.map _

theorem atomically (h : FailsOnly allowed a) : FailsOnly allowed (Action.atomically a) := by
  constructor
  · intro b x b' hWritable hCons hRun
    exact h.taken b x b' hWritable hCons (atomically_eq_ok.mp hRun)
  · intro b e b' hWritable hCons hRun
    obtain ⟨c, hFail, rfl⟩ := atomically_eq_error.mp hRun
    exact h.failure b e c hWritable hCons hFail

/-- A statement that reads does not fail if consistent tables can be read. -/
theorem read {statement : Table → Except Failure α}
    (h : ∀ t, t.Consistent → ∃ x, statement t = .ok x) :
    FailsOnly allowed (Action.read statement) := by
  constructor
  · intro b x b' _ _ hRun
    obtain ⟨-, rfl⟩ := read_eq_ok.mp hRun
    exact ⟨0, .refl b⟩
  · intro b e b' _ hCons hRun
    obtain ⟨x, hRead⟩ := h b.table hCons
    rw [read_eq_ok.mpr ⟨hRead, rfl⟩] at hRun
    cases hRun

/-- A statement that writes no new keys takes no identifiers. -/
theorem write {statement : Table → Except Failure (α × Table)}
    (hFails : ∀ t e, t.Consistent → statement t = .error e → allowed e)
    (hKeys : ∀ t x t', t.Consistent → statement t = .ok (x, t') →
      t'.map (·.key) = t.map (·.key)) :
    FailsOnly allowed (Action.write statement) := by
  constructor
  · intro b x b' _ hCons hRun
    obtain ⟨-, t', hStatement, rfl⟩ := write_eq_ok.mp hRun
    refine ⟨0, rfl, rfl, fun r hr => .inl ?_⟩
    have hKey : r.key ∈ b.table.map (·.key) := by
      rw [← hKeys b.table x t' hCons hStatement]
      exact List.mem_map_of_mem hr
    exact List.mem_map.mp hKey
  · intro b e b' hWritable hCons hRun
    obtain ⟨hStatement, rfl⟩ := (write_eq_error hWritable).mp hRun
    exact ⟨0, rfl, fun _ => hFails b.table e hCons hStatement⟩

end FailsOnly

/-- A row that takes a fresh identifier is refused only because its path is taken. -/
theorem failsOnly_enroll (path : Text) (g : Identifier → α) :
    FailsOnly Failure.IsDuplicate (do
      let i ← Action.fresh
      Action.insert i path
      return g i : Action α) := by
  constructor
  · intro b x b' _ _ hRun
    obtain ⟨i, c, hNext, hRun⟩ := bind_eq_ok.mp hRun
    obtain ⟨rfl, rfl⟩ := fresh_eq_ok.mp hNext
    obtain ⟨u, c, hInsert, hRun⟩ := bind_eq_ok.mp hRun
    obtain ⟨-, t', hStatement, rfl⟩ := Action.insert_eq_ok.mp hInsert
    obtain ⟨-, rfl⟩ := pure_eq_ok.mp hRun
    obtain ⟨-, -, rfl⟩ := Table.insert_eq_ok.mp hStatement
    refine ⟨1, rfl, rfl, fun r hr => ?_⟩
    rcases List.mem_append.mp hr with hOld | hNew
    · exact .inl ⟨r, hOld, rfl⟩
    · rw [List.mem_singleton.mp hNew]
      exact .inr ⟨b.supply.next, List.mem_cons_self, rfl⟩
  · intro b e b' hWritable _ hRun
    rcases bind_eq_error.mp hRun with hFail | ⟨i, c, hNext, hRun⟩
    · cases hFail
    · obtain ⟨rfl, rfl⟩ := fresh_eq_ok.mp hNext
      rcases bind_eq_error.mp hRun with hRefused | ⟨u, c, -, hEnd⟩
      · obtain ⟨hStatement, rfl⟩ :=
          (Action.insert_eq_error (b := { b with supply := b.supply.rest }) hWritable).mp hRefused
        refine ⟨1, rfl, fun hFresh => ⟨path, ?_⟩⟩
        exact ((Table.insert_eq_error hFresh.next).mp hStatement).2
      · cases hEnd

end Action

/-! ## Relocations -/

namespace Table

variable {t t' : Table} {n : Nat}

/-- Pointing a row at a path leaves the keys as they are. -/
theorem keys_of_repoint {i : Identifier} {path : Text} (h : t.repoint i path = .ok (n, t')) :
    t'.map (·.key) = t.map (·.key) := by
  by_cases hKey : ∃ r ∈ t, r.key = Key.ofId i
  · obtain ⟨-, -, rfl⟩ := (repoint_eq_ok hKey).mp h
    rw [List.map_map]
    exact List.map_congr_left fun r _ => pointed_key r
  · rw [repoint_of_absent hKey] at h
    cases h
    rfl

/-- **What an insert comes to**: the path decides first, and then the key. -/
theorem insert_cases (t : Table) (i : Identifier) (path : Text) :
    t.holdsPath path = true ∧ t.insert i path = .error (.duplicatePath path) ∨
      t.holdsPath path = false ∧ t.holdsKey (Key.ofId i) = true ∧
        t.insert i path = .error (.store .keyTaken) ∨
      t.holdsPath path = false ∧ t.holdsKey (Key.ofId i) = false ∧
        t.insert i path = .ok (t ++ [⟨Key.ofId i, path⟩]) := by
  unfold insert add
  cases t.holdsPath path <;> cases t.holdsKey (Key.ofId i) <;> simp

theorem keys_of_relocate (f : Text → Text) (t : Table) :
    (t.relocate f).map (·.key) = t.map (·.key) := by
  rw [relocate, List.map_map]
  rfl

end Table

namespace Action

theorem failsOnly_repoint (i : Identifier) (path : Text) :
    FailsOnly Failure.IsDuplicate (Action.write fun t => t.repoint i path) :=
  .write (fun _ _ _ hRun => ⟨path, repoint_eq_error hRun⟩) fun _ _ _ _ hRun => keys_of_repoint hRun

end Action

namespace Relocation

variable {source target : Path} {es : List Entry}

/-- The rows below a path can be read. -/
theorem failsOnly_entriesWithin (source : Path) :
    FailsOnly Failure.IsDuplicate (Action.read fun t => t.entriesWithin (below source).range) := by
  refine .read fun t h => ?_
  obtain ⟨es, hEntries, -⟩ := exists_entriesWithin h source
  exact ⟨es, hEntries⟩

theorem failsOnly_repointAll (source target : Path) (es : List Entry) :
    FailsOnly Failure.IsDuplicate (repointAll (below source) (below target) es) := by
  induction es with
  | nil => exact .pure ()
  | cons e es ih =>
    rw [repointAll]
    split
    · rename_i path hCarry
      have hKeeps := (keeps_repoint (normalize_of_carry? hCarry) e.id).discard
      exact (failsOnly_repoint e.id path).discard.andThen hKeeps fun _ => ih
    · exact (FailsOnly.pure ()).andThen (.pure ()) fun _ => ih

/-- Moving the rows below a path fails only because a new path is taken. -/
theorem failsOnly_move (hs : source.IsNormal) (ht : target.IsNormal) :
    FailsOnly Failure.IsDuplicate (move source target) := by
  unfold move
  dsimp only
  split
  · exact .pure 0
  · split
    · refine (failsOnly_entriesWithin source).andThen (.read _) fun es => ?_
      exact (failsOnly_repointAll source target es).andThen (keeps_repointAll source target es)
        fun _ => .pure es.length
    · rename_i hClimbs
      rw [Bool.not_eq_true] at hClimbs
      refine .write (fun t e h hRun => ?_) fun t n t' h hRun => ?_
      · exact ⟨_, rerootWithin_eq_error h.normal hs ht hClimbs hRun⟩
      · obtain ⟨-, rfl, -⟩ := (rerootWithin_eq_ok h hs ht hClimbs).mp hRun
        exact keys_of_relocate _ t

/-- Inserting entries takes no identifier. -/
theorem supply_of_insertAll {t : Table} {supply : Supply} {b' : Bench} {e : Failure}
    (h : insertAll es ⟨t, true, supply⟩ = .error e b') : b'.supply = supply := by
  induction es generalizing t with
  | nil => cases h
  | cons f es ih =>
    rw [insertAll] at h
    rcases bind_eq_error.mp h with hFail | ⟨u, c, hInsert, hRest⟩
    · obtain ⟨-, rfl⟩ := (Action.insert_eq_error rfl).mp hFail
      rfl
    · obtain ⟨-, t', -, rfl⟩ := Action.insert_eq_ok.mp hInsert
      exact ih hRest

/-- Copies take the next identifiers, and if these are fresh, one is refused only because its
path is taken. -/
theorem failsOnly_insertCopies (hBelow : ∀ e ∈ es, (below source).contains e.path = true) :
    FailsOnly Failure.IsDuplicate (do
      let copies ← prepareCopies (below source) (below target) es
      insertAll (copies.map fun c => ⟨c.id, c.path⟩)
      return copies) := by
  have hRows (s : Supply) : ((copies source target s es).map CopiedEntry.entry).map Entry.row =
      (copies source target s es).map CopiedEntry.row := CopiedEntry.map_entry_row _
  have hKeys (s : Supply) := copies_row_keys source target s es
  constructor
  · rintro ⟨t, writable, supply⟩ copied b' - h hRun
    obtain ⟨cs, c, hPrepared, hRun⟩ := bind_eq_ok.mp hRun
    rw [prepareCopies_run hBelow] at hPrepared
    cases hPrepared
    obtain ⟨u, c, hInserted, hRun⟩ := bind_eq_ok.mp hRun
    obtain ⟨rfl, rfl⟩ := pure_eq_ok.mp hRun
    obtain ⟨-, -, -, rfl⟩ := (insertAll_eq_ok h.paths_nodup h.keys_nodup).mp hInserted
    refine ⟨es.length, rfl, rfl, fun r hr => ?_⟩
    rcases List.mem_append.mp hr with hOld | hNew
    · exact .inl ⟨r, hOld, rfl⟩
    · have hKey : r.key ∈ (supply.ahead es.length).map Key.ofId := by
        rw [← hKeys supply, ← hRows supply]
        exact List.mem_map_of_mem hNew
      obtain ⟨i, hi, hSame⟩ := List.mem_map.mp hKey
      exact .inr ⟨i, hi, hSame.symm⟩
  · rintro ⟨t, writable, supply⟩ e b' hWritable h hRun
    obtain rfl : writable = true := hWritable
    rcases bind_eq_error.mp hRun with hFail | ⟨cs, c, hPrepared, hRun⟩
    · rw [prepareCopies_run hBelow] at hFail
      cases hFail
    · rw [prepareCopies_run hBelow] at hPrepared
      cases hPrepared
      rcases bind_eq_error.mp hRun with hRefused | ⟨u, c, -, hEnd⟩
      · refine ⟨es.length, supply_of_insertAll hRefused, fun hFresh => ?_⟩
        have hNodup := hFresh.keys_nodup h.keys_nodup (hKeys supply)
        rw [← hRows supply] at hNodup
        obtain ⟨before, f, after, -, -, -, rfl⟩ :=
          refused_of_insertAll h.paths_nodup hNodup hRefused
        exact ⟨f.path, rfl⟩
      · cases hEnd

theorem failsOnly_copy (source target : Path) :
    FailsOnly Failure.IsDuplicate (copy source target) := by
  unfold copy
  dsimp only
  split
  · exact .pure []
  · refine (failsOnly_entriesWithin source).bind (.read _) fun es b b' h hRun =>
      failsOnly_insertCopies ?_
    obtain ⟨es', hEntries, -, hIn, -⟩ := exists_entriesWithin h source
    obtain ⟨hRead, -⟩ := read_eq_ok.mp hRun
    cases hEntries.symm.trans hRead
    exact fun e he => (hIn e he).2

end Relocation

/-! ## Calls -/

namespace Registry

/-- Indexing a path never fails. -/
theorem failsOnly_indexPath (p : Path) : FailsOnly (fun _ => False) (indexPath p) := by
  have hTaken : FailsOnly Failure.IsDuplicate (indexPath p) := by
    refine (FailsOnly.read fun t h => h.idAt_ok p.text).andThen (.read _) fun i? => ?_
    cases i? with
    | some i => exact .pure i
    | none => exact failsOnly_enroll p.text id
  refine ⟨hTaken.taken, fun b e b' hWritable h hRun => ?_⟩
  obtain ⟨n, hSupply, hAllowed⟩ := hTaken.failure b e b' hWritable h hRun
  refine ⟨n, hSupply, fun hFresh => ?_⟩
  -- the look-up has found the path free, so it cannot be refused as a duplicate
  obtain ⟨path, rfl⟩ := hAllowed hFresh
  obtain ⟨i?, hFound⟩ := h.idAt_ok p.text
  rw [indexPath, read_bind hFound] at hRun
  cases i? with
  | some i => cases hRun
  | none =>
    have hFree := idAt_eq_none.mp hFound
    obtain ⟨i, c, hNext, hRun⟩ := (bind_eq_error.mp hRun).resolve_left (by rintro ⟨⟩)
    obtain ⟨rfl, rfl⟩ := fresh_eq_ok.mp hNext
    rcases bind_eq_error.mp hRun with hRefused | ⟨u, c, -, hEnd⟩
    · obtain ⟨hStatement, -⟩ :=
        (Action.insert_eq_error (b := { b with supply := b.supply.rest }) hWritable).mp hRefused
      rcases insert_cases b.table b.supply.next p.text with hCase | hCase | hCase
      · rw [hFree] at hCase
        cases hCase.1
      · cases hCase.2.2.symm.trans hStatement
      · cases hCase.2.2.symm.trans hStatement
    · cases hEnd

theorem failsOnly_indexPaths {ps : List Path} (hps : ∀ p ∈ ps, p.IsNormal) :
    FailsOnly (fun _ => False) (indexPaths ps) := by
  induction ps with
  | nil => exact .pure []
  | cons p ps ih =>
    have hRest := ih fun q hq => hps q (List.mem_cons_of_mem p hq)
    have hNormal := fun q hq => hps q (List.mem_cons_of_mem p hq)
    refine (failsOnly_indexPath p).andThen (keeps_indexPath (hps p List.mem_cons_self))
      fun _ => ?_
    exact hRest.andThen (keeps_indexPaths hNormal) fun _ => .pure _

theorem failsOnly_movePath (source : Path) {target : Path} (ht : target.IsNormal) :
    FailsOnly Failure.IsDuplicate (movePath source target) := by
  refine (FailsOnly.read fun t h => h.idAt_ok source.text).andThen (.read _) fun i? => ?_
  cases i? with
  | some i =>
    have hKeeps := (keeps_repoint (Path.normalize_text ht) i).discard
    exact (failsOnly_repoint i target.text).discard.andThen hKeeps fun _ => .pure i
  | none => exact (failsOnly_indexPath target).mono fun _ hNever => hNever.elim

theorem failsOnly_move (source target : Text) (recursive : Bool) :
    FailsOnly Failure.IsDuplicate (move source target recursive) := by
  have hs := Path.ofText_isNormal source
  have ht := Path.ofText_isNormal target
  apply FailsOnly.atomically
  cases recursive with
  | true =>
    exact (Relocation.failsOnly_move hs ht).discard.andThen (Relocation.keeps_move hs ht).discard
      fun _ => failsOnly_movePath _ ht
  | false => exact failsOnly_movePath _ ht

theorem failsOnly_copy (source target : Text) (recursive : Bool) :
    FailsOnly Failure.IsDuplicate (copy source target recursive) := by
  have hs := Path.ofText_isNormal source
  rw [copy_eq]
  apply FailsOnly.atomically
  have hRest (ds : List CopiedEntry) : FailsOnly Failure.IsDuplicate (do
      let sourceId ← indexPath (.ofText source)
      let i ← Action.fresh
      Action.insert i (normalize target)
      return ⟨⟨sourceId, i, normalize target⟩, ds⟩ : Action CopyReport) := by
    have hIndex : FailsOnly Failure.IsDuplicate (indexPath (.ofText source)) :=
      (failsOnly_indexPath _).mono fun _ hNever => hNever.elim
    exact hIndex.andThen (keeps_indexPath hs) fun _ => failsOnly_enroll _ _
  cases recursive with
  | true =>
    exact (Relocation.failsOnly_copy _ _).andThen (Relocation.keeps_copy _ _) hRest
  | false => exact (FailsOnly.pure []).andThen (.pure []) hRest

/-- Deleting never fails. -/
theorem failsOnly_delete (path : Text) (recursive : Bool) :
    FailsOnly (fun _ => False) (delete path recursive) := by
  constructor
  · rintro ⟨t, writable, supply⟩ u b' hWritable - hRun
    obtain rfl : writable = true := hWritable
    rw [delete_run] at hRun
    cases hRun
    exact ⟨0, rfl, rfl, fun r hr => .inl ⟨r, List.mem_of_mem_filter hr, rfl⟩⟩
  · rintro ⟨t, writable, supply⟩ e b' hWritable - hRun
    obtain rfl : writable = true := hWritable
    rw [delete_run] at hRun
    cases hRun

/-- **An insert** ends as the one statement that it makes. -/
theorem insert_on (path : Text) (id? : Option Identifier) (t : Table) (supply : Supply) :
    ((insert path id?).on t true supply).1 =
      (t.insert (id?.getD supply.next) (normalize path)).map fun _ => id?.getD supply.next := by
  have hStatement (i : Identifier) (s : Supply) :
      (Action.on (do Action.insert i (normalize path); return i) t true s).1 =
        (t.insert i (normalize path)).map fun _ => i := by
    cases hInsert : t.insert i (normalize path) with
    | ok t' =>
      have hRun : Action.insert i (normalize path) ⟨t, true, s⟩ = .ok () ⟨t', true, s⟩ :=
        Action.insert_eq_ok.mpr ⟨rfl, t', hInsert, rfl⟩
      exact on_fst_eq_ok.mpr ⟨_, bind_eq_ok.mpr ⟨(), _, hRun, rfl⟩⟩
    | error e =>
      have hRun : Action.insert i (normalize path) ⟨t, true, s⟩ = .error e ⟨t, true, s⟩ :=
        (Action.insert_eq_error rfl).mpr ⟨hInsert, rfl⟩
      exact on_fst_eq_error.mpr ⟨_, bind_eq_error.mpr (.inl hRun)⟩
  rw [insert, atomically_on_fst]
  cases id? with
  | some i => exact hStatement i supply
  | none => exact hStatement supply.next supply.rest

end Registry

/-- Whether the call is none of those that may be refused. -/
def Call.isTotal : Call → Bool
  | .insert .. | .move .. | .copy .. => false
  | _ => true

/-- Whether the call is a move or a copy. -/
def Call.relocates : Call → Bool
  | .move .. | .copy .. => true
  | _ => false

namespace Call

theorem failsOnly_of_isTotal {c : Call} (h : c.isTotal = true) :
    FailsOnly (fun _ => False) c.action := by
  cases c with
  | index path => exact (Registry.failsOnly_indexPath _).atomically.map _
  | indexAll paths =>
    refine (Registry.failsOnly_indexPaths fun p hp => ?_).atomically.map _
    obtain ⟨text, -, rfl⟩ := List.mem_map.mp hp
    exact Path.ofText_isNormal text
  | lookUp path => exact (FailsOnly.read fun t ht => ht.idAt_ok _).map _
  | locate i => exact (FailsOnly.read fun t _ => ⟨_, rfl⟩).map _
  | delete path recursive => exact (Registry.failsOnly_delete path recursive).map _
  | entries =>
    refine (FailsOnly.read fun t ht => ?_).map _
    obtain ⟨es, hEntries, -⟩ := ht.entries_ok
    exact ⟨es, hEntries⟩
  | count => exact (FailsOnly.read fun t _ => ⟨_, rfl⟩).map _
  | insert | move | copy => cases h

theorem failsOnly_of_relocates {c : Call} (h : c.relocates = true) :
    FailsOnly Failure.IsDuplicate c.action := by
  cases c with
  | move source target recursive => exact (Registry.failsOnly_move source target recursive).map _
  | copy source target recursive => exact (Registry.failsOnly_copy source target recursive).map _
  | _ => cases h

end Call

/-- How many identifiers a run on a table that may be written takes. -/
def Action.drawn {α : Type} (a : Action α) (t : Table) (supply : Supply) : Nat :=
  (a.on t true supply).2.2.taken - supply.taken

/-- If the identifiers that a run takes are fresh, it fails in an allowed way only. -/
theorem Action.FailsOnly.allowed_of_drawn {α : Type} {allowed : Failure → Prop} {a : Action α}
    (ha : FailsOnly allowed a) {t : Table} (h : t.Consistent) {supply : Supply}
    (hFresh : supply.IsFreshFor (a.drawn t supply) t) {e : Failure}
    (hFail : (a.on t true supply).1 = .error e) : allowed e := by
  obtain ⟨b', hRun⟩ := on_fst_eq_error.mp hFail
  obtain ⟨n, hSupply, hAllowed⟩ := ha.failure ⟨t, true, supply⟩ e b' rfl h hRun
  have hDrawn : a.drawn t supply = n := by
    rw [drawn, on, hRun]
    show b'.supply.taken - supply.taken = n
    rw [hSupply]
    show supply.taken + n - supply.taken = n
    omega
  rw [hDrawn] at hFresh
  exact hAllowed hFresh

namespace Table.Reachable

variable {t : Table}

/-- **Which calls fail, and how**, on a reachable table that may be written, if the identifiers
that a call takes are fresh.  Indexing, deleting and reading never fail.  A move or a copy fails
only because a path is taken.  An insert fails over the path if some row has it, whatever its
identifier, else over the identifier if some row has that, and else it succeeds. -/
theorem failures_exact (h : t.Reachable) (supply : Supply) :
    (∀ c : Call, c.isTotal = true → supply.IsFreshFor (c.action.drawn t supply) t →
      ∃ answer, (c.action.on t true supply).1 = .ok answer) ∧
    (∀ c : Call, c.relocates = true → supply.IsFreshFor (c.action.drawn t supply) t →
      ∀ e, (c.action.on t true supply).1 = .error e → ∃ path, e = .duplicatePath path) ∧
    ∀ path id?,
      let result := ((Call.insert path id?).action.on t true supply).1
      let i := id?.getD supply.next
      (result = .error (.duplicatePath (normalize path)) ↔ ∃ r ∈ t, r.path = normalize path) ∧
      ((∃ problem, result = .error (.store problem)) ↔
        (∀ r ∈ t, r.path ≠ normalize path) ∧ ∃ r ∈ t, r.key = Key.ofId i) ∧
      ((∃ answer, result = .ok answer) ↔
        (∀ r ∈ t, r.path ≠ normalize path) ∧ ∀ r ∈ t, r.key ≠ Key.ofId i) := by
  have hCons := h.consistent
  refine ⟨fun c hTotal hFresh => ?_, fun c hRelocates hFresh e hFail => ?_, ?_⟩
  · cases hResult : (c.action.on t true supply).1 with
    | ok answer => exact ⟨answer, rfl⟩
    | error e => exact ((c.failsOnly_of_isTotal hTotal).allowed_of_drawn hCons hFresh hResult).elim
  · exact (c.failsOnly_of_relocates hRelocates).allowed_of_drawn hCons hFresh hFail
  · intro path id? result i
    have hResult : result = (t.insert i (normalize path)).map fun _ => .id i := by
      show ((Answer.id <$> Registry.insert path id?).on t true supply).1 = _
      rw [map_on_fst, Registry.insert_on]
      cases t.insert i (normalize path) <;> rfl
    rw [hResult, ← holdsPath_iff, ← holdsPath_eq_false, ← holdsKey_ofId]
    have hUnused : (∀ r ∈ t, r.key ≠ Key.ofId i) ↔ t.holdsKey (Key.ofId i) = false := by
      rw [← Bool.not_eq_true, holdsKey_ofId]
      simp
    rw [hUnused]
    rcases insert_cases t i (normalize path) with ⟨hHeld, hEnd⟩ | ⟨hFree, hUsed, hEnd⟩ |
      ⟨hFree, hNew, hEnd⟩
    · simp [hHeld, hEnd, Except.map]
    · simp [hFree, hUsed, hEnd, Except.map]
    · simp [hFree, hNew, hEnd, Except.map]

/-- With `a` and `b` in the table: a path that is there is indexed with a new one, `a` cannot
move to `b`, and an insert of `b` under the identifier of `a` is refused over the path, one of
`c` over the identifier. -/
theorem failures_exact_of_two :
    let t : Table := ((Call.indexAll [['a'], ['b']]).action.on [] true (.ofSeed 0)).2.1
    let supply := Supply.ofSeed 2
    let used := (Supply.ofSeed 0).next
    let result c := (Call.action c).on t true supply |>.1
    t.Reachable ∧
      supply.IsFreshFor ((Call.indexAll [['B'], ['c']]).action.drawn t supply) t ∧
      supply.IsFreshFor ((Call.move ['a'] ['b'] false).action.drawn t supply) t ∧
      (∃ answer, result (.indexAll [['B'], ['c']]) = .ok answer) ∧
      (∃ path, result (.move ['a'] ['b'] false) = .error (.duplicatePath path)) ∧
      result (.insert ['B'] (some used)) = .error (.duplicatePath ['b']) ∧
      ∃ problem, result (.insert ['c'] (some used)) = .error (.store problem) := by
  intro t supply used result
  have hReachable : t.Reachable := .call _ _ _ (by decide) .empty
  have hIndexed : supply.IsFreshFor ((Call.indexAll [['B'], ['c']]).action.drawn t supply) t :=
    ⟨by decide +kernel, by decide +kernel⟩
  have hMoved : supply.IsFreshFor ((Call.move ['a'] ['b'] false).action.drawn t supply) t :=
    ⟨by decide +kernel, by decide +kernel⟩
  obtain ⟨hTotal, hRelocates, hInsert⟩ := failures_exact hReachable supply
  refine ⟨hReachable, hIndexed, hMoved, hTotal _ rfl hIndexed, ?_, ?_, ?_⟩
  · have hFails : (result (.move ['a'] ['b'] false)).isOk = false := by decide +kernel
    cases hResult : result (.move ['a'] ['b'] false) with
    | ok answer =>
      rw [hResult] at hFails
      cases hFails
    | error e =>
      obtain ⟨path, rfl⟩ := hRelocates _ rfl hMoved e hResult
      exact ⟨path, rfl⟩
  · exact (hInsert ['B'] (some used)).1.mpr (by decide +kernel)
  · exact (hInsert ['c'] (some used)).2.1.mpr (by decide +kernel)

end Table.Reachable

end PathRegistry
