import PathRegistry.Proofs.Places

/-!
# The rows of a store

What a store holds is spread over its file and its log, and where it lies changes without any row
being written: the first user of the store puts a log beside it, the last one takes it away and
settles in the file what was only in the log.  `Disk.rows` is what all of this leaves as it is,
namely the table that the next user finds.

A user who has set the store up is served: there is a table, and it is the one that calls work
on.  Whoever uses the store in the same way is served by the same table.  To record a change
replaces it, and to settle it keeps it.  None of this touches anything but the four files of the
store, so other stores go on as before, unless their files are among the four.

## Main statements

* `Disk.AgreesAt.of_changesWithin` — a store whose files are elsewhere stays as it is.
* `Disk.Serves.current`, `Disk.Serves.record`, `Disk.Serves.settle` — the table of a store in use.
* `Disk.setUpFile_eq_ok` — who sets a store up is served by the rows that were there.
* `Disk.IsSound.settle` — the last user leaves the rows as they are.
-/

namespace PathRegistry

/-- Whether nothing that is done to the store at `l'` reaches the one at `l`: neither its file nor
its log is a file of that one. -/
structure Location.IsClearOf (l l' : Location) : Prop where
  /-- The file is elsewhere. -/
  file : l ∉ l'.files
  /-- The log is elsewhere. -/
  log : l.log ∉ l'.files

instance (l l' : Location) : Decidable (l.IsClearOf l') :=
  decidable_of_iff (l ∉ l'.files ∧ l.log ∉ l'.files) ⟨fun h => ⟨h.1, h.2⟩, fun h => ⟨h.1, h.2⟩⟩

namespace Disk

variable {d d' d'' : Disk} {l l' p : Location} {places : List Location} {t t' : Table}
  {use : FileUse} {logged : Bool}

/-! ## Where changes are made -/

/-- Nothing outside the given places has changed. -/
def ChangesWithin (d d' : Disk) (places : List Location) : Prop :=
  ∀ p, p ∉ places → d'.node? p = d.node? p

namespace ChangesWithin

theorem refl (d : Disk) (places : List Location) : d.ChangesWithin d places := fun _ _ => rfl

theorem trans (h : d.ChangesWithin d' places) (h' : d'.ChangesWithin d'' places) :
    d.ChangesWithin d'' places :=
  fun p hp => (h' p hp).trans (h p hp)

theorem put (d : Disk) (n : Node) (h : l ∈ places) : d.ChangesWithin (d.put l n) places :=
  fun _ hp => node?_put_of_ne d n (ne_of_mem_of_not_mem h hp).symm

theorem remove (d : Disk) (h : l ∈ places) : d.ChangesWithin (d.remove l) places :=
  fun _ hp => node?_remove_of_ne d (ne_of_mem_of_not_mem h hp).symm

theorem change (d : Disk) (l : Location) (n : Node) : d.ChangesWithin (d.change l n) l.files :=
  (remove d (by simp [Location.files])).trans (put _ n (by simp [Location.files]))

theorem keepLog (d : Disk) (l : Location) (indexed : Bool) :
    d.ChangesWithin (d.keepLog l indexed) l.files := by
  have hLog : d.ChangesWithin (d.put l.log (.log none)) l.files :=
    put d _ (by simp [Location.files])
  unfold Disk.keepLog
  split
  · exact refl d _
  · dsimp only
    split
    · exact hLog.trans (put _ _ (by simp [Location.files]))
    · exact hLog

theorem record (d : Disk) (l : Location) (use : FileUse) (t : Table) :
    d.ChangesWithin (d.record l use t) l.files := by
  unfold Disk.record
  split
  · exact change d l _
  · exact put d _ (by simp [Location.files])
  · exact change d l _

theorem settle (d : Disk) (l : Location) : d.ChangesWithin (d.settle l) l.files := by
  unfold Disk.settle
  refine .trans (.trans ?_ (remove _ (l := l.log) (by simp [Location.files])))
    (remove _ (by simp [Location.files]))
  split
  · exact put d _ (by simp [Location.files])
  · exact refl d _

theorem setUpFile (d : Disk) (l : Location) (use : FileUse) (cache : Option Backend) :
    d.ChangesWithin (d.setUpFile l use cache).2 l.files := by
  unfold Disk.setUpFile
  split
  · exact refl d _
  · split
    · exact refl d _
    · split
      · exact refl d _
      · split
        · exact refl d _
        · split
          · exact ((change d l _).trans (keepLog _ l _)).trans (put _ _ (by simp [Location.files]))
          · exact change d l _
  · split
    · exact refl d _
    · exact refl d _
    · exact refl d _
    · exact (change d l _).trans (keepLog _ l _)
    · exact keepLog d l _

end ChangesWithin

/-! ## What a store holds -/

/-- The rows that the next user of a store finds.  A file that is missing or is no store has
none. -/
def rows (d : Disk) (l : Location) : Table :=
  match d.node? l with
  | some (.store settled _) => ((d.pending? l).or settled).getD []
  | _ => []

/-- Changes are pending beside a store only. -/
def IsSound (d : Disk) (l : Location) : Prop :=
  ∀ t, d.pending? l = some t → ∃ settled logged, d.node? l = some (.store settled logged)

/-- Those who use the store at `l`, with a log or without, work on the table `t`. -/
def Serves (d : Disk) (l : Location) (logged : Bool) (t : Table) : Prop :=
  ∃ settled, d.node? l = some (.store settled logged) ∧ (d.pending? l).or settled = some t ∧
    (logged = false → d.pending? l = none)

theorem isSound_of_pending?_eq_none (h : d.pending? l = none) : d.IsSound l :=
  fun _ hPending => nomatch h.symm.trans hPending

theorem rows_of_store {settled : Option Table} (h : d.node? l = some (.store settled logged)) :
    d.rows l = ((d.pending? l).or settled).getD [] := by
  rw [rows, h]

namespace Serves

variable (h : d.Serves l logged t)

include h

theorem rows : d.rows l = t := by
  obtain ⟨settled, hNode, hTable, _⟩ := h
  rw [rows_of_store hNode, hTable, Option.getD_some]

theorem isSound : d.IsSound l := by
  obtain ⟨settled, hNode, _⟩ := h
  exact fun _ _ => ⟨settled, logged, hNode⟩

theorem ne_nil : l ≠ [] := by
  rintro rfl
  obtain ⟨settled, hNode, _⟩ := h
  cases hNode

end Serves

/-! ## Disks that agree on a store -/

/-- Two disks hold the same at the file and at the log of a store, as far as stores go. -/
structure AgreesAt (d d' : Disk) (l : Location) : Prop where
  /-- The file is the same. -/
  file : d'.part? l = d.part? l
  /-- The log is the same. -/
  log : d'.part? l.log = d.part? l.log

theorem node?_eq_store {settled : Option Table} :
    d.node? l = some (.store settled logged) ↔ d.part? l = some (.store settled logged) := by
  rw [part?, Option.filter_eq_some_iff]
  exact ⟨fun h => ⟨h, rfl⟩, fun h => h.1⟩

theorem pending?_eq_some : d.pending? l = some t ↔ d.part? l.log = some (.log (some t)) := by
  rw [part?, Option.filter_eq_some_iff, pending?]
  constructor
  · intro h
    split at h
    · rename_i hLog
      exact ⟨h ▸ hLog, rfl⟩
    · cases h
  · rintro ⟨h, -⟩
    rw [h]

namespace AgreesAt

theorem refl (d : Disk) (l : Location) : d.AgreesAt d l := ⟨rfl, rfl⟩

theorem of_spares (h : d.Spares d') : d.AgreesAt d' l := ⟨h l, h l.log⟩

/-- **A store whose files are elsewhere stays as it is.** -/
theorem of_changesWithin (h : d.ChangesWithin d' l'.files) (hClear : l.IsClearOf l') :
    d.AgreesAt d' l :=
  ⟨part?_of_node? (h l hClear.file), part?_of_node? (h l.log hClear.log)⟩

variable (h : d.AgreesAt d' l)

include h

theorem pending? : d'.pending? l = d.pending? l := by
  refine Option.ext fun t => ?_
  rw [pending?_eq_some, pending?_eq_some, h.log]

theorem node?_eq_store {settled : Option Table} :
    d'.node? l = some (.store settled logged) ↔ d.node? l = some (.store settled logged) := by
  rw [Disk.node?_eq_store, Disk.node?_eq_store, h.file]

theorem serves : d'.Serves l logged t ↔ d.Serves l logged t := by
  simp only [Serves, h.node?_eq_store, h.pending?]

theorem isSound : d'.IsSound l ↔ d.IsSound l := by
  simp only [IsSound, h.node?_eq_store, h.pending?]

theorem rows : d'.rows l = d.rows l := by
  by_cases hStore : ∃ settled logged, d.node? l = some (.store settled logged)
  · obtain ⟨settled, logged, hNode⟩ := hStore
    rw [rows_of_store hNode, rows_of_store (h.node?_eq_store.mpr hNode), h.pending?]
  · have hOld : d.rows l = [] := by
      unfold Disk.rows
      split
      · exact absurd ⟨_, _, ‹_›⟩ hStore
      · rfl
    have hNew : d'.rows l = [] := by
      unfold Disk.rows
      split
      · exact absurd ⟨_, _, h.node?_eq_store.mp ‹_›⟩ hStore
      · rfl
    rw [hOld, hNew]

end AgreesAt

/-! ## The parts of a change -/

theorem node?_change_self (d : Disk) (n : Node) (h : l ≠ []) :
    (d.change l n).node? l = some n :=
  node?_put_self _ n h

theorem pending?_of_node? (h : d'.node? l.log = d.node? l.log) :
    d'.pending? l = d.pending? l := by
  rw [pending?, pending?, h]

theorem pending?_change (d : Disk) (n : Node) (h : l ≠ []) :
    (d.change l n).pending? l = d.pending? l := by
  refine pending?_of_node? ?_
  rw [change, node?_put_of_ne _ n (Location.log_ne h),
    node?_remove_of_ne d (Location.journal_ne h).2.symm]

theorem pending?_put_log (d : Disk) (pending : Option Table) (h : l ≠ []) :
    (d.put l.log (.log pending)).pending? l = pending := by
  rw [pending?, node?_put_self d _ (Location.log_ne_nil h)]

theorem node?_keepLog (d : Disk) (indexed : Bool) (h : l ≠ []) :
    (d.keepLog l indexed).node? l = d.node? l := by
  unfold keepLog
  split
  · rfl
  · dsimp only
    split
    · rw [node?_put_of_ne _ _ (Location.index_ne h).1.symm,
        node?_put_of_ne _ _ (Location.log_ne h).symm]
    · rw [node?_put_of_ne _ _ (Location.log_ne h).symm]

/-- To keep a log, no change becomes pending. -/
theorem pending?_keepLog (d : Disk) (indexed : Bool) (h : l ≠ []) :
    (d.keepLog l indexed).pending? l = d.pending? l := by
  unfold keepLog
  split
  · rfl
  · rename_i hNoLog
    have hOld : d.pending? l = none := by
      unfold pending?
      split
      · rename_i hLog
        exact absurd hLog (hNoLog _)
      · rfl
    dsimp only
    rw [hOld]
    split
    · rw [pending?_of_node? (node?_put_of_ne _ _ (Location.index_ne h).2.symm),
        pending?_put_log d none h]
    · exact pending?_put_log d none h

/-! ## Stores in use -/

namespace Serves

/-- **Whoever uses the store works on its table.** -/
theorem current (h : d.Serves l logged t) (hUse : use.isLogged = logged) :
    d.current l use = .ok t := by
  obtain ⟨settled, hNode, hTable, hDirect⟩ := h
  cases use with
  | logged writable indexed =>
    cases hUse
    unfold Disk.current
    cases hPending : d.pending? l with
    | some t' =>
      rw [hPending, Option.some_or] at hTable
      cases hTable
      rfl
    | none =>
      rw [hPending, Option.none_or] at hTable
      subst hTable
      dsimp only
      rw [hNode]
  | direct writable =>
    obtain rfl : logged = false := hUse.symm
    have hPending := hDirect rfl
    rw [hPending, Option.none_or] at hTable
    subst hTable
    simp [Disk.current, found, settled, hNode, hPending]
  | frozen =>
    cases hUse
    have hPending := hDirect rfl
    rw [hPending, Option.none_or] at hTable
    subst hTable
    simp [Disk.current, found, settled, hNode]

/-- **A recorded change replaces the table.** -/
theorem record (h : d.Serves l logged t) (hUse : use.isLogged = logged) (t' : Table) :
    (d.record l use t').Serves l logged t' := by
  have hRoot := h.ne_nil
  obtain ⟨settled, hNode, -, hDirect⟩ := h
  cases logged with
  | true =>
    have hRecord : d.record l use t' = d.put l.log (.log (some t')) := by
      cases use with
      | logged writable indexed => simp [Disk.record, hNode]
      | direct writable => cases hUse
      | frozen => cases hUse
    rw [hRecord]
    refine ⟨settled, ?_, ?_, nofun⟩
    · rw [node?_put_of_ne d _ (Location.log_ne hRoot).symm, hNode]
    · rw [pending?_put_log d _ hRoot, Option.some_or]
  | false =>
    have hRecord : d.record l use t' = d.change l (.store (some t') false) := by
      cases use with
      | logged writable indexed => cases hUse
      | direct writable => rfl
      | frozen => rfl
    have hPending : (d.change l (.store (some t') false)).pending? l = none := by
      rw [pending?_change d _ hRoot, hDirect rfl]
    rw [hRecord]
    refine ⟨some t', node?_change_self d _ hRoot, ?_, fun _ => hPending⟩
    rw [hPending, Option.none_or]

end Serves

/-! ## Setting a store up -/

theorem serves_of_settled {settled : Option Table} (hNode : d.node? l = some (.store settled logged))
    (hPending : d.pending? l = none) (hTable : settled = some t) : d.Serves l logged t :=
  ⟨settled, hNode, by rw [hPending, Option.none_or, hTable], fun _ => hPending⟩

theorem ne_nil_of_settled {settled? : Option Table} (h : d.settled l = .ok settled?) : l ≠ [] := by
  rintro rfl
  cases h

theorem settled_eq_some (h : d.settled l = .ok (some t)) :
    ∃ logged, d.node? l = some (.store (some t) logged) := by
  unfold settled at h
  split at h
  · rename_i logged hNode
    cases h
    exact ⟨logged, hNode⟩
  · split at h <;> cases h
  all_goals cases h

/-- Where no table is settled there are no rows, unless changes are pending. -/
theorem rows_of_settled_eq_none (h : d.settled l = .ok none) (hPending : d.pending? l = none) :
    d.rows l = [] := by
  unfold rows
  split
  · rename_i settled _ hNode
    unfold Disk.settled at h
    rw [hNode] at h
    cases h
    rw [hPending]
    rfl
  · rfl

theorem not_store_of_isBlankAt (h : d.isBlankAt l = true) (settled : Option Table)
    (logged : Bool) : d.node? l ≠ some (.store settled logged) := by
  intro hNode
  rw [isBlankAt, hNode] at h
  cases h

/-- Nothing is pending beside a blank file. -/
theorem IsSound.pending?_of_isBlankAt (hSound : d.IsSound l) (h : d.isBlankAt l = true) :
    d.pending? l = none := by
  refine Option.eq_none_iff_forall_ne_some.mpr fun t hPending => ?_
  obtain ⟨settled, logged, hNode⟩ := hSound t hPending
  exact not_store_of_isBlankAt h settled logged hNode

/-- What a user without a log finds is settled, and nothing else is there. -/
theorem found_direct_eq_ok {writable : Bool} {settled? : Option Table}
    (h : d.found l (.direct writable) = .ok settled?) :
    d.settled l = .ok settled? ∧ (d.isBlankAt l = false → d.pending? l = none) ∧
      ∀ settled, d.node? l ≠ some (.store settled true) := by
  simp only [found] at h
  split at h
  · cases h
  · rename_i hKind
    split at h
    · cases h
    · rename_i hFree
      refine ⟨h, fun hBlank => ?_, hKind⟩
      simpa [hBlank] using hFree

/-- Who finds no table finds no rows either. -/
theorem IsSound.of_found_eq_none (hSound : d.IsSound l) (h : d.found l use = .ok none)
    (hUse : use.writable = true) :
    l ≠ [] ∧ d.pending? l = none ∧ d.rows l = [] := by
  have hSettled : d.pending? l = none ∧ d.settled l = .ok none := by
    cases use with
    | logged writable indexed =>
      unfold found at h
      cases hPending : d.pending? l with
      | none =>
        rw [hPending] at h
        exact ⟨rfl, h⟩
      | some t =>
        rw [hPending] at h
        dsimp only at h
        split at h
        · rename_i hBlank
          rw [hSound.pending?_of_isBlankAt hBlank] at hPending
          cases hPending
        · cases h
    | direct writable =>
      obtain ⟨hSettled, hFree, -⟩ := found_direct_eq_ok h
      refine ⟨?_, hSettled⟩
      cases hBlank : d.isBlankAt l with
      | true => exact hSound.pending?_of_isBlankAt hBlank
      | false => exact hFree hBlank
    | frozen => cases hUse
  exact ⟨ne_nil_of_settled hSettled.2, hSettled.1, rows_of_settled_eq_none hSettled.2 hSettled.1⟩

/-- What a user with a log finds is the table of a store. -/
theorem IsSound.of_found_logged {writable indexed : Bool} (hSound : d.IsSound l)
    (h : d.found l (.logged writable indexed) = .ok (some t)) :
    l ≠ [] ∧ ∃ settled logged, d.node? l = some (.store settled logged) ∧
      (d.pending? l).or settled = some t := by
  unfold found at h
  cases hPending : d.pending? l with
  | none =>
    rw [hPending] at h
    obtain ⟨logged, hNode⟩ := settled_eq_some h
    exact ⟨ne_nil_of_settled h, some t, logged, hNode, rfl⟩
  | some t' =>
    rw [hPending] at h
    dsimp only at h
    split at h
    · cases h
    · cases h
      obtain ⟨settled, logged, hNode⟩ := hSound t hPending
      refine ⟨?_, settled, logged, hNode, rfl⟩
      rintro rfl
      cases hNode

theorem serves_of_found_direct {writable : Bool}
    (h : d.found l (.direct writable) = .ok (some t)) : d.Serves l false t := by
  obtain ⟨hSettled, hFree, hKind⟩ := found_direct_eq_ok h
  obtain ⟨logged, hNode⟩ := settled_eq_some hSettled
  have hDirect : logged = false := by
    cases logged with
    | false => rfl
    | true => exact absurd hNode (hKind _)
  subst hDirect
  have hBlank : d.isBlankAt l = false := by
    rw [isBlankAt, hNode]
  exact serves_of_settled hNode (hFree hBlank) rfl

/-- Who works on a table goes on to work on it where the store is the same. -/
theorem AgreesAt.current (h : d.AgreesAt d' l) (hTable : d.current l use = .ok t) :
    d'.current l use = .ok t := by
  cases use with
  | logged writable indexed =>
    simp only [Disk.current, h.pending?] at hTable ⊢
    split at hTable
    · exact hTable
    · split at hTable
      · rename_i hNode
        cases hTable
        rw [h.node?_eq_store.mpr hNode]
      · cases hTable
  | direct writable =>
    have hFound : d.found l (.direct writable) = .ok (some t) := by
      simp only [Disk.current] at hTable
      split at hTable <;> cases hTable
      assumption
    exact (h.serves.mpr (serves_of_found_direct hFound)).current rfl
  | frozen =>
    have hFound : d.found l .frozen = .ok (some t) := by
      simp only [Disk.current] at hTable
      split at hTable <;> cases hTable
      assumption
    obtain ⟨logged, hNode⟩ := settled_eq_some hFound
    simp [Disk.current, found, settled, h.node?_eq_store.mpr hNode]

/-- A store that is refused stays as it was. -/
theorem setUpFile_eq_error {cache : Option Backend} {e : Failure}
    (h : d.setUpFile l use cache = (.error e, d')) : d' = d := by
  unfold setUpFile at h
  split at h
  · cases h
    rfl
  · split at h
    · cases h
      rfl
    · split at h
      · cases h
        rfl
      · split at h
        · cases h
          rfl
        · split at h <;> cases h
  · split at h <;> cases h
    rfl

/-- A blank file is made a store with a log. -/
theorem serves_of_made_logged (d : Disk) (hRoot : l ≠ []) (indexed : Bool) :
    (((d.change l (.store none true)).keepLog l indexed).put l.log (.log (some []))).Serves
      l true [] := by
  refine ⟨none, ?_, ?_, nofun⟩
  · rw [node?_put_of_ne _ _ (Location.log_ne hRoot).symm, node?_keepLog _ _ hRoot,
      node?_change_self _ _ hRoot]
  · rw [pending?_put_log _ _ hRoot, Option.some_or]

/-- A blank file is made a store without one. -/
theorem serves_of_made_direct (hRoot : l ≠ []) (hPending : d.pending? l = none) :
    (d.change l (.store (some []) false)).Serves l false [] := by
  refine serves_of_settled (node?_change_self _ _ hRoot) ?_ rfl
  rw [pending?_change _ _ hRoot, hPending]

/-- A store without a log is given one. -/
theorem serves_of_given_log {settled : Option Table} (hRoot : l ≠ []) (indexed : Bool)
    (hTable : (d.pending? l).or settled = some t) :
    ((d.change l (.store (some t) true)).keepLog l indexed).Serves l true t := by
  refine ⟨some t, ?_, ?_, nofun⟩
  · rw [node?_keepLog _ _ hRoot, node?_change_self _ _ hRoot]
  · rw [pending?_keepLog _ _ hRoot, pending?_change _ _ hRoot]
    cases hPending : d.pending? l with
    | none => rfl
    | some t' =>
      rw [hPending] at hTable
      exact hTable

/-- A store with a log is used as it is. -/
theorem serves_of_kept_log {settled : Option Table} (hRoot : l ≠ []) (indexed : Bool)
    (hNode : d.node? l = some (.store settled true))
    (hTable : (d.pending? l).or settled = some t) : (d.keepLog l indexed).Serves l true t := by
  refine ⟨settled, ?_, ?_, nofun⟩
  · rw [node?_keepLog _ _ hRoot, hNode]
  · rw [pending?_keepLog _ _ hRoot, hTable]

/-- **Who sets a store up is served by the rows that were there**, or holds a table that does not
change and leaves the disk alone. -/
theorem setUpFile_eq_ok {cache : Option Backend} {held : Held}
    (h : d.setUpFile l use cache = (.ok held, d')) :
    (∃ t, held = .fixed t ∧ d' = d) ∨
      held = .file l use cache ∧ (d.IsSound l → d'.Serves l use.isLogged (d.rows l)) := by
  unfold setUpFile at h
  split at h
  · cases h
  · rename_i hFound
    split at h
    · cases h
    · rename_i hWritable
      have hEmpty (hSound : d.IsSound l) :=
        hSound.of_found_eq_none hFound (by simpa using hWritable)
      split at h
      · cases h
      · split at h
        · cases h
        · split at h
          · rename_i writable indexed
            cases h
            refine .inr ⟨rfl, fun hSound => ?_⟩
            obtain ⟨hRoot, -, hRows⟩ := hEmpty hSound
            rw [hRows]
            exact serves_of_made_logged d hRoot indexed
          · rename_i hKind
            cases h
            refine .inr ⟨rfl, fun hSound => ?_⟩
            obtain ⟨hRoot, hPending, hRows⟩ := hEmpty hSound
            have hDirect : use.isLogged = false := by
              cases use with
              | logged writable indexed => exact absurd rfl (hKind writable indexed)
              | direct writable => rfl
              | frozen => rfl
            rw [hDirect, hRows]
            exact serves_of_made_direct hRoot hPending
  · rename_i t hFound
    split at h
    · cases h
      exact .inl ⟨t, rfl, rfl⟩
    · cases h
      have hServes := serves_of_found_direct hFound
      rw [hServes.rows]
      exact .inr ⟨rfl, fun _ => hServes⟩
    · cases h
    · rename_i indexed settled hNode
      cases h
      refine .inr ⟨rfl, fun hSound => ?_⟩
      obtain ⟨hRoot, settled', logged, hNode', hTable⟩ := hSound.of_found_logged hFound
      rw [hNode] at hNode'
      cases hNode'
      rw [rows_of_store hNode, hTable, Option.getD_some]
      exact serves_of_given_log hRoot indexed hTable
    · rename_i writable indexed hNotWritable hNotDirect
      cases h
      refine .inr ⟨rfl, fun hSound => ?_⟩
      obtain ⟨hRoot, settled, logged, hNode, hTable⟩ := hSound.of_found_logged hFound
      have hLogged : logged = true := by
        cases logged with
        | true => rfl
        | false =>
          cases writable with
          | true => exact (hNotDirect _ hNode rfl).elim
          | false => exact (hNotWritable _ hNode rfl).elim
      subst hLogged
      rw [rows_of_store hNode, hTable, Option.getD_some]
      exact serves_of_kept_log hRoot indexed hNode hTable

/-! ## Leaving a store -/

/-- Nothing is pending beside a settled store. -/
theorem pending?_settle (d : Disk) (h : l ≠ []) : (d.settle l).pending? l = none := by
  rw [settle, pending?, node?_remove_of_ne _ (Location.index_ne h).2.symm,
    node?_remove_self _ (Location.log_ne_nil h)]

theorem node?_settle (d : Disk) (h : l ≠ []) :
    (d.settle l).node? l = match d.pending? l with
      | some t => some (.store (some t) true)
      | none => d.node? l := by
  rw [settle, node?_remove_of_ne _ (Location.index_ne h).1.symm,
    node?_remove_of_ne _ (Location.log_ne h).symm]
  cases d.pending? l with
  | some t => exact node?_put_self d _ h
  | none => rfl

/-- **To settle a store keeps its rows.** -/
theorem IsSound.settle (h : d.IsSound l) :
    (d.settle l).IsSound l ∧ (d.settle l).rows l = d.rows l := by
  by_cases hRoot : l = []
  · subst hRoot
    exact ⟨nofun, rfl⟩
  have hSettled := pending?_settle d hRoot
  have hNode := node?_settle d hRoot
  refine ⟨isSound_of_pending?_eq_none hSettled, ?_⟩
  cases hPending : d.pending? l with
  | some t =>
    obtain ⟨settled, logged, hStore⟩ := h t hPending
    rw [hPending] at hNode
    rw [rows_of_store hNode, rows_of_store hStore, hSettled, hPending]
    rfl
  | none =>
    rw [hPending] at hNode
    rw [rows, rows, hNode, hSettled, hPending]

theorem Serves.settle (h : d.Serves l true t) : (d.settle l).Serves l true t := by
  have hRoot := h.ne_nil
  have hNode := node?_settle d hRoot
  obtain ⟨settled, hStore, hTable, -⟩ := h
  refine ⟨some t, ?_, by rw [pending?_settle d hRoot, Option.none_or], nofun⟩
  rw [hNode]
  cases hPending : d.pending? l with
  | some t' =>
    rw [hPending, Option.some_or] at hTable
    rw [hTable]
  | none =>
    rw [hPending, Option.none_or] at hTable
    rw [← hTable, hStore]

end Disk

end PathRegistry
