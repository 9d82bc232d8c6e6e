import PathRegistry.Proofs.Reachability
import PathRegistry.Proofs.Storing

/-!
# Handles on one store

Any number of handles may be open on a store at a time.  What carries all that can be said about
them is that the workspace hosts the store: all handles on it use it alike, and if there is one,
it is served.  A call through any of them then works on the rows of the store and leaves there what
it has changed; all other steps leave the rows.  So through however many handles calls are made,
they come to the same as one after the other on one table.

Whoever holds something else is out of the way, unless its files are those of the store.  A store
may be given the name of another one's log, and names can ask for a store to be used without a
log that others keep, or only to be read.  `Workspace.Uses` leaves no more out than that: names and
handles are arbitrary, a handle is told by the place that it turns out to be on.

## Main statements

* `Workspace.openStore_eq_ok`, `Workspace.openStore_eq_error` — what opening a store comes to.
* `Workspace.rows_openStore` — it leaves the rows of every store.
* `Workspace.Hosts.step_call`, `Workspace.Hosts.step_other` — one step in a workspace that hosts
  the store.
* `Workspace.Hosts.run` — several steps.
-/

namespace PathRegistry

variable {l : Location} {use : FileUse} {logged : Bool} {supply : Supply}

/-! ## Calls -/

/-- Whether a call only looks. -/
def Call.isRead : Call → Bool
  | .lookUp _ | .locate _ | .entries | .count => true
  | .index _ | .indexAll _ | .insert .. | .move .. | .copy .. | .delete .. => false

/-- A call that only looks comes to the same where nothing may be written. -/
theorem Call.on_of_isRead {c : Call} (hRead : c.isRead = true) (t : Table)
    (writable writable' : Bool) (supply : Supply) :
    c.action.on t writable supply = c.action.on t writable' supply := by
  have hAlike {α : Type} (statement : Table → Except Failure α) (answer : α → Answer) :
      (answer <$> Action.read statement).on t writable supply =
        (answer <$> Action.read statement).on t writable' supply := by
    simp only [Functor.map, EStateM.map, Action.on, Action.read]
    cases statement t <;> rfl
  cases c with
  | lookUp path => exact hAlike _ _
  | locate i => exact hAlike _ _
  | entries => exact hAlike _ _
  | count => exact hAlike _ _
  | index | indexAll | insert | move | copy | delete => cases hRead

/-- The results of calls that are made one after the other, whether or not earlier ones have
failed, with the table and the fresh identifiers that they leave. -/
def Call.sequence (writable : Bool) :
    List Call → Table → Supply → List (Except Failure Answer) × Table × Supply
  | [], t, supply => ([], t, supply)
  | c :: cs, t, supply =>
    let (result, t', supply') := c.action.on t writable supply
    let (results, left) := sequence writable cs t' supply'
    (result :: results, left)

/-! ## What is held -/

namespace Held

/-- Whether it is a file at the place. -/
def IsOn (l : Location) : Held → Prop
  | .file l' _ _ => l' = l
  | _ => False

/-- Whether it is the store at the place or out of its way. -/
def IsClear (l : Location) : Held → Prop
  | .file l' _ _ => l' = l ∨ l.IsClearOf l'
  | _ => True

/-- Whether it is the store at the place, used with a log or without as the case may be, or out of
its way. -/
def Suits (l : Location) (logged : Bool) : Held → Prop
  | .file l' use _ => l' = l ∧ use.isLogged = logged ∨ l.IsClearOf l'
  | _ => True

instance (l : Location) : DecidablePred (IsOn l)
  | .file l' _ _ => inferInstanceAs (Decidable (l' = l))
  | .own _ | .shared .. | .fixed _ => .isFalse id

/-- Whether it will do for a call on the store at the place: it is this store, and may be written
if others may, or the call only looks. -/
def WillDo (l : Location) (writable : Bool) (c : Call) (held : Held) : Prop :=
  held.IsOn l ∧ (held.writable = writable ∨ c.isRead = true)

instance (l : Location) : DecidablePred (IsClear l)
  | .file l' _ _ => inferInstanceAs (Decidable (l' = l ∨ l.IsClearOf l'))
  | .own _ | .shared .. | .fixed _ => .isTrue trivial

instance (l : Location) (logged : Bool) : DecidablePred (Suits l logged)
  | .file l' use _ =>
    inferInstanceAs (Decidable (l' = l ∧ use.isLogged = logged ∨ l.IsClearOf l'))
  | .own _ | .shared .. | .fixed _ => .isTrue trivial

instance (l : Location) (writable : Bool) (c : Call) : DecidablePred (WillDo l writable c) :=
  fun held => inferInstanceAs (Decidable (held.IsOn l ∧ (held.writable = writable ∨ _)))

theorem IsOn.exists_file {held : Held} (h : held.IsOn l) :
    ∃ use cache, held = .file l use cache := by
  cases held with
  | file l' use cache =>
    cases h
    exact ⟨use, cache, rfl⟩
  | _ => exact h.elim

theorem Suits.isClear {held : Held} (h : held.Suits l logged) : held.IsClear l := by
  cases held with
  | file l' use cache => exact h.imp_left And.left
  | own t => trivial
  | shared name writable => trivial
  | fixed t => trivial

/-- The file of a store is in its own way. -/
theorem Suits.isLogged {cache : Option Backend} (h : (Held.file l use cache).Suits l logged) :
    use.isLogged = logged := by
  rcases h with ⟨-, hUse⟩ | hClear
  · exact hUse
  · exact absurd (by simp [Location.files]) hClear.file

end Held

/-! ## What steps yield -/

/-- What a call has yielded, apart from what an observer got. -/
def Outcome.result? : Outcome → Option (Except Failure Answer)
  | .notOpen => none
  | .failed e => some (.error e)
  | .done answer _ => some (.ok answer)

/-- The call of a step that is one. -/
def Step.call? : Step → Option Call
  | .call _ c => some c
  | _ => none

namespace Workspace

/-- The workspace after several steps. -/
def after (w : Workspace) : List Step → Workspace
  | [] => w
  | s :: steps => (w.step s).2.after steps

/-- The results of the calls among several steps. -/
def results (w : Workspace) : List Step → List (Option (Except Failure Answer))
  | [] => []
  | s :: steps =>
    let (outcome, w') := w.step s
    if s.call?.isSome then outcome.result? :: w'.results steps else w'.results steps

variable {w w' : Workspace} {name : Text} {h : Handle} {held : Held}

/-! ## Handles -/

theorem mem_of_handle? (hName : w.handle? name = some h) : (name, h) ∈ w.handles := by
  obtain ⟨before, after, hSplit, -⟩ := List.lookup_eq_some_iff.mp hName
  rw [hSplit]
  exact List.mem_append_right _ List.mem_cons_self

@[simp] theorem handles_leave (w : Workspace) (held : Held) :
    (w.leave held).handles = w.handles := by
  unfold leave
  split
  · rfl
  · split <;> rfl

@[simp] theorem supply_leave (w : Workspace) (held : Held) : (w.leave held).supply = w.supply := by
  unfold leave
  split
  · rfl
  · split <;> rfl

/-- The disk after something is held by one handle less: a store that is used with a log may be
settled. -/
theorem disk_leave (w : Workspace) (held : Held) :
    (w.leave held).disk = w.disk ∨ ∃ l indexed cache, held = .file l (.logged true indexed) cache ∧
      (w.leave held).disk = w.disk.settle l := by
  unfold leave
  split
  · exact .inl rfl
  · split
    · exact .inr ⟨_, _, _, rfl, rfl⟩
    · exact .inl rfl
    · exact .inl rfl

@[simp] theorem handles_hold (w : Workspace) (name : Text) (h : Handle) :
    (w.hold name h).handles = (name, h) :: w.handles.filter fun h => h.1 != name := by
  unfold hold
  split
  · rfl
  · rw [handles_leave]
    rfl

@[simp] theorem supply_hold (w : Workspace) (name : Text) (h : Handle) :
    (w.hold name h).supply = w.supply := by
  unfold hold
  split
  · rfl
  · rw [supply_leave]
    rfl

theorem handle?_hold (w : Workspace) (name : Text) (h : Handle) :
    (w.hold name h).handle? name = some h := by
  rw [handle?, handles_hold, List.lookup_cons_self]

theorem handles_release (w : Workspace) (name : Text) :
    (w.release name).handles ⊆ w.handles := by
  unfold release
  split
  · exact List.Subset.refl _
  · rw [handles_leave]
    exact List.filter_subset_self _

@[simp] theorem supply_release (w : Workspace) (name : Text) :
    (w.release name).supply = w.supply := by
  unfold release
  split
  · rfl
  · rw [supply_leave]

/-! ## Leaving the rows -/

/-- Whether all handles are on the store at the place or out of its way. -/
def IsClear (w : Workspace) (l : Location) : Prop := ∀ h ∈ w.handles, h.2.held.IsClear l

instance (w : Workspace) (l : Location) : Decidable (w.IsClear l) :=
  inferInstanceAs (Decidable (∀ h ∈ w.handles, h.2.held.IsClear l))

theorem rows_leave (hSound : w.disk.IsSound l) (hClear : held.IsClear l) :
    (w.leave held).disk.IsSound l ∧ (w.leave held).disk.rows l = w.disk.rows l := by
  obtain hSame | ⟨l', indexed, cache, rfl, hSettled⟩ := w.disk_leave held
  · rw [hSame]
    exact ⟨hSound, rfl⟩
  · rw [hSettled]
    rcases hClear with rfl | hClear
    · exact hSound.settle
    · have hAgree := Disk.AgreesAt.of_changesWithin (.settle w.disk l') hClear
      exact ⟨hAgree.isSound.mpr hSound, hAgree.rows⟩

theorem serves_leave {t : Table} (h : w.disk.Serves l logged t) (hSuits : held.Suits l logged) :
    (w.leave held).disk.Serves l logged t := by
  obtain hSame | ⟨l', indexed, cache, rfl, hSettled⟩ := w.disk_leave held
  · rwa [hSame]
  · rw [hSettled]
    rcases hSuits with ⟨rfl, rfl⟩ | hClear
    · exact h.settle
    · exact (Disk.AgreesAt.of_changesWithin (.settle w.disk l') hClear).serves.mpr h

theorem rows_hold (hSound : w.disk.IsSound l) (hClear : w.IsClear l) (name : Text) (h : Handle) :
    (w.hold name h).disk.IsSound l ∧ (w.hold name h).disk.rows l = w.disk.rows l := by
  unfold hold
  split
  · exact ⟨hSound, rfl⟩
  · rename_i old hOld
    exact rows_leave (w := w.put name h) hSound (hClear _ (mem_of_handle? hOld))

theorem rows_release (hSound : w.disk.IsSound l) (hClear : w.IsClear l) (name : Text) :
    (w.release name).disk.IsSound l ∧ (w.release name).disk.rows l = w.disk.rows l := by
  unfold release
  split
  · exact ⟨hSound, rfl⟩
  · rename_i old hOld
    exact rows_leave (w := { w with handles := _ }) hSound (hClear _ (mem_of_handle? hOld))

/-! ## What opening a store comes to -/

/-- What a new handle holds and the disk that it is opened on: a table in memory, a file that is
used as others use it who share a cache, or a store that is set up. -/
inductive Opened (w : Workspace) : Held → Disk → Prop where
  | inMemory {held : Held} {d : Disk} (hSpares : w.disk.Spares d) (hHeld : ∀ l, ¬held.IsOn l) :
    Opened w held d
  | joined {l : Location} {use : FileUse} {cache : Option Backend} {d : Disk}
    (hSpares : w.disk.Spares d) (hUse : w.cachedUse? l cache = some use) :
    Opened w (.file l use cache) d
  | setUp {l : Location} {use : FileUse} {cache : Option Backend} {d d' : Disk} {held : Held}
    (hSpares : w.disk.Spares d) (hSetUp : d.setUpFile l use cache = (.ok held, d')) :
    Opened w held d'

/-- A use that is shared is that of a handle on the file. -/
theorem exists_of_cachedUse? {cache : Option Backend} (h : w.cachedUse? l cache = some use) :
    ∃ h ∈ w.handles, h.2.held.IsOn l := by
  obtain ⟨other, hh, hOther⟩ := List.exists_of_findSome?_eq_some h
  refine ⟨other, hh, ?_⟩
  split at hOther
  · rename_i l' use' cache' hHeld
    split at hOther
    · rename_i hSame
      simp only [Bool.and_eq_true, beq_iff_eq] at hSame
      rw [hHeld]
      exact hSame.1.2.symm
    · cases hOther
  · cases hOther

/-- Who cannot open a store leaves all stores as they are. -/
theorem openStore_eq_error {e : Failure} {handle : Text}
    (h : w.openStore handle name = (.error e, w')) :
    ∃ d, w.disk.Spares d ∧ w' = { w with disk := d } := by
  have hSpares := w.disk.approach_spares w.working name
  unfold openStore at h
  split at h
  · rename_i hApproach
    rw [hApproach] at hSpares
    cases h
    exact ⟨_, hSpares, rfl⟩
  · rename_i hApproach
    rw [hApproach] at hSpares
    dsimp only at h
    split at h
    · split at h <;> cases h
      exact ⟨_, hSpares, rfl⟩
    · split at h
      · cases h
      · split at h <;> cases h
        exact ⟨_, hSpares, rfl⟩
    · split at h
      · cases h
      · split at h
        · cases h
        · rename_i hSetUp
          cases h
          rw [Disk.setUpFile_eq_error hSetUp]
          exact ⟨_, hSpares, rfl⟩

/-- Who opens a store gets a new handle, and changes no other one. -/
theorem openStore_eq_ok {handle : Text} (h : w.openStore handle name = (.ok (), w')) :
    ∃ held d shared, w.Opened held d ∧
      w' = { w with disk := d, shared := shared }.hold handle ⟨held, false⟩ := by
  have hSpares := w.disk.approach_spares w.working name
  unfold openStore at h
  split at h
  · cases h
  · rename_i hApproach
    rw [hApproach] at hSpares
    dsimp only at h
    split at h
    · split at h <;> cases h
      exact ⟨_, _, _, .inMemory hSpares fun _ => id, rfl⟩
    · split at h
      · cases h
        exact ⟨_, _, _, .inMemory hSpares fun _ => id, rfl⟩
      · split at h <;> cases h
        exact ⟨_, _, _, .inMemory hSpares fun _ => id, rfl⟩
    · split at h
      · rename_i hUse
        cases h
        exact ⟨_, _, _, .joined hSpares hUse, rfl⟩
      · split at h <;> cases h
        rename_i hSetUp
        exact ⟨_, _, _, .setUp hSpares hSetUp, rfl⟩

theorem supply_openStore (w : Workspace) (handle name : Text) :
    (w.openStore handle name).2.supply = w.supply := by
  rcases hOpen : w.openStore handle name with ⟨_ | _, w'⟩
  · obtain ⟨d, -, rfl⟩ := openStore_eq_error hOpen
    rfl
  · obtain ⟨held, d, shared, -, rfl⟩ := openStore_eq_ok hOpen
    exact supply_hold _ handle _

theorem step_openFile (w : Workspace) (handle name : Text) :
    (w.step (.openFile handle name)).2 = (w.openStore handle name).2 := by
  simp only [step]
  rcases w.openStore handle name with ⟨_ | _, w'⟩ <;> rfl

theorem Opened.rows {d : Disk} (h : w.Opened held d) (hSound : w.disk.IsSound l)
    (hClear : held.IsClear l) : d.IsSound l ∧ d.rows l = w.disk.rows l := by
  have hSpared {d : Disk} (hSpares : w.disk.Spares d) :
      d.IsSound l ∧ d.rows l = w.disk.rows l :=
    ⟨(Disk.AgreesAt.of_spares hSpares).isSound.mpr hSound, (Disk.AgreesAt.of_spares hSpares).rows⟩
  cases h with
  | inMemory hSpares _ => exact hSpared hSpares
  | joined hSpares _ => exact hSpared hSpares
  | setUp hSpares hSetUp =>
    rename_i l' use cache d₀
    obtain ⟨hSound₀, hRows₀⟩ := hSpared hSpares
    obtain ⟨t, rfl, rfl⟩ | ⟨rfl, hServes⟩ := Disk.setUpFile_eq_ok hSetUp
    · exact ⟨hSound₀, hRows₀⟩
    · rcases hClear with rfl | hClear
      · have hServed := hServes hSound₀
        exact ⟨hServed.isSound, hServed.rows.trans hRows₀⟩
      · have hWithin := Disk.ChangesWithin.setUpFile d₀ l' use cache
        rw [hSetUp] at hWithin
        have hAgree := Disk.AgreesAt.of_changesWithin hWithin hClear
        exact ⟨hAgree.isSound.mpr hSound₀, hAgree.rows.trans hRows₀⟩

/-- **Opening a store leaves the rows**, of that store and of every other one that is out of its
way. -/
theorem rows_openStore (hSound : w.disk.IsSound l) (hClear : w.IsClear l) {handle : Text}
    (hClear' : (w.openStore handle name).2.IsClear l) :
    (w.openStore handle name).2.disk.IsSound l ∧
      (w.openStore handle name).2.disk.rows l = w.disk.rows l := by
  rcases hOpen : w.openStore handle name with ⟨result, w'⟩
  rw [hOpen] at hClear'
  cases result with
  | error e =>
    obtain ⟨d, hSpares, rfl⟩ := openStore_eq_error hOpen
    have hAgree := Disk.AgreesAt.of_spares (l := l) hSpares
    exact ⟨hAgree.isSound.mpr hSound, hAgree.rows⟩
  | ok _ =>
    obtain ⟨held, d, shared, hOpened, rfl⟩ := openStore_eq_ok hOpen
    have hHeld : held.IsClear l := hClear' (handle, ⟨held, false⟩) (by simp)
    obtain ⟨hSound', hRows⟩ := hOpened.rows hSound hHeld
    obtain ⟨hSound'', hRows'⟩ :=
      rows_hold (w := { w with disk := d, shared := shared }) hSound' hClear handle ⟨held, false⟩
    exact ⟨hSound'', hRows'.trans hRows⟩

/-! ## Calls -/

/-- What a call through a handle comes to that has a table. -/
theorem call_of_table {t : Table} (hName : w.handle? name = some h)
    (hTable : w.table h.held = .ok t) (c : Call) :
    let left := c.action.on t h.held.writable w.supply
    (w.call name c).1.result? = some left.1 ∧
      (w.call name c).2 =
        { (if left.2.1 = t then w else w.record name h left.2.1) with supply := left.2.2 } := by
  unfold call
  simp only [hName, hTable]
  generalize c.action.on t h.held.writable w.supply = left
  obtain ⟨result, t', supply⟩ := left
  cases result <;> exact ⟨rfl, rfl⟩

/-- A call through a handle on something else leaves the rows of the store. -/
theorem rows_call (hSound : w.disk.IsSound l) (hClear : w.IsClear l)
    (hName : w.handle? name = some h) (hOff : ¬h.held.IsOn l) (c : Call) :
    (w.call name c).2.disk.IsSound l ∧ (w.call name c).2.IsClear l ∧
      (w.call name c).2.disk.rows l = w.disk.rows l := by
  have hHeld := hClear _ (mem_of_handle? hName)
  cases hTable : w.table h.held with
  | error e =>
    have hSame : (w.call name c).2 = w := by
      unfold call
      simp only [hName, hTable]
    rw [hSame]
    exact ⟨hSound, hClear, rfl⟩
  | ok t =>
    obtain ⟨-, hAfter⟩ := call_of_table hName hTable c
    rw [hAfter]
    split
    · exact ⟨hSound, hClear, rfl⟩
    · unfold record
      split
      · refine ⟨hSound, fun h' hh' => ?_, rfl⟩
        rcases List.mem_cons.mp hh' with rfl | hh'
        · trivial
        · exact hClear h' (List.mem_of_mem_filter hh')
      · exact ⟨hSound, hClear, rfl⟩
      · exact ⟨hSound, hClear, rfl⟩
      · rename_i l' use cache hFile
        rw [hFile] at hHeld hOff
        have hWithin := Disk.ChangesWithin.record w.disk l' use
          (c.action.on t h.held.writable w.supply).2.1
        have hAgree := Disk.AgreesAt.of_changesWithin hWithin (hHeld.resolve_left hOff)
        exact ⟨hAgree.isSound.mpr hSound, hClear, hAgree.rows⟩

/-! ## Hosting the store -/

/-- All handles on the store use it alike, and if there is one, the store is served. -/
structure Hosts (w : Workspace) (l : Location) (logged : Bool) : Prop where
  /-- What is held is the store, used alike, or out of its way. -/
  suits : ∀ h ∈ w.handles, h.2.held.Suits l logged
  /-- Changes are pending only if there is a store. -/
  isSound : w.disk.IsSound l
  /-- Those who hold the store are served. -/
  serves : (∃ h ∈ w.handles, h.2.held.IsOn l) → ∃ t, w.disk.Serves l logged t

namespace Hosts

theorem ofDisk {d : Disk} (hSound : d.IsSound l) (working : Location) (supply : Supply) :
    (ofDisk d working supply).Hosts l logged :=
  ⟨nofun, hSound, nofun⟩

variable (hw : w.Hosts l logged)

include hw

theorem isClear : w.IsClear l := fun h hh => (hw.suits h hh).isClear

/-- **Whoever holds the store works on its rows.** -/
theorem table (hh : (name, h) ∈ w.handles) (hOn : h.held.IsOn l) :
    w.disk.Serves l logged (w.disk.rows l) ∧ w.table h.held = .ok (w.disk.rows l) := by
  obtain ⟨t, hServes⟩ := hw.serves ⟨(name, h), hh, hOn⟩
  obtain ⟨use, cache, hHeld⟩ := hOn.exists_file
  have hUse : use.isLogged = logged := Held.Suits.isLogged (hHeld ▸ hw.suits _ hh)
  rw [hServes.rows, hHeld]
  exact ⟨hServes, hServes.current hUse⟩

/-- The store is hosted as long as nothing more is held and whoever was served still is. -/
theorem of_held (hHeld : ∀ h' ∈ w'.handles, ∃ h ∈ w.handles, h.2.held = h'.2.held)
    (hSound : w'.disk.IsSound l)
    (hServes : ∀ t, w.disk.Serves l logged t → ∃ t', w'.disk.Serves l logged t') :
    w'.Hosts l logged := by
  refine ⟨fun h' hh' => ?_, hSound, fun ⟨h', hh', hOn⟩ => ?_⟩
  · obtain ⟨h, hh, hSame⟩ := hHeld h' hh'
    exact hSame ▸ hw.suits h hh
  · obtain ⟨h, hh, hSame⟩ := hHeld h' hh'
    obtain ⟨t, hServed⟩ := hw.serves ⟨h, hh, hSame ▸ hOn⟩
    exact hServes t hServed

theorem release (name : Text) : (w.release name).Hosts l logged := by
  refine hw.of_held (fun h hh => ⟨h, w.handles_release name hh, rfl⟩)
    (rows_release hw.isSound hw.isClear name).1 fun t hServes => ⟨t, ?_⟩
  unfold Workspace.release
  split
  · exact hServes
  · rename_i old hOld
    exact serves_leave (w := { w with handles := _ }) hServes (hw.suits _ (mem_of_handle? hOld))

theorem hold (name : Text) (hSuits : h.held.Suits l logged)
    (hServes : h.held.IsOn l → ∃ t, w.disk.Serves l logged t) :
    (w.hold name h).Hosts l logged := by
  refine ⟨fun h' hh' => ?_, (rows_hold hw.isSound hw.isClear name h).1, fun ⟨h', hh', hOn⟩ => ?_⟩
  · rw [handles_hold, List.mem_cons] at hh'
    rcases hh' with rfl | hh'
    · exact hSuits
    · exact hw.suits h' (List.mem_of_mem_filter hh')
  · obtain ⟨t, hServed⟩ : ∃ t, w.disk.Serves l logged t := by
      rw [handles_hold, List.mem_cons] at hh'
      rcases hh' with rfl | hh'
      · exact hServes hOn
      · exact hw.serves ⟨h', List.mem_of_mem_filter hh', hOn⟩
    refine ⟨t, ?_⟩
    unfold Workspace.hold
    split
    · exact hServed
    · rename_i old hOld
      exact serves_leave (w := w.put name h) hServed (hw.suits _ (mem_of_handle? hOld))

/-- A new handle that suits the store is served if it holds the store, and whoever was served
still is. -/
theorem opened {d : Disk} (hOpened : w.Opened held d) (hSuits : held.Suits l logged) :
    (∀ t, w.disk.Serves l logged t → d.Serves l logged t) ∧
      (held.IsOn l → ∃ t, d.Serves l logged t) := by
  have hSpared {d : Disk} (hSpares : w.disk.Spares d) (t : Table)
      (hServes : w.disk.Serves l logged t) : d.Serves l logged t :=
    (Disk.AgreesAt.of_spares hSpares).serves.mpr hServes
  cases hOpened with
  | inMemory hSpares hHeld => exact ⟨hSpared hSpares, fun hOn => absurd hOn (hHeld l)⟩
  | joined hSpares hUse =>
    refine ⟨hSpared hSpares, fun hOn => ?_⟩
    cases hOn
    obtain ⟨other, hh, hOther⟩ := exists_of_cachedUse? hUse
    exact (hw.serves ⟨other, hh, hOther⟩).imp (hSpared hSpares)
  | setUp hSpares hSetUp =>
    rename_i l' use' cache d₀
    obtain ⟨t, rfl, rfl⟩ | ⟨rfl, hServes⟩ := Disk.setUpFile_eq_ok hSetUp
    · exact ⟨hSpared hSpares, False.elim⟩
    · rcases hSuits with ⟨rfl, rfl⟩ | hClear
      · have hServed := hServes ((Disk.AgreesAt.of_spares hSpares).isSound.mpr hw.isSound)
        refine ⟨fun t hOld => ?_, fun _ => ⟨_, hServed⟩⟩
        rwa [← (hSpared hSpares t hOld).rows]
      · have hWithin := Disk.ChangesWithin.setUpFile d₀ l' use' cache
        rw [hSetUp] at hWithin
        have hAgree := Disk.AgreesAt.of_changesWithin hWithin hClear
        refine ⟨fun t hOld => hAgree.serves.mpr (hSpared hSpares t hOld), fun hOn => ?_⟩
        cases hOn
        exact absurd (by simp [Location.files]) hClear.file

theorem openStore {handle : Text}
    (hSuits : ∀ h ∈ (w.openStore handle name).2.handles, h.2.held.Suits l logged) :
    (w.openStore handle name).2.Hosts l logged := by
  have hSound := (rows_openStore hw.isSound hw.isClear
    fun h hh => (hSuits h hh).isClear).1
  rcases hOpen : w.openStore handle name with ⟨result, w'⟩
  rw [hOpen] at hSuits hSound
  cases result with
  | error e =>
    obtain ⟨d, hSpares, rfl⟩ := openStore_eq_error hOpen
    exact hw.of_held (fun h hh => ⟨h, hh, rfl⟩) hSound
      fun t hServes => ⟨t, (Disk.AgreesAt.of_spares hSpares).serves.mpr hServes⟩
  | ok _ =>
    obtain ⟨held, d, shared, hOpened, rfl⟩ := openStore_eq_ok hOpen
    have hHeld : held.Suits l logged := hSuits (handle, ⟨held, false⟩) (by simp)
    obtain ⟨hKeeps, hServed⟩ := hw.opened hOpened hHeld
    have hMoved : Hosts { w with disk := d, shared := shared } l logged :=
      hw.of_held (fun h hh => ⟨h, hh, rfl⟩) (hOpened.rows hw.isSound hHeld.isClear).1
        fun t hServes => ⟨t, hKeeps t hServes⟩
    exact hMoved.hold handle hHeld hServed

/-- **A call through a handle on the store** works on the rows of the store and leaves there what
it has changed. -/
theorem call (hName : w.handle? name = some h) (hOn : h.held.IsOn l) (c : Call) :
    let left := c.action.on (w.disk.rows l) h.held.writable w.supply
    (w.call name c).1.result? = some left.1 ∧ (w.call name c).2.disk.rows l = left.2.1 ∧
      (w.call name c).2.supply = left.2.2 ∧ (w.call name c).2.handles = w.handles ∧
      (w.call name c).2.Hosts l logged := by
  intro left
  have hMem := mem_of_handle? hName
  obtain ⟨hServes, hTable⟩ := hw.table hMem hOn
  obtain ⟨hResult, hAfter⟩ := call_of_table hName hTable c
  refine ⟨hResult, ?_⟩
  rw [hAfter]
  split
  · rename_i hSame
    exact ⟨hSame.symm, rfl, rfl, hw.of_held (fun h hh => ⟨h, hh, rfl⟩) hw.isSound
      fun t hServed => ⟨t, hServed⟩⟩
  · obtain ⟨use, cache, hHeld⟩ := hOn.exists_file
    have hUse : use.isLogged = logged := Held.Suits.isLogged (hHeld ▸ hw.suits _ hMem)
    have hServed := hServes.record hUse left.2.1
    have hRecord : w.record name h left.2.1 =
        { w with disk := w.disk.record l use left.2.1 } := by
      rw [record, hHeld]
    rw [hRecord]
    exact ⟨hServed.rows, rfl, rfl, hw.of_held (fun h hh => ⟨h, hh, rfl⟩) hServed.isSound
      fun _ _ => ⟨_, hServed⟩⟩

/-- A call through a handle that will do for it works as through one that may be written if the
others may. -/
theorem call_of_willDo {writable : Bool} {c : Call} (hName : w.handle? name = some h)
    (hWillDo : h.held.WillDo l writable c) :
    let left := c.action.on (w.disk.rows l) writable w.supply
    (w.call name c).1.result? = some left.1 ∧ (w.call name c).2.disk.rows l = left.2.1 ∧
      (w.call name c).2.supply = left.2.2 ∧ (w.call name c).2.Hosts l logged := by
  obtain ⟨hResult, hRows, hSupply, -, hHosts⟩ := hw.call hName hWillDo.1 c
  have hAlike : c.action.on (w.disk.rows l) h.held.writable w.supply =
      c.action.on (w.disk.rows l) writable w.supply := by
    obtain ⟨-, rfl | hRead⟩ := hWillDo
    · rfl
    · exact Call.on_of_isRead hRead _ _ _ _
  rw [hAlike] at hResult hRows hSupply
  exact ⟨hResult, hRows, hSupply, hHosts⟩

end Hosts

/-! ## Sequences of steps -/

/-- Whether a step is one of those who use the store at the place like `use`, or is out of its
way.  A call has to go through a handle on the store that will do for it, and a handle that is
opened, under whatever name, must not get in the way. -/
def Admits (w : Workspace) (l : Location) (use : FileUse) : Step → Prop
  | .call name c => ∃ h ∈ w.handle? name, h.held.WillDo l use.writable c
  | .openFile handle name =>
    ∀ h ∈ (w.openStore handle name).2.handles, h.2.held.Suits l use.isLogged
  | .observe _ | .openMemory _ | .close _ => True
  | .writeDocument .. | .insertRaw .. => False

instance (w : Workspace) (l : Location) (use : FileUse) : DecidablePred (w.Admits l use)
  | .call name c => inferInstanceAs
    (Decidable (∃ h ∈ w.handle? name, h.held.WillDo l use.writable c))
  | .openFile handle name => inferInstanceAs
    (Decidable (∀ h ∈ (w.openStore handle name).2.handles, h.2.held.Suits l use.isLogged))
  | .observe _ | .openMemory _ | .close _ => .isTrue trivial
  | .writeDocument .. | .insertRaw .. => .isFalse id

/-- Whether all of several steps are admitted, each when its turn comes. -/
def Uses (w : Workspace) (l : Location) (use : FileUse) : List Step → Prop
  | [] => True
  | s :: steps => w.Admits l use s ∧ (w.step s).2.Uses l use steps

instance decidableUses (l : Location) (use : FileUse) :
    (w : Workspace) → (steps : List Step) → Decidable (w.Uses l use steps)
  | _, [] => .isTrue trivial
  | w, s :: steps =>
    have := decidableUses l use (w.step s).2 steps
    inferInstanceAs (Decidable (w.Admits l use s ∧ (w.step s).2.Uses l use steps))

namespace Hosts

variable {s : Step} (hw : w.Hosts l use.isLogged) (hAdmits : w.Admits l use s)

include hw hAdmits

theorem step_call {c : Call} (hCall : s.call? = some c) :
    let left := c.action.on (w.disk.rows l) use.writable w.supply
    (w.step s).1.result? = some left.1 ∧ (w.step s).2.disk.rows l = left.2.1 ∧
      (w.step s).2.supply = left.2.2 ∧ (w.step s).2.Hosts l use.isLogged := by
  cases s with
  | call name c' =>
    cases hCall
    obtain ⟨h, hName, hWillDo⟩ := hAdmits
    exact hw.call_of_willDo hName hWillDo
  | _ => cases hCall

/-- **Handles come and go without touching the rows.** -/
theorem step_other (hOther : s.call? = none) :
    (w.step s).2.disk.rows l = w.disk.rows l ∧ (w.step s).2.supply = w.supply ∧
      (w.step s).2.Hosts l use.isLogged := by
  cases s with
  | call name c => cases hOther
  | observe name =>
    simp only [step]
    split
    · exact ⟨rfl, rfl, hw⟩
    · rename_i name' h hName
      refine ⟨rfl, rfl, hw.of_held (fun h' hh' => ?_) hw.isSound fun t hServes => ⟨t, hServes⟩⟩
      rcases List.mem_cons.mp hh' with rfl | hh'
      · exact ⟨_, mem_of_handle? hName, rfl⟩
      · exact ⟨h', List.mem_of_mem_filter hh', rfl⟩
  | openFile handle name =>
    have hHosts := hw.openStore hAdmits
    have hRows := (rows_openStore hw.isSound hw.isClear hHosts.isClear).2
    rw [step_openFile]
    exact ⟨hRows, supply_openStore w handle name, hHosts⟩
  | openMemory handle =>
    have hHosts := hw.hold handle (h := ⟨.own [], false⟩) trivial False.elim
    exact ⟨(rows_hold hw.isSound hw.isClear handle _).2, supply_hold w handle _, hHosts⟩
  | close handle =>
    simp only [step]
    split
    · exact ⟨rfl, rfl, hw⟩
    · exact ⟨(rows_release hw.isSound hw.isClear handle).2, supply_release w handle,
        hw.release handle⟩
  | writeDocument name content => exact hAdmits.elim
  | insertRaw name r => exact hAdmits.elim

end Hosts

/-- **Through however many handles, the calls work on one table**: their results, the rows in the
end and the identifiers that are left are those of the calls made one after the other on the rows
that the store has had. -/
theorem Hosts.run {steps : List Step} (hw : w.Hosts l use.isLogged) (hUses : w.Uses l use steps) :
    let left := Call.sequence use.writable (steps.filterMap Step.call?) (w.disk.rows l) w.supply
    w.results steps = left.1.map some ∧ (w.after steps).disk.rows l = left.2.1 ∧
      (w.after steps).supply = left.2.2 ∧ (w.after steps).Hosts l use.isLogged := by
  induction steps generalizing w with
  | nil => exact ⟨rfl, rfl, rfl, hw⟩
  | cons s steps ih =>
    obtain ⟨hAdmits, hLater⟩ := hUses
    cases hCall : s.call? with
    | none =>
      obtain ⟨hRows, hSupply, hHosts⟩ := hw.step_other hAdmits hCall
      have hRest := ih hHosts hLater
      rw [hRows, hSupply] at hRest
      simpa [results, after, hCall] using hRest
    | some c =>
      obtain ⟨hResult, hRows, hSupply, hHosts⟩ := hw.step_call hAdmits hCall
      have hRest := ih hHosts hLater
      rw [hRows, hSupply] at hRest
      simpa [results, after, hCall, Call.sequence, hResult] using hRest

/-! ## One handle -/

/-- Calls through one handle on the store are admitted for as long as they go on, and the handle
stays. -/
theorem Hosts.uses_calls {handle : Text} {cache : Option Backend} (hw : w.Hosts l use.isLogged)
    (hHandle : w.handle? handle = some ⟨.file l use cache, false⟩) (cs : List Call) :
    w.Uses l use (cs.map (Step.call handle)) ∧
      (w.after (cs.map (Step.call handle))).handle? handle = w.handle? handle := by
  induction cs generalizing w with
  | nil => exact ⟨trivial, rfl⟩
  | cons c cs ih =>
    obtain ⟨-, -, -, hSame, hHosts⟩ := hw.call hHandle rfl c
    have hKept : (w.call handle c).2.handle? handle = w.handle? handle := by
      rw [handle?, handle?, hSame]
    obtain ⟨hUses, hLater⟩ := ih hHosts (hKept.trans hHandle)
    exact ⟨⟨⟨_, hHandle, rfl, .inl rfl⟩, hUses⟩, hLater.trans hKept⟩

theorem filterMap_calls (handle : Text) (cs : List Call) :
    (cs.map (Step.call handle)).filterMap Step.call? = cs := by
  rw [List.filterMap_map]
  exact List.filterMap_some

/-- A store that is opened in a workspace without handles is hosted, with the rows that it had. -/
theorem hosts_of_opened {d : Disk} {working : Location} {handle : Text} {cache : Option Backend}
    (hSound : d.IsSound l)
    (hOpened : (ofDisk d working supply).openStore handle name = (.ok (), w))
    (hHandle : w.handle? handle = some h) (hHeld : h.held = .file l use cache) :
    w.Hosts l use.isLogged ∧ w.disk.rows l = d.rows l ∧ w.supply = supply := by
  have hOpen := hOpened
  obtain ⟨held, d', shared, -, rfl⟩ := openStore_eq_ok hOpened
  rw [handle?_hold] at hHandle
  cases hHandle
  obtain rfl : held = .file l use cache := hHeld
  have hSuits : ∀ h ∈ ((ofDisk d working supply).openStore handle name).2.handles,
      h.2.held.Suits l use.isLogged := by
    intro h hh
    rw [hOpen, handles_hold, List.mem_cons] at hh
    rcases hh with rfl | hh
    · exact .inl ⟨rfl, rfl⟩
    · cases hh
  have hStart : (ofDisk d working supply).Hosts l use.isLogged := .ofDisk hSound working supply
  have hHosts := hStart.openStore hSuits
  have hRows := (rows_openStore hSound hStart.isClear hHosts.isClear).2
  have hSupply := supply_openStore (ofDisk d working supply) handle name
  rw [hOpen] at hHosts hRows hSupply
  exact ⟨hHosts, hRows, hSupply⟩

end Workspace

end PathRegistry
