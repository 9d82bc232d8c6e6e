import PathRegistry.Proofs.Directories
import PathRegistry.Proofs.Handles

/-!
# Handles are transparent

A store is used through handles that come and go: it is opened where a store is or where none has
been yet, a handle is closed, its name is given to another one.  `handles_transparent` says that
none of this shows.  Call by call the results are those of one handle that stays open, and so are
the rows in the end.

What is asked of those who use the store is that they agree on how.  They do if they all open it by
the same file name: then nothing else is asked, since a name that has led to a store once leads
there ever after, and the store is used as it was the first time (`IsOpenBy`).  If other names
occur, such as addresses that ask for a store to be read only or used without its log, or names of
other stores, the handles are told by where they turn out to be (`Uses`).

## Main statements

* `Workspace.IsOpenBy.openStore` — whoever opens the store again uses it as the others do.
* `Workspace.uses_of_keepsTo` — sessions by one file name are admitted.
* `Workspace.handles_transparent` — the handles do not show.
-/

namespace PathRegistry

namespace Workspace

variable {w w' : Workspace} {name handle : Text} {working l : Location} {use : FileUse}
  {supply : Supply} {d : Disk} {cache : Option Backend}

/-! ## Sessions on one store by its name -/

/-- Whether a step is one of those who open the store of one name and nothing else: a call has to
go through a handle that is open. -/
def IsByName (w : Workspace) (name : Text) : Step → Prop
  | .call handle _ => (w.handle? handle).isSome
  | .openFile _ name' => name' = name
  | .observe _ | .close _ => True
  | .openMemory _ | .writeDocument .. | .insertRaw .. => False

/-- Whether all of several steps are, each when its turn comes. -/
def KeepsTo (w : Workspace) (name : Text) : List Step → Prop
  | [] => True
  | s :: steps => w.IsByName name s ∧ (w.step s).2.KeepsTo name steps

instance (w : Workspace) (name : Text) : DecidablePred (w.IsByName name)
  | .call handle _ => inferInstanceAs (Decidable ((w.handle? handle).isSome = true))
  | .openFile _ name' => inferInstanceAs (Decidable (name' = name))
  | .observe _ | .close _ => .isTrue trivial
  | .openMemory _ | .writeDocument .. | .insertRaw .. => .isFalse id

instance decidableKeepsTo (name : Text) :
    (w : Workspace) → (steps : List Step) → Decidable (w.KeepsTo name steps)
  | _, [] => .isTrue trivial
  | w, s :: steps =>
    have := decidableKeepsTo name (w.step s).2 steps
    inferInstanceAs (Decidable (w.IsByName name s ∧ (w.step s).2.KeepsTo name steps))

/-- The store of a file name is open, or can be opened again: all handles are on it and use it in
one way, and whoever opens it once more finds all directories made and uses it in this way too. -/
structure IsOpenBy (w : Workspace) (name : Text) (l : Location) (use : FileUse) : Prop where
  /-- What is held. -/
  held : ∀ h ∈ w.handles, h.2.held = .file l use none
  /-- There are no directories to make. -/
  made : ∀ parent, (Route.ofText name).parent? = some parent →
    w.disk.makeRoute w.working parent = (.ok (), w.disk)
  /-- The name leads to the place. -/
  place : ∃ d : Disk, d.filePlace? w.working name = some l
  /-- There is room for the store. -/
  hasRoom : w.disk.HasRoom l
  /-- How the store is used. -/
  use : w.disk.plainUse l = use

@[simp] theorem working_leave (w : Workspace) (held : Held) :
    (w.leave held).working = w.working := by
  unfold leave
  split
  · rfl
  · split <;> rfl

@[simp] theorem working_release (w : Workspace) (name : Text) :
    (w.release name).working = w.working := by
  unfold release
  split
  · rfl
  · rw [working_leave]

/-- A file that is used without a cache is used as the disk has it. -/
theorem openStore_of_file
    (h : w.disk.approach w.working name = (.ok (.file l use none), d)) (handle : Text) :
    w.openStore handle name = match d.setUpFile l use none with
      | (.ok held, d') => (.ok (), { w with disk := d' }.hold handle ⟨held, false⟩)
      | (.error e, d') => (.error e, { w with disk := d' }) := by
  have hAlone : ({ w with disk := d } : Workspace).cachedUse? l none = none := by
    refine List.findSome?_eq_none_iff.mpr fun h _ => ?_
    split <;> rfl
  rcases hSetUp : d.setUpFile l use none with ⟨e | held, d'⟩
  · simp only [openStore, h, hAlone, hSetUp]
  · simp only [openStore, h, hAlone, hSetUp]

namespace IsOpenBy

variable (hw : w.IsOpenBy name l use)

include hw

/-- The store stays open as long as the directories stay and nothing else is held. -/
theorem of_sameDirectories (hWorking : w'.working = w.working)
    (hHeld : ∀ h ∈ w'.handles, h.2.held = .file l use none)
    (hSame : w.disk.SameDirectories w'.disk) : w'.IsOpenBy name l use := by
  refine ⟨hHeld, fun parent hParent => ?_, ?_, hw.hasRoom.of_sameDirectories hSame, ?_⟩
  · rw [hWorking]
    exact Disk.makeRoute_again (hw.made parent hParent) hSame
  · rw [hWorking]
    exact hw.place
  · rw [Disk.plainUse_of_sameDirectories hSame, hw.use]

theorem leave_sameDirectories :
    w.disk.SameDirectories (w.leave (.file l use none)).disk := by
  obtain hSame | ⟨l', indexed, cache, hHeld, hSettled⟩ := w.disk_leave (.file l use none)
  · rw [hSame]
    exact .refl _
  · cases hHeld
    rw [hSettled]
    -- only who may write settles a store, and has found no directory in the place of the index
    refine Disk.settle_sameDirectories hw.hasRoom fun hIndex => ?_
    have hUse := hw.use
    simp [Disk.plainUse, hIndex] at hUse

theorem release (handle : Text) : (w.release handle).IsOpenBy name l use := by
  refine hw.of_sameDirectories (working_release w handle)
    (fun h hh => hw.held h (w.handles_release handle hh)) ?_
  unfold Workspace.release
  split
  · exact .refl _
  · rename_i old hOld
    have hLeft : IsOpenBy { w with handles := w.handles.filter fun h => h.1 != handle } name l use :=
      hw.of_sameDirectories rfl (fun h hh => hw.held h (List.mem_of_mem_filter hh)) (.refl _)
    rw [hw.held _ (mem_of_handle? hOld)]
    exact hLeft.leave_sameDirectories

theorem hold (handle : Text) : (w.hold handle ⟨.file l use none, false⟩).IsOpenBy name l use := by
  have hPut : IsOpenBy (w.put handle ⟨.file l use none, false⟩) name l use := by
    refine hw.of_sameDirectories rfl (fun h hh => ?_) (.refl _)
    rcases List.mem_cons.mp hh with rfl | hh
    · rfl
    · exact hw.held h (List.mem_of_mem_filter hh)
  unfold Workspace.hold
  split
  · exact hPut
  · rename_i old hOld
    rw [hw.held _ (mem_of_handle? hOld)]
    exact hPut.of_sameDirectories (working_leave _ _) (by rw [handles_leave]; exact hPut.held)
      hPut.leave_sameDirectories

/-- **Whoever opens the store again uses it as the others do**, if it can be opened. -/
theorem openStore (hName : IsFileName name) (handle : Text) :
    (w.openStore handle name).2.IsOpenBy name l use := by
  have hSame := Disk.approach_sameDirectories hName hw.made
  rcases hApproach : w.disk.approach w.working name with ⟨e | site, d⟩
  · rw [hApproach] at hSame
    unfold Workspace.openStore
    rw [hApproach]
    exact hw.of_sameDirectories rfl hw.held hSame
  · rw [hApproach] at hSame
    obtain ⟨parent, d₁, d₂, l', hParent, hRoute, hPlace, hFile, hSwept, rfl⟩ :=
      Disk.approach_eq_ok_plain hName hApproach
    obtain ⟨d₀, hPlace₀⟩ := hw.place
    obtain rfl : l' = l := Disk.filePlace?_unique hPlace₀ hPlace
    have hUse : d.plainUse l' = use := by
      rw [Disk.plainUse_of_sameDirectories hSame, hw.use]
    rw [openStore_of_file hApproach]
    split
    · rename_i held d' hSetUp
      obtain ⟨rfl, -, -, hSame'⟩ := Disk.setUpFile_plainUse hFile hSwept hSetUp
      have hMoved : IsOpenBy { w with disk := d' } name l' use :=
        hw.of_sameDirectories rfl hw.held (hSame.trans hSame')
      subst hUse
      exact hMoved.hold handle
    · rename_i e d' hSetUp
      rw [Disk.setUpFile_eq_error hSetUp]
      exact hw.of_sameDirectories rfl hw.held hSame

/-- A step that keeps to the name is admitted, and the store stays open. -/
theorem step (hName : IsFileName name) (hHosts : w.Hosts l use.isLogged) {s : Step}
    (hStep : w.IsByName name s) : w.Admits l use s ∧ (w.step s).2.IsOpenBy name l use := by
  cases s with
  | call handle c =>
    obtain ⟨h, hHandle⟩ := Option.isSome_iff_exists.mp hStep
    have hHeld := hw.held _ (mem_of_handle? hHandle)
    have hOn : h.held.IsOn l := by
      rw [hHeld]
      rfl
    have hWritable : h.held.writable = use.writable := by
      rw [hHeld]
      rfl
    refine ⟨⟨h, hHandle, hOn, .inl hWritable⟩, ?_⟩
    obtain ⟨-, hTable⟩ := hHosts.table (mem_of_handle? hHandle) hOn
    obtain ⟨-, hAfter⟩ := call_of_table hHandle hTable c
    change (w.call handle c).2.IsOpenBy name l use
    rw [hAfter]
    split
    · exact hw.of_sameDirectories rfl hw.held (.refl _)
    · rw [record, hHeld]
      exact hw.of_sameDirectories rfl hw.held (Disk.record_sameDirectories hw.hasRoom use _)
  | observe handle =>
    refine ⟨trivial, ?_⟩
    simp only [Workspace.step]
    split
    · exact hw
    · rename_i h hHandle
      refine hw.of_sameDirectories rfl (fun h' hh' => ?_) (.refl _)
      rcases List.mem_cons.mp hh' with rfl | hh'
      · exact hw.held (handle, h) (mem_of_handle? hHandle)
      · exact hw.held h' (List.mem_of_mem_filter hh')
  | openFile handle name' =>
    cases hStep
    have hOpen := hw.openStore hName handle
    refine ⟨fun h hh => ?_, ?_⟩
    · rw [hOpen.held h hh]
      exact .inl ⟨rfl, rfl⟩
    · rw [step_openFile]
      exact hOpen
  | close handle =>
    refine ⟨trivial, ?_⟩
    simp only [Workspace.step]
    split
    · exact hw
    · exact hw.release handle
  | openMemory handle => exact hStep.elim
  | writeDocument name' content => exact hStep.elim
  | insertRaw name' r => exact hStep.elim

theorem uses (hName : IsFileName name) (hHosts : w.Hosts l use.isLogged) {steps : List Step}
    (hSteps : w.KeepsTo name steps) : w.Uses l use steps := by
  induction steps generalizing w with
  | nil => trivial
  | cons s steps ih =>
    obtain ⟨hStep, hLater⟩ := hSteps
    obtain ⟨hAdmits, hOpen⟩ := hw.step hName hHosts hStep
    have hHosts' : (w.step s).2.Hosts l use.isLogged := by
      cases hCall : s.call? with
      | none => exact (hHosts.step_other hAdmits hCall).2.2
      | some c => exact (hHosts.step_call hAdmits hCall).2.2.2
    exact ⟨hAdmits, ih hOpen hHosts' hLater⟩

end IsOpenBy

/-- **Once a store has been opened by its name, it is open by this name**, under whatever handle
it was opened first. -/
theorem isOpenBy_of_opened (hName : IsFileName name)
    (hOpened : (ofDisk d working supply).openStore handle name = (.ok (), w))
    (hHandle : w.handle? handle = some ⟨.file l use cache, false⟩) (other : Text) :
    ((ofDisk d working supply).openStore other name).2.IsOpenBy name l use := by
  rcases hApproach : d.approach working name with ⟨e | site, d'⟩
  · unfold openStore at hOpened
    rw [ofDisk, hApproach] at hOpened
    cases hOpened
  · obtain ⟨parent, d₁, d₂, l', hParent, hRoute, hPlace, hFile, hSwept, rfl⟩ :=
      Disk.approach_eq_ok_plain hName hApproach
    have hOpen := openStore_of_file (w := ofDisk d working supply) hApproach
    rw [hOpen other]
    rw [hOpen handle] at hOpened
    rcases hSetUp : d'.setUpFile l' (d'.plainUse l') none with ⟨e | held, d''⟩
    · rw [hSetUp] at hOpened
      cases hOpened
    · rw [hSetUp] at hOpened
      cases hOpened
      obtain ⟨rfl, hRoom, hSwept', hSame⟩ := Disk.setUpFile_plainUse hFile hSwept hSetUp
      rw [handle?_hold] at hHandle
      cases hHandle
      have hReady : IsOpenBy { ofDisk d working supply with disk := d'' } name l
          (d'.plainUse l) := by
        refine ⟨nofun, fun parent' hParent' => ?_, ⟨d₁, hPlace⟩, hRoom.of_sameDirectories hSame,
          Disk.plainUse_of_sameDirectories hSame⟩
        cases hParent.symm.trans hParent'
        exact Disk.makeRoute_again hRoute (hSwept'.trans hSame)
      exact hReady.hold other

/-- **Sessions by one name are admitted**: as soon as the store is opened, all that follows is. -/
theorem uses_of_keepsTo (hName : IsFileName name) (hSound : d.IsSound l)
    (hOpened : (ofDisk d working supply).openStore handle name = (.ok (), w))
    (hHandle : w.handle? handle = some ⟨.file l use cache, false⟩) {steps : List Step}
    (hSteps : (ofDisk d working supply).KeepsTo name steps) :
    (ofDisk d working supply).Uses l use steps := by
  induction steps with
  | nil => trivial
  | cons s steps ih =>
    obtain ⟨hStep, hLater⟩ := hSteps
    -- as long as nothing is open the workspace stays as it was at the beginning
    cases s with
    | call handle' c => cases hStep
    | observe handle' => exact ⟨trivial, ih hLater⟩
    | close handle' => exact ⟨trivial, ih hLater⟩
    | openFile handle' name' =>
      cases hStep
      have hOpen := isOpenBy_of_opened hName hOpened hHandle handle'
      have hSuits : (ofDisk d working supply).Admits l use (.openFile handle' name) := by
        intro h hh
        rw [hOpen.held h hh]
        exact .inl ⟨rfl, rfl⟩
      have hHosts := (Hosts.ofDisk hSound working supply).openStore hSuits
      rw [step_openFile] at hLater
      refine ⟨hSuits, ?_⟩
      rw [step_openFile]
      exact hOpen.uses hName hHosts hLater
    | openMemory handle' => exact hStep.elim
    | writeDocument name' content => exact hStep.elim
    | insertRaw name' r => exact hStep.elim

/-! ## Handles are transparent -/

/-- The handles, what they work on and the rows of every store are as they were. -/
structure IsUntouched (w w' : Workspace) : Prop where
  /-- No handle has changed. -/
  handles : w'.handles = w.handles
  /-- No table in memory has changed. -/
  shared : w'.shared = w.shared
  /-- No identifier was drawn. -/
  supply : w'.supply = w.supply
  /-- What had a table still has it. -/
  table : ∀ held t, w.table held = .ok t → w'.table held = .ok t
  /-- All rows stay. -/
  rows : ∀ l, w'.disk.rows l = w.disk.rows l

theorem isUntouched_of_spares {d : Disk} (h : w.disk.Spares d) :
    w.IsUntouched { w with disk := d } := by
  refine ⟨rfl, rfl, rfl, fun held t hTable => ?_, fun l => (Disk.AgreesAt.of_spares h).rows⟩
  cases held with
  | file l use cache => exact (Disk.AgreesAt.of_spares h).current hTable
  | own t' => exact hTable
  | fixed t' => exact hTable
  | shared name writable => exact hTable

/-- **Handles are transparent.**  Calls are made on one store, which may be there at the beginning
or not, through any number of handles that are opened and closed between them, either all by the
file name of the store or also by other names and of other stores.  Then the results of the calls,
one by one, the rows in the end, which every open handle on the store sees, and the identifiers
that are left are those of the same calls through one handle that is opened first and never closed.

Opening leaves the rows of every store that is not in the way of another one; and who fails to open
a store leaves every handle and every store as it was. -/
theorem handles_transparent {steps : List Step} {w₁ : Workspace}
    (hSound : d.IsSound l)
    (hOpened : (ofDisk d working supply).openStore handle name = (.ok (), w₁))
    (hHandle : w₁.handle? handle = some ⟨.file l use cache, false⟩)
    (hSteps : IsFileName name ∧ (ofDisk d working supply).KeepsTo name steps ∨
      (ofDisk d working supply).Uses l use steps) :
    let w := (ofDisk d working supply).after steps
    let calls := (steps.filterMap Step.call?).map (Step.call handle)
    ((ofDisk d working supply).results steps = w₁.results calls ∧
      w.disk.rows l = (w₁.after calls).disk.rows l ∧
      w.supply = (w₁.after calls).supply ∧
      (∀ h ∈ w.handles, h.2.held.IsOn l → w.table h.2.held = .ok (w.disk.rows l)) ∧
      (w₁.after calls).table (.file l use cache) = .ok (w.disk.rows l)) ∧
    (∀ (v : Workspace) (handle name : Text) (l : Location), v.disk.IsSound l → v.IsClear l →
      (v.openStore handle name).2.IsClear l →
      (v.openStore handle name).2.disk.rows l = v.disk.rows l) ∧
    (∀ (v v' : Workspace) (handle name : Text) (e : Failure),
      v.openStore handle name = (.error e, v') → v.IsUntouched v') := by
  intro w calls
  have hUses : (ofDisk d working supply).Uses l use steps :=
    hSteps.elim (fun ⟨hName, hKept⟩ => uses_of_keepsTo hName hSound hOpened hHandle hKept) id
  refine ⟨?_, ?_, ?_⟩
  · have hStart : (ofDisk d working supply).Hosts l use.isLogged := .ofDisk hSound working supply
    obtain ⟨hFirst, hRows, hSupply⟩ := hosts_of_opened hSound hOpened hHandle rfl
    obtain ⟨hResults, hEnd, hLeft, hHosts⟩ := hStart.run hUses
    obtain ⟨hUses₁, hKept⟩ := hFirst.uses_calls hHandle (steps.filterMap Step.call?)
    obtain ⟨hResults₁, hEnd₁, hLeft₁, hHosts₁⟩ := hFirst.run hUses₁
    rw [filterMap_calls, hRows, hSupply] at hResults₁ hEnd₁ hLeft₁
    have hSame : w.disk.rows l = (w₁.after calls).disk.rows l := hEnd.trans hEnd₁.symm
    refine ⟨hResults.trans hResults₁.symm, hSame, hLeft.trans hLeft₁.symm, ?_, ?_⟩
    · exact fun h hh hOn => (hHosts.table hh hOn).2
    · rw [hSame]
      exact (hHosts₁.table (mem_of_handle? (hKept.trans hHandle)) rfl).2
  · exact fun v handle name l hSound hClear hClear' => (rows_openStore hSound hClear hClear').2
  · intro v v' handle name e hFailed
    obtain ⟨d', hSpares, rfl⟩ := openStore_eq_error hFailed
    exact isUntouched_of_spares hSpares

/-- Two handles on a store that is not there yet, and the last of them closed before the store is
opened again; then the same with a store among them that cannot be opened, because the directory
above it is no directory, with a name that is given to a handle on another store, and with one who
opens the store for reading only. -/
theorem handles_transparent_of_two :
    let w := ofDisk [([['w']], .directory)] [['w']] (.ofSeed 0)
    let w₁ := (w.openStore ['h'] ['s']).2
    let steps : List Step := [.openFile ['a'] ['s'], .call ['a'] (.index ['p']),
      .openFile ['b'] ['s'], .close ['a'], .call ['b'] (.move ['p'] ['q'] true), .close ['b'],
      .openFile ['a'] ['s'], .call ['a'] (.lookUp ['q'])]
    let others : List Step := [.openFile ['a'] ['s'], .call ['a'] (.index ['p']),
      .openFile ['b'] ['.', '/', 's'], .call ['b'] (.move ['p'] ['q'] true),
      .openFile ['a'] ['s', '/', 't'], .call ['a'] (.index ['q', '/', 'r']), .openFile ['a'] ['u'],
      .call ['b'] (.insert ['q'] none), .close ['b'],
      .openFile ['c'] "file:s?mode=ro".toList, .call ['c'] .entries]
    (w.KeepsTo ['s'] steps ∧
      w.results steps = w₁.results ((steps.filterMap Step.call?).map (Step.call ['h']))) ∧
    w.Uses [['w'], ['s']] (.logged true true) others ∧
      w.results others = w₁.results ((others.filterMap Step.call?).map (Step.call ['h'])) := by
  intro w w₁ steps others
  have hOpened : w.openStore ['h'] ['s'] = (.ok (), w₁) :=
    Prod.ext (by decide +kernel) rfl
  have hHandle : w₁.handle? ['h'] =
      some ⟨.file [['w'], ['s']] (.logged true true) none, false⟩ := by decide +kernel
  have hSound : w.disk.IsSound [['w'], ['s']] :=
    Disk.isSound_of_pending?_eq_none (by decide +kernel)
  have hName : IsFileName ['s'] := ⟨by decide, by decide, by decide⟩
  have hKept : w.KeepsTo ['s'] steps := by decide +kernel
  have hUses : w.Uses [['w'], ['s']] (.logged true true) others := by decide +kernel
  exact ⟨⟨hKept, (handles_transparent hSound hOpened hHandle (.inl ⟨hName, hKept⟩)).1.1⟩, hUses,
    (handles_transparent hSound hOpened hHandle (.inr hUses)).1.1⟩

end Workspace

end PathRegistry
