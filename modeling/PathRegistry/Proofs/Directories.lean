import PathRegistry.Proofs.Storing

/-!
# Opening a store again by its name

A name that has led to a store leads to the same place ever after, as long as it is a file name and
no address: `.` and `..` are struck out of it without a look at the disk.  What the disk decides is
whether the directories on the way can be made, and whether the index of the log can be kept.  Both
depend on its directories only.

The first opening makes the directories that the name has; from then on there is nothing to make.
Nothing else that is done to the store makes a directory or takes one away: where the store, its
log or the journal of a change would be, no store can be opened if there is a directory.

## Main statements

* `Disk.makeRoute_again` — the second time there is no directory to make.
* `Disk.filePlace?_unique` — a name leads to one place.
* `Disk.approach_eq_ok_plain` — how a file name leads to a store.
* `Disk.approach_sameDirectories`, `Disk.setUpFile_plainUse` — the directories stay.
-/

namespace PathRegistry

/-- The name of a file: it is no address, and no table in memory is meant. -/
structure IsFileName (name : Text) : Prop where
  /-- It is taken as it is. -/
  plain : Address.scheme.isPrefixOf name = false
  /-- It is not empty. -/
  ne_nil : name ≠ []
  /-- It is not the name of a table in memory. -/
  ne_memory : name ≠ memoryName

theorem IsFileName.memorySite? {name : Text} (h : IsFileName name) :
    (Address.plain name).memorySite? = none := by
  simp [Address.memorySite?, Address.isInMemory, Address.plain, h.ne_nil, h.ne_memory]

namespace Disk

variable {d d' d'' d₁ : Disk} {l l' p working : Location} {names : List Text} {name : Text}
  {n : Node} {use : FileUse}

/-! ## Directories -/

/-- The same places are directories. -/
def SameDirectories (d d' : Disk) : Prop :=
  ∀ p, d'.node? p = some .directory ↔ d.node? p = some .directory

namespace SameDirectories

theorem refl (d : Disk) : d.SameDirectories d := fun _ => Iff.rfl

theorem trans (h : d.SameDirectories d') (h' : d'.SameDirectories d'') : d.SameDirectories d'' :=
  fun p => (h' p).trans (h p)

theorem put (hOld : d.node? l ≠ some .directory) (hNew : n ≠ .directory) :
    d.SameDirectories (d.put l n) := by
  intro p
  by_cases hp : p = l
  · subst hp
    have hRoot : p ≠ [] := by
      rintro rfl
      exact hOld rfl
    simp [node?_put_self d n hRoot, hOld, hNew]
  · rw [node?_put_of_ne d n hp]

theorem remove (hOld : d.node? l ≠ some .directory) : d.SameDirectories (d.remove l) := by
  intro p
  by_cases hp : p = l
  · subst hp
    have hRoot : p ≠ [] := by
      rintro rfl
      exact hOld rfl
    simp [node?_remove_self d hRoot, hOld]
  · rw [node?_remove_of_ne d hp]

end SameDirectories

/-! ## Following a name -/

theorem step_eq_ok (h : d.step l name = .ok l') : d.node? l = some .directory := by
  unfold step at h
  split at h
  · assumption
  · cases h
  · cases h

theorem step_eq_notFound (hFrom : d.node? l = some .directory)
    (h : d.step l name = .error .notFound) :
    ¬(name = [] ∨ name = ['.']) ∧ name ≠ ['.', '.'] ∧ d.node? (l ++ [name]) = none := by
  unfold step at h
  rw [hFrom] at h
  dsimp only at h
  split at h
  · cases h
  · split at h
    · cases h
    · split at h
      · cases h
      · exact ⟨‹_›, ‹_›, Option.not_isSome_iff_eq_none.mp ‹_›⟩

theorem follow_concat (d : Disk) (l : Location) (names : List Text) (name : Text) :
    d.follow l (names ++ [name]) = match d.follow l names with
      | .ok l' => d.step l' name
      | .error e => .error e := by
  induction names generalizing l with
  | nil =>
    simp only [List.nil_append, follow]
    cases d.step l name <;> rfl
  | cons first names ih =>
    simp only [List.cons_append, follow]
    cases d.step l first with
    | ok l' => exact ih l'
    | error e => rfl

/-- What leads to a directory leads through directories. -/
theorem directory_of_follow (h : d.follow l names = .ok l') (hEnd : d.node? l' = some .directory) :
    d.node? l = some .directory := by
  cases names with
  | nil =>
    cases h
    exact hEnd
  | cons name names =>
    unfold follow at h
    split at h
    · exact step_eq_ok ‹_›
    · cases h

section More

variable (hMore : ∀ p, d.node? p = some .directory → d'.node? p = some .directory)

include hMore

theorem step_of_more (h : d.step l name = .ok l') (hEnd : d.node? l' = some .directory) :
    d'.step l name = .ok l' := by
  have hFrom := step_eq_ok h
  unfold step at h ⊢
  rw [hFrom] at h
  rw [hMore l hFrom]
  dsimp only at h ⊢
  split
  · rwa [if_pos ‹_›] at h
  · rw [if_neg ‹_›] at h
    split
    · rwa [if_pos ‹_›] at h
    · rw [if_neg ‹_›] at h
      split at h
      · cases h
        rw [hMore _ hEnd]
        rfl
      · split at h <;> cases h

/-- Where there are more directories, names lead to the directories that they led to. -/
theorem follow_of_more (h : d.follow l names = .ok l') (hEnd : d.node? l' = some .directory) :
    d'.follow l names = .ok l' := by
  induction names generalizing l with
  | nil => exact h
  | cons name names ih =>
    unfold follow at h ⊢
    split at h
    · rename_i l₁ hStep
      rw [step_of_more hMore hStep (directory_of_follow h hEnd)]
      exact ih h
    · cases h

end More

theorem isDirectory_iff : d.isDirectory l names = true ↔
    ∃ l', d.follow l names = .ok l' ∧ d.node? l' = some .directory := by
  unfold isDirectory
  cases d.follow l names <;> simp

/-! ## Making directories -/

/-- A directory that was made is there. -/
theorem isDirectory_of_makeDirectory {parents : List Text}
    (h : d.makeDirectory l parents name = .ok d') :
    d'.isDirectory l (parents ++ [name]) = true := by
  unfold makeDirectory at h
  split at h
  · cases h
  · rename_i l' hFollow
    split at h
    · cases h
    · rename_i hStep
      split at h
      · rename_i hFrom
        cases h
        obtain ⟨hStay, hBack, hFree⟩ := step_eq_notFound hFrom hStep
        have hMore (p : Location) (hp : d.node? p = some .directory) :
            (d.put (l' ++ [name]) .directory).node? p = some .directory := by
          by_cases hNew : p = l' ++ [name]
          · rw [hNew, hFree] at hp
            cases hp
          · rw [node?_put_of_ne d _ hNew, hp]
        have hNew : (d.put (l' ++ [name]) .directory).node? (l' ++ [name]) = some .directory :=
          node?_put_self d _ (by simp)
        refine isDirectory_iff.mpr ⟨l' ++ [name], ?_, hNew⟩
        rw [follow_concat, follow_of_more hMore hFollow hFrom]
        dsimp only
        rw [step, hMore l' hFrom]
        dsimp only
        rw [if_neg hStay, if_neg hBack, hNew]
        rfl
      · cases h
    · cases h

theorem isDirectory_of_makeDirectories {outer : List Text}
    (h : d.makeDirectories l (name :: outer) = (.ok (), d')) :
    d'.isDirectory l (outer.reverse ++ [name]) = true := by
  unfold makeDirectories at h
  split at h
  · cases h
    exact isDirectory_of_makeDirectory ‹_›
  · split at h
    · cases h
    · split at h
      · cases h
        exact isDirectory_of_makeDirectory ‹_›
      · split at h <;> cases h
        assumption
  · split at h <;> cases h
    assumption

/-- Where the directories are there is nothing to make. -/
theorem makeDirectories_of_isDirectory {outer : List Text}
    (h : d.isDirectory l (outer.reverse ++ [name]) = true) :
    d.makeDirectories l (name :: outer) = (.ok (), d) := by
  obtain ⟨l', hFollow, hEnd⟩ := isDirectory_iff.mp h
  have hMade : d.makeDirectory l outer.reverse name = .error .alreadyExists := by
    rw [follow_concat] at hFollow
    unfold makeDirectory
    split at hFollow
    · rename_i l₁ hOuter
      rw [hOuter]
      dsimp only
      rw [hFollow]
    · cases hFollow
  unfold makeDirectories
  rw [hMade]
  dsimp only
  rw [if_pos h]

/-- **The second time there is no directory to make.** -/
theorem makeRoute_again {r : Route} (h : d.makeRoute working r = (.ok (), d₁))
    (hSame : d₁.SameDirectories d') : d'.makeRoute working r = (.ok (), d') := by
  unfold makeRoute at h ⊢
  split at h
  · cases h
  · rename_i hName
    rcases hSteps : r.steps.reverse with _ | ⟨name, outer⟩
    · rfl
    · rw [hSteps] at h
      obtain ⟨l', hFollow, hEnd⟩ := isDirectory_iff.mp (isDirectory_of_makeDirectories h)
      have hMore (p : Location) (hp : d₁.node? p = some .directory) :
          d'.node? p = some .directory := (hSame p).mpr hp
      exact makeDirectories_of_isDirectory (isDirectory_iff.mpr
        ⟨l', follow_of_more hMore hFollow hEnd, hMore l' hEnd⟩)

/-! ## The place of a name -/

theorem strikeOut_unique {a b : Location} (h : d.strikeOut l names = some a)
    (h' : d'.strikeOut l names = some b) : a = b := by
  induction names generalizing l with
  | nil =>
    cases h
    cases h'
    rfl
  | cons name names ih =>
    unfold strikeOut at h h'
    split at h
    · rw [if_pos ‹_›] at h'
      exact ih h h'
    · rw [if_neg ‹_›] at h'
      split at h
      · rw [if_pos ‹_›] at h'
        exact ih h h'
      · rw [if_neg ‹_›] at h'
        split at h
        · rw [if_pos ‹_›] at h'
          split at h
          · cases h
          · split at h'
            · cases h'
            · exact ih h h'
        · cases h

theorem strikeOut_of_filePlace? (h : d.filePlace? working name = some l) :
    l ≠ [] ∧ d.strikeOut (base working (Text.isRooted name)) (Text.steps name) = some l := by
  unfold filePlace? at h
  split at h
  · split at h
    · rename_i hStruck hKept
      cases h
      exact ⟨hKept.1, hStruck⟩
    · cases h
  · cases h

/-- **A name leads to one place**, on whatever disk. -/
theorem filePlace?_unique (h : d.filePlace? working name = some l)
    (h' : d'.filePlace? working name = some l') : l' = l :=
  strikeOut_unique (strikeOut_of_filePlace? h').2 (strikeOut_of_filePlace? h).2

/-! ## How a file name leads to a store -/

/-- How a file is used whose name is no address: with a log beside it, and for reading only if the
index of the log cannot be kept. -/
def plainUse (d : Disk) (l : Location) : FileUse :=
  .logged (d.node? l.index != some .directory) true

theorem withFile_sameDirectories {access : Access} {given : Text}
    (h : d.withFile l access given = .ok d') :
    d.SameDirectories d' ∧ d'.node? l ≠ some .directory := by
  unfold withFile at h
  split at h
  · cases h
  · rename_i hOther hSome
    cases h
    exact ⟨.refl d, fun hDirectory => hOther (Option.some.inj (hSome.symm.trans hDirectory))⟩
  · rename_i hFree
    split at h
    · cases h
      have hSame : d.SameDirectories (d.put l (.document [])) := .put (by simp [hFree]) nofun
      exact ⟨hSame, fun hDirectory => by simp [(hSame l).mp hDirectory] at hFree⟩
    · cases h

theorem sweepJournal_sameDirectories (h : d.sweepJournal l use = .ok d') :
    d.SameDirectories d' ∧ (d'.node? l.journal = some .directory → d'.isBlankAt l = true) := by
  unfold sweepJournal at h
  split at h
  · split at h
    · cases h
      exact ⟨.refl d, fun _ => ‹_›⟩
    · cases h
  · rename_i hDocument
    have hOther : d.node? l.journal ≠ some .directory := by simp [hDocument]
    split at h
    · cases h
    · split at h
      · cases h
        exact ⟨.remove hOther, fun hDirectory =>
          absurd ((SameDirectories.remove hOther _).mp hDirectory) hOther⟩
      · split at h
        · cases h
          exact ⟨.refl d, fun hDirectory => absurd hDirectory hOther⟩
        · cases h
  · rename_i hOther _
    cases h
    exact ⟨.refl d, fun hDirectory => absurd hDirectory hOther⟩

theorem sweepLog_sameDirectories (h : d.sweepLog l use = .ok d') :
    d.SameDirectories d' ∧ d'.node? l.log ≠ some .directory ∧
      (l ≠ [] → d'.isBlankAt l = d.isBlankAt l) := by
  unfold sweepLog at h
  split at h
  · cases h
  · rename_i hDocument
    have hOther : d.node? l.log ≠ some .directory := by simp [hDocument]
    split at h <;> cases h
    refine ⟨.remove hOther, fun hDirectory =>
      absurd ((SameDirectories.remove hOther _).mp hDirectory) hOther, fun hRoot => ?_⟩
    rw [isBlankAt, isBlankAt, node?_remove_of_ne d (Location.log_ne hRoot).symm]
  · rename_i hOther _
    cases h
    exact ⟨.refl d, fun hDirectory => hOther hDirectory, fun _ => rfl⟩

/-- No directory is where the file, its log or the journal of a change to it would be. -/
structure HasRoom (d : Disk) (l : Location) : Prop where
  /-- Room for the file. -/
  file : d.node? l ≠ some .directory
  /-- Room for the log. -/
  log : d.node? l.log ≠ some .directory
  /-- Room for the journal. -/
  journal : d.node? l.journal ≠ some .directory

theorem HasRoom.of_sameDirectories (h : d.HasRoom l) (hSame : d.SameDirectories d') :
    d'.HasRoom l :=
  ⟨fun h' => h.file ((hSame _).mp h'), fun h' => h.log ((hSame _).mp h'),
    fun h' => h.journal ((hSame _).mp h')⟩

theorem HasRoom.ne_nil (h : d.HasRoom l) : l ≠ [] := by
  rintro rfl
  exact h.file rfl

/-- How a file name leads to a store: the directories above it are made, its place is found, a
file is made there if there is none, and what others left beside it is swept away. -/
theorem approach_eq_ok_plain {site : Site} (hName : IsFileName name)
    (h : d.approach working name = (.ok site, d')) :
    ∃ parent d₁ d₂ l, (Route.ofText name).parent? = some parent ∧
      d.makeRoute working parent = (.ok (), d₁) ∧ d₁.filePlace? working name = some l ∧
      d₁.withFile l .create name = .ok d₂ ∧ d₂.sweep l (.logged true true) = .ok d' ∧
      site = .file l (d'.plainUse l) none := by
  unfold approach at h
  split at h
  · cases h
  · rename_i parent hParent
    split at h
    · cases h
    · rename_i d₁ hRoute
      unfold Disk.site at h
      split at h
      · cases h
      · rw [Address.ofText_plain hName.plain] at h
        dsimp only at h
        rw [hName.memorySite?] at h
        dsimp only at h
        split at h
        · cases h
        · rename_i hPlace
          split at h
          · cases h
          · rename_i d₂ hFile
            split at h
            · cases h
            · rename_i hSwept
              cases h
              exact ⟨parent, d₁, d₂, _, hParent, hRoute, hPlace, hFile, hSwept, rfl⟩

/-- What an opened file has room for. -/
theorem sweep_hasRoom (hFile : d.node? l ≠ some .directory)
    (h : d.sweep l (.logged true true) = .ok d') :
    d.SameDirectories d' ∧ d'.node? l.log ≠ some .directory ∧
      (d'.node? l.journal = some .directory → d'.isBlankAt l = true) := by
  have hRoot : l ≠ [] := by
    rintro rfl
    exact hFile rfl
  unfold sweep at h
  rw [if_neg nofun] at h
  split at h
  · cases h
  · rename_i hJournal
    obtain ⟨hSame, hBlank⟩ := sweepJournal_sameDirectories hJournal
    obtain ⟨hSame', hLog, hBlank'⟩ := sweepLog_sameDirectories h
    refine ⟨hSame.trans hSame', hLog, fun hDirectory => ?_⟩
    rw [hBlank' hRoot]
    exact hBlank ((hSame' _).mp hDirectory)

/-- Looking for a store changes no directories if there are none to make. -/
theorem approach_sameDirectories (hName : IsFileName name)
    (hMade : ∀ parent, (Route.ofText name).parent? = some parent →
      d.makeRoute working parent = (.ok (), d)) :
    d.SameDirectories (d.approach working name).2 := by
  unfold approach
  split
  · exact .refl d
  · rename_i parent hParent
    rw [hMade parent hParent]
    dsimp only
    unfold site
    split
    · exact .refl d
    · rw [Address.ofText_plain hName.plain]
      dsimp only
      rw [hName.memorySite?]
      dsimp only
      split
      · exact .refl d
      · split
        · exact .refl d
        · rename_i hFile
          obtain ⟨hSame, hNot⟩ := withFile_sameDirectories hFile
          split
          · exact hSame
          · rename_i hSwept
            exact hSame.trans (sweep_hasRoom hNot hSwept).1

/-! ## What is done to a store in use -/

theorem change_sameDirectories (h : d.HasRoom l) (hNew : n ≠ .directory) :
    d.SameDirectories (d.change l n) := by
  have hRemoved : d.SameDirectories (d.remove l.journal) := .remove h.journal
  exact hRemoved.trans (.put (fun h' => h.file ((hRemoved l).mp h')) hNew)

theorem keepLog_sameDirectories (h : d.HasRoom l) (indexed : Bool) :
    d.SameDirectories (d.keepLog l indexed) := by
  have hLog : d.SameDirectories (d.put l.log (.log none)) := .put h.log nofun
  unfold keepLog
  split
  · exact .refl d
  · dsimp only
    split
    · rename_i hIndex
      refine hLog.trans (.put ?_ nofun)
      simp only [Bool.and_eq_true, bne_iff_ne] at hIndex
      exact hIndex.2
    · exact hLog

theorem record_sameDirectories (h : d.HasRoom l) (use : FileUse) (t : Table) :
    d.SameDirectories (d.record l use t) := by
  unfold record
  split
  · exact change_sameDirectories h nofun
  · exact .put h.log nofun
  · exact change_sameDirectories h nofun

theorem settle_sameDirectories (h : d.HasRoom l) (hIndex : d.node? l.index ≠ some .directory) :
    d.SameDirectories (d.settle l) := by
  have hRemoved {settled : Disk} (hSettled : d.SameDirectories settled) :
      d.SameDirectories ((settled.remove l.log).remove l.index) := by
    have hLog := hSettled.trans (.remove (h.of_sameDirectories hSettled).log)
    exact hLog.trans (.remove fun h' => hIndex ((hLog _).mp h'))
  unfold settle
  split
  · exact hRemoved (.put h.file nofun)
  · exact hRemoved (.refl d)

/-- No table is found in a blank file. -/
theorem not_isBlankAt_of_found {writable indexed : Bool} {t : Table}
    (h : d.found l (.logged writable indexed) = .ok (some t)) : ¬d.isBlankAt l = true := by
  intro hBlank
  simp only [found] at h
  split at h
  · obtain ⟨logged, hNode⟩ := settled_eq_some h
    exact not_store_of_isBlankAt hBlank _ _ hNode
  · rw [if_pos hBlank] at h
    cases h

/-- **Setting a store up changes no directories**, and there was room for it. -/
theorem setUpFile_sameDirectories {w indexed : Bool} {cache : Option Backend} {held : Held}
    (hFile : d.node? l ≠ some .directory) (hLog : d.node? l.log ≠ some .directory)
    (hJournal : d.node? l.journal = some .directory → d.isBlankAt l = true)
    (h : d.setUpFile l (.logged w indexed) cache = (.ok held, d')) :
    held = .file l (.logged w indexed) cache ∧ d.HasRoom l ∧ d.SameDirectories d' := by
  unfold setUpFile at h
  split at h
  · cases h
  · split at h
    · cases h
    · split at h
      · cases h
      · split at h
        · cases h
        · rename_i hJournalKept
          have hRoom : d.HasRoom l := by
            refine ⟨hFile, hLog, fun hDirectory => ?_⟩
            simp [canKeepJournal, hDirectory] at hJournalKept
          cases h
          have hChanged : d.SameDirectories (d.change l (.store none true)) :=
            change_sameDirectories hRoom nofun
          have hKept := keepLog_sameDirectories (hRoom.of_sameDirectories hChanged) indexed
          have hAll := hChanged.trans hKept
          exact ⟨rfl, hRoom, hAll.trans (.put (hRoom.of_sameDirectories hAll).log nofun)⟩
  · rename_i t hFound
    have hRoom : d.HasRoom l := by
      refine ⟨hFile, hLog, fun hDirectory => ?_⟩
      exact not_isBlankAt_of_found hFound (hJournal hDirectory)
    split at h
    case h_1 hUse => cases hUse
    case h_2 hUse => cases hUse
    case h_3 => cases h
    case h_4 =>
      cases h
      have hChanged : d.SameDirectories (d.change l (.store (some t) true)) :=
        change_sameDirectories hRoom nofun
      exact ⟨rfl, hRoom,
        hChanged.trans (keepLog_sameDirectories (hRoom.of_sameDirectories hChanged) _)⟩
    case h_5 =>
      cases h
      exact ⟨rfl, hRoom, keepLog_sameDirectories hRoom _⟩

/-- A store that has been found by a file name is set up where there is room for it. -/
theorem setUpFile_plainUse {given : Text} {held : Held}
    (hFile : d.withFile l .create given = .ok d₁)
    (hSwept : d₁.sweep l (.logged true true) = .ok d')
    (h : d'.setUpFile l (d'.plainUse l) none = (.ok held, d'')) :
    held = .file l (d'.plainUse l) none ∧ d'.HasRoom l ∧ d.SameDirectories d' ∧
      d'.SameDirectories d'' := by
  obtain ⟨hMade, hNot⟩ := withFile_sameDirectories hFile
  obtain ⟨hSame, hLog, hJournal⟩ := sweep_hasRoom hNot hSwept
  obtain ⟨hHeld, hRoom, hAfter⟩ :=
    setUpFile_sameDirectories (fun h' => hNot ((hSame l).mp h')) hLog hJournal h
  exact ⟨hHeld, hRoom, hMade.trans hSame, hAfter⟩

theorem plainUse_of_sameDirectories (h : d.SameDirectories d') : d'.plainUse l = d.plainUse l := by
  have hIndex : (d'.node? l.index != some .directory) = (d.node? l.index != some .directory) := by
    rw [Bool.eq_iff_iff, bne_iff_ne, bne_iff_ne]
    exact not_congr (h l.index)
  rw [plainUse, plainUse, hIndex]

end Disk

end PathRegistry
