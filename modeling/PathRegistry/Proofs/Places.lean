import Mathlib.Data.List.Nodup
import PathRegistry.Opening

/-!
# What opening a store leaves in place

Opening begins with what may not belong to any store: directories are made, an empty file is made
where there was none, and files that lie where a journal or a log should be are swept away.  None
of this touches the file of a store or a log, since directories and files are made at places that
are free, and only documents are swept away.  It holds of every name, whether or not it leads to a
store in the end.

## Main statements

* `Disk.node?_put_of_ne`, `Disk.node?_remove_of_ne` — other places stay.
* `Location.files_distinct` — the files of a store are different places.
* `Disk.approach_spares` — looking for a store leaves all stores and logs as they are.
-/

namespace PathRegistry

/-! ## Places of a disk -/

namespace Disk

variable {l p : Location}

theorem lookup_replaced_of_ne (d : Disk) (n : Node) (h : p ≠ l) :
    (d.map fun q => if q.1 == l then (l, n) else q).lookup p = d.lookup p := by
  induction d with
  | nil => rfl
  | cons q d ih =>
    obtain ⟨k, m⟩ := q
    rw [List.map_cons, List.lookup_cons, List.lookup_cons, ih]
    by_cases hk : k = l
    · simp [hk, beq_false_of_ne h]
    · simp [hk]

theorem lookup_replaced_self (d : Disk) (n : Node) (h : (d.lookup l).isSome) :
    (d.map fun q => if q.1 == l then (l, n) else q).lookup l = some n := by
  induction d with
  | nil => cases h
  | cons q d ih =>
    obtain ⟨k, m⟩ := q
    by_cases hk : k = l
    · simp [hk]
    · have hl : (l == k) = false := beq_false_of_ne (Ne.symm hk)
      simp only [List.lookup_cons, hl] at h
      simpa [hk, List.lookup_cons, hl] using ih h

/-- What is put at a place leaves the others as they are. -/
theorem node?_put_of_ne (d : Disk) (n : Node) (h : p ≠ l) : (d.put l n).node? p = d.node? p := by
  have hLookup : (d.put l n).lookup p = d.lookup p := by
    unfold put
    split
    · exact lookup_replaced_of_ne d n h
    · have hNew : ([(l, n)] : Disk).lookup p = none := by
        simp [List.lookup_cons, beq_false_of_ne h]
      rw [List.lookup_append, hNew, Option.or_none]
  rw [node?, node?, hLookup]

/-- What is put at a place is there. -/
theorem node?_put_self (d : Disk) (n : Node) (h : l ≠ []) : (d.put l n).node? l = some n := by
  have hLookup : (d.put l n).lookup l = some n := by
    unfold put
    split
    · exact lookup_replaced_self d n ‹_›
    · rename_i hNone
      rw [List.lookup_append, Option.not_isSome_iff_eq_none.mp hNone, Option.none_or,
        List.lookup_cons_self]
  rw [node?, if_neg h, hLookup]

/-- A place that is removed leaves the others as they are. -/
theorem node?_remove_of_ne (d : Disk) (h : p ≠ l) : (d.remove l).node? p = d.node? p := by
  have hLookup : (d.remove l).lookup p = d.lookup p := by
    unfold remove
    induction d with
    | nil => rfl
    | cons q d ih =>
      obtain ⟨k, m⟩ := q
      by_cases hk : k = l
      · have hp : (p == l) = false := beq_false_of_ne h
        simp [hk, List.lookup_cons, hp, ih]
      · simp [hk, List.lookup_cons, ih]
  rw [node?, node?, hLookup]

/-- A place that is removed is empty. -/
theorem node?_remove_self (d : Disk) (h : l ≠ []) : (d.remove l).node? l = none := by
  rw [node?, if_neg h, remove, List.lookup_eq_none_iff]
  intro q hq
  have hKept := (List.mem_filter.mp hq).2
  rw [bne_comm]
  exact hKept

@[simp] theorem node?_root (d : Disk) : d.node? [] = some .directory := rfl

end Disk

/-! ## The files of a store -/

namespace Location

variable {l : Location}

theorem beside_concat (above : List Text) (name ending : Text) :
    beside (above ++ [name]) ending = above ++ [name ++ ending] := by
  simp [beside]

/-- Different endings give different places. -/
theorem beside_inj (h : l ≠ []) {ending ending' : Text} :
    l.beside ending = l.beside ending' ↔ ending = ending' := by
  obtain ⟨above, name, rfl⟩ := List.eq_nil_or_concat' l |>.resolve_left h
  simp [beside_concat]

theorem beside_nil (h : l ≠ []) : l.beside [] = l := by
  obtain ⟨above, name, rfl⟩ := List.eq_nil_or_concat' l |>.resolve_left h
  rw [beside_concat, List.append_nil]

/-- The file of a store, its log, the index of the log, and its journal. -/
def files (l : Location) : List Location := [l, l.log, l.index, l.journal]

/-- **The files of a store are different places.** -/
theorem files_distinct (h : l ≠ []) : l.files.Nodup := by
  have hFiles : l.files = [[], "-wal".toList, "-shm".toList, "-journal".toList].map
      l.beside := by
    rw [List.map_cons, beside_nil h]
    rfl
  rw [hFiles]
  refine List.Nodup.map (fun ending ending' hSame => (beside_inj h).mp hSame) ?_
  decide

theorem log_ne (h : l ≠ []) : l.log ≠ l := by
  have hDistinct := files_distinct h
  simp only [files, List.nodup_cons, List.mem_cons, not_or] at hDistinct
  exact Ne.symm hDistinct.1.1

theorem index_ne (h : l ≠ []) : l.index ≠ l ∧ l.index ≠ l.log := by
  have hDistinct := files_distinct h
  simp only [files, List.nodup_cons, List.mem_cons, not_or] at hDistinct
  exact ⟨Ne.symm hDistinct.1.2.1, Ne.symm hDistinct.2.1.1⟩

theorem journal_ne (h : l ≠ []) : l.journal ≠ l ∧ l.journal ≠ l.log := by
  have hDistinct := files_distinct h
  simp only [files, List.nodup_cons, List.mem_cons, not_or] at hDistinct
  exact ⟨Ne.symm hDistinct.1.2.2.1, Ne.symm hDistinct.2.1.2.1⟩

theorem log_ne_nil (h : l ≠ []) : l.log ≠ [] := by
  obtain ⟨above, name, rfl⟩ := List.eq_nil_or_concat' l |>.resolve_left h
  rw [log, beside_concat]
  exact List.append_ne_nil_of_right_ne_nil _ (List.cons_ne_nil _ _)

end Location

/-! ## What belongs to a store -/

/-- Whether it is the file of a store or a log. -/
def Node.isPart : Node → Bool
  | .store .. | .log _ => true
  | _ => false

namespace Disk

variable {d d' d'' : Disk} {l p : Location} {n : Node}

/-- What a place holds that belongs to a store. -/
def part? (d : Disk) (l : Location) : Option Node := (d.node? l).filter Node.isPart

/-- All stores and logs of the one disk are as they are on the other. -/
def Spares (d d' : Disk) : Prop := ∀ l, d'.part? l = d.part? l

theorem Spares.refl (d : Disk) : d.Spares d := fun _ => rfl

theorem Spares.trans (h : d.Spares d') (h' : d'.Spares d'') : d.Spares d'' :=
  fun l => (h' l).trans (h l)

theorem part?_of_node? (h : d'.node? l = d.node? l) : d'.part? l = d.part? l := by
  rw [part?, part?, h]

/-- To put what is no part of a store where none was spares the stores. -/
theorem spares_put (hOld : d.part? l = none) (hNew : n.isPart = false) : d.Spares (d.put l n) := by
  intro p
  by_cases hp : p = l
  · subst hp
    rw [hOld]
    by_cases hRoot : p = []
    · subst hRoot
      rfl
    · simp [part?, node?_put_self d n hRoot, hNew]
  · exact part?_of_node? (node?_put_of_ne d n hp)

/-- To remove what is no part of a store spares the stores. -/
theorem spares_remove (hOld : d.part? l = none) : d.Spares (d.remove l) := by
  intro p
  by_cases hp : p = l
  · subst hp
    rw [hOld]
    by_cases hRoot : p = []
    · subst hRoot
      rfl
    · simp [part?, node?_remove_self d hRoot]
  · exact part?_of_node? (node?_remove_of_ne d hp)

theorem part?_of_none (h : d.node? l = none) : d.part? l = none := by
  rw [part?, h]
  rfl

theorem part?_of_document {content : List UInt8} (h : d.node? l = some (.document content)) :
    d.part? l = none := by
  rw [part?, h]
  rfl

/-! ## Looking for a store -/

/-- A step from a directory is in vain only if the place is free. -/
theorem node?_of_step {name : Text} (hFrom : d.node? l = some .directory)
    (h : d.step l name = .error .notFound) : d.node? (l ++ [name]) = none := by
  unfold step at h
  rw [hFrom] at h
  dsimp only at h
  split at h
  · cases h
  · split at h
    · cases h
    · split at h
      · cases h
      · rename_i hNone
        exact Option.not_isSome_iff_eq_none.mp hNone

theorem makeDirectory_spares {parents : List Text} {name : Text}
    (h : d.makeDirectory l parents name = .ok d') : d.Spares d' := by
  unfold makeDirectory at h
  split at h
  · cases h
  · rename_i l' _
    split at h
    · cases h
    · rename_i hStep
      split at h
      · rename_i hFrom
        cases h
        exact spares_put (part?_of_none (node?_of_step hFrom hStep)) rfl
      · cases h
    · cases h

theorem makeDirectories_spares (d : Disk) (l : Location) (inner : List Text) :
    d.Spares (d.makeDirectories l inner).2 := by
  induction inner generalizing d with
  | nil => exact .refl d
  | cons name outer ih =>
    unfold makeDirectories
    split
    · exact makeDirectory_spares ‹_›
    · have hOuter := ih d
      split
      · rename_i hMade
        rwa [hMade] at hOuter
      · rename_i d₁ hMade
        rw [hMade] at hOuter
        split
        · exact hOuter.trans (makeDirectory_spares ‹_›)
        · split <;> exact hOuter
    · split <;> exact .refl d

theorem makeRoute_spares (d : Disk) (working : Location) (r : Route) :
    d.Spares (d.makeRoute working r).2 := by
  unfold makeRoute
  split
  · exact .refl d
  · exact makeDirectories_spares d _ _

theorem withFile_spares {access : Access} {given : Text}
    (h : d.withFile l access given = .ok d') : d.Spares d' := by
  unfold withFile at h
  split at h
  · cases h
  · cases h
    exact .refl d
  · rename_i hFree
    split at h
    · cases h
      exact spares_put (part?_of_none hFree) rfl
    · cases h

theorem sweepJournal_spares {use : FileUse} (h : d.sweepJournal l use = .ok d') :
    d.Spares d' := by
  unfold sweepJournal at h
  split at h
  · split at h <;> cases h
    exact .refl d
  · rename_i hDocument
    split at h
    · cases h
    · split at h
      · cases h
        exact spares_remove (part?_of_document hDocument)
      · split at h <;> cases h
        exact .refl d
  · cases h
    exact .refl d

theorem sweepLog_spares {use : FileUse} (h : d.sweepLog l use = .ok d') : d.Spares d' := by
  unfold sweepLog at h
  split at h
  · cases h
  · rename_i hDocument
    split at h <;> cases h
    exact spares_remove (part?_of_document hDocument)
  · cases h
    exact .refl d

theorem sweep_spares {use : FileUse} (h : d.sweep l use = .ok d') : d.Spares d' := by
  unfold sweep at h
  split at h
  · cases h
    exact .refl d
  · split at h
    · cases h
    · rename_i hJournal
      exact (sweepJournal_spares hJournal).trans (sweepLog_spares h)

theorem site_spares (d : Disk) (working : Location) (given : Text) :
    d.Spares (d.site working given).2 := by
  unfold site
  split
  · exact .refl d
  · split
    · exact .refl d
    · split
      · exact .refl d
      · split
        · exact .refl d
        · split
          · exact .refl d
          · rename_i hFile
            split
            · exact withFile_spares hFile
            · rename_i hSwept
              exact (withFile_spares hFile).trans (sweep_spares hSwept)

/-- **Looking for a store spares all stores**, wherever its name leads and whether or not
anything is found. -/
theorem approach_spares (d : Disk) (working : Location) (name : Text) :
    d.Spares (d.approach working name).2 := by
  unfold approach
  split
  · exact .refl d
  · rename_i parent _
    have hRoute := makeRoute_spares d working parent
    split
    · rename_i hMade
      rwa [hMade] at hRoute
    · rename_i hMade
      rw [hMade] at hRoute
      exact hRoute.trans (site_spares _ working name)

end Disk

end PathRegistry
