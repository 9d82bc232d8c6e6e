import PathRegistry.Proofs.Copying
import PathRegistry.Proofs.Deleting
import PathRegistry.Proofs.Departure

/-!
# A move as a copy and a delete

To move a path with what lies below it, or to copy it and then to delete it: the copy gives
new identifiers, but for the paths it should be the same.  It is, as long as the source has
a row and nothing is written at the source or below it.

The two go different ways.  A move rewrites rows, all in one statement or one by one, and
then the row of the source; a copy inserts rows and then the target.  What they have in
common is the list of new paths: the mirrored ones in the order of the source paths, and then
the target.  Either succeeds exactly if these are distinct and free, and otherwise names the
first of them that is refused.

## Main statements

* `Table.Refuses.unique` — in a list of paths to insert, one is the first to be refused.
* `Registry.move_succeeds_outside`, `Registry.refused_of_move` — success and failure of a
  move in terms of the list of new paths.
* `Table.Reachable.move_as_copy_and_delete` — the two ways agree.
-/

namespace PathRegistry

open PathRegistry.Action Subtree Table

/-! ## The first path that is refused -/

namespace Table

variable {t : Table} {paths before mid : List Text} {q q' : Text}

/-- When rows with these paths are added one after the other, `q` is the first that is
taken by then. -/
def Refuses (t : Table) (paths : List Text) (q : Text) : Prop :=
  ∃ before after, paths = before ++ q :: after ∧ before.Nodup ∧
    (∀ p ∈ before, t.holdsPath p = false) ∧ (t.holdsPath q = true ∨ q ∈ before)

/-- What is refused does not stand among distinct and free paths, with those before it. -/
private theorem not_taken_of_free (hNodup : (before ++ q :: mid).Nodup)
    (hFree : ∀ p ∈ before ++ q :: mid, t.holdsPath p = false) :
    ¬ (t.holdsPath q = true ∨ q ∈ before) := by
  rintro (hHeld | hBefore)
  · rw [hFree q (List.mem_append_right _ List.mem_cons_self)] at hHeld
    cases hHeld
  · exact (List.nodup_append.mp hNodup).2.2 q hBefore q List.mem_cons_self rfl

/-- **Only one path is the first to be refused.** -/
theorem Refuses.unique (h : t.Refuses paths q) (h' : t.Refuses paths q') : q = q' := by
  obtain ⟨before, after, rfl, hNodup, hFree, hTaken⟩ := h
  obtain ⟨before', after', hSplit, hNodup', hFree', hTaken'⟩ := h'
  -- the one list of earlier paths begins with the other
  rcases List.append_eq_append_iff.mp hSplit with ⟨mid, rfl, hRest⟩ | ⟨mid, rfl, hRest⟩
  · cases mid with
    | nil => exact (List.cons.inj hRest).1
    | cons p mid =>
      obtain rfl : q = p := (List.cons.inj hRest).1
      exact absurd hTaken (not_taken_of_free hNodup' hFree')
  · cases mid with
    | nil => exact (List.cons.inj hRest).1.symm
    | cons p mid =>
      obtain rfl : q' = p := (List.cons.inj hRest).1
      exact absurd hTaken' (not_taken_of_free hNodup hFree)

theorem Refuses.append (h : t.Refuses paths q) (others : List Text) :
    t.Refuses (paths ++ others) q := by
  obtain ⟨before, after, rfl, hRest⟩ := h
  exact ⟨before, after ++ others, by rw [List.append_assoc, List.cons_append], hRest⟩

end Table

/-! ## What is written outside the source -/

namespace Table

variable {source target : Path} {t : Table}

/-- Neither the target nor any path to which a row below the source is carried is the source
or lies below it. -/
structure WritesOutside (source target : Path) (t : Table) : Prop where
  /-- The target is not the source. -/
  target_ne : target.text ≠ source.text
  /-- The target does not lie below the source. -/
  target_outside : (below source).contains target.text = false
  /-- No row below the source is carried to the source or below it. -/
  rows_outside : ∀ r ∈ t, (below source).contains r.path = true →
    carried source target r.path ≠ source.text ∧
      (below source).contains (carried source target r.path) = false

theorem mirrored_eq (source target : Path) (t : Table) : t.mirrored source target true =
    (byPath (t.filter fun r => (below source).contains r.path)).map
      fun r => carried source target r.path := rfl

theorem mirrored_perm (source target : Path) (t : Table) :
    (t.mirrored source target true).Perm
      ((t.filter fun r => (below source).contains r.path).map
        fun r => carried source target r.path) :=
  (byPath_perm _).map _

theorem mem_mirrored {p : Text} : p ∈ t.mirrored source target true ↔
    ∃ r ∈ t, (below source).contains r.path = true ∧ carried source target r.path = p := by
  rw [(mirrored_perm source target t).mem_iff, List.mem_map]
  simp only [List.mem_filter, and_assoc]

/-- Below a path that is not made of parent steps only, carrying keeps the order. -/
theorem mirrored_sorted (h : t.Consistent) (hs : source.IsNormal) (ht : target.IsNormal)
    (hClimbs : source.climbsOnly = false) :
    (t.mirrored source target true).Pairwise fun p q => Text.isBefore p q = true := by
  rw [mirrored_eq, List.pairwise_map]
  refine (h.filter _).byPath_pairwise.imp_of_mem fun {r s} hr hsMem hBefore => ?_
  obtain ⟨hrMem, hrIn⟩ := List.mem_filter.mp (mem_byPath.mp hr)
  obtain ⟨hsMem, hsIn⟩ := List.mem_filter.mp (mem_byPath.mp hsMem)
  rw [carried_eq_rerooted hs ht hClimbs (h.normal r hrMem) hrIn,
    carried_eq_rerooted hs ht hClimbs (h.normal s hsMem) hsIn]
  obtain ⟨-, u, -, hu⟩ := (contains_iff source r.path).mp hrIn
  obtain ⟨-, v, -, hv⟩ := (contains_iff source s.path).mp hsIn
  rw [hu, hv, Text.isBefore_append_left] at hBefore
  rwa [hu, hv, rerooted_append, rerooted_append, Text.isBefore_append_left]

section Outside

variable (o : t.WritesOutside source target)

include o

theorem WritesOutside.mirrored_outside {p : Text} (hp : p ∈ t.mirrored source target true) :
    p ≠ source.text ∧ (below source).contains p = false := by
  obtain ⟨r, hr, hIn, rfl⟩ := mem_mirrored.mp hp
  exact o.rows_outside r hr hIn

/-- No row is sent to where another one that moves is. -/
theorem WritesOutside.visits_apart : (Relocation.visits source t).Pairwise fun r s =>
    (below source).carry? r.path (below target) ≠ some s.path := by
  refine List.pairwise_of_forall_mem_list fun r hr s hs hSent => ?_
  obtain ⟨hrMem, hrIn⟩ := Relocation.mem_visits.mp hr
  have hOutside := (o.rows_outside r hrMem hrIn).2
  rw [carried_of_carry? hSent, (Relocation.mem_visits.mp hs).2] at hOutside
  cases hOutside

/-- Carrying keeps the paths distinct exactly if the mirrored ones are distinct and free. -/
theorem WritesOutside.carried_nodup_iff (h : t.Consistent) :
    ((t.relocate (carried source target)).map (·.path)).Nodup ↔
      (t.mirrored source target true).Nodup ∧
        ∀ p ∈ t.mirrored source target true, t.holdsPath p = false := by
  rw [relocate_paths, (mirrored_perm source target t).nodup_iff]
  constructor
  · intro hNodup
    refine ⟨hNodup.sublist (List.filter_sublist.map _), fun p hp => ?_⟩
    have hOut := (o.mirrored_outside hp).2
    obtain ⟨r, hr, hIn, rfl⟩ := mem_mirrored.mp hp
    refine holdsPath_eq_false.mpr fun s hs hHeld => ?_
    -- a row that has the path stays, so it would be the row that is carried there
    rw [← hHeld] at hOut
    have hSame : s = r := by
      apply List.inj_on_of_nodup_map hNodup hs hr
      rw [carried_of_outside hOut, hHeld]
    rw [hSame, hIn] at hOut
    cases hOut
  · rintro ⟨hDistinct, hFree⟩
    have hNodup : ((t.relocate (carried source target)).map (·.path)).Nodup := by
      refine h.carried_nodup (fun r hr s hs hInR hInS hMeet => ?_) fun r hr s hs hInR _ hMeet => ?_
      · exact List.inj_on_of_nodup_map hDistinct (List.mem_filter.mpr ⟨hr, hInR⟩)
          (List.mem_filter.mpr ⟨hs, hInS⟩) hMeet
      · have hUnheld := hFree _ (mem_mirrored.mpr ⟨r, hr, hInR, rfl⟩)
        exact holdsPath_eq_false.mp hUnheld s hs hMeet.symm
    rwa [relocate_paths] at hNodup

/-- **The rows below the source can be moved** exactly if the mirrored paths are distinct and
free. -/
theorem WritesOutside.fits_iff (h : t.Consistent) : Relocation.Fits source target t ↔
    (t.mirrored source target true).Nodup ∧
      ∀ p ∈ t.mirrored source target true, t.holdsPath p = false :=
  ⟨fun hFits => (o.carried_nodup_iff h).mp hFits.1,
    fun hMirrored => ⟨(o.carried_nodup_iff h).mpr hMirrored, o.visits_apart⟩⟩

/-- No row is at the target after the carrying exactly if none was and none is carried
there. -/
theorem WritesOutside.target_free_iff :
    (∀ r ∈ t, carried source target r.path ≠ target.text) ↔
      target.text ∉ t.mirrored source target true ∧ t.holdsPath target.text = false := by
  constructor
  · intro hNone
    refine ⟨fun hMirrored => ?_, holdsPath_eq_false.mpr fun r hr hPath => hNone r hr ?_⟩
    · obtain ⟨r, hr, -, hCarried⟩ := mem_mirrored.mp hMirrored
      exact hNone r hr hCarried
    · rw [carried_of_outside (hPath ▸ o.target_outside), hPath]
  · rintro ⟨hMirrored, hFree⟩ r hr hTarget
    cases hIn : (below source).contains r.path with
    | true => exact hMirrored (mem_mirrored.mpr ⟨r, hr, hIn, hTarget⟩)
    | false =>
      rw [carried_of_outside hIn] at hTarget
      exact holdsPath_eq_false.mp hFree r hr hTarget

theorem WritesOutside.arrival_eq {r : Row} (hr : r ∈ t) :
    arrival source target r.path = destination source target r.path := by
  refine arrival_of_ne fun hOnto => ?_
  exact (o.rows_outside r hr (contains_of_carry? hOnto)).1 (carried_of_carry? hOnto)

end Outside

end Table

/-! ## The rows that a move cannot carry -/

namespace Relocation

variable {source target : Path} {t : Table} {es : List Entry} {supply : Supply} {b' : Bench}
  {e : Failure}

/-- **The statement that fails** is the first whose path is taken; those before it went
well. -/
theorem refused_of_repointAll (hBelow : ∀ f ∈ es, (below source).contains f.path = true)
    (hRun : repointAll (below source) (below target) es ⟨t, true, supply⟩ = .error e b') :
    ∃ before f after u, es = before ++ f :: after ∧
      repointAll (below source) (below target) before ⟨t, true, supply⟩ =
        .ok () ⟨u, true, supply⟩ ∧
      u.repoint f.id (carried source target f.path) = .error e := by
  induction es generalizing t with
  | nil => cases hRun
  | cons f es ih =>
    obtain ⟨hFirst, hRest⟩ := List.forall_mem_cons.mp hBelow
    have hCarry : (below source).carry? f.path (below target) = _ :=
      carry?_eq_some_carried hFirst
    rw [repointAll, hCarry] at hRun
    rcases bind_eq_error.mp hRun with hFail | ⟨v, c, hOk, hRun⟩
    · obtain ⟨hStatement, -⟩ := (write_eq_error rfl).mp (discard_eq_error.mp hFail)
      exact ⟨[], f, es, t, rfl, rfl, hStatement⟩
    · obtain ⟨n, hWrite⟩ := discard_eq_ok.mp hOk
      obtain ⟨-, t₁, hStatement, rfl⟩ := write_eq_ok.mp hWrite
      obtain ⟨before, g, after, u, rfl, hBefore, hFail⟩ := ih hRest hRun
      refine ⟨f :: before, g, after, u, rfl, ?_, hFail⟩
      rw [repointAll, hCarry]
      exact bind_eq_ok.mpr ⟨v, _, hOk, hBefore⟩

theorem shifted_row_path {f : Entry} (hf : f ∈ es) :
    (shifted source target es f.row).path = carried source target f.path := by
  rw [shifted_of_mem hf rfl]
  rfl

section Shifted

variable {before : List Entry} (h : t.Consistent)
  (hMem : ∀ f ∈ before, f.row ∈ t ∧ (below source).contains f.path = true)

include h hMem

/-- A path that is taken after some rows have moved was taken before, or by one of them. -/
theorem holdsPath_of_shifted {q : Text}
    (hTaken : holdsPath (t.map (shifted source target before)) q = true) :
    t.holdsPath q = true ∨ q ∈ before.map fun f => carried source target f.path := by
  obtain ⟨s, hs, hPath⟩ := holdsPath_iff.mp hTaken
  obtain ⟨r, hr, rfl⟩ := List.mem_map.mp hs
  by_cases hEntry : ∃ f ∈ before, r.key = Key.ofId f.id
  · obtain ⟨f, hf, hKey⟩ := hEntry
    obtain rfl : r = f.row := h.eq_of_key hr (hMem f hf).1 hKey
    exact .inr (List.mem_map.mpr ⟨f, hf, (shifted_row_path hf).symm.trans hPath⟩)
  · rw [shifted_of_absent fun f hf hKey => hEntry ⟨f, hf, hKey⟩] at hPath
    exact .inl (holdsPath_iff.mpr ⟨r, hr, hPath⟩)

/-- If some rows have moved, each away from the source, their new paths are distinct and
were free. -/
theorem free_of_shifted (hOutside : ∀ f ∈ before,
      (below source).contains (carried source target f.path) = false)
    (hApart : (before.map (·.id)).Nodup)
    (hNodup : ((t.map (shifted source target before)).map (·.path)).Nodup) :
    (before.map fun f => carried source target f.path).Nodup ∧
      ∀ p ∈ before.map fun f => carried source target f.path, t.holdsPath p = false := by
  rw [List.map_map] at hNodup
  have hSame {r : Row} {f : Entry} (hr : r ∈ t) (hf : f ∈ before)
      (hMeet : (shifted source target before r).path = carried source target f.path) :
      r = f.row := by
    apply List.inj_on_of_nodup_map hNodup hr (hMem f hf).1
    exact hMeet.trans (shifted_row_path hf).symm
  constructor
  · refine List.Nodup.map_on (fun f hf g hg hMeet => ?_) (List.Nodup.of_map _ hApart)
    exact Entry.row_injective
      (hSame (hMem f hf).1 hg ((shifted_row_path hf).trans hMeet))
  · intro p hp
    obtain ⟨f, hf, rfl⟩ := List.mem_map.mp hp
    refine holdsPath_eq_false.mpr fun r hr hHeld => ?_
    -- a row that has the new path lies outside the source, so it has not moved
    have hOut : (below source).contains r.path = false := hHeld ▸ hOutside f hf
    have hBelow {g : Entry} (hg : g ∈ before) : r ≠ g.row := by
      rintro rfl
      rw [show g.row.path = g.path from rfl, (hMem g hg).2] at hOut
      cases hOut
    have hStays : shifted source target before r = r :=
      shifted_of_absent fun g hg hKey => hBelow hg (h.eq_of_key hr (hMem g hg).1 hKey)
    exact hBelow hf (hSame hr hf (by rw [hStays, hHeld]))

end Shifted

/-- Below a path that is not made of parent steps only, one statement moves the rows, and names
the least mirrored path that is taken.  The mirrored paths are in order, so it is the first of
them. -/
theorem refused_of_rewriting (h : t.Consistent) (hs : source.IsNormal) (ht : target.IsNormal)
    (hClimbs : source.climbsOnly = false)
    (hRun : move source target ⟨t, true, supply⟩ = .error e b') :
    ∃ q, t.Refuses (t.mirrored source target true) q ∧ e = .duplicatePath q := by
  have hSorted := mirrored_sorted h hs ht hClimbs
  have hDistinct : (t.mirrored source target true).Nodup :=
    hSorted.imp fun {p q} hBefore hSame => by
      rw [hSame, Text.isBefore_iff] at hBefore
      exact List.lt_irrefl _ hBefore
  have hTakenIff (p : Text) : t.IsTaken source target p ↔
      t.holdsPath p = true ∧ p ∈ t.mirrored source target true := by
    rw [mem_mirrored]
    refine and_congr_right fun _ => exists_congr fun r => and_congr_right fun hr =>
      and_congr_right fun hIn => ?_
    rw [carried_eq_rerooted hs ht hClimbs (h.normal r hr) hIn]
  obtain ⟨q, rfl, hIs, hLeast⟩ := move_eq_error h hs ht hClimbs hRun
  obtain ⟨hHeld, hMirrored⟩ := (hTakenIff q).mp hIs
  obtain ⟨before, after, hSplit⟩ := List.append_of_mem hMirrored
  rw [hSplit, List.pairwise_append] at hSorted
  refine ⟨q, ⟨before, after, hSplit, ?_, fun p hp => ?_, .inl hHeld⟩, rfl⟩
  · exact hDistinct.sublist (hSplit ▸ List.sublist_append_left _ _)
  · rw [← Bool.not_eq_true]
    intro hTaken
    have hBefore := (Text.isBefore_iff p q).mp (hSorted.2.2 p hp q List.mem_cons_self)
    have hIn : p ∈ t.mirrored source target true := hSplit ▸ List.mem_append_left _ hp
    rcases hLeast p ((hTakenIff p).mpr ⟨hTaken, hIn⟩) with rfl | hAfter
    · exact List.lt_irrefl _ hBefore
    · rw [← Text.isBefore_iff_octets, Text.isBefore_iff] at hAfter
      exact List.lt_asymm hBefore hAfter

section Outside

variable (h : t.Consistent) (o : t.WritesOutside source target)

include h o

/-- Below a path made of parent steps only, the rows move one by one, and the first mirrored
path that is refused is named. -/
theorem refused_of_climbing (hClimbs : source.climbsOnly = true)
    (hRun : move source target ⟨t, true, supply⟩ = .error e b') :
    ∃ q, t.Refuses (t.mirrored source target true) q ∧ e = .duplicatePath q := by
  obtain ⟨es, hEntries, hRows, hMem, hApart⟩ := exists_entriesWithin h source
  have hMirrored : t.mirrored source target true =
      es.map fun f => carried source target f.path := by
    rw [mirrored_eq, ← within_below, hRows, List.map_map]
    rfl
  have hFail : repointAll (below source) (below target) es ⟨t, true, supply⟩ = .error e b' := by
    rw [move_climbing_run hClimbs hEntries] at hRun
    exact (bind_eq_error.mp hRun).resolve_right (by rintro ⟨u, c, -, hEnd⟩; cases hEnd)
  obtain ⟨before, f, after, u, rfl, hBefore, hRefused⟩ :=
    refused_of_repointAll (fun f hf => (hMem f hf).2) hFail
  have hMemBefore : ∀ g ∈ before, g.row ∈ t ∧ (below source).contains g.path = true :=
    fun g hg => hMem g (List.mem_append_left _ hg)
  have hApartBefore : (before.map (·.id)).Nodup :=
    hApart.sublist ((List.sublist_append_left _ _).map _)
  obtain ⟨-, hTable, hNodup, -⟩ := (repointAll_eq_ok h (fun g hg => (hMemBefore g hg).1)
    hApartBefore fun g hg => (hMemBefore g hg).2).mp hBefore
  obtain rfl : u = t.map (shifted source target before) := congrArg Bench.table hTable
  obtain ⟨hDistinct, hFree⟩ := free_of_shifted h hMemBefore
    (fun g hg => (o.rows_outside g.row (hMemBefore g hg).1 (hMemBefore g hg).2).2)
    hApartBefore hNodup
  have hTaken := holdsPath_of_shifted h hMemBefore (holdsPath_of_repoint_eq_error hRefused)
  refine ⟨carried source target f.path, ⟨_, after.map fun g => carried source target g.path, ?_,
    hDistinct, hFree, hTaken⟩, repoint_eq_error hRefused⟩
  rw [hMirrored, List.map_append, List.map_cons]

/-- **If the rows below the source cannot be moved**, the first mirrored path that is refused
is named. -/
theorem refused_of_move (hs : source.IsNormal) (ht : target.IsNormal)
    (hRun : move source target ⟨t, true, supply⟩ = .error e b') :
    ∃ q, t.Refuses (t.mirrored source target true) q ∧ e = .duplicatePath q := by
  cases hClimbs : source.climbsOnly with
  | true => exact refused_of_climbing h o hClimbs hRun
  | false => exact refused_of_rewriting h hs ht hClimbs hRun

end Outside

end Relocation

/-! ## The whole move -/

namespace Registry

variable {t : Table} {source target : Text} {supply : Supply} {b' : Bench} {e : Failure}

section Outside

variable (h : t.Consistent) (hSource : t.holdsPath (normalize source) = true)
  (o : t.WritesOutside (.ofText source) (.ofText target))

include h hSource o

/-- With a row at the source, **a move that writes outside of it succeeds** exactly if the
new paths are distinct and free. -/
theorem move_succeeds_outside (hFresh : ∀ r ∈ t, r.key ≠ Key.ofId supply.next) :
    (∃ i, ((move source target true).on t true supply).1 = .ok i) ↔
      (t.mirrored (.ofText source) (.ofText target) true ++ [normalize target]).Nodup ∧
        ∀ p ∈ t.mirrored (.ofText source) (.ofText target) true ++ [normalize target],
          t.holdsPath p = false := by
  have hTarget : ((∃ r ∈ t, carried (.ofText source) (.ofText target) r.path = normalize source) →
      ∀ r ∈ t, carried (.ofText source) (.ofText target) r.path = normalize target →
        carried (.ofText source) (.ofText target) r.path = normalize source) ↔
      ∀ r ∈ t, carried (.ofText source) (.ofText target) r.path ≠ normalize target := by
    obtain ⟨r, hr, hPath⟩ := holdsPath_iff.mp hSource
    have hStays : carried (.ofText source) (.ofText target) r.path = normalize source := by
      rw [hPath]
      exact carried_self _ _
    constructor
    · intro hAll s hs hAt
      exact o.target_ne (hAt.symm.trans (hAll ⟨r, hr, hStays⟩ s hs hAt))
    · exact fun hNone _ s hs hAt => absurd hAt (hNone s hs)
  have hTargetFree : (∀ r ∈ t, carried (.ofText source) (.ofText target) r.path ≠
      normalize target) ↔ _ := o.target_free_iff
  rw [move_ok_iff h hFresh, hTarget, o.fits_iff h, hTargetFree, List.forall_mem_append,
    List.forall_mem_singleton, ← List.concat_eq_append, List.nodup_concat]
  constructor
  · rintro ⟨⟨hDistinct, hFree⟩, hNew, hUnused⟩
    exact ⟨⟨hNew, hDistinct⟩, hFree, hUnused⟩
  · rintro ⟨⟨hNew, hDistinct⟩, hFree, hUnused⟩
    exact ⟨⟨hDistinct, hFree⟩, hNew, hUnused⟩

/-- **A move that writes outside of the source and fails** names the first new path that is
refused. -/
theorem refused_of_move (hFresh : ∀ r ∈ t, r.key ≠ Key.ofId supply.next)
    (hRun : move source target true ⟨t, true, supply⟩ = .error e b') :
    ∃ q, t.Refuses (t.mirrored (.ofText source) (.ofText target) true ++ [normalize target]) q ∧
      e = .duplicatePath q := by
  have hs := Path.ofText_isNormal source
  have ht := Path.ofText_isNormal target
  have hFailed : ¬ ∃ i, ((move source target true).on t true supply).1 = .ok i := by
    rw [on_fst_eq_error.mpr ⟨b', hRun⟩]
    simp
  rw [move_succeeds_outside h hSource o hFresh] at hFailed
  unfold move at hRun
  obtain ⟨c, hRun, -⟩ := atomically_eq_error.mp hRun
  rcases bind_eq_error.mp hRun with hBelow | ⟨u, d, hBelow, hPath⟩
  · obtain ⟨q, hRefused, rfl⟩ :=
      Relocation.refused_of_move h o hs ht (discard_eq_error.mp hBelow)
    exact ⟨q, hRefused.append _, rfl⟩
  · -- the mirrored paths were distinct and free, so it is the target that is refused
    obtain ⟨n, hBelow⟩ := discard_eq_ok.mp hBelow
    obtain ⟨-, -, rfl, hFits⟩ := (Relocation.move_eq_ok h hs ht).mp hBelow
    obtain ⟨hDistinct, hFree⟩ := (o.fits_iff h).mp hFits
    refine ⟨normalize target, ⟨_, [], rfl, hDistinct, hFree, ?_⟩, ?_⟩
    · rw [List.forall_mem_append, List.forall_mem_singleton, ← List.concat_eq_append,
        List.nodup_concat] at hFailed
      by_contra hAccepted
      rw [not_or, Bool.not_eq_true] at hAccepted
      exact hFailed ⟨⟨hAccepted.2, hDistinct⟩, hFree, hAccepted.1⟩
    · exact movePath_eq_error (h.carry hFits.1) (unused_relocate hFresh _) hPath

/-- With a row at the source, a move that writes outside of it takes every row to its
destination. -/
theorem table_of_move_outside {i : Identifier}
    (hRun : move source target true ⟨t, true, supply⟩ = .ok i b') :
    b'.table = t.relocate (destination (.ofText source) (.ofText target)) := by
  obtain ⟨-, ⟨hNodup, -⟩, hPath⟩ := (move_eq_ok h).mp hRun
  have hArrival : t.relocate (arrival (.ofText source) (.ofText target)) =
      t.relocate (destination (.ofText source) (.ofText target)) :=
    relocate_congr fun r hr => o.arrival_eq hr
  rw [← hArrival, ← relocate_arrival]
  rcases (movePath_eq_ok (h.carry hNodup)).mp hPath with ⟨-, -, -, rfl⟩ | ⟨hNone, -⟩
  · rfl
  · obtain ⟨r, hr, hAt⟩ := holdsPath_iff.mp hSource
    have hStays : carried (.ofText source) (.ofText target) r.path = normalize source := by
      rw [hAt]
      exact carried_self _ _
    exact absurd hStays (holdsPath_eq_false.mp hNone _ (List.mem_map_of_mem hr))

/-- The paths after a move that writes outside of the source: those that the source does not
cover, and the new ones. -/
theorem holdsPath_of_move {i : Identifier}
    (hRun : move source target true ⟨t, true, supply⟩ = .ok i b') (p : Text) :
    b'.table.holdsPath p = true ↔
      (∃ r ∈ t, (Path.ofText source).covers true r.path = false ∧ r.path = p) ∨
        p ∈ t.mirrored (.ofText source) (.ofText target) true ++ [normalize target] := by
  rw [table_of_move_outside h hSource o hRun, holdsPath_relocate, List.mem_append,
    List.mem_singleton, mem_mirrored]
  have hBelow {r : Row} (hIn : (below (.ofText source)).contains r.path = true) :
      destination (.ofText source) (.ofText target) r.path =
        carried (.ofText source) (.ofText target) r.path := by
    have hCarry : (below (.ofText source)).carry? r.path (below (.ofText target)) = _ :=
      carry?_eq_some_carried hIn
    exact if_neg (ne_source_of_carry? hCarry)
  constructor
  · rintro ⟨r, hr, rfl⟩
    by_cases hAt : r.path = normalize source
    · exact .inr (.inr (if_pos hAt))
    cases hIn : (below (.ofText source)).contains r.path with
    | true => exact .inr (.inl ⟨r, hr, hIn, (hBelow hIn).symm⟩)
    | false =>
      refine .inl ⟨r, hr, Path.covers_eq_false.mpr ⟨hAt, fun _ => hIn⟩, ?_⟩
      exact (destination_of_uncovered hAt hIn).symm
  · rintro (⟨r, hr, hOut, rfl⟩ | ⟨r, hr, hIn, rfl⟩ | rfl)
    · obtain ⟨hAway, hOut⟩ := Path.covers_eq_false.mp hOut
      exact ⟨r, hr, destination_of_uncovered hAway (hOut rfl)⟩
    · exact ⟨r, hr, hBelow hIn⟩
    · obtain ⟨r, hr, hAt⟩ := holdsPath_iff.mp hSource
      exact ⟨r, hr, if_pos hAt⟩

/-- The paths after a copy and a delete of the source: the same. -/
theorem holdsPath_of_copy {report : CopyReport}
    (hRun : copy source target true ⟨t, true, supply⟩ = .ok report b') (p : Text) :
    holdsPath (b'.table.filter fun r => !(Path.ofText source).covers true r.path) p = true ↔
      (∃ r ∈ t, (Path.ofText source).covers true r.path = false ∧ r.path = p) ∨
        p ∈ t.mirrored (.ofText source) (.ofText target) true ++ [normalize target] := by
  obtain ⟨es, hRows⟩ := h.exists_originals (.ofText source) true
  obtain ⟨added, hTable, hPaths, -⟩ := added_of_copy h hRows hRun
  rw [if_pos (.inl hSource), List.append_nil] at hPaths
  have hNew : ∀ q ∈ added.map (·.path), (Path.ofText source).covers true q = false := by
    rw [hPaths, List.forall_mem_append, List.forall_mem_singleton]
    refine ⟨fun q hq => ?_, Path.covers_eq_false.mpr ⟨o.target_ne, fun _ => o.target_outside⟩⟩
    obtain ⟨hAway, hOut⟩ := o.mirrored_outside hq
    exact Path.covers_eq_false.mpr ⟨hAway, fun _ => hOut⟩
  have hKept : (added.filter fun r => !(Path.ofText source).covers true r.path) = added :=
    List.filter_eq_self.mpr fun r hr => by rw [hNew _ (List.mem_map_of_mem hr)]; rfl
  rw [hTable, List.filter_append, hKept, holdsPath_append, Bool.or_eq_true,
    holdsPath_iff_mem (t := added), hPaths]
  refine or_congr_left ?_
  simp [holdsPath_iff, and_assoc]

end Outside

/-- With fresh identifiers at hand, a copy that fails names the first new path that is
refused, if the target is not the source. -/
theorem refused_of_copy {es : List Entry} (h : t.Consistent)
    (hRows : t.originals (.ofText source) true = es.map Entry.row)
    (hFresh : supply.IsFreshFor (es.length + 2) t) (hApart : normalize target ≠ normalize source)
    (hRun : copy source target true ⟨t, true, supply⟩ = .error e b') :
    ∃ q, t.Refuses (t.mirrored (.ofText source) (.ofText target) true ++ [normalize target]) q ∧
      e = .duplicatePath q := by
  obtain ⟨before, q, after, hSplit, hNodup, hFree, hTaken, rfl⟩ :=
    failure_of_copy h hRows hFresh hRun
  refine ⟨q, ⟨before, after, hSplit, hNodup, hFree, ?_⟩, rfl⟩
  rcases hTaken with hHeld | hBefore | ⟨rfl, rfl⟩
  · exact .inl hHeld
  · exact .inr hBefore
  · exact absurd (List.cons.inj (List.append_inj' hSplit rfl).2).1 hApart

end Registry

namespace Table.Reachable

variable {t : Table} {source target : Text} {supply : Supply}

/-- **A move is a copy and a delete**, but for the identifiers, if the source has a row and
neither the target nor any path to which a row below the source is carried is the source or
lies below it.  The move succeeds exactly if the copy does; if both fail, they name the same
path; and if both succeed, then the source can be deleted after the copy, and the paths are
those that the move has left. -/
theorem move_as_copy_and_delete (h : t.Reachable)
    (hFresh : supply.IsFreshFor
      ((t.mirrored (.ofText source) (.ofText target) true).length + 2) t)
    (hSource : t.holdsPath (normalize source) = true)
    (o : t.WritesOutside (.ofText source) (.ofText target)) :
    ((∃ i, ((Registry.move source target true).on t true supply).1 = .ok i) ↔
      ∃ report, ((Registry.copy source target true).on t true supply).1 = .ok report) ∧
    (∀ e e', ((Registry.move source target true).on t true supply).1 = .error e →
      ((Registry.copy source target true).on t true supply).1 = .error e' →
      ∃ q, e = .duplicatePath q ∧ e' = .duplicatePath q) ∧
    ∀ i report t₁ t₂ supply₁ supply₂,
      (Registry.move source target true).on t true supply = (.ok i, t₁, supply₁) →
      (Registry.copy source target true).on t true supply = (.ok report, t₂, supply₂) →
      ∃ t₃, (Registry.delete source true).on t₂ true supply₂ = (.ok (), t₃, supply₂) ∧
        ∀ p, t₁.holdsPath p = t₃.holdsPath p := by
  have hCons := h.consistent
  obtain ⟨es, hRows⟩ := hCons.exists_originals (.ofText source) true
  rw [mirrored, hRows, List.length_map, List.length_map] at hFresh
  refine ⟨?_, fun e e' hMove hCopy => ?_, fun i report t₁ t₂ supply₁ supply₂ hMove hCopy => ?_⟩
  · rw [Registry.move_succeeds_outside hCons hSource o hFresh.next,
      Registry.copy_succeeds hCons hRows hFresh]
    exact and_congr_right fun _ => (and_iff_left o.target_ne).symm
  · obtain ⟨b, hMove⟩ := on_fst_eq_error.mp hMove
    obtain ⟨c, hCopy⟩ := on_fst_eq_error.mp hCopy
    obtain ⟨q, hRefused, rfl⟩ := Registry.refused_of_move hCons hSource o hFresh.next hMove
    obtain ⟨q', hRefused', rfl⟩ :=
      Registry.refused_of_copy hCons hRows hFresh o.target_ne hCopy
    exact ⟨q, rfl, by rw [hRefused.unique hRefused']⟩
  · obtain ⟨w, hMove⟩ := on_eq_ok.mp hMove
    obtain ⟨w', hCopy⟩ := on_eq_ok.mp hCopy
    refine ⟨_, on_eq_ok.mpr ⟨true, Registry.delete_run source true t₂ supply₂⟩, fun p => ?_⟩
    rw [Bool.eq_iff_iff]
    exact (Registry.holdsPath_of_move hCons hSource o hMove p).trans
      (Registry.holdsPath_of_copy hCons hSource o hCopy p).symm

/-- The directory above is moved into a name: what lies two levels above comes to lie beside
that name. -/
theorem move_as_copy_and_delete_upwards :
    let t : Table := ((Call.indexAll [['.', '.'], ['.', '.', '/', '.', '.', '/', 'y'],
      ['.', '.', '/', 'x']]).action.on [] true (.ofSeed 0)).2.1
    let moved := (Registry.move ['.', '.'] ['w'] true).on t true (.ofSeed 3)
    let copied := (Registry.copy ['.', '.'] ['w'] true).on t true (.ofSeed 3)
    t.Reachable ∧ (Supply.ofSeed 3).IsFreshFor
        ((t.mirrored (.ofText ['.', '.']) (.ofText ['w']) true).length + 2) t ∧
      t.holdsPath (normalize ['.', '.']) = true ∧
      t.WritesOutside (.ofText ['.', '.']) (.ofText ['w']) ∧
      t.mirrored (.ofText ['.', '.']) (.ofText ['w']) true = [['y'], ['w', '/', 'x']] ∧
      ∃ i report t₃, moved.1 = .ok i ∧ copied.1 = .ok report ∧
        (Registry.delete ['.', '.'] true).on copied.2.1 true copied.2.2 =
          (.ok (), t₃, copied.2.2) ∧ ∀ p, moved.2.1.holdsPath p = t₃.holdsPath p := by
  intro t moved copied
  have hReachable : t.Reachable := .call _ _ _ (by decide) .empty
  have hMirrored : t.mirrored (.ofText ['.', '.']) (.ofText ['w']) true =
      [['y'], ['w', '/', 'x']] := by
    rw [mirrored, originals_of_sorted (by decide +kernel)]
    decide +kernel
  have hFresh : (Supply.ofSeed 3).IsFreshFor
      ((t.mirrored (.ofText ['.', '.']) (.ofText ['w']) true).length + 2) t := by
    rw [hMirrored]
    exact ⟨by decide +kernel, by decide +kernel⟩
  have hSource : t.holdsPath (normalize ['.', '.']) = true := by decide +kernel
  have o : t.WritesOutside (.ofText ['.', '.']) (.ofText ['w']) :=
    ⟨by decide +kernel, by decide +kernel, by decide +kernel⟩
  obtain ⟨hBoth, -, hPaths⟩ := hReachable.move_as_copy_and_delete hFresh hSource o
  obtain ⟨i, hMoved⟩ := (Registry.move_succeeds_outside hReachable.consistent hSource o
    hFresh.next).mpr (by rw [hMirrored]; decide +kernel)
  obtain ⟨report, hCopied⟩ := hBoth.mp ⟨i, hMoved⟩
  have hMove : moved = (.ok i, moved.2.1, moved.2.2) := by rw [← hMoved]
  have hCopy : copied = (.ok report, copied.2.1, copied.2.2) := by rw [← hCopied]
  obtain ⟨t₃, hDelete, hSame⟩ := hPaths _ _ _ _ _ _ hMove hCopy
  exact ⟨hReachable, hFresh, hSource, o, hMirrored, i, report, t₃, hMoved, hCopied, hDelete,
    hSame⟩

end Table.Reachable

end PathRegistry
