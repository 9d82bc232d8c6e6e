import PathRegistry.Proofs.Moving

/-!
# Moves that vacate the source

In general the steps of a recursive move may get into each other's way: a row is sent to
where one that has not moved yet still is, or is carried onto the source and taken for
its row.  None of this can happen if the move vacates the source, that is, if no row
below it is sent to the source or below it again.  Then a new path can be taken only by a
row that stays, and whether it is does not depend on the order of the steps.

So for these moves everything can be said about the table alone: when they succeed, what
they leave, and which path a failure names.

## Main statements

* `Consistent.fits_of_free`, `Consistent.fits_iff` — the rows below the source can be moved if no
  new path is taken, and if the source is vacated, only then.
* `Relocation.move_eq_error` — the path that a failure names is the least that is taken.
* `Table.Reachable.move_away_exact` — success, result and failure of such a move.
-/

namespace PathRegistry

open PathRegistry.Action Subtree Table

/-! ## Paths with another stem -/

namespace Subtree

variable {source target : Path} {path : Text}

/-- Rewriting the stem keeps different members apart. -/
theorem eq_of_rerooted_eq {p q : Text} (hp : (below source).contains p = true)
    (hq : (below source).contains q = true)
    (h : rerooted source target p = rerooted source target q) : p = q := by
  obtain ⟨-, r, -, rfl⟩ := (contains_iff source p).mp hp
  obtain ⟨-, u, -, rfl⟩ := (contains_iff source q).mp hq
  rw [rerooted_append, rerooted_append] at h
  rw [List.append_cancel_left h]

/-- What is carried comes to lie below the target and not at it. -/
theorem ne_target_of_carry? (hs : source.IsNormal) (ht : target.IsNormal)
    (hClimbs : source.climbsOnly = false) (hNormal : normalize path = path) {q : Text}
    (h : (below source).carry? path (below target) = some q) : q ≠ target.text := by
  have hIn := contains_of_carry? h
  have hCurrent : source ≠ .current := ((contains_iff source path).mp hIn).1
  obtain ⟨ns, hSome, hNames, rfl⟩ := (contains_iff_descend hs hCurrent hClimbs hNormal).mp hIn
  rw [carry?_descend hCurrent ht hSome hNames, Option.some.injEq] at h
  rw [← h]
  intro hSame
  have hPath := Path.text_injective (Path.descend_isNormal ht hNames) ht hSame
  have hLonger : target.names ++ ns = target.names := congrArg Path.names hPath
  exact hSome (List.append_right_eq_self.mp hLonger)

/-- If the target lies below the source, so does everything below the target. -/
theorem contains_rerooted (hTarget : (below source).contains target.text = true) :
    (below source).contains path = true →
      (below source).contains (rerooted source target path) = true := by
  intro hIn
  obtain ⟨hCurrent, r, hr, rfl⟩ := (contains_iff source path).mp hIn
  obtain ⟨-, u, hu, hText⟩ := (contains_iff source target.text).mp hTarget
  obtain ⟨x, hx⟩ := Path.stem_eq_concat hCurrent
  have hLong : 2 ≤ target.text.length := by
    have hPos : 0 < u.length := List.length_pos_iff.mpr hu
    rw [hText, hx, List.length_append, List.length_append, List.length_singleton]
    omega
  have hNoRoot : target ≠ .root := by
    rintro rfl
    simp [Path.text_root] at hLong
  have hNoCurrent : target ≠ .current := by
    rintro rfl
    simp [Path.text_current] at hLong
  rw [rerooted_append, Path.stem_eq_text hNoRoot hNoCurrent, hText]
  refine (contains_iff source _).mpr ⟨hCurrent, u ++ '/' :: r, ?_, by simp⟩
  simp

/-- The path after a rename of `source` to `target`: the source itself becomes the target,
a path below it gets the stem of the target, any other stays. -/
def renamed (source target : Path) (path : Text) : Text :=
  if path = source.text then target.text
  else if (below source).contains path then rerooted source target path
  else path

theorem destination_eq_renamed (hs : source.IsNormal) (ht : target.IsNormal)
    (hClimbs : source.climbsOnly = false) (hNormal : normalize path = path) :
    destination source target path = renamed source target path := by
  unfold destination renamed
  cases hIn : (below source).contains path with
  | true => rw [carried_eq_rerooted hs ht hClimbs hNormal hIn, if_pos rfl]
  | false => rw [carried_of_outside hIn, if_neg Bool.false_ne_true]

end Subtree

namespace Table

variable {source target : Path} {t : Table}

/-- No row below the source gets a path that is the source or lies below it. -/
def Vacates (source target : Path) (t : Table) : Prop :=
  ∀ r ∈ t, (below source).contains r.path = true →
    rerooted source target r.path ≠ source.text ∧
      (below source).contains (rerooted source target r.path) = false

/-- A row below the source would get the path, and some row has it. -/
def IsTaken (source target : Path) (t : Table) (path : Text) : Prop :=
  t.holdsPath path = true ∧
    ∃ r ∈ t, (below source).contains r.path = true ∧ rerooted source target r.path = path

/-! ## The least path that is taken -/

theorem isTaken_iff {path : Text} : t.IsTaken source target path ↔
    t.IsTakenWithin (below source).range (rerooted source target) path := by
  simp only [IsTaken, IsTakenWithin, Relocation.mem_within, and_assoc]

/-- If paths are taken, one of them is the first, and the least octet by octet. -/
theorem exists_least_taken (hTaken : ∃ path, t.IsTaken source target path) :
    ∃ q, t.firstTaken? (below source).range (rerooted source target) = some q ∧
      t.IsTaken source target q ∧
      ∀ q', t.IsTaken source target q' → q' = q ∨ Text.octets q < Text.octets q' := by
  simp only [isTaken_iff] at hTaken ⊢
  cases hFirst : t.firstTaken? (below source).range (rerooted source target) with
  | none =>
    obtain ⟨path, hPath⟩ := hTaken
    exact absurd hPath (firstTaken?_eq_none.mp hFirst path)
  | some q => exact ⟨q, rfl, least_of_firstTaken? hFirst⟩

/-! ## What a vacated source rules out -/

section Vacated

variable (h : t.Consistent) (hs : source.IsNormal) (ht : target.IsNormal)
  (hClimbs : source.climbsOnly = false)

include h hs ht hClimbs

/-- Unless a new path is taken, no row is sent to where another one still is. -/
theorem apart_of_free (hFree : ∀ path, ¬ t.IsTaken source target path) :
    (Relocation.visits source t).Pairwise fun r s =>
      (below source).carry? r.path (below target) ≠ some s.path := by
  refine List.pairwise_of_forall_mem_list fun r hr s hsMem hSent => ?_
  obtain ⟨hr, hIn⟩ := Relocation.mem_visits.mp hr
  rw [carry?_eq_append hs ht hClimbs (h.normal r hr) hIn, Option.some.injEq] at hSent
  exact hFree s.path
    ⟨holdsPath_iff.mpr ⟨s, (Relocation.mem_visits.mp hsMem).1, rfl⟩, r, hr, hIn, hSent⟩

/-- **The rows below the source can be moved** if no new path is taken, wherever they go. -/
theorem Consistent.fits_of_free (hFree : ∀ path, ¬ t.IsTaken source target path) :
    Relocation.Fits source target t := by
  refine ⟨h.carried_nodup (fun r hr s hsMem hInR hInS hMeet => ?_)
    fun r hr s hsMem hIn _ hMeet => ?_, apart_of_free h hs ht hClimbs hFree⟩
  · rw [carried_eq_rerooted hs ht hClimbs (h.normal r hr) hInR,
      carried_eq_rerooted hs ht hClimbs (h.normal s hsMem) hInS] at hMeet
    exact h.eq_of_path hr hsMem (eq_of_rerooted_eq hInR hInS hMeet)
  · rw [carried_eq_rerooted hs ht hClimbs (h.normal r hr) hIn] at hMeet
    exact hFree s.path ⟨holdsPath_iff.mpr ⟨s, hsMem, rfl⟩, r, hr, hIn, hMeet⟩

variable (hVacates : t.Vacates source target)

include hVacates

theorem not_onto_of_vacates {r : Row} (hr : r ∈ t) :
    (below source).carry? r.path (below target) ≠ some source.text := by
  intro hOnto
  have hIn := contains_of_carry? hOnto
  rw [carry?_eq_append hs ht hClimbs (h.normal r hr) hIn, Option.some.injEq] at hOnto
  exact (hVacates r hr hIn).1 hOnto

/-- A row is at the source after the carrying exactly if it was there before. -/
theorem carried_eq_source_iff {r : Row} (hr : r ∈ t) :
    carried source target r.path = source.text ↔ r.path = source.text := by
  constructor
  · intro hSource
    rcases carried_eq_source hSource with hSame | hOnto
    · exact hSame
    · exact absurd hOnto (not_onto_of_vacates h hs ht hClimbs hVacates hr)
  · intro hSame
    rw [hSame, carried_self]

/-- A row is at the target after the carrying exactly if it was there before. -/
theorem carried_eq_target_iff {r : Row} (hr : r ∈ t) :
    carried source target r.path = target.text ↔ r.path = target.text := by
  constructor
  · intro hTarget
    cases hCarry : (below source).carry? r.path (below target) with
    | none => rwa [carried_of_outside (carry?_eq_none.mp hCarry)] at hTarget
    | some q =>
      rw [carried_of_carry? hCarry] at hTarget
      exact absurd hTarget (ne_target_of_carry? hs ht hClimbs (h.normal r hr) hCarry)
  · intro hSame
    have hOutside : (below source).contains r.path = false := by
      rw [Bool.eq_false_iff]
      intro hIn
      have hBack := contains_rerooted (hSame ▸ hIn) hIn
      rw [(hVacates r hr hIn).2] at hBack
      cases hBack
    rw [carried_of_outside hOutside, hSame]

theorem holdsPath_carried_source :
    (t.relocate (carried source target)).holdsPath source.text = t.holdsPath source.text := by
  rw [Bool.eq_iff_iff, holdsPath_relocate, holdsPath_iff]
  exact exists_congr fun r => and_congr_right fun hr =>
    carried_eq_source_iff h hs ht hClimbs hVacates hr

theorem holdsPath_carried_target :
    (t.relocate (carried source target)).holdsPath target.text = t.holdsPath target.text := by
  rw [Bool.eq_iff_iff, holdsPath_relocate, holdsPath_iff]
  exact exists_congr fun r => and_congr_right fun hr =>
    carried_eq_target_iff h hs ht hClimbs hVacates hr

/-- If the source is vacated, they can be moved only if no new path is taken. -/
theorem Consistent.fits_iff : Relocation.Fits source target t ↔
    ∀ path, ¬ t.IsTaken source target path := by
  refine ⟨?_, fun hFree => h.fits_of_free hs ht hClimbs hFree⟩
  rintro ⟨hNodup, -⟩ path ⟨hHolds, r, hr, hIn, rfl⟩
  obtain ⟨s, hsMem, hPath⟩ := holdsPath_iff.mp hHolds
  -- the row that has the path stays, so the row that gets it would be the same row
  have hOut : (below source).contains s.path = false := hPath ▸ (hVacates r hr hIn).2
  rw [relocate_paths] at hNodup
  have hSame : r = s := by
    apply List.inj_on_of_nodup_map hNodup hr hsMem
    rw [carried_eq_rerooted hs ht hClimbs (h.normal r hr) hIn, carried_of_outside hOut, hPath]
  rw [hSame, hOut] at hIn
  cases hIn

end Vacated

end Table

/-! ## Failures -/

variable {t : Table} {e : Failure} {b' : Bench}

/-- **If one statement moves the rows below a path and fails**, the failure names the least new
path that is taken.  There is one, since the rows could be moved otherwise. -/
theorem Relocation.move_eq_error {source target : Path} (h : t.Consistent)
    (hs : source.IsNormal) (ht : target.IsNormal) (hClimbs : source.climbsOnly = false)
    {supply : Supply} (hRun : move source target ⟨t, true, supply⟩ = .error e b') :
    ∃ q, e = .duplicatePath q ∧ t.IsTaken source target q ∧
      ∀ q', t.IsTaken source target q' → q' = q ∨ Text.octets q < Text.octets q' := by
  have hTaken : ∃ path, t.IsTaken source target path := by
    by_contra hNone
    have hFits := h.fits_of_free hs ht hClimbs (not_exists.mp hNone)
    cases hRun.symm.trans ((move_eq_ok h hs ht).mpr ⟨fun _ => rfl, rfl, rfl, hFits⟩)
  obtain ⟨q, hFirst, hLeast⟩ := exists_least_taken hTaken
  refine ⟨q, ?_, hLeast⟩
  by_cases hCurrent : source = .current
  · rw [hCurrent] at hRun
    cases hRun
  · rw [move_eq_write hCurrent hClimbs] at hRun
    obtain ⟨hStatement, -⟩ := (write_eq_error rfl).mp hRun
    rw [rerootWithin_eq_error h.normal hs ht hClimbs hStatement, hFirst]
    rfl

namespace Registry

/-- A path moved alone can only fail because of the target. -/
theorem movePath_eq_error {source target : Path} {supply : Supply} (h : t.Consistent)
    (hFresh : ∀ r ∈ t, r.key ≠ Key.ofId supply.next)
    (hRun : movePath source target ⟨t, true, supply⟩ = .error e b') :
    e = .duplicatePath target.text := by
  obtain ⟨i?, hId⟩ := h.idAt_ok source.text
  rw [movePath, read_bind hId] at hRun
  cases i? with
  | some i =>
    rcases bind_eq_error.mp hRun with hFail | ⟨u, c, -, hEnd⟩
    · obtain ⟨hStatement, -⟩ := (write_eq_error rfl).mp (discard_eq_error.mp hFail)
      exact repoint_eq_error hStatement
    · cases hEnd
  | none =>
    obtain ⟨i, c, hOk⟩ := indexPath_succeeds (p := target) h hFresh
    cases hOk.symm.trans hRun

/-- A path that a path moved alone is refused is the target, and is taken. -/
theorem taken_of_movePath_eq_error {source target : Path} {supply : Supply} (h : t.Consistent)
    {q : Text}
    (hRun : movePath source target ⟨t, true, supply⟩ = .error (.duplicatePath q) b') :
    q = target.text ∧ t.holdsPath target.text = true := by
  obtain ⟨i?, hId⟩ := h.idAt_ok source.text
  rw [movePath, read_bind hId] at hRun
  cases i? with
  | some i =>
    rcases bind_eq_error.mp hRun with hFail | ⟨v, c, -, hEnd⟩
    · obtain ⟨hStatement, -⟩ := (write_eq_error rfl).mp (discard_eq_error.mp hFail)
      exact ⟨Failure.duplicatePath.inj (repoint_eq_error hStatement),
        holdsPath_of_repoint_eq_error hStatement⟩
    · cases hEnd
  | none =>
    obtain ⟨j?, hTarget⟩ := h.idAt_ok target.text
    change indexPath target _ = _ at hRun
    rw [indexPath, read_bind hTarget] at hRun
    cases j? with
    | some j => cases hRun
    | none =>
      rcases bind_eq_error.mp hRun with hFail | ⟨j, c, hFresh, hRun⟩
      · cases hFail
      · obtain ⟨-, rfl⟩ := fresh_eq_ok.mp hFresh
        rcases bind_eq_error.mp hRun with hFail | ⟨v, d, -, hEnd⟩
        · exact taken_of_insert_eq_error ((insert_eq_error rfl).mp hFail).1
        · cases hEnd

section Failing

variable {source target : Text} {supply : Supply} (h : t.Consistent)
  (hRun : move source target true ⟨t, true, supply⟩ = .error e b')

include h hRun

/-- If the rows below the source can be moved, only the move of the path itself fails. -/
theorem movePath_fails_of_move
    (hFits : Relocation.Fits (.ofText source) (.ofText target) t) :
    ∃ c, movePath (.ofText source) (.ofText target)
      ⟨t.relocate (carried (.ofText source) (.ofText target)), true, supply⟩ = .error e c := by
  have hBelow : Relocation.move (.ofText source) (.ofText target) ⟨t, true, supply⟩ =
      .ok _ ⟨t.relocate (carried (.ofText source) (.ofText target)), true, supply⟩ :=
    (Relocation.move_eq_ok h (Path.ofText_isNormal source) (Path.ofText_isNormal target)).mpr
      ⟨fun _ => rfl, rfl, rfl, hFits⟩
  unfold move at hRun
  obtain ⟨c, hRun, -⟩ := atomically_eq_error.mp hRun
  rcases bind_eq_error.mp hRun with hFail | ⟨u, d, hOk, hPath⟩
  · rw [discard_eq_error, hBelow] at hFail
    cases hFail
  · obtain ⟨n, hOk⟩ := discard_eq_ok.mp hOk
    rw [hBelow] at hOk
    cases hOk
    exact ⟨c, hPath⟩

/-- If the rows below the source cannot be moved, the move fails over them. -/
theorem failure_of_clash (hClimbs : (Path.ofText source).climbsOnly = false)
    (hClash : ¬ Relocation.Fits (.ofText source) (.ofText target) t) :
    ∃ q, e = .duplicatePath q ∧ t.IsTaken (.ofText source) (.ofText target) q ∧
      ∀ q', t.IsTaken (.ofText source) (.ofText target) q' →
        q' = q ∨ Text.octets q < Text.octets q' := by
  have hs := Path.ofText_isNormal source
  have ht := Path.ofText_isNormal target
  unfold move at hRun
  obtain ⟨c, hRun, -⟩ := atomically_eq_error.mp hRun
  rcases bind_eq_error.mp hRun with hFail | ⟨u, d, hOk, -⟩
  · exact Relocation.move_eq_error h hs ht hClimbs (discard_eq_error.mp hFail)
  · obtain ⟨n, hOk⟩ := discard_eq_ok.mp hOk
    obtain ⟨-, -, -, hFits⟩ := (Relocation.move_eq_ok h hs ht).mp hOk
    exact absurd hFits hClash

end Failing

/-! ## The whole move -/

section Vacated

variable {source target : Text} {supply : Supply} (h : t.Consistent)
  (hClimbs : (Path.ofText source).climbsOnly = false)
  (hVacates : t.Vacates (.ofText source) (.ofText target))

include h hClimbs hVacates

/-- A move that vacates the source succeeds exactly if no new path below the target is
taken, and the target is not, unless the source has no row or is the target itself. -/
theorem move_away_succeeds (hFresh : ∀ r ∈ t, r.key ≠ Key.ofId supply.next) :
    (∃ i, ((move source target true).on t true supply).1 = .ok i) ↔
      (∀ path, ¬ t.IsTaken (.ofText source) (.ofText target) path) ∧
        (t.holdsPath (normalize source) = false ∨ normalize target = normalize source ∨
          t.holdsPath (normalize target) = false) := by
  have hs := Path.ofText_isNormal source
  have ht := Path.ofText_isNormal target
  have hSource {r : Row} (hr : r ∈ t) :
      carried (.ofText source) (.ofText target) r.path = normalize source ↔
        r.path = normalize source := carried_eq_source_iff h hs ht hClimbs hVacates hr
  have hTarget {r : Row} (hr : r ∈ t) :
      carried (.ofText source) (.ofText target) r.path = normalize target ↔
        r.path = normalize target := carried_eq_target_iff h hs ht hClimbs hVacates hr
  rw [move_ok_iff h hFresh, h.fits_iff hs ht hClimbs hVacates]
  refine and_congr_right fun _ => ?_
  constructor
  · intro hApart
    cases hHolds : t.holdsPath (normalize source) with
    | false => exact .inl rfl
    | true =>
      obtain ⟨r, hr, hPath⟩ := holdsPath_iff.mp hHolds
      have hAll := hApart ⟨r, hr, (hSource hr).mpr hPath⟩
      by_cases hSame : normalize target = normalize source
      · exact .inr (.inl hSame)
      · refine .inr (.inr (holdsPath_eq_false.mpr fun s hs' hAt => hSame ?_))
        exact hAt.symm.trans ((hSource hs').mp (hAll s hs' ((hTarget hs').mpr hAt)))
  · rintro (hNone | hSame | hNone) ⟨r, hr, hPath⟩ s hs' hAt
    · exact absurd ((hSource hr).mp hPath) (holdsPath_eq_false.mp hNone r hr)
    · rw [hAt, hSame]
    · exact absurd ((hTarget hs').mp hAt) (holdsPath_eq_false.mp hNone s hs')

/-- A move that vacates the source renames the paths at and below it, and adds a row for
the target only if neither of the two had one. -/
theorem table_of_move_away {i : Identifier}
    (hRun : move source target true ⟨t, true, supply⟩ = .ok i b') :
    b'.table = t.relocate (renamed (.ofText source) (.ofText target)) ++
        (if t.holdsPath (normalize source) || t.holdsPath (normalize target) then []
          else [⟨Key.ofId supply.next, normalize target⟩]) ∧
      (⟨Key.ofId i, normalize source⟩ ∈ t ∨
        t.holdsPath (normalize source) = false ∧
          (⟨Key.ofId i, normalize target⟩ ∈ t ∨
            t.holdsPath (normalize target) = false ∧ i = supply.next)) := by
  have hs := Path.ofText_isNormal source
  have ht := Path.ofText_isNormal target
  obtain ⟨-, ⟨hNodup, -⟩, hPath⟩ := (move_eq_ok h).mp hRun
  have hRenamed : t.relocate (arrival (.ofText source) (.ofText target)) =
      t.relocate (renamed (.ofText source) (.ofText target)) :=
    relocate_congr fun r hr => by
      rw [arrival_of_ne (not_onto_of_vacates h hs ht hClimbs hVacates hr),
        destination_eq_renamed hs ht hClimbs (h.normal r hr)]
  have hAtSource : (t.relocate (carried (.ofText source) (.ofText target))).holdsPath
      (normalize source) = t.holdsPath (normalize source) :=
    holdsPath_carried_source h hs ht hClimbs hVacates
  have hAtTarget : (t.relocate (carried (.ofText source) (.ofText target))).holdsPath
      (normalize target) = t.holdsPath (normalize target) :=
    holdsPath_carried_target h hs ht hClimbs hVacates
  rcases (movePath_eq_ok (h.carry hNodup)).mp hPath with
    ⟨hMem, -, -, rfl⟩ | ⟨hNone, hIndex⟩
  · obtain ⟨r, hr, hRow⟩ := List.mem_map.mp hMem
    have hKey : r.key = Key.ofId i := congrArg Row.key hRow
    have hOld : r.path = normalize source :=
      (carried_eq_source_iff h hs ht hClimbs hVacates hr).mp (congrArg Row.path hRow)
    have hHolds : t.holdsPath (normalize source) = true := holdsPath_iff.mpr ⟨r, hr, hOld⟩
    rw [hHolds, Bool.true_or, if_pos rfl, List.append_nil, ← hRenamed]
    refine ⟨relocate_arrival _ _ t, .inl ?_⟩
    rw [← hKey, ← hOld]
    exact hr
  · have hNoSource : t.holdsPath (normalize source) = false := hAtSource.symm.trans hNone
    have hCarried : t.relocate (renamed (.ofText source) (.ofText target)) =
        t.relocate (carried (.ofText source) (.ofText target)) := by
      rw [← hRenamed]
      refine relocate_congr fun r hr => if_neg fun hSource => ?_
      exact holdsPath_eq_false.mp hNone _ (List.mem_map_of_mem hr) hSource
    rw [hNoSource, Bool.false_or, hCarried]
    rcases (indexPath_eq_ok (h.carry hNodup)).mp hIndex with
      ⟨hMem, rfl⟩ | ⟨hNoTarget, -, -, rfl, rfl⟩
    · obtain ⟨r, hr, hRow⟩ := List.mem_map.mp hMem
      have hKey : r.key = Key.ofId i := congrArg Row.key hRow
      have hOld : r.path = normalize target :=
        (carried_eq_target_iff h hs ht hClimbs hVacates hr).mp (congrArg Row.path hRow)
      have hHolds : t.holdsPath (normalize target) = true := holdsPath_iff.mpr ⟨r, hr, hOld⟩
      rw [hHolds, if_pos rfl, List.append_nil]
      refine ⟨rfl, .inr ⟨rfl, .inl ?_⟩⟩
      rw [← hKey, ← hOld]
      exact hr
    · have hFree : t.holdsPath (normalize target) = false := hAtTarget.symm.trans hNoTarget
      rw [hFree, if_neg Bool.false_ne_true]
      exact ⟨rfl, .inr ⟨rfl, .inr ⟨rfl, rfl⟩⟩⟩

/-- A move that vacates the source and fails names the least new path that is taken, or
the target if none is. -/
theorem failure_of_move_away (hFresh : ∀ r ∈ t, r.key ≠ Key.ofId supply.next)
    (hRun : move source target true ⟨t, true, supply⟩ = .error e b') :
    (∃ q, e = .duplicatePath q ∧ t.IsTaken (.ofText source) (.ofText target) q ∧
        ∀ q', t.IsTaken (.ofText source) (.ofText target) q' →
          q' = q ∨ Text.octets q < Text.octets q') ∨
      (∀ path, ¬ t.IsTaken (.ofText source) (.ofText target) path) ∧
        e = .duplicatePath (normalize target) := by
  have hs := Path.ofText_isNormal source
  have ht := Path.ofText_isNormal target
  have hFits := h.fits_iff hs ht hClimbs hVacates
  by_cases hFree : ∀ path, ¬ t.IsTaken (.ofText source) (.ofText target) path
  · obtain ⟨c, hPath⟩ := movePath_fails_of_move h hRun (hFits.mpr hFree)
    have hCarried := h.carry (hFits.mpr hFree).1
    exact .inr ⟨hFree, movePath_eq_error hCarried (unused_relocate hFresh _) hPath⟩
  · exact .inl (failure_of_clash h hRun hClimbs (mt hFits.mp hFree))

end Vacated

end Registry

namespace Table.Reachable

variable {t' : Table} {source target : Text} {supply : Supply}

/-- **A move that vacates the source**, which is not made of parent steps only.  It
succeeds exactly if no row has a new path, and the source has no row, or is the target,
or the target has no row.  Then the paths at and below the source are renamed, a fresh
row is added for the target if neither of the two had one, and the identifier is that of
the source, or else of the target, or else the fresh one.  If it fails, the failure names
the least new path that a row has, or the target if there is none. -/
theorem move_away_exact (h : t.Reachable) (hFresh : ∀ r ∈ t, r.key ≠ Key.ofId supply.next)
    (hClimbs : (Path.ofText source).climbsOnly = false)
    (hVacates : t.Vacates (.ofText source) (.ofText target)) :
    ((∃ i, ((Registry.move source target true).on t true supply).1 = .ok i) ↔
      (∀ path, ¬ t.IsTaken (.ofText source) (.ofText target) path) ∧
        (t.holdsPath (normalize source) = false ∨ normalize target = normalize source ∨
          t.holdsPath (normalize target) = false)) ∧
    (∀ i t' supply', (Registry.move source target true).on t true supply = (.ok i, t', supply') →
      t' = t.relocate (renamed (.ofText source) (.ofText target)) ++
          (if t.holdsPath (normalize source) || t.holdsPath (normalize target) then []
            else [⟨Key.ofId supply.next, normalize target⟩]) ∧
        (⟨Key.ofId i, normalize source⟩ ∈ t ∨
          t.holdsPath (normalize source) = false ∧
            (⟨Key.ofId i, normalize target⟩ ∈ t ∨
              t.holdsPath (normalize target) = false ∧ i = supply.next))) ∧
    ∀ e, ((Registry.move source target true).on t true supply).1 = .error e →
      (∃ q, e = .duplicatePath q ∧ t.IsTaken (.ofText source) (.ofText target) q ∧
          ∀ q', t.IsTaken (.ofText source) (.ofText target) q' →
            q' = q ∨ Text.octets q < Text.octets q') ∨
        (∀ path, ¬ t.IsTaken (.ofText source) (.ofText target) path) ∧
          e = .duplicatePath (normalize target) := by
  have hCons := h.consistent
  refine ⟨Registry.move_away_succeeds hCons hClimbs hVacates hFresh,
    fun i t' supply' hMove => ?_, fun e hFail => ?_⟩
  · obtain ⟨w, hRun⟩ := on_eq_ok.mp hMove
    exact Registry.table_of_move_away hCons hClimbs hVacates hRun
  · obtain ⟨b', hRun⟩ := on_fst_eq_error.mp hFail
    exact Registry.failure_of_move_away hCons hClimbs hVacates hFresh hRun

/-- A path without a row that is moved above the current directory: what lay below it
follows, and the target gets a row. -/
theorem move_away_exact_upwards :
    let t : Table :=
      ((Call.indexAll [['a', '/', 'b'], ['a', 'b']]).action.on [] true (.ofSeed 0)).2.1
    let moved := (Registry.move ['A', '/'] ['.', '.'] true).on t true (.ofSeed 2)
    t.Reachable ∧ (∀ r ∈ t, r.key ≠ Key.ofId (Supply.ofSeed 2).next) ∧
      (Path.ofText ['A', '/']).climbsOnly = false ∧
      t.Vacates (.ofText ['A', '/']) (.ofText ['.', '.']) ∧
      moved.1 = .ok (Supply.ofSeed 2).next ∧
      moved.2.1 = t.relocate (renamed (.ofText ['A', '/']) (.ofText ['.', '.'])) ++
        [⟨Key.ofId (Supply.ofSeed 2).next, ['.', '.']⟩] := by
  intro t moved
  have hReachable : t.Reachable := .call _ _ _ (by decide) .empty
  have hFresh : ∀ r ∈ t, r.key ≠ Key.ofId (Supply.ofSeed 2).next := by decide +kernel
  have hClimbs : (Path.ofText ['A', '/']).climbsOnly = false := by decide +kernel
  have hVacates : t.Vacates (.ofText ['A', '/']) (.ofText ['.', '.']) := by
    unfold Vacates
    decide +kernel
  have hOk : moved.1 = .ok (Supply.ofSeed 2).next := by decide +kernel
  have hMove : moved = (.ok (Supply.ofSeed 2).next, moved.2.1, moved.2.2) := by rw [← hOk]
  obtain ⟨-, hResult, -⟩ := hReachable.move_away_exact hFresh hClimbs hVacates
  refine ⟨hReachable, hFresh, hClimbs, hVacates, hOk, (hResult _ _ _ hMove).1.trans ?_⟩
  decide +kernel

end Table.Reachable

end PathRegistry
