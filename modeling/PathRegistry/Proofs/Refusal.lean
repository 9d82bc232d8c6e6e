import PathRegistry.Proofs.Departure

/-!
# The path that a move is refused

A move that fails because a path is taken names a path.  When one statement moves the rows below
the source, that path is found by a second statement, after the first one has failed and its work
is undone.  It looks for a new path that some row has, in a table where no row has moved.  If it
found none, the failure would name what the new paths start with, which no row needs to have.

It always finds one.  Two rows are never sent to one path, since they have different rests behind
the same stem, and so a row can only be refused a path that some row had from the beginning.  The
path of the source is moved later, and what has been carried by then lies below the target and
not at it; so a row that is in its way was there before the move as well.

Below a path made of parent steps only this is different: there the new paths are normalized, and
two of them may become one.

## Main statements

* `Registry.refused_of_move_eq_error` — where the path comes from that a move is refused.
* `Table.Reachable.refused_path` — it is held before and after the move, and is not the
  beginning of the new paths, unless the target is the root.
* `Table.Reachable.not_always_beyond_stem` — then it may be.
-/

namespace PathRegistry

open PathRegistry.Action Subtree Table

/-- Only the root is written like the beginning of what lies below it. -/
theorem Path.eq_root_of_text_eq_stem {p : Path} (h : p.text = p.stem) : p = root := by
  by_contra hRoot
  by_cases hCurrent : p = current
  · rw [hCurrent] at h
    cases h
  · rw [stem_eq_text hRoot hCurrent] at h
    simp at h

/-- A new path that is taken is what a row below the source would get. -/
theorem Table.IsTaken.exists_row {source target : Path} {t : Table} {q : Text}
    (h : t.IsTaken source target q) :
    ∃ r ∈ t, (below source).contains r.path = true ∧
      ∃ rest, rest ≠ [] ∧ r.path = source.stem ++ rest ∧ q = target.stem ++ rest := by
  obtain ⟨-, r, hr, hIn, rfl⟩ := h
  obtain ⟨-, rest, hRest, hPath⟩ := (contains_iff source r.path).mp hIn
  exact ⟨r, hr, hIn, rest, hRest, hPath, by rw [hPath, rerooted_append]⟩

theorem Table.IsTaken.ne_stem {source target : Path} {t : Table} {q : Text}
    (h : t.IsTaken source target q) : q ≠ target.stem := by
  obtain ⟨r, -, -, rest, hRest, -, rfl⟩ := h.exists_row
  simpa using hRest

namespace Registry

variable {t : Table} {supply : Supply} {b' : Bench} {q : Text}

/-- After the rows below the source have been carried, a row that is in the way of the source was
there before. -/
theorem taken_after_carrying {source target : Path} (h : t.Consistent) (hs : source.IsNormal)
    (ht : target.IsNormal) (hClimbs : source.climbsOnly = false)
    (hFits : Relocation.Fits source target t)
    (hRun : movePath source target ⟨t.relocate (carried source target), true, supply⟩ =
      .error (.duplicatePath q) b') :
    q = target.text ∧ t.holdsPath target.text = true := by
  obtain ⟨hTarget, hTaken⟩ := taken_of_movePath_eq_error (h.carry hFits.1) hRun
  refine ⟨hTarget, ?_⟩
  obtain ⟨r, hr, hCarried⟩ := holdsPath_relocate.mp hTaken
  cases hCarry : (below source).carry? r.path (below target) with
  | none =>
    rw [carried_of_outside (carry?_eq_none.mp hCarry)] at hCarried
    exact holdsPath_iff.mpr ⟨r, hr, hCarried⟩
  | some p =>
    rw [carried_of_carry? hCarry] at hCarried
    exact absurd hCarried (ne_target_of_carry? hs ht hClimbs (h.normal r hr) hCarry)

/-- **The path that a move is refused** is the target, or a new path of a row below the source;
either way some row had it before. -/
theorem refused_of_move_eq_error {source target : Text} {recursive : Bool} (h : t.Consistent)
    (hClimbs : (Path.ofText source).climbsOnly = false)
    (hRun : move source target recursive ⟨t, true, supply⟩ = .error (.duplicatePath q) b') :
    q = normalize target ∧ t.holdsPath (normalize target) = true ∨
      recursive = true ∧ t.IsTaken (.ofText source) (.ofText target) q := by
  have hs := Path.ofText_isNormal source
  have ht := Path.ofText_isNormal target
  cases recursive with
  | false =>
    obtain ⟨c, hPath, -⟩ := atomically_eq_error.mp hRun
    exact .inl (taken_of_movePath_eq_error h hPath)
  | true =>
    by_cases hFits : Relocation.Fits (.ofText source) (.ofText target) t
    · obtain ⟨c, hPath⟩ := movePath_fails_of_move h hRun hFits
      exact .inl (taken_after_carrying h hs ht hClimbs hFits hPath)
    · obtain ⟨p, hNamed, hTaken, -⟩ := failure_of_clash h hRun hClimbs hFits
      obtain rfl : q = p := Failure.duplicatePath.inj hNamed
      exact .inr ⟨rfl, hTaken⟩

end Registry

namespace Table.Reachable

variable {t t' : Table} {source target p : Text} {recursive : Bool} {supply supply' : Supply}

/-- **The path that a move is refused**, if the source is not made of parent steps only.  Some row
has it before the move and after it.  It is the target, or it is the new path of a row below the
source: the stem of the target and what that row has behind the stem of the source.  It is never
the stem of the target alone, unless that is the root, whose path is written like its stem; and
the step that moves the rows below the source does not name the stem even then. -/
theorem refused_path (h : t.Reachable) (hClimbs : (Path.ofText source).climbsOnly = false)
    (hFail : (Registry.move source target recursive).on t true supply =
      (.error (.duplicatePath p), t', supply')) :
    (t.holdsPath p = true ∧ t'.holdsPath p = true) ∧
    (p = normalize target ∨
      recursive = true ∧ ∃ r ∈ t, (Subtree.below (.ofText source)).contains r.path = true ∧
        ∃ rest, r.path = (Path.ofText source).stem ++ rest ∧
          p = (Path.ofText target).stem ++ rest) ∧
    (p = (Path.ofText target).stem → p = normalize target ∧ Path.ofText target = .root) ∧
    ∀ e b', Relocation.move (.ofText source) (.ofText target) ⟨t, true, supply⟩ = .error e b' →
      ∃ q, e = .duplicatePath q ∧ q ≠ (Path.ofText target).stem := by
  have hCons := h.consistent
  obtain ⟨w, hRun⟩ := on_eq_error.mp hFail
  have hSame : t' = t := table_of_atomically_eq_error hRun
  have hCarrying (e : Failure) (c : Bench)
      (hMove : Relocation.move (.ofText source) (.ofText target) ⟨t, true, supply⟩ = .error e c) :
      ∃ q, e = .duplicatePath q ∧ q ≠ (Path.ofText target).stem := by
    obtain ⟨q, hNamed, hTaken, -⟩ := Relocation.move_eq_error hCons (Path.ofText_isNormal source)
      (Path.ofText_isNormal target) hClimbs hMove
    exact ⟨q, hNamed, hTaken.ne_stem⟩
  rw [hSame, and_self]
  rcases Registry.refused_of_move_eq_error hCons hClimbs hRun with
    ⟨rfl, hHeld⟩ | ⟨hRecursive, hTaken⟩
  · exact ⟨hHeld, .inl rfl, fun hStem => ⟨rfl, Path.eq_root_of_text_eq_stem hStem⟩, hCarrying⟩
  · obtain ⟨r, hr, hIn, rest, -, hPath, hNew⟩ := hTaken.exists_row
    exact ⟨hTaken.1, .inr ⟨hRecursive, r, hr, hIn, rest, hPath, hNew⟩,
      fun hStem => absurd hStem hTaken.ne_stem, hCarrying⟩

/-- When `a` is moved to `a/b`, the path `a/b/c` is refused to `a/c`, although the row that has it
would have been moved as well, later. -/
theorem refused_path_inwards :
    let t : Table := ((Call.indexAll [['a', '/', 'c'], ['a', '/', 'b', '/', 'c']]).action.on
      [] true (.ofSeed 0)).2.1
    let moved := (Registry.move ['A'] ['a', '\\', 'b'] true).on t true (.ofSeed 2)
    t.Reachable ∧ (Path.ofText ['A']).climbsOnly = false ∧
      moved.1 = .error (.duplicatePath ['a', '/', 'b', '/', 'c']) ∧
      t.holdsPath ['a', '/', 'b', '/', 'c'] = true ∧
      moved.2.1.holdsPath ['a', '/', 'b', '/', 'c'] = true := by
  intro t moved
  have hReachable : t.Reachable := .call _ _ _ (by decide) .empty
  have hClimbs : (Path.ofText ['A']).climbsOnly = false := by decide +kernel
  have hClash : ¬ Relocation.Fits (.ofText ['A']) (.ofText ['a', '\\', 'b']) t := by
    unfold Relocation.Fits
    decide +kernel
  have hNotOk : moved.1.isOk = false := by decide +kernel
  obtain ⟨e, hError⟩ : ∃ e, moved.1 = .error e := by
    cases hResult : moved.1 with
    | ok i =>
      rw [hResult] at hNotOk
      cases hNotOk
    | error e => exact ⟨e, rfl⟩
  obtain ⟨b', hRun⟩ := on_fst_eq_error.mp hError
  obtain ⟨p, rfl, hTaken, -⟩ :=
    Registry.failure_of_clash hReachable.consistent hRun hClimbs hClash
  obtain rfl : p = ['a', '/', 'b', '/', 'c'] := by
    have hOnly : ∀ r ∈ t,
        t.holdsPath (rerooted (.ofText ['A']) (.ofText ['a', '\\', 'b']) r.path) = true →
          rerooted (.ofText ['A']) (.ofText ['a', '\\', 'b']) r.path =
            ['a', '/', 'b', '/', 'c'] := by
      decide +kernel
    obtain ⟨hHeld, r, hr, -, rfl⟩ := hTaken
    exact hOnly r hr hHeld
  have hMoved : moved = (.error (.duplicatePath ['a', '/', 'b', '/', 'c']),
      moved.2.1, moved.2.2) := by rw [← hError]
  exact ⟨hReachable, hClimbs, hError, (hReachable.refused_path hClimbs hMoved).1⟩

/-- The stem of the target may be named: the path of the root is written like its stem, and when
`a` is moved to a root that has a row, the failure names it. -/
theorem not_always_beyond_stem :
    ¬ ∀ (t : Table) (source target p : Text) (recursive : Bool) (supply : Supply), t.Reachable →
        (Path.ofText source).climbsOnly = false →
        ((Registry.move source target recursive).on t true supply).1 =
          .error (.duplicatePath p) →
        p ≠ (Path.ofText target).stem := by
  intro hAll
  let t : Table := ((Call.indexAll [['a'], ['/']]).action.on [] true (.ofSeed 0)).2.1
  have hReachable : t.Reachable := .call _ _ _ (by decide) .empty
  have hClimbs : (Path.ofText ['a']).climbsOnly = false := by decide +kernel
  have hFail : ((Registry.move ['a'] ['/'] true).on t true (.ofSeed 2)).1 =
      .error (.duplicatePath ['/']) := by
    decide +kernel
  have hStem : ['/'] = (Path.ofText ['/']).stem := by decide +kernel
  exact hAll t ['a'] ['/'] ['/'] true (.ofSeed 2) hReachable hClimbs hFail hStem

end Table.Reachable

end PathRegistry
