import PathRegistry.Proofs.Granting
import PathRegistry.Proofs.Replacement

/-!
# A move made twice

A caller that does not know whether its move has been made may make it again.  The second time
the call goes another way: the source has no row any more, so the target is indexed.  It is there
by now, with the identifier that the first call returned, so that indexing it finds that
identifier and writes nothing.

With what lies below the source it is the same, as long as the first move has written nothing
there.  Then nothing lies below the source any more and there is nothing to carry.  This is where
the target and the carried paths have to lie outside: if `a` is moved to `a/b`, then each move
finds what the last one has left and carries it one level further down.

## Main statements

* `Registry.rows_of_movePath` — where the rows are after a path has been moved alone.
* `Registry.nothing_below_after_move` — a move that writes outside the source leaves no row
  below it.
* `Table.Reachable.move_again` — a move that has been made changes nothing when it is made again.
-/

namespace PathRegistry

open PathRegistry.Action Subtree Table

/-! ## Nothing to carry -/

namespace Relocation

variable {source target : Path} {t : Table}

theorem visits_eq_nil :
    visits source t = [] ↔ ∀ r ∈ t, (below source).contains r.path = false := by
  simp only [List.eq_nil_iff_forall_not_mem, mem_visits, not_and, Bool.not_eq_true]

/-- If nothing lies below the source, carrying changes nothing. -/
theorem relocate_carried_of_nothing (hNone : ∀ r ∈ t, (below source).contains r.path = false) :
    t.relocate (carried source target) = t :=
  relocate_eq_self fun r hr => carried_of_outside (hNone r hr)

/-- If nothing lies below the source, it fits anywhere. -/
theorem fits_of_nothing (h : t.Consistent)
    (hNone : ∀ r ∈ t, (below source).contains r.path = false) : Fits source target t := by
  constructor
  · rw [relocate_carried_of_nothing hNone]
    exact h.paths_nodup
  · rw [visits_eq_nil.mpr hNone]
    exact .nil

end Relocation

/-- What is written outside the source lies outside, and what is not written does anyway. -/
theorem Table.WritesOutside.carried_outside {source target : Path} {t : Table}
    (o : t.WritesOutside source target) {r : Row} (hr : r ∈ t) :
    (below source).contains (carried source target r.path) = false := by
  cases hIn : (below source).contains r.path with
  | true => exact (o.rows_outside r hr hIn).2
  | false => rwa [carried_of_outside hIn]

namespace Registry

variable {t : Table} {i : Identifier} {writable : Bool} {supply : Supply} {b' : Bench}

/-! ## The path itself -/

section Alone

variable {source target : Path} (h : t.Consistent)
  (hRun : movePath source target ⟨t, writable, supply⟩ = .ok i b')

include h hRun

/-- After a path has been moved alone, the row at the target is the only one that may be new; any
other was there before, and not at the source. -/
theorem rows_of_movePath {r : Row} (hr : r ∈ b'.table) :
    r.path = target.text ∨ r ∈ t ∧ r.path ≠ source.text := by
  rcases (movePath_eq_ok h).mp hRun with ⟨-, -, -, rfl⟩ | ⟨hNone, hIndex⟩
  · obtain ⟨s, hs, rfl⟩ := List.mem_map.mp hr
    by_cases hSource : s.path = source.text
    · exact .inl (if_pos hSource)
    · have hStays : s.relocate (Text.redirect source.text target.text) = s := by
        rw [Row.relocate, Text.redirect, if_neg hSource]
      rw [hStays]
      exact .inr ⟨hs, hSource⟩
  · have hAway := holdsPath_eq_false.mp hNone
    rcases (indexPath_eq_ok h).mp hIndex with ⟨-, rfl⟩ | ⟨-, -, -, -, rfl⟩
    · exact .inr ⟨hr, hAway r hr⟩
    · rcases List.mem_append.mp hr with hOld | hNew
      · exact .inr ⟨hOld, hAway r hOld⟩
      · rw [List.mem_singleton.mp hNew]
        exact .inl rfl

/-- The source has no row any more, unless it is the target. -/
theorem source_free_after_movePath (hDiffer : target.text ≠ source.text) :
    b'.table.holdsPath source.text = false := by
  refine holdsPath_eq_false.mpr fun r hr hSource => ?_
  rcases rows_of_movePath h hRun hr with hTarget | ⟨-, hAway⟩
  · exact hDiffer (hTarget.symm.trans hSource)
  · exact hAway hSource

/-- **Moving a path alone once more** finds the target with the same identifier. -/
theorem movePath_again (ht : target.IsNormal) (hDiffer : target.text ≠ source.text) (w : Bool)
    (s : Supply) :
    movePath source target ⟨b'.table, w, s⟩ = .ok i ⟨b'.table, w, s⟩ := by
  have hLeft : b'.table.Consistent := by
    have hKept : (left (movePath source target ⟨t, writable, supply⟩)).Consistent :=
      keeps_movePath ht _ h
    rwa [hRun] at hKept
  have hIndexed : indexPath target ⟨b'.table, w, s⟩ = .ok i ⟨b'.table, w, s⟩ :=
    (indexPath_eq_ok hLeft).mpr (.inl ⟨movePath_grants h hRun, rfl⟩)
  exact (movePath_eq_ok hLeft).mpr (.inr ⟨source_free_after_movePath h hRun hDiffer, hIndexed⟩)

end Alone

/-! ## The whole move -/

section Outside

variable {source target : Text} (h : t.Consistent)
  (o : t.WritesOutside (.ofText source) (.ofText target))
  (hRun : move source target true ⟨t, writable, supply⟩ = .ok i b')

include h o hRun

/-- **A move that writes outside the source** leaves no row below it. -/
theorem nothing_below_after_move :
    ∀ r ∈ b'.table, (below (.ofText source)).contains r.path = false := by
  obtain ⟨-, ⟨hNodup, -⟩, hPath⟩ := (move_eq_ok h).mp hRun
  intro r hr
  rcases rows_of_movePath (h.carry hNodup) hPath hr with hTarget | ⟨hOld, -⟩
  · rw [hTarget]
    exact o.target_outside
  · obtain ⟨s, hs, rfl⟩ := List.mem_map.mp hOld
    exact o.carried_outside hs

/-- The second time there is nothing to carry, and the path itself has been moved. -/
theorem move_again_outside (s : Supply) :
    move source target true ⟨b'.table, writable, s⟩ = .ok i ⟨b'.table, writable, s⟩ := by
  have hNone := nothing_below_after_move h o hRun
  have hLeft := consistent_of_move h hRun
  obtain ⟨hWritable, ⟨hNodup, -⟩, hPath⟩ := (move_eq_ok h).mp hRun
  have hMayWrite (hWrites : Relocation.writes (.ofText source) b'.table) : writable = true :=
    hWritable ⟨hWrites.1, fun hClimbs =>
      absurd (Relocation.visits_eq_nil.mpr hNone) (hWrites.2 hClimbs)⟩
  refine (move_eq_ok hLeft).mpr ⟨hMayWrite, Relocation.fits_of_nothing hLeft hNone, ?_⟩
  rw [Relocation.relocate_carried_of_nothing hNone]
  exact movePath_again (h.carry hNodup) hPath (Path.ofText_isNormal target) o.target_ne writable s

end Outside

end Registry

namespace Table.Reachable

variable {t t' : Table} {source target : Text} {recursive writable : Bool}
  {supply supply' : Supply} {i : Identifier}

/-- **A move that has been made changes nothing when it is made again.**  If a path has been moved
to another one, alone, or with what lies below it when neither the target nor any path to which a
row was carried is the source or lies below it, then the same move succeeds on the table that the
first one has left.  It returns the same identifier, leaves the same rows in their order, and
draws no identifier. -/
theorem move_again (h : t.Reachable) (hDiffer : normalize target ≠ normalize source)
    (hOutside : recursive = true → t.WritesOutside (.ofText source) (.ofText target))
    (hMove : (Registry.move source target recursive).on t writable supply =
      (.ok i, t', supply')) (later : Supply) :
    (Registry.move source target recursive).on t' writable later = (.ok i, t', later) := by
  have hCons := h.consistent
  obtain ⟨w, hRun⟩ := on_eq_ok.mp hMove
  refine on_eq_ok.mpr ⟨writable, ?_⟩
  cases recursive with
  | true => exact Registry.move_again_outside hCons (hOutside rfl) hRun later
  | false =>
    rw [Registry.move, atomically_eq_ok] at hRun ⊢
    exact Registry.movePath_again hCons hRun (Path.ofText_isNormal target) hDiffer writable later

/-- The directory above has no row and is moved into a name: what lies two levels above comes to
lie beside that name, which gets a fresh identifier.  Made again, the move returns it. -/
theorem move_again_upwards :
    let t : Table := ((Call.indexAll [['.', '.', '/', '.', '.', '/', 'y'],
      ['.', '.', '/', 'x']]).action.on [] true (.ofSeed 0)).2.1
    let moved := (Registry.move ['.', '.'] ['W'] true).on t true (.ofSeed 2)
    t.Reachable ∧ normalize ['W'] ≠ normalize ['.', '.'] ∧
      t.WritesOutside (.ofText ['.', '.']) (.ofText ['W']) ∧
      ∃ i, moved.1 = .ok i ∧
        (Registry.move ['.', '.'] ['W'] true).on moved.2.1 true (.ofSeed 7) =
          (.ok i, moved.2.1, .ofSeed 7) := by
  intro t moved
  have hReachable : t.Reachable := .call _ _ _ (by decide) .empty
  have hCons := hReachable.consistent
  have hDiffer : normalize ['W'] ≠ normalize ['.', '.'] := by decide +kernel
  have o : t.WritesOutside (.ofText ['.', '.']) (.ofText ['W']) :=
    ⟨by decide +kernel, by decide +kernel, by decide +kernel⟩
  have hMirrored : t.mirrored (.ofText ['.', '.']) (.ofText ['W']) true =
      [['y'], ['w', '/', 'x']] := by
    rw [mirrored, originals_of_sorted (by decide +kernel)]
    decide +kernel
  have hFits : Relocation.Fits (.ofText ['.', '.']) (.ofText ['W']) t := by
    rw [o.fits_iff hCons, hMirrored]
    decide +kernel
  have hFresh : ∀ r ∈ t, r.key ≠ Key.ofId (Supply.ofSeed 2).next := by decide +kernel
  obtain ⟨i, hOk⟩ := (Registry.move_ok_iff hCons hFresh).mpr ⟨hFits, by decide +kernel⟩
  have hMove : moved = (.ok i, moved.2.1, moved.2.2) := by rw [← hOk]
  exact ⟨hReachable, hDiffer, o, i, hOk,
    hReachable.move_again hDiffer (fun _ => o) hMove (.ofSeed 7)⟩

end Table.Reachable

end PathRegistry
