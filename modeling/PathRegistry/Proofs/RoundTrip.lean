import PathRegistry.Proofs.Deleting
import PathRegistry.Proofs.Moving

/-!
# There and back

A path with a row is moved, with what lies below it, to a place where nothing is, neither at
the target nor below it, and then back.  Both moves succeed, and in the end the table is what
it was, row by row.

The target may lie inside the source, or be made of parent steps only, so that the way back
goes another way than the way there; and no order of the rows is in the way.  All of this
comes from one fact: since nothing was below the target, carrying back undoes the carrying on
every path of the table.  So no two rows can meet on either way, and no row is sent to where
another one still is.

## Main statements

* `Subtree.carried_carried` — carrying back undoes the carrying.
* `Registry.move_to_vacant`, `Registry.move_from_vacant` — the way there and the way back.
* `Table.Reachable.move_round_trip` — both together.
-/

namespace PathRegistry

open PathRegistry.Action Subtree Table

/-! ## Carrying back -/

namespace Subtree

variable {source target : Path} {path : Text}

section Back

variable (hs : source.IsNormal) (ht : target.IsNormal) (hClimbs : source.climbsOnly = false)
  (hCurrent : target ≠ .current) (hNormal : normalize path = path)

include hs ht hClimbs hCurrent hNormal

/-- What has been carried can be carried back to where it was. -/
theorem carry?_carried (hIn : (below source).contains path = true) :
    (below target).carry? (carried source target path) (below source) = some path := by
  rw [carried_eq_rerooted hs ht hClimbs hNormal hIn]
  obtain ⟨-, r, hr, rfl⟩ := (contains_iff source path).mp hIn
  rw [rerooted_append]
  exact carry?_eq_some.mpr ⟨hCurrent, r, hr, rfl, hNormal.symm⟩

variable (hVacant : target.covers true path = false)

include hVacant

/-- **Carrying back undoes the carrying** of a path that is neither the target nor below it. -/
theorem carried_carried : carried target source (carried source target path) = path := by
  cases hIn : (below source).contains path with
  | true => exact carried_of_carry? (carry?_carried hs ht hClimbs hCurrent hNormal hIn)
  | false =>
    rw [carried_of_outside hIn]
    exact carried_of_outside ((Path.covers_eq_false.mp hVacant).2 rfl)

/-- What has gone to its destination is carried back to where it was; the source itself is
still at the target then. -/
theorem carried_destination : carried target source (destination source target path) =
    Text.redirect source.text target.text path := by
  unfold destination Text.redirect
  split
  · exact carried_self target source
  · exact carried_carried hs ht hClimbs hCurrent hNormal hVacant

end Back

end Subtree

/-- To replace a path by one that is not there can be undone. -/
theorem Text.redirect_redirect (old : Text) {new path : Text} (h : path ≠ new) :
    redirect new old (redirect old new path) = path := by
  unfold redirect
  by_cases hOld : path = old
  · rw [if_pos hOld, if_pos rfl, hOld]
  · rw [if_neg hOld, if_neg h]

/-! ## The way there and the way back -/

/-- No row is at the path or below it. -/
def Table.Vacant (p : Path) (t : Table) : Prop := ∀ r ∈ t, p.covers true r.path = false

namespace Registry

variable {t : Table} {source target : Text} {i : Identifier} {supply : Supply}

section Vacant

variable (h : t.Consistent) (hClimbs : (Path.ofText source).climbsOnly = false)
  (hCurrent : Path.ofText target ≠ .current) (v : t.Vacant (.ofText target))
  (hSource : ⟨Key.ofId i, normalize source⟩ ∈ t)

include h hClimbs hCurrent v hSource

/-- **The way there**: every row goes to its destination. -/
theorem move_to_vacant : move source target true ⟨t, true, supply⟩ =
    .ok i ⟨t.relocate (destination (.ofText source) (.ofText target)), true, supply⟩ := by
  have hs := Path.ofText_isNormal source
  have ht := Path.ofText_isNormal target
  have hBack {r : Row} (hr : r ∈ t) : carried (.ofText target) (.ofText source)
      (carried (.ofText source) (.ofText target) r.path) = r.path :=
    carried_carried hs ht hClimbs hCurrent (h.normal r hr) (v r hr)
  -- what is carried comes to lie below the target, where no row was
  have hNew {r s : Row} (hr : r ∈ t) (hs' : s ∈ t) :
      (below (.ofText source)).carry? r.path (below (.ofText target)) ≠ some s.path := by
    intro hSent
    have hIn := contains_of_carry? hSent
    have hBelow := contains_of_carry? (carry?_carried hs ht hClimbs hCurrent (h.normal r hr) hIn)
    rw [carried_of_carry? hSent, (Path.covers_eq_false.mp (v s hs')).2 rfl] at hBelow
    cases hBelow
  have hNodup : ((t.relocate (carried (.ofText source) (.ofText target))).map (·.path)).Nodup := by
    rw [relocate_paths]
    refine List.Nodup.map_on (fun r hr s hs' hMeet => ?_) (List.Nodup.of_map _ h.paths_nodup)
    exact h.eq_of_path hr hs' (by rw [← hBack hr, hMeet, hBack hs'])
  have hDestination : t.relocate (arrival (.ofText source) (.ofText target)) =
      t.relocate (destination (.ofText source) (.ofText target)) :=
    relocate_congr fun r hr => arrival_of_ne (hNew hr hSource)
  refine (move_eq_ok h).mpr ⟨fun _ => rfl, ⟨hNodup,
    List.pairwise_of_forall_mem_list fun r hr s hs' =>
      hNew (Relocation.mem_visits.mp hr).1 (Relocation.mem_visits.mp hs').1⟩,
    (movePath_eq_ok (h.carry hNodup)).mpr (.inl ⟨?_, rfl, fun r hr hAt => ?_, ?_⟩)⟩
  · refine List.mem_map.mpr ⟨_, hSource, ?_⟩
    rw [Row.relocate]
    exact congrArg (Row.mk _) (carried_self _ _)
  · obtain ⟨s, hs', rfl⟩ := List.mem_map.mp hr
    have hPath : s.path = (Path.ofText target).text := by
      rw [← hBack hs', ← Row.relocate_path (carried _ _) s, hAt, carried_self]
    exact absurd hPath (Path.covers_eq_false.mp (v s hs')).1
  · rw [← hDestination, ← relocate_arrival]

omit hSource in
/-- Once every row is at its destination, carrying back leaves only the row of the source
elsewhere than it was: it is still at the target. -/
theorem carried_back :
    (t.relocate (destination (.ofText source) (.ofText target))).relocate
        (carried (.ofText target) (.ofText source)) =
      t.relocate (Text.redirect (normalize source) (normalize target)) ∧
    ((t.relocate (Text.redirect (normalize source) (normalize target))).map (·.path)).Nodup ∧
    ((Relocation.visits (.ofText target)
        (t.relocate (destination (.ofText source) (.ofText target)))).Pairwise fun r s =>
      (below (.ofText target)).carry? r.path (below (.ofText source)) ≠ some s.path) := by
  have hBack {r : Row} (hr : r ∈ t) : carried (.ofText target) (.ofText source)
      (destination (.ofText source) (.ofText target) r.path) =
      Text.redirect (normalize source) (normalize target) r.path :=
    carried_destination (Path.ofText_isNormal source) (Path.ofText_isNormal target) hClimbs
      hCurrent (h.normal r hr) (v r hr)
  refine ⟨?_, ?_, List.pairwise_of_forall_mem_list fun r hr s hs hSent => ?_⟩
  · rw [relocate_relocate]
    exact relocate_congr fun r hr => hBack hr
  · rw [relocate_paths]
    refine List.Nodup.map_on (fun r hr s hs hMeet => ?_) (List.Nodup.of_map _ h.paths_nodup)
    have hOld {r : Row} (hr : r ∈ t) := Text.redirect_redirect (normalize source)
      (Path.covers_eq_false.mp (v r hr)).1
    exact h.eq_of_path hr hs ((hOld hr).symm.trans ((congrArg _ hMeet).trans (hOld hs)))
  · -- a row that is carried back leaves the target, so it meets none that is still to move
    obtain ⟨u, hu, rfl⟩ := List.mem_map.mp (Relocation.mem_visits.mp hr).1
    have hBelow := (Relocation.mem_visits.mp hs).2
    rw [← carried_of_carry? hSent, Row.relocate_path, hBack hu, Text.redirect] at hBelow
    split at hBelow
    · rw [show normalize target = (Path.ofText target).text from rfl, contains_self] at hBelow
      cases hBelow
    · rw [(Path.covers_eq_false.mp (v u hu)).2 rfl] at hBelow
      cases hBelow

/-- **The way back**: every row is again where it was. -/
theorem move_from_vacant :
    move target source true
      ⟨t.relocate (destination (.ofText source) (.ofText target)), true, supply⟩ =
    .ok i ⟨t, true, supply⟩ := by
  obtain ⟨hCarried, hNodup, hApart⟩ := carried_back h hClimbs hCurrent v
  have hThere : Consistent (t.relocate (destination (.ofText source) (.ofText target))) := by
    have hRun : move source target true ⟨t, true, supply⟩ = _ :=
      move_to_vacant h hClimbs hCurrent v hSource
    exact consistent_of_move h hRun
  have hBack : Consistent (t.relocate (Text.redirect (normalize source) (normalize target))) := by
    rw [← hCarried] at hNodup ⊢
    exact hThere.carry hNodup
  refine (move_eq_ok hThere).mpr ⟨fun _ => rfl, ⟨hCarried ▸ hNodup, hApart⟩, ?_⟩
  rw [hCarried]
  refine (movePath_eq_ok hBack).mpr (.inl ⟨?_, rfl, fun r hr hAt => ?_, ?_⟩)
  · exact List.mem_map.mpr ⟨_, hSource, congrArg (Row.mk _) (if_pos rfl)⟩
  · obtain ⟨s, -, rfl⟩ := List.mem_map.mp hr
    rw [Row.relocate_path, Text.redirect] at hAt ⊢
    split at hAt
    · rw [if_pos ‹_›]
      rfl
    · exact absurd hAt ‹_›
  · have hSame : (t.relocate (Text.redirect (normalize source) (normalize target))).relocate
        (Text.redirect (normalize target) (normalize source)) = t := by
      rw [relocate_relocate]
      exact relocate_eq_self fun r hr =>
        Text.redirect_redirect _ (Path.covers_eq_false.mp (v r hr)).1
    exact congrArg (Bench.mk · true supply) hSame.symm

end Vacant

end Registry

namespace Table.Reachable

variable {t : Table} {source target : Text} {i : Identifier}

/-- **There and back.**  A path with a row that is not made of parent steps only is moved, with
what lies below it, to a target other than the current directory that has no row, nor any
below it.  The move succeeds and takes every row to its destination; the move back succeeds
too and leaves the table as it was.  Both yield the identifier of the path, and neither takes
a fresh one. -/
theorem move_round_trip (h : t.Reachable) (hClimbs : (Path.ofText source).climbsOnly = false)
    (hCurrent : normalize target ≠ ['.'])
    (hSource : t.idAt (normalize source) = .ok (some i)) (v : t.Vacant (.ofText target))
    (supply : Supply) :
    (Registry.move source target true).on t true supply =
      (.ok i, t.relocate (destination (.ofText source) (.ofText target)), supply) ∧
    (Registry.move target source true).on
        (t.relocate (destination (.ofText source) (.ofText target))) true supply =
      (.ok i, t, supply) := by
  have hCons := h.consistent
  have hOther : Path.ofText target ≠ .current := by
    intro hSame
    exact hCurrent (congrArg Path.text hSame)
  have hMem := hCons.idAt_eq_some.mp hSource
  exact ⟨on_eq_ok.mpr ⟨true, Registry.move_to_vacant hCons hClimbs hOther v hMem⟩,
    on_eq_ok.mpr ⟨true, Registry.move_from_vacant hCons hClimbs hOther v hMem⟩⟩

/-- The root moved above the current directory and back: the rows go there all at once and
come back one by one. -/
theorem move_round_trip_of_root :
    let t : Table := ((Call.indexAll [['/'], ['b'], ['/', 'a']]).action.on
      [] true (.ofSeed 0)).2.1
    let moved := t.relocate (destination (.ofText ['/']) (.ofText ['.', '.']))
    t.Reachable ∧ t.Vacant (.ofText ['.', '.']) ∧
      moved.map (·.path) = [['.', '.'], ['b'], ['.', '.', '/', 'a']] ∧
      (Registry.move ['/'] ['.', '.'] true).on t true (.ofSeed 3) =
        (.ok ((Supply.ofSeed 0).draw 0), moved, .ofSeed 3) ∧
      (Registry.move ['.', '.'] ['/'] true).on moved true (.ofSeed 3) =
        (.ok ((Supply.ofSeed 0).draw 0), t, .ofSeed 3) := by
  intro t moved
  have hReachable : t.Reachable := .call _ _ _ (by decide) .empty
  have hVacant : t.Vacant (.ofText ['.', '.']) := by
    unfold Vacant
    decide +kernel
  have hSource : t.idAt (normalize ['/']) = .ok (some ((Supply.ofSeed 0).draw 0)) := by
    decide +kernel
  exact ⟨hReachable, hVacant, by decide +kernel,
    hReachable.move_round_trip (by decide +kernel) (by decide +kernel) hSource hVacant _⟩

end Table.Reachable

end PathRegistry
