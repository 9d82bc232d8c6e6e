import PathRegistry.Proofs.Descendants
import PathRegistry.Proofs.Reachability

/-!
# Moving a path with what lies below it

A recursive move carries the rows below the source first.  Only then it looks up
the row of the source, points it at the target, or indexes the target if there is
no such row.  So a row that has been carried onto the source itself, as `a/a` is
when `a` is moved to the current directory, is taken for the row of the source
and moved once more; and it cannot be carried there as long as the row of the
source is in its place.

## Main statements

* `Registry.movePath_eq_ok`, `Registry.move_eq_ok` — when a move succeeds, and what
  it leaves.
* `Table.Reachable.move_places` — where every row is after a move, and when that is
  where the relocation all at once has it.
* `Table.Reachable.move_succeeds_iff` — when a relocation that is possible all at once
  is also possible in the steps of a move.
-/

namespace PathRegistry

open PathRegistry.Action Subtree Table

/-! ## The places that rows are moved to -/

/-- The path with `old` replaced by `new`, if it is `old`. -/
def Text.redirect (old new path : Text) : Text := if path = old then new else path

namespace Subtree

variable {source target : Path} {path : Text}

/-- Where the relocation all at once has a path: the source goes to the target, and what
lies below it is carried along. -/
def destination (source target : Path) (path : Text) : Text :=
  if path = source.text then target.text else carried source target path

/-- A path that is neither the source nor below it stays. -/
theorem destination_of_uncovered (hAway : path ≠ source.text)
    (hOut : (below source).contains path = false) : destination source target path = path := by
  rw [destination, if_neg hAway, carried_of_outside hOut]

/-- Where the steps of a move leave a path: it is carried, and goes to the target if it
is the source by then. -/
def arrival (source target : Path) (path : Text) : Text :=
  Text.redirect source.text target.text (carried source target path)

/-- A subtree carried to itself stays. -/
theorem carry?_self (hNormal : normalize path = path)
    (hIn : (below source).contains path = true) :
    (below source).carry? path (below source) = some path := by
  obtain ⟨hCurrent, r, hr, rfl⟩ := (contains_iff source path).mp hIn
  exact carry?_eq_some.mpr ⟨hCurrent, r, hr, rfl, hNormal.symm⟩

theorem ne_source_of_carry? {q : Text} (h : (below source).carry? path (below target) = some q) :
    path ≠ source.text := by
  intro hPath
  have hIn := contains_of_carry? h
  rw [hPath, contains_self] at hIn
  cases hIn

theorem carried_eq_source (h : carried source target path = source.text) :
    path = source.text ∨ (below source).carry? path (below target) = some source.text := by
  cases hCarry : (below source).carry? path (below target) with
  | none =>
    rw [carried_of_outside (carry?_eq_none.mp hCarry)] at h
    exact .inl h
  | some q =>
    rw [carried_of_carry? hCarry] at h
    exact .inr (by rw [h])

theorem arrival_of_ne (h : (below source).carry? path (below target) ≠ some source.text) :
    arrival source target path = destination source target path := by
  unfold arrival destination Text.redirect
  by_cases hPath : path = source.text
  · rw [hPath, carried_self, if_pos rfl]
  · rw [if_neg hPath, if_neg]
    intro hSource
    rcases carried_eq_source hSource with hSame | hOnto
    · exact hPath hSame
    · exact h hOnto

/-- A path that is carried onto the source goes on to the target, which is another one. -/
theorem arrival_of_onto (hs : source.IsNormal) (ht : target.IsNormal)
    (hNormal : normalize path = path)
    (h : (below source).carry? path (below target) = some source.text) :
    arrival source target path = target.text ∧
      destination source target path = source.text ∧ source.text ≠ target.text := by
  have hPath := ne_source_of_carry? h
  refine ⟨?_, ?_, fun hSame => ?_⟩
  · rw [arrival, carried_of_carry? h, Text.redirect, if_pos rfl]
  · rw [destination, if_neg hPath, carried_of_carry? h]
  · have hIn := contains_of_carry? h
    rw [← Path.text_injective hs ht hSame, carry?_self hNormal hIn, Option.some.injEq] at h
    exact hPath h

end Subtree

namespace Registry

variable {source target p : Path} {t : Table} {i : Identifier} {writable : Bool}
  {supply : Supply} {b' : Bench}

/-! ## The path itself -/

/-- **Indexing a path** finds its row or adds one. -/
theorem indexPath_eq_ok (h : t.Consistent) :
    indexPath p ⟨t, writable, supply⟩ = .ok i b' ↔
      (⟨Key.ofId i, p.text⟩ ∈ t ∧ b' = ⟨t, writable, supply⟩) ∨
        (t.holdsPath p.text = false ∧ writable = true ∧
          (∀ r ∈ t, r.key ≠ Key.ofId supply.next) ∧ i = supply.next ∧
          b' = ⟨t ++ [⟨Key.ofId i, p.text⟩], writable, supply.rest⟩) := by
  obtain ⟨i?, hId⟩ := h.idAt_ok p.text
  rw [indexPath, read_bind hId]
  cases i? with
  | some j =>
    have hHolds : t.holdsPath p.text = true := holdsPath_iff.mpr ⟨_, idAt_mem hId, rfl⟩
    rw [pure_eq_ok, ← h.idAt_eq_some, hId, hHolds]
    simp [eq_comm]
  | none =>
    have hHolds : t.holdsPath p.text = false := idAt_eq_none.mp hId
    have hAbsent : ⟨Key.ofId i, p.text⟩ ∉ t := fun hMem =>
      holdsPath_eq_false.mp hHolds _ hMem rfl
    simp only [bind_eq_ok, fresh_eq_ok, Action.insert_eq_ok, Table.insert_eq_ok, pure_eq_ok]
    constructor
    · rintro ⟨j, b, ⟨rfl, rfl⟩, u, c, ⟨hWritable, t', ⟨-, hKeys, rfl⟩, rfl⟩, rfl, rfl⟩
      exact .inr ⟨hHolds, hWritable, hKeys, rfl, rfl⟩
    · rintro (⟨hMem, -⟩ | ⟨-, hWritable, hKeys, rfl, rfl⟩)
      · exact absurd hMem hAbsent
      · exact ⟨_, _, ⟨rfl, rfl⟩, (), _, ⟨hWritable, _, ⟨hHolds, hKeys, rfl⟩, rfl⟩, rfl, rfl⟩

/-- With a fresh identifier at hand, a path can always be indexed. -/
theorem indexPath_succeeds (h : t.Consistent) (hFresh : ∀ r ∈ t, r.key ≠ Key.ofId supply.next) :
    ∃ i b', indexPath p ⟨t, true, supply⟩ = .ok i b' := by
  simp only [indexPath_eq_ok h]
  cases hHolds : t.holdsPath p.text with
  | true =>
    obtain ⟨r, hr, hPath⟩ := holdsPath_iff.mp hHolds
    obtain ⟨i, hKey⟩ := h.identified r hr
    have hMem : ⟨Key.ofId i, p.text⟩ ∈ t := by
      rw [← hKey, ← hPath]
      exact hr
    exact ⟨i, _, .inl ⟨hMem, rfl⟩⟩
  | false => exact ⟨_, _, .inr ⟨rfl, trivial, hFresh, rfl, rfl⟩⟩

/-- To point the row of a path at another path is to replace the one path by the other. -/
theorem map_pointed (h : t.Consistent) {old new : Text} (hMem : ⟨Key.ofId i, old⟩ ∈ t) :
    t.map (pointed i new) = t.relocate (Text.redirect old new) := by
  refine List.map_congr_left fun r hr => ?_
  by_cases hPath : r.path = old
  · have hSame : r = ⟨Key.ofId i, old⟩ := h.eq_of_path hr hMem hPath
    rw [hSame, pointed_of_key rfl, Row.relocate, Text.redirect, if_pos rfl]
  · have hKey : r.key ≠ Key.ofId i := by
      intro hKey
      rw [h.eq_of_key hr hMem hKey] at hPath
      exact hPath rfl
    rw [pointed_of_ne hKey, Row.relocate, Text.redirect, if_neg hPath]

/-- **Moving a path alone** points its row at the target, if no other row is there, and
indexes the target if there is no such row. -/
theorem movePath_eq_ok (h : t.Consistent) :
    movePath source target ⟨t, writable, supply⟩ = .ok i b' ↔
      (⟨Key.ofId i, source.text⟩ ∈ t ∧ writable = true ∧
          (∀ r ∈ t, r.path = target.text → r.path = source.text) ∧
          b' = ⟨t.relocate (Text.redirect source.text target.text), writable, supply⟩) ∨
        (t.holdsPath source.text = false ∧
          indexPath target ⟨t, writable, supply⟩ = .ok i b') := by
  obtain ⟨i?, hId⟩ := h.idAt_ok source.text
  rw [movePath, read_bind hId]
  cases i? with
  | some j =>
    have hMem : ⟨Key.ofId j, source.text⟩ ∈ t := idAt_mem hId
    have hHolds : t.holdsPath source.text = true := holdsPath_iff.mpr ⟨_, hMem, rfl⟩
    have hSame (k : Identifier) : ⟨Key.ofId k, source.text⟩ ∈ t ↔ j = k := by
      rw [← h.idAt_eq_some, hId, Except.ok.injEq, Option.some.injEq]
    have hFree : (∀ r ∈ t, r.path = target.text → r.key = Key.ofId j) ↔
        ∀ r ∈ t, r.path = target.text → r.path = source.text := by
      refine forall₂_congr fun r hr => imp_congr_right fun _ => ⟨fun hKey => ?_, fun hPath => ?_⟩
      · rw [h.eq_of_key hr hMem hKey]
      · rw [h.eq_of_path hr hMem hPath]
    simp only [bind_eq_ok, discard_eq_ok, write_eq_ok, pure_eq_ok, hHolds, hSame,
      repoint_eq_ok ⟨_, hMem, rfl⟩, hFree, map_pointed h hMem, Bool.true_eq_false, false_and,
      or_false]
    constructor
    · rintro ⟨u, b, ⟨n, hWritable, t', ⟨hApart, -, rfl⟩, rfl⟩, rfl, rfl⟩
      exact ⟨rfl, hWritable, hApart, rfl⟩
    · rintro ⟨rfl, hWritable, hApart, rfl⟩
      exact ⟨(), _, ⟨_, hWritable, _, ⟨hApart, rfl, rfl⟩, rfl⟩, rfl, rfl⟩
  | none =>
    have hHolds : t.holdsPath source.text = false := idAt_eq_none.mp hId
    have hAbsent : ⟨Key.ofId i, source.text⟩ ∉ t := fun hMem =>
      holdsPath_eq_false.mp hHolds _ hMem rfl
    simp [hHolds, hAbsent]

/-- With a fresh identifier at hand, moving a path alone fails only if its row would
meet another one at the target. -/
theorem movePath_succeeds (h : t.Consistent) (hFresh : ∀ r ∈ t, r.key ≠ Key.ofId supply.next) :
    (∃ i b', movePath source target ⟨t, true, supply⟩ = .ok i b') ↔
      ((∃ r ∈ t, r.path = source.text) →
        ∀ r ∈ t, r.path = target.text → r.path = source.text) := by
  simp only [movePath_eq_ok h]
  constructor
  · rintro ⟨i, b', ⟨-, -, hFree, -⟩ | ⟨hNone, -⟩⟩ hSource
    · exact hFree
    · rw [holdsPath_iff.mpr hSource] at hNone
      cases hNone
  · intro hFree
    by_cases hSource : ∃ r ∈ t, r.path = source.text
    · obtain ⟨r, hr, hPath⟩ := hSource
      obtain ⟨i, hKey⟩ := h.identified r hr
      have hMem : ⟨Key.ofId i, source.text⟩ ∈ t := by
        rw [← hKey, ← hPath]
        exact hr
      exact ⟨i, _, .inl ⟨hMem, trivial, hFree ⟨r, hr, hPath⟩, rfl⟩⟩
    · have hNone : t.holdsPath source.text = false := by
        rw [← Bool.not_eq_true, holdsPath_iff]
        exact hSource
      obtain ⟨i, b', hRun⟩ := indexPath_succeeds (p := target) h hFresh
      exact ⟨i, b', .inr ⟨hNone, hRun⟩⟩

end Registry

/-! ## What the carrying leaves -/

namespace Table

variable {source target : Path} {t : Table}

/-- A row carried onto the source is the only one that may lie there or at the target by
then. -/
theorem Consistent.apart_of_onto (h : t.Consistent) (hs : source.IsNormal)
    (ht : target.IsNormal) (hNodup : ((t.relocate (carried source target)).map (·.path)).Nodup)
    (hFree : ∀ r ∈ t, carried source target r.path = target.text →
      carried source target r.path = source.text)
    {r : Row} (hr : r ∈ t)
    (hCarry : (below source).carry? r.path (below target) = some source.text) :
    ∀ s ∈ t, s.path ≠ source.text ∧ carried source target s.path ≠ target.text := by
  intro s hsMem
  constructor
  · intro hPath
    rw [relocate_paths] at hNodup
    have hSame : r = s := by
      apply List.inj_on_of_nodup_map hNodup hr hsMem
      rw [carried_of_carry? hCarry, hPath, carried_self]
    rw [hSame] at hCarry
    exact ne_source_of_carry? hCarry hPath
  · intro hTarget
    have hApart := (arrival_of_onto hs ht (h.normal r hr) hCarry).2.2
    exact hApart ((hFree s hsMem hTarget).symm.trans hTarget)

theorem relocate_arrival (source target : Path) (t : Table) :
    (t.relocate (carried source target)).relocate (Text.redirect source.text target.text) =
      t.relocate (arrival source target) := List.map_map

/-- If no row is carried onto the source, the relocation all at once is the carrying and
one step more: it keeps the paths distinct only if both do. -/
theorem fits_of_destination
    (hDistinct : ((t.relocate (destination source target)).map (·.path)).Nodup)
    (hOnto : ∀ r ∈ t, (below source).carry? r.path (below target) ≠ some source.text) :
    ((t.relocate (carried source target)).map (·.path)).Nodup ∧
      ((∃ r ∈ t, carried source target r.path = source.text) →
        ∀ r ∈ t, carried source target r.path = target.text →
          carried source target r.path = source.text) := by
  have hArrival : t.relocate (arrival source target) = t.relocate (destination source target) :=
    relocate_congr fun r hr => arrival_of_ne (hOnto r hr)
  rw [← hArrival] at hDistinct
  constructor
  · rw [← relocate_arrival, relocate_paths] at hDistinct
    apply List.Nodup.of_map (Text.redirect source.text target.text)
    rw [List.map_map]
    exact hDistinct
  · rintro ⟨r, hr, hSource⟩ s hs hTarget
    by_contra hOther
    rw [relocate_paths] at hDistinct
    have hFirst : arrival source target r.path = target.text := if_pos hSource
    have hSecond : arrival source target s.path = target.text := (if_neg hOther).trans hTarget
    have hSame : r = s := List.inj_on_of_nodup_map hDistinct hr hs (hFirst.trans hSecond.symm)
    rw [hSame] at hSource
    exact hOther hSource

end Table

/-! ## Everything -/

namespace Registry

variable {t : Table} {i : Identifier} {writable : Bool} {supply : Supply} {b' : Bench}

/-- **A recursive move** carries the rows below the source, and then moves the path
itself on the table that results. -/
theorem move_eq_ok (h : t.Consistent) {source target : Text} :
    move source target true ⟨t, writable, supply⟩ = .ok i b' ↔
      (Relocation.writes (.ofText source) t → writable = true) ∧
        Relocation.Fits (.ofText source) (.ofText target) t ∧
        movePath (.ofText source) (.ofText target)
          ⟨t.relocate (carried (.ofText source) (.ofText target)), writable, supply⟩ =
            .ok i b' := by
  have hs := Path.ofText_isNormal source
  have ht := Path.ofText_isNormal target
  unfold move
  rw [atomically_eq_ok]
  constructor
  · intro hRun
    obtain ⟨u, b, hBelow, hRun⟩ := bind_eq_ok.mp hRun
    obtain ⟨n, hBelow⟩ := discard_eq_ok.mp hBelow
    obtain ⟨hWritable, -, rfl, hFits⟩ := (Relocation.move_eq_ok h hs ht).mp hBelow
    exact ⟨hWritable, hFits, hRun⟩
  · rintro ⟨hWritable, hFits, hRun⟩
    have hBelow : Relocation.move (.ofText source) (.ofText target) ⟨t, writable, supply⟩ =
        .ok _ ⟨t.relocate (carried (.ofText source) (.ofText target)), writable, supply⟩ :=
      (Relocation.move_eq_ok h hs ht).mpr ⟨hWritable, rfl, rfl, hFits⟩
    exact bind_eq_ok.mpr ⟨(), _, discard_eq_ok.mpr ⟨_, hBelow⟩, hRun⟩

/-- With a fresh identifier at hand, a recursive move fails only if the rows below the source
do not fit, or the row that has the path of the source in the end would meet another one at
the target. -/
theorem move_ok_iff (h : t.Consistent) (hFresh : ∀ r ∈ t, r.key ≠ Key.ofId supply.next)
    {source target : Text} :
    (∃ i, ((move source target true).on t true supply).1 = .ok i) ↔
      Relocation.Fits (.ofText source) (.ofText target) t ∧
        ((∃ r ∈ t, carried (.ofText source) (.ofText target) r.path = normalize source) →
          ∀ r ∈ t, carried (.ofText source) (.ofText target) r.path = normalize target →
            carried (.ofText source) (.ofText target) r.path = normalize source) := by
  let u := t.relocate (carried (.ofText source) (.ofText target))
  have hPath (hNodup : (u.map (·.path)).Nodup) :
      (∃ i b', movePath (.ofText source) (.ofText target) ⟨u, true, supply⟩ = .ok i b') ↔
        ((∃ r ∈ t, carried (.ofText source) (.ofText target) r.path = normalize source) →
          ∀ r ∈ t, carried (.ofText source) (.ofText target) r.path = normalize target →
            carried (.ofText source) (.ofText target) r.path = normalize source) := by
    rw [movePath_succeeds (h.carry hNodup) (unused_relocate hFresh _)]
    simp only [relocate, List.mem_map, exists_exists_and_eq_and, forall_exists_index, and_imp,
      forall_apply_eq_imp_iff₂, Row.relocate_path]
    rfl
  simp only [on_fst_eq_ok, move_eq_ok h]
  constructor
  · rintro ⟨i, b', -, hFits, hRun⟩
    exact ⟨hFits, (hPath hFits.1).mp ⟨i, b', hRun⟩⟩
  · rintro ⟨hFits, hFree⟩
    obtain ⟨i, b', hRun⟩ := (hPath hFits.1).mpr hFree
    exact ⟨i, b', fun _ => trivial, hFits, hRun⟩

/-- The same, with what it takes to move the rows below the source written out. -/
theorem move_succeeds (h : t.Consistent) (hFresh : ∀ r ∈ t, r.key ≠ Key.ofId supply.next)
    {source target : Text} :
    (∃ i, ((move source target true).on t true supply).1 = .ok i) ↔
      ((t.relocate (carried (.ofText source) (.ofText target))).map (·.path)).Nodup ∧
        ((Relocation.visits (.ofText source) t).Pairwise fun r s =>
          (below (.ofText source)).carry? r.path (below (.ofText target)) ≠ some s.path) ∧
        ((∃ r ∈ t, carried (.ofText source) (.ofText target) r.path = normalize source) →
          ∀ r ∈ t, carried (.ofText source) (.ofText target) r.path = normalize target →
            carried (.ofText source) (.ofText target) r.path = normalize source) := by
  rw [move_ok_iff h hFresh, Relocation.Fits, and_assoc]

theorem consistent_of_move (h : t.Consistent) {source target : Text} {recursive : Bool}
    (hRun : move source target recursive ⟨t, writable, supply⟩ = .ok i b') :
    b'.table.Consistent := by
  have hKept := keeps_move source target recursive ⟨t, writable, supply⟩ h
  rwa [hRun] at hKept

/-- A path moved alone goes to the target, if it has a row, and one row is added at most, at the
target. -/
theorem table_of_movePath (h : t.Consistent) {source target : Path}
    (hRun : movePath source target ⟨t, writable, supply⟩ = .ok i b') :
    ∃ added : Table, added.length ≤ 1 ∧ (∀ r ∈ added, r.path = target.text) ∧
      b'.table = t.relocate (Text.redirect source.text target.text) ++ added := by
  have hNothing : ∀ r ∈ ([] : Table), r.path = target.text := fun r hr => by cases hr
  rcases (movePath_eq_ok h).mp hRun with ⟨-, -, -, rfl⟩ | ⟨hNone, hIndex⟩
  · exact ⟨[], Nat.zero_le 1, hNothing, (List.append_nil _).symm⟩
  · have hSame : t.relocate (Text.redirect source.text target.text) = t :=
      relocate_eq_self fun r hr => if_neg (holdsPath_eq_false.mp hNone r hr)
    rw [hSame]
    rcases (indexPath_eq_ok h).mp hIndex with ⟨-, rfl⟩ | ⟨-, -, -, -, rfl⟩
    · exact ⟨[], Nat.zero_le 1, hNothing, (List.append_nil _).symm⟩
    · refine ⟨[_], Nat.le_refl 1, fun r hr => ?_, rfl⟩
      rw [List.mem_singleton.mp hr]

/-- A recursive move leaves every row at its arrival, and adds one row at most, at the target. -/
theorem table_of_move (h : t.Consistent) {source target : Text}
    (hRun : move source target true ⟨t, writable, supply⟩ = .ok i b') :
    ∃ added : Table, added.length ≤ 1 ∧ (∀ r ∈ added, r.path = normalize target) ∧
      b'.table = t.relocate (arrival (.ofText source) (.ofText target)) ++ added := by
  obtain ⟨-, ⟨hNodup, -⟩, hPath⟩ := (move_eq_ok h).mp hRun
  rw [← relocate_arrival]
  exact table_of_movePath (h.carry hNodup) hPath

end Registry

namespace Table.Reachable

variable {t t' : Table} {source target : Text} {writable : Bool} {supply supply' : Supply}
  {i : Identifier}

/-- **The places of rows after a recursive move**: every row is at its arrival.  All of
them are where the relocation all at once has them if and only if no row is carried
onto the source. -/
theorem move_places (h : t.Reachable)
    (hMove : (Registry.move source target true).on t writable supply = (.ok i, t', supply')) :
    (∀ j path, t.pathOf? j = some path →
        t'.pathOf? j = some (arrival (.ofText source) (.ofText target) path)) ∧
      ((∀ j path, t.pathOf? j = some path →
          t'.pathOf? j = some (destination (.ofText source) (.ofText target) path)) ↔
        ∀ r ∈ t, (Subtree.below (.ofText source)).carry? r.path (Subtree.below (.ofText target)) ≠
          some (normalize source)) := by
  have hCons := h.consistent
  obtain ⟨w, hRun⟩ := on_eq_ok.mp hMove
  have hCons' : t'.Consistent := Registry.consistent_of_move hCons hRun
  have hPlaces : ∀ j path, t.pathOf? j = some path →
      t'.pathOf? j = some (arrival (.ofText source) (.ofText target) path) := by
    intro j path hPath
    obtain ⟨added, -, -, hTable⟩ := Registry.table_of_move hCons hRun
    rw [hCons'.pathOf?_eq_some, show t' = _ from hTable]
    exact List.mem_append_left _ (List.mem_map.mpr ⟨_, hCons.pathOf?_eq_some.mp hPath, rfl⟩)
  refine ⟨hPlaces, fun hAll r hr hOnto => ?_, fun hNone j path hPath => ?_⟩
  · obtain ⟨j, hKey⟩ := hCons.identified r hr
    have hPath : t.pathOf? j = some r.path := hCons.pathOf?_eq_some.mpr (hKey ▸ hr)
    obtain ⟨hArrival, hDestination, hApart⟩ := arrival_of_onto (Path.ofText_isNormal source)
      (Path.ofText_isNormal target) (hCons.normal r hr) hOnto
    have hBoth := (hAll j _ hPath).symm.trans (hPlaces j _ hPath)
    rw [hArrival, hDestination, Option.some.injEq] at hBoth
    exact hApart hBoth
  · rw [hPlaces j path hPath, arrival_of_ne (hNone _ (hCons.pathOf?_eq_some.mp hPath))]

/-- A path moved below itself takes along what lay below it. -/
theorem move_places_inwards :
    let t : Table := ((Call.indexAll [['a'], ['a', '/', 'b']]).action.on [] true (.ofSeed 0)).2.1
    let moved := (Registry.move ['a'] ['a', '/', 'c'] true).on t true (.ofSeed 2)
    t.Reachable ∧ moved.1 = .ok ((Supply.ofSeed 0).draw 0) ∧
      t.pathOf? ((Supply.ofSeed 0).draw 1) = some ['a', '/', 'b'] ∧
      moved.2.1.pathOf? ((Supply.ofSeed 0).draw 1) = some ['a', '/', 'c', '/', 'b'] := by
  intro t moved
  have hReachable : t.Reachable := .call _ _ _ (by decide) .empty
  have hOk : moved.1 = .ok ((Supply.ofSeed 0).draw 0) := by decide +kernel
  have hBefore : t.pathOf? ((Supply.ofSeed 0).draw 1) = some ['a', '/', 'b'] := by
    decide +kernel
  have hMove : moved = (.ok ((Supply.ofSeed 0).draw 0), moved.2.1, moved.2.2) := by rw [← hOk]
  refine ⟨hReachable, hOk, hBefore, ?_⟩
  rw [(hReachable.move_places hMove).1 _ _ hBefore]
  decide +kernel

/-- Not every row is where the relocation all at once has it: when `a` has no row and is
moved to the current directory, the row of `a/a` ends there and not at `a`. -/
theorem not_all_at_destination :
    ¬ ∀ (t t' : Table) (source target : Text) (writable : Bool) (supply supply' : Supply)
        (i : Identifier), t.Reachable →
        (Registry.move source target true).on t writable supply = (.ok i, t', supply') →
        ∀ j path, t.pathOf? j = some path →
          t'.pathOf? j = some (destination (.ofText source) (.ofText target) path) := by
  intro hAll
  let t : Table := ((Call.index ['a', '/', 'a']).action.on [] true (.ofSeed 0)).2.1
  let moved := (Registry.move ['a'] ['.'] true).on t true (.ofSeed 1)
  have hOk : moved.1 = .ok ((Supply.ofSeed 0).draw 0) := by decide +kernel
  have hMove : moved = (.ok ((Supply.ofSeed 0).draw 0), moved.2.1, moved.2.2) := by rw [← hOk]
  have hPlace := hAll t moved.2.1 ['a'] ['.'] true (.ofSeed 1) moved.2.2 _
    (.call _ _ _ (by decide) .empty) hMove ((Supply.ofSeed 0).draw 0) ['a', '/', 'a'] (by decide +kernel)
  have hElsewhere : moved.2.1.pathOf? ((Supply.ofSeed 0).draw 0) = some ['.'] := by
    decide +kernel
  rw [hElsewhere] at hPlace
  revert hPlace
  decide +kernel

/-- **When a recursive move succeeds** whose relocation all at once would keep the paths
distinct: if no row is carried to where one that is visited later still is, and if no
row is carried onto the source, unless the source has no row and nothing else is
carried to the target. -/
theorem move_succeeds_iff (h : t.Reachable) (hFresh : ∀ r ∈ t, r.key ≠ Key.ofId supply.next)
    (hDistinct :
      ((t.relocate (destination (.ofText source) (.ofText target))).map (·.path)).Nodup) :
    (∃ i, ((Registry.move source target true).on t true supply).1 = .ok i) ↔
      ((Relocation.visits (.ofText source) t).Pairwise fun r s =>
        (Subtree.below (.ofText source)).carry? r.path (Subtree.below (.ofText target)) ≠
          some s.path) ∧
      ((∀ r ∈ t, (Subtree.below (.ofText source)).carry? r.path
          (Subtree.below (.ofText target)) ≠ some (normalize source)) ∨
        ∀ r ∈ t, r.path ≠ normalize source ∧
          carried (.ofText source) (.ofText target) r.path ≠ normalize target) := by
  have hCons := h.consistent
  have hs := Path.ofText_isNormal source
  have ht := Path.ofText_isNormal target
  rw [Registry.move_succeeds hCons hFresh]
  constructor
  · rintro ⟨hNodup, hLater, hFree⟩
    refine ⟨hLater, ?_⟩
    by_cases hOnto : ∃ r ∈ t, (Subtree.below (.ofText source)).carry? r.path
        (Subtree.below (.ofText target)) = some (normalize source)
    · obtain ⟨r, hr, hCarry⟩ := hOnto
      have hFree' := hFree ⟨r, hr, carried_of_carry? hCarry⟩
      exact .inr (hCons.apart_of_onto hs ht hNodup hFree' hr hCarry)
    · exact .inl fun r hr hCarry => hOnto ⟨r, hr, hCarry⟩
  · rintro ⟨hLater, hOnto | hAway⟩
    · obtain ⟨hNodup, hFree⟩ := fits_of_destination hDistinct hOnto
      exact ⟨hNodup, hLater, hFree⟩
    · have hCarried : t.relocate (destination (.ofText source) (.ofText target)) =
          t.relocate (carried (.ofText source) (.ofText target)) :=
        relocate_congr fun r hr => if_neg (hAway r hr).1
      rw [hCarried] at hDistinct
      exact ⟨hDistinct, hLater, fun _ s hs hTarget => absurd hTarget (hAway s hs).2⟩

/-- A path with a row can be moved to the directory that it is in, if no row below it
takes its place. -/
theorem move_succeeds_iff_upwards :
    let t : Table :=
      ((Call.indexAll [['a'], ['a', '/', 'a', '/', 'b']]).action.on [] true (.ofSeed 0)).2.1
    t.Reachable ∧ (∀ r ∈ t, r.key ≠ Key.ofId (Supply.ofSeed 2).next) ∧
      ((t.relocate (destination (.ofText ['a']) (.ofText ['.']))).map (·.path)).Nodup ∧
      ∃ i, ((Registry.move ['a'] ['.'] true).on t true (.ofSeed 2)).1 = .ok i := by
  intro t
  have hReachable : t.Reachable := .call _ _ _ (by decide) .empty
  have hFresh : ∀ r ∈ t, r.key ≠ Key.ofId (Supply.ofSeed 2).next := by decide +kernel
  have hDistinct :
      ((t.relocate (destination (.ofText ['a']) (.ofText ['.']))).map (·.path)).Nodup := by
    decide +kernel
  exact ⟨hReachable, hFresh, hDistinct, (hReachable.move_succeeds_iff hFresh hDistinct).mpr
    ⟨by decide +kernel, .inl (by decide +kernel)⟩⟩

/-- A move may fail where the relocation all at once would keep the paths distinct: when
`a` has a row and is moved to the current directory, `a/a` finds `a` taken, which is to be
vacated only afterwards. -/
theorem not_always_succeeds :
    ¬ ∀ (t : Table) (source target : Text) (supply : Supply), t.Reachable →
        (∀ r ∈ t, r.key ≠ Key.ofId supply.next) →
        ((t.relocate (destination (.ofText source) (.ofText target))).map (·.path)).Nodup →
        ∃ i, ((Registry.move source target true).on t true supply).1 = .ok i := by
  intro hAll
  let t : Table := ((Call.indexAll [['a'], ['a', '/', 'a']]).action.on [] true (.ofSeed 0)).2.1
  have hFailed : ((Registry.move ['a'] ['.'] true).on t true (.ofSeed 2)).1.toBool = false := by
    decide +kernel
  obtain ⟨i, hOk⟩ := hAll t ['a'] ['.'] (.ofSeed 2) (.call _ _ _ (by decide) .empty) (by decide +kernel)
    (by decide +kernel)
  rw [hOk] at hFailed
  cases hFailed

end Table.Reachable

end PathRegistry
