import PathRegistry.Proofs.Failing

/-!
# Indexing many paths is indexing them in a loop

`Registry.indexEach` calls `index` for one path after the other, each time on the table that the
call before has left, and stops at the first call that fails.  `Registry.indexAll` does all of it
as a whole.  The two differ in one thing: what earlier calls have added stays when a later one
fails, unless they were parts of a whole.

This holds of every table, also of one with keys that are no identifiers, on which an index may
well fail.  A path that the batch has met already is found in the rows that the batch itself has
added, so each path is recorded once, however it is spelled.

## Main statements

* `indexPath_resume` — one step of a batch is one call, as far as it can be seen from outside.
* `indexPaths_run` — the steps of a batch are the calls of the loop.
* `indexAll_as_loop` — the batch returns and leaves what the loop does, or fails as the loop does
  and leaves nothing.
-/

namespace PathRegistry

open PathRegistry.Action Table

/-! ## Look-ups and new rows -/

namespace Table

variable {t : Table} {i : Identifier} {path : Text}

/-- A row is found before all rows that come later. -/
theorem idAt_append (h : t.idAt path = .ok (some i)) (added : Table) :
    (t ++ added).idAt path = .ok (some i) := by
  unfold idAt rowAt? at h ⊢
  cases hRow : t.find? (·.path == path) with
  | none => simp [hRow] at h
  | some r => rwa [List.find?_append, hRow, Option.some_or, ← hRow]

/-- The new row of a path that was free is found. -/
theorem idAt_concat (h : t.holdsPath path = false) (i : Identifier) :
    idAt (t ++ [⟨Key.ofId i, path⟩]) path = .ok (some i) := by
  have hNone : t.find? (·.path == path) = none :=
    List.find?_eq_none.mpr fun r hr => by simpa using holdsPath_eq_false.mp h r hr
  simp [idAt, rowAt?, List.find?_append, hNone]

/-- A path that is looked up with success has one row, if no path has two. -/
theorem filter_path_of_idAt (hNodup : (t.map (·.path)).Nodup)
    (h : t.idAt path = .ok (some i)) :
    t.filter (·.path == path) = [⟨Key.ofId i, path⟩] := by
  have hRow := idAt_mem h
  have hSame : ∀ r ∈ t, (r.path == path) = (r == ⟨Key.ofId i, path⟩) := by
    intro r hr
    rw [Bool.eq_iff_iff, beq_iff_eq, beq_iff_eq]
    exact ⟨fun hPath => List.inj_on_of_nodup_map hNodup hr hRow hPath, fun hEq => hEq ▸ rfl⟩
  have hOne : t.count ⟨Key.ofId i, path⟩ = 1 :=
    List.count_eq_one_of_mem (List.Nodup.of_map _ hNodup) hRow
  rw [List.filter_congr hSame, List.filter_beq, hOne]
  rfl

end Table

namespace Registry

/-- Indexes paths by calls of their own, one after the other, up to the first one that fails. -/
def indexEach (writable : Bool) :
    List Text → Table → Supply → Except Failure (List Identifier) × Table × Supply
  | [], t, supply => (.ok [], t, supply)
  | path :: paths, t, supply =>
    match (index path).on t writable supply with
    | (.error e, left) => (.error e, left)
    | (.ok i, t', supply') =>
      match indexEach writable paths t' supply' with
      | (.ok is, left) => (.ok (i :: is), left)
      | (.error e, left) => (.error e, left)

variable {t : Table} {writable : Bool} {supply : Supply}

/-! ## One step -/

/-- **What indexing a path does**, on a table of any content. -/
theorem indexPath_run (p : Path) (t : Table) (writable : Bool) (supply : Supply) :
    indexPath p ⟨t, writable, supply⟩ = match t.idAt p.text with
      | .error e => .error e ⟨t, writable, supply⟩
      | .ok (some i) => .ok i ⟨t, writable, supply⟩
      | .ok none =>
        if writable then
          match t.insert supply.next p.text with
          | .ok t' => .ok supply.next ⟨t', writable, supply.rest⟩
          | .error e => .error e ⟨t, writable, supply.rest⟩
        else .error (.store .readOnly) ⟨t, writable, supply.rest⟩ := by
  cases hFound : t.idAt p.text with
  | error e =>
    have hRead : Action.read (fun t => t.idAt p.text) ⟨t, writable, supply⟩ =
        .error e ⟨t, writable, supply⟩ := by simp only [Action.read, hFound]
    rw [indexPath, bind_run, hRead]
  | ok i? =>
    rw [indexPath, read_bind hFound]
    cases i? with
    | some i => rfl
    | none =>
      show (Action.fresh >>= fun i => Action.insert i p.text >>= fun _ => pure i) _ = _
      rw [bind_run, show Action.fresh ⟨t, writable, supply⟩ =
        .ok supply.next ⟨t, writable, supply.rest⟩ from rfl]
      dsimp only
      rw [bind_run]
      cases writable with
      | false => rfl
      | true =>
        cases hInsert : t.insert supply.next p.text with
        | ok t' =>
          have hRun : Action.insert supply.next p.text ⟨t, true, supply.rest⟩ =
              .ok () ⟨t', true, supply.rest⟩ := Action.insert_eq_ok.mpr ⟨rfl, t', hInsert, rfl⟩
          rw [hRun]
          rfl
        | error e =>
          rw [(Action.insert_eq_error rfl).mpr ⟨hInsert, rfl⟩]
          rfl

/-- **A step of a batch is a call**: an index that is not made as a whole ends as one that is. -/
theorem indexPath_resume (path : Text) (t : Table) (writable : Bool) (supply : Supply) :
    indexPath (.ofText path) ⟨t, writable, supply⟩ =
      match (index path).on t writable supply with
      | (.ok i, t', supply') => .ok i ⟨t', writable, supply'⟩
      | (.error e, t', supply') => .error e ⟨t', writable, supply'⟩ := by
  unfold Action.on index Action.atomically
  rw [indexPath_run]
  cases t.idAt (Path.ofText path).text with
  | error e => rfl
  | ok i? =>
    cases i? with
    | some i => rfl
    | none =>
      cases writable with
      | false => rfl
      | true =>
        cases t.insert supply.next (Path.ofText path).text <;> rfl

/-- A path that has been indexed is found, and no row has been lost. -/
theorem idAt_of_indexPath {p : Path} {i : Identifier} {b' : Bench}
    (h : indexPath p ⟨t, writable, supply⟩ = .ok i b') :
    b'.table.idAt p.text = .ok (some i) ∧ b'.writable = writable ∧
      (∃ added, b'.table = t ++ added) ∧
      ((t.map (·.path)).Nodup → (b'.table.map (·.path)).Nodup) := by
  rw [indexPath_run] at h
  cases hFound : t.idAt p.text with
  | error e => simp [hFound] at h
  | ok i? =>
    rw [hFound] at h
    cases i? with
    | some j =>
      cases h
      exact ⟨hFound, rfl, ⟨[], (List.append_nil t).symm⟩, fun hNodup => hNodup⟩
    | none =>
      cases writable with
      | false => cases h
      | true =>
        cases hInsert : t.insert supply.next p.text with
        | error e => simp [hInsert] at h
        | ok t' =>
          simp only [hInsert, if_true, EStateM.Result.ok.injEq] at h
          obtain ⟨rfl, rfl⟩ := h
          obtain ⟨hFree, -, rfl⟩ := Table.insert_eq_ok.mp hInsert
          exact ⟨idAt_concat hFree _, rfl, ⟨_, rfl⟩,
            fun hNodup => paths_nodup_concat.mpr ⟨hNodup, hFree⟩⟩

/-! ## The whole batch -/

/-- **The steps of a batch are the calls of the loop**, and end as it does. -/
theorem indexPaths_run (paths : List Text) (t : Table) (writable : Bool) (supply : Supply) :
    indexPaths (paths.map Path.ofText) ⟨t, writable, supply⟩ =
      match indexEach writable paths t supply with
      | (.ok is, t', supply') => .ok is ⟨t', writable, supply'⟩
      | (.error e, t', supply') => .error e ⟨t', writable, supply'⟩ := by
  induction paths generalizing t supply with
  | nil => rfl
  | cons path paths ih =>
    rw [List.map_cons, indexPaths, bind_run, indexPath_resume, indexEach]
    obtain ⟨result, t', supply'⟩ := (index path).on t writable supply
    cases result with
    | error e => rfl
    | ok i =>
      dsimp only
      rw [bind_run, ih]
      obtain ⟨results, t'', supply''⟩ := indexEach writable paths t' supply'
      cases results <;> rfl

/-- Each path of a batch is found in the end under the identifier that was returned for it. -/
theorem idAt_of_indexPaths {ps : List Path} {is : List Identifier} {b' : Bench}
    (h : indexPaths ps ⟨t, writable, supply⟩ = .ok is b') :
    List.Forall₂ (fun i p => b'.table.idAt p.text = .ok (some i)) is ps ∧
      (∃ added, b'.table = t ++ added) ∧
      ((t.map (·.path)).Nodup → (b'.table.map (·.path)).Nodup) := by
  induction ps generalizing is t supply with
  | nil =>
    obtain ⟨rfl, rfl⟩ := pure_eq_ok.mp h
    exact ⟨.nil, ⟨[], (List.append_nil t).symm⟩, fun hNodup => hNodup⟩
  | cons p ps ih =>
    obtain ⟨i, ⟨u, w, s⟩, hFirst, h⟩ := bind_eq_ok.mp h
    obtain ⟨js, c, hRest, h⟩ := bind_eq_ok.mp h
    obtain ⟨rfl, rfl⟩ := pure_eq_ok.mp h
    obtain ⟨hFound, rfl, ⟨first, hGrown⟩, hNodup⟩ := idAt_of_indexPath hFirst
    obtain ⟨hOthers, ⟨rest, hLeft⟩, hNodup'⟩ := ih hRest
    refine ⟨.cons ?_ hOthers, ⟨first ++ rest, ?_⟩, fun hPaths => hNodup' (hNodup hPaths)⟩
    · rw [hLeft]
      exact idAt_append hFound rest
    · rw [hLeft, show u = t ++ first from hGrown, List.append_assoc]

/-- **A batch is a loop made whole**, on a table of any content and whatever identifiers the
supply yields.  If all calls of the loop succeed, the batch returns the same identifiers and
leaves the same rows.  If one fails, the batch fails in the same way, and the table is as it was.
Paths of the batch with one normal form get one identifier and one row. -/
theorem indexAll_as_loop (paths : List Text) (t : Table) (writable : Bool) (supply : Supply) :
    let batch := (indexAll paths).on t writable supply
    let loop := indexEach writable paths t supply
    (∀ is t' supply', loop = (.ok is, t', supply') → batch = (.ok is, t', supply')) ∧
      (∀ e t' supply', loop = (.error e, t', supply') → batch = (.error e, t, supply')) ∧
      ∀ is t' supply', batch = (.ok is, t', supply') → is.length = paths.length ∧
        ∀ (j k : Nat) p q, paths[j]? = some p → paths[k]? = some q →
          normalize p = normalize q → ∃ i, is[j]? = some i ∧ is[k]? = some i ∧
            ((t.map (·.path)).Nodup →
              t'.filter (·.path == normalize p) = [⟨Key.ofId i, normalize p⟩]) := by
  intro batch loop
  have hRun := indexPaths_run paths t writable supply
  refine ⟨fun is t' supply' hLoop => ?_, fun e t' supply' hLoop => ?_,
    fun is t' supply' hBatch => ?_⟩
  · rw [show indexEach writable paths t supply = _ from hLoop] at hRun
    exact on_eq_ok.mpr ⟨writable, atomically_eq_ok.mpr hRun⟩
  · rw [show indexEach writable paths t supply = _ from hLoop] at hRun
    show (indexAll paths).on t writable supply = _
    unfold Action.on indexAll Action.atomically
    rw [hRun]
  · obtain ⟨w, hBatch⟩ := on_eq_ok.mp hBatch
    obtain ⟨hFound, -, hNodup⟩ := idAt_of_indexPaths (atomically_eq_ok.mp hBatch)
    have hEach := List.forall₂_map_right_iff.mp hFound
    refine ⟨hEach.length_eq, fun j k p q hp hq hSame => ?_⟩
    have hAt {n : Nat} {r : Text} (hr : paths[n]? = some r) :
        ∃ i, is[n]? = some i ∧ t'.idAt (normalize r) = .ok (some i) := by
      obtain ⟨hLess, rfl⟩ := List.getElem?_eq_some_iff.mp hr
      have hLess' : n < is.length := hEach.length_eq ▸ hLess
      exact ⟨is[n], List.getElem?_eq_getElem hLess', hEach.get hLess' hLess⟩
    obtain ⟨i, hj, hi⟩ := hAt hp
    obtain ⟨i', hk, hi'⟩ := hAt hq
    obtain rfl : i = i' := by
      rw [hSame, hi'] at hi
      cases hi
      rfl
    exact ⟨i, hj, hk, fun hPaths => filter_path_of_idAt (hNodup hPaths) hi⟩

/-- On a table with a row whose key is a text, a batch that meets that row fails after it has
recorded `a`, and leaves nothing; one that does not records `a` once for its two spellings. -/
theorem indexAll_as_loop_of_malformed :
    let t : Table := [⟨.text ['x'], ['b']⟩]
    let i := (Supply.ofSeed 0).next
    let loop paths := indexEach true paths t (.ofSeed 0)
    let batch paths := (indexAll paths).on t true (.ofSeed 0)
    (loop [['a'], ['b']]).2.1 = [⟨.text ['x'], ['b']⟩, ⟨Key.ofId i, ['a']⟩] ∧
      (batch [['a'], ['b']]).1 = .error (.store (.keyKind .text)) ∧
      (batch [['a'], ['b']]).2.1 = t ∧
      (batch [['a'], ['.', '\\', 'A']]).1 = .ok [i, i] ∧
      (batch [['a'], ['.', '\\', 'A']]).2.1.filter (·.path == ['a']) = [⟨Key.ofId i, ['a']⟩] := by
  intro t i loop batch
  have hFails : (loop [['a'], ['b']]).1 = .error (.store (.keyKind .text)) := by decide +kernel
  have hLeft : (loop [['a'], ['b']]).2.1 = [⟨.text ['x'], ['b']⟩, ⟨Key.ofId i, ['a']⟩] := by
    decide +kernel
  have hIds : (loop [['a'], ['.', '\\', 'A']]).1 = .ok [i, i] := by decide +kernel
  obtain ⟨-, hBad, -⟩ := indexAll_as_loop [['a'], ['b']] t true (.ofSeed 0)
  obtain ⟨hGood, -, hOnce⟩ := indexAll_as_loop [['a'], ['.', '\\', 'A']] t true (.ofSeed 0)
  have hFailed := hBad _ _ _ (Prod.ext hFails rfl)
  have hDone := hGood _ _ _ (Prod.ext hIds rfl)
  obtain ⟨j, hj, -, hRow⟩ := (hOnce _ _ _ hDone).2 0 1 _ _ rfl rfl (by decide +kernel)
  cases hj
  have hNormal : normalize ['a'] = ['a'] := by decide +kernel
  rw [hNormal] at hRow
  refine ⟨hLeft, congrArg Prod.fst hFailed, congrArg (·.2.1) hFailed, congrArg Prod.fst hDone, ?_⟩
  rw [congrArg (·.2.1) hDone]
  exact hRow (by decide +kernel)

end Registry

end PathRegistry
