import PathRegistry.Proofs.Consistency
import PathRegistry.Proofs.Descent

/-!
# Rows visited one after the other

`Table.retarget?` gives rows new paths one by one, in the order of the table, and
gives up as soon as a row would get a path that another row has at that moment.
What is left in the end does not depend on the order: it is the table relocated
all at once.  Whether the visits get that far does: a row must not be sent to
where a row that is visited later still is.

So the visits succeed exactly if the relocated paths are distinct and no row is
sent to the old path of a later one.

## Main statements

* `retarget?_eq_some` — when the visits succeed, and what they leave.
* `rerootWithin_eq` — rewriting a stem as visits that carry each row.
* `rerootWithin_eq_ok` — the same for the rewriting of a stem, in terms of the
  places to which subtrees carry their members.
-/

namespace PathRegistry

namespace Table

variable {t t' rest : Table} {target : Text → Option Text}

/-- Where `target` sends a path; a path that it says nothing about stays. -/
def sent (target : Text → Option Text) (path : Text) : Text := (target path).getD path

theorem relocate_congr {f g : Text → Text} (h : ∀ r ∈ t, f r.path = g r.path) :
    t.relocate f = t.relocate g :=
  List.map_congr_left fun r hr => by rw [Row.relocate, Row.relocate, h r hr]

theorem relocate_paths (f : Text → Text) (t : Table) :
    (t.relocate f).map (·.path) = t.map fun r => f r.path := by
  rw [relocate, List.map_map]
  rfl

theorem relocate_relocate (f g : Text → Text) (t : Table) :
    (t.relocate f).relocate g = t.relocate fun path => g (f path) := List.map_map

theorem relocate_eq_self {f : Text → Text} (h : ∀ r ∈ t, f r.path = r.path) :
    t.relocate f = t :=
  (List.map_congr_left fun r hr => by rw [Row.relocate, h r hr, id]).trans (List.map_id t)

theorem holdsPath_relocate {f : Text → Text} {path : Text} :
    (t.relocate f).holdsPath path = true ↔ ∃ r ∈ t, f r.path = path := by
  simp [holdsPath_iff, relocate]

/-- New paths leave the keys as they are. -/
theorem unused_relocate {k : Key} (h : ∀ r ∈ t, r.key ≠ k) (f : Text → Text) :
    ∀ r ∈ t.relocate f, r.key ≠ k := by
  intro r hr
  obtain ⟨s, hs, rfl⟩ := List.mem_map.mp hr
  exact h s hs

theorem retarget?_congr (target' : Text → Option Text)
    (h : ∀ r ∈ rest, target r.path = target' r.path) (visited : Table) :
    retarget? target visited rest = retarget? target' visited rest := by
  induction rest generalizing visited with
  | nil => rfl
  | cons r rest ih =>
    have hRest := ih fun s hs => h s (List.mem_cons_of_mem r hs)
    rw [retarget?, retarget?, h r List.mem_cons_self]
    split
    · exact hRest _
    · rw [hRest]

/-- A row that gets a path of no other row leaves the paths distinct. -/
private theorem nodup_of_free {visited : Table} {r : Row} {path : Text}
    (h : ((visited ++ r :: rest).map (·.path)).Nodup) (hVisited : ∀ s ∈ visited, s.path ≠ path)
    (hRest : ∀ s ∈ rest, s.path ≠ path) :
    ((visited ++ [(⟨r.key, path⟩ : Row)] ++ rest).map (·.path)).Nodup := by
  rw [List.append_assoc]
  rw [List.map_append, List.nodup_append] at h ⊢
  obtain ⟨hVisitedNodup, hRestNodup, hApart⟩ := h
  refine ⟨hVisitedNodup, ?_, fun p hp q hq => ?_⟩
  · show (path :: rest.map (·.path)).Nodup
    refine List.nodup_cons.mpr ⟨fun hIn => ?_, (List.nodup_cons.mp hRestNodup).2⟩
    obtain ⟨s, hs, hSame⟩ := List.mem_map.mp hIn
    exact hRest s hs hSame
  · rcases List.mem_cons.mp hq with rfl | hq
    · obtain ⟨s, hs, rfl⟩ := List.mem_map.mp hp
      exact hVisited s hs
    · exact hApart p hp q (List.mem_cons_of_mem _ hq)

/-- A new path that is taken stays so: by a visited row for good, or by one that it may
not be sent to. -/
private theorem absurd_of_taken {visited : Table} {r : Row} {path : Text} {others : Table}
    (hTaken : (visited.holdsPath path || rest.holdsPath path) = true)
    (hNodup : ((visited ++ [(⟨r.key, path⟩ : Row)] ++ others).map (·.path)).Nodup)
    (hLater : ∀ s ∈ rest, some path ≠ some s.path) : False := by
  rcases Bool.or_eq_true _ _ ▸ hTaken with hVisited | hRest
  · obtain ⟨s, hs, hSame⟩ := holdsPath_iff.mp hVisited
    rw [List.map_append, List.map_append, List.nodup_append] at hNodup
    have hApart := (List.nodup_append.mp hNodup.1).2.2
    exact hApart s.path (List.mem_map_of_mem hs) path (by simp) hSame
  · obtain ⟨s, hs, hSame⟩ := holdsPath_iff.mp hRest
    exact hLater s hs (by rw [hSame])

/-- **Visiting the rows in order** succeeds exactly if the relocated paths are
distinct and no row is sent to where a later one still is; it leaves the relocated
rows behind those visited before. -/
theorem retarget?_eq_some {visited : Table} (h : ((visited ++ rest).map (·.path)).Nodup) :
    retarget? target visited rest = some t' ↔
      t' = visited ++ rest.relocate (sent target) ∧ (t'.map (·.path)).Nodup ∧
        rest.Pairwise fun r s => target r.path ≠ some s.path := by
  induction rest generalizing visited with
  | nil =>
    simp only [retarget?, relocate, List.map_nil, List.append_nil, Option.some.injEq,
      List.Pairwise.nil, and_true]
    rw [List.append_nil] at h
    exact ⟨fun hEq => ⟨hEq.symm, hEq ▸ h⟩, fun hEq => hEq.1.symm⟩
  | cons r rest ih =>
    rw [retarget?]
    cases hSent : target r.path with
    | none =>
      have hStay : r.relocate (sent target) = r := by simp [Row.relocate, sent, hSent]
      have hNodup : (((visited ++ [r]) ++ rest).map (·.path)).Nodup := by simpa using h
      dsimp only
      rw [ih hNodup, List.pairwise_cons]
      simp [relocate, hStay, hSent]
    | some path =>
      have hMoved : r.relocate (sent target) = ⟨r.key, path⟩ := by
        simp [Row.relocate, sent, hSent]
      have hTable : visited ++ relocate (sent target) (r :: rest) =
          (visited ++ [⟨r.key, path⟩]) ++ relocate (sent target) rest := by
        simp [relocate, hMoved]
      dsimp only
      rw [hTable, List.pairwise_cons, hSent]
      split
      · rename_i hTaken
        simp only [reduceCtorEq, false_iff]
        rintro ⟨rfl, hNodup, hLater, -⟩
        exact absurd_of_taken hTaken hNodup hLater
      · rename_i hFree
        simp only [Bool.or_eq_true, not_or, Bool.not_eq_true, holdsPath_eq_false] at hFree
        rw [ih (nodup_of_free h hFree.1 hFree.2)]
        refine and_congr_right fun _ => and_congr_right fun _ => ?_
        refine ⟨fun hRest => ⟨fun s hs hSame => ?_, hRest⟩, fun hBoth => hBoth.2⟩
        exact hFree.2 s hs (Option.some.inj hSame).symm

/-- Whatever the rows are, visits that succeed leave each of them where it is sent. -/
theorem relocate_of_retarget? {visited : Table} (h : retarget? target visited rest = some t') :
    t' = visited ++ rest.relocate (sent target) := by
  induction rest generalizing visited with
  | nil =>
    cases h
    exact (List.append_nil _).symm
  | cons r rest ih =>
    rw [retarget?] at h
    cases hSent : target r.path with
    | none =>
      have hStay : r.relocate (sent target) = r := by simp [Row.relocate, sent, hSent]
      rw [hSent] at h
      rw [ih h, List.append_assoc, relocate, relocate, List.map_cons, hStay]
      rfl
    | some path =>
      have hMoved : r.relocate (sent target) = ⟨r.key, path⟩ := by
        simp [Row.relocate, sent, hSent]
      simp only [hSent] at h
      split at h
      · cases h
      · rw [ih h, List.append_assoc, relocate, relocate, List.map_cons, hMoved]
        rfl

end Table

namespace Subtree

/-- Where a path goes when the subtree of `source` is carried to that of `target`; a
path outside of it stays. -/
def carried (source target : Path) (path : Text) : Text :=
  ((below source).carry? path (below target)).getD path

variable {source target : Path} {t : Text}

theorem carried_of_outside (h : (below source).contains t = false) :
    carried source target t = t := by
  simp [carried, carry?, h]

theorem carried_of_carry? {q : Text} (h : (below source).carry? t (below target) = some q) :
    carried source target t = q := by
  rw [carried, h]
  rfl

theorem carry?_eq_some_carried (h : (below source).contains t = true) :
    (below source).carry? t (below target) = some (carried source target t) := by
  rw [carried, carry?, if_pos h]
  rfl

theorem carry?_eq_none : (below source).carry? t (below target) = none ↔
    (below source).contains t = false := by
  unfold carry?
  split <;> simp_all

theorem contains_of_carry? {q : Text} (h : (below source).carry? t (below target) = some q) :
    (below source).contains t = true := by
  cases hIn : (below source).contains t with
  | true => rfl
  | false =>
    rw [carry?_eq_none.mpr hIn] at h
    cases h

/-- What rewriting the stem makes of a path: the stem of `source` is dropped and that of
`target` put in front, and the result is taken as it is. -/
def rerooted (source target : Path) (path : Text) : Text :=
  target.stem ++ path.drop source.stem.length

theorem rerooted_append (source target : Path) (r : Text) :
    rerooted source target (source.stem ++ r) = target.stem ++ r := by
  rw [rerooted, List.drop_left]

theorem carried_eq_rerooted (hs : source.IsNormal) (ht : target.IsNormal)
    (hClimbs : source.climbsOnly = false) (hNormal : normalize t = t)
    (hIn : (below source).contains t = true) :
    carried source target t = rerooted source target t :=
  carried_of_carry? (carry?_eq_append hs ht hClimbs hNormal hIn)

theorem carried_self (source target : Path) :
    carried source target source.text = source.text :=
  carried_of_outside (contains_self source)

theorem normalize_carried (h : normalize t = t) :
    normalize (carried source target t) = carried source target t := by
  cases hCarry : (below source).carry? t (below target) with
  | none => rwa [carried_of_outside (carry?_eq_none.mp hCarry)]
  | some q => rw [carried_of_carry? hCarry, normalize_of_carry? hCarry]

end Subtree

namespace Table

open Subtree

variable {t t' : Table} {source target : Path} {n : Nat}

/-- On normal paths, rewriting the stem of a range visits the rows to send them to where
they are carried. -/
theorem rerootWithin_eq (hNormal : ∀ r ∈ t, normalize r.path = r.path) (hs : source.IsNormal)
    (ht : target.IsNormal) (hClimbs : source.climbsOnly = false) :
    t.rerootWithin (below source).range (·.drop (below source).stem.length)
        (below target).stem =
      match retarget? (fun path => (below source).carry? path (below target)) [] t with
      | some t' => .ok (t.countP ((below source).range.contains ·.path), t')
      | none => .error (.duplicatePath
          ((t.firstTaken? (below source).range (rerooted source target)).getD target.stem)) := by
  have hTarget : ∀ r ∈ t,
      (if (below source).range.contains r.path then
        some ((below target).stem ++ r.path.drop (below source).stem.length) else none) =
      (below source).carry? r.path (below target) := by
    intro r hr
    rw [contains_range]
    cases hIn : (below source).contains r.path with
    | true => exact (carry?_eq_append hs ht hClimbs (hNormal r hr) hIn).symm
    | false => exact (carry?_eq_none.mpr hIn).symm
  unfold rerootWithin
  dsimp only
  rw [retarget?_congr (fun path => (below source).carry? path (below target)) hTarget]
  rfl

/-- If the rewriting of a stem fails, the failure names the first new path that is taken. -/
theorem rerootWithin_eq_error (hNormal : ∀ r ∈ t, normalize r.path = r.path)
    (hs : source.IsNormal) (ht : target.IsNormal) (hClimbs : source.climbsOnly = false)
    {e : Failure}
    (h : t.rerootWithin (below source).range (·.drop (below source).stem.length)
      (below target).stem = .error e) :
    e = .duplicatePath
      ((t.firstTaken? (below source).range (rerooted source target)).getD target.stem) := by
  rw [rerootWithin_eq hNormal hs ht hClimbs] at h
  split at h
  · cases h
  · cases h
    rfl

/-- **Rewriting the stem of a range** moves every row to where its path is carried,
all at once, provided that the new paths are distinct and no row is sent to where a
later one still is. -/
theorem rerootWithin_eq_ok (h : t.Consistent) (hs : source.IsNormal) (ht : target.IsNormal)
    (hClimbs : source.climbsOnly = false) :
    t.rerootWithin (below source).range (·.drop (below source).stem.length)
        (below target).stem = .ok (n, t') ↔
      n = t.countP ((below source).range.contains ·.path) ∧
        t' = t.relocate (carried source target) ∧ (t'.map (·.path)).Nodup ∧
        t.Pairwise fun r s => (below source).carry? r.path (below target) ≠ some s.path := by
  have hSpec : retarget? (fun path => (below source).carry? path (below target)) [] t = some t' ↔
      t' = t.relocate (carried source target) ∧ (t'.map (·.path)).Nodup ∧
        t.Pairwise fun r s => (below source).carry? r.path (below target) ≠ some s.path :=
    retarget?_eq_some h.paths_nodup
  rw [rerootWithin_eq h.normal hs ht hClimbs, ← hSpec]
  split
  · rename_i u hRun
    simp only [hRun, Except.ok.injEq, Prod.mk.injEq, Option.some.injEq]
    exact and_congr_left fun _ => eq_comm
  · rename_i hRun
    simp [hRun]

/-- The carried paths are distinct unless two members are carried to one path, or one of them
to the path of a row that stays. -/
theorem Consistent.carried_nodup (h : t.Consistent)
    (hMembers : ∀ r ∈ t, ∀ s ∈ t, (below source).contains r.path = true →
      (below source).contains s.path = true →
      carried source target r.path = carried source target s.path → r = s)
    (hAcross : ∀ r ∈ t, ∀ s ∈ t, (below source).contains r.path = true →
      (below source).contains s.path = false → carried source target r.path ≠ s.path) :
    ((t.relocate (carried source target)).map (·.path)).Nodup := by
  rw [relocate_paths]
  refine List.Nodup.map_on (fun r hr s hs hMeet => ?_) (List.Nodup.of_map _ h.paths_nodup)
  cases hInR : (below source).contains r.path <;> cases hInS : (below source).contains s.path
  · rw [carried_of_outside hInR, carried_of_outside hInS] at hMeet
    exact h.eq_of_path hr hs hMeet
  · rw [carried_of_outside hInR] at hMeet
    exact absurd hMeet.symm (hAcross s hs r hr hInS hInR)
  · rw [carried_of_outside hInS] at hMeet
    exact absurd hMeet (hAcross r hr s hs hInR hInS)
  · exact hMembers r hr s hs hInR hInS hMeet

theorem Consistent.carry (h : t.Consistent)
    (hNodup : ((t.relocate (carried source target)).map (·.path)).Nodup) :
    (t.relocate (carried source target)).Consistent :=
  h.map (fun _ _ => rfl) (fun r hr => normalize_carried (h.normal r hr)) hNodup

end Table

end PathRegistry
