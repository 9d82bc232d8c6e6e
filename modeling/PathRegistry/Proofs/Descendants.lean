import PathRegistry.Proofs.Ordering
import PathRegistry.Proofs.Retargeting
import PathRegistry.Proofs.Run

/-!
# Moving the rows below a path

Below a path that is not made of parent steps only, one statement moves all rows,
in the order in which they were created.  Below the others each row is moved by a
statement of its own, in the order of the paths.  Either way a row is refused when
it comes to lie where another row still is, and either way the rows that have been
moved in the end are where their paths are carried to.

So both succeed under one condition, `Relocation.Fits`, stated for the order in which
they visit the rows: the carried paths are distinct, and no row is carried to where one
that is visited later still is.

## Main statements

* `Relocation.repointAll_eq_ok` — moving rows by statements of their own.
* `Relocation.move_eq_ok` — when the rows below a path can be moved, and what results.
-/

namespace PathRegistry

open PathRegistry.Action Subtree Table

namespace Relocation

variable {source target : Path} {t : Table} {es : List Entry} {writable : Bool}
  {supply : Supply} {b' : Bench}

/-- The rows below a path, in the order in which a move visits them. -/
def visits (source : Path) (t : Table) : Table :=
  if source.climbsOnly then (t.within (below source).range).byPath
  else t.within (below source).range

/-- A row of one of the entries where its path is carried to, any other row as it is. -/
def shifted (source target : Path) (es : List Entry) (r : Row) : Row :=
  if es.any fun e => r.key == Key.ofId e.id then r.relocate (carried source target) else r

theorem shifted_of_mem {e : Entry} {r : Row} (he : e ∈ es) (hKey : r.key = Key.ofId e.id) :
    shifted source target es r = r.relocate (carried source target) := by
  have hAny : (es.any fun e => r.key == Key.ofId e.id) = true :=
    List.any_eq_true.mpr ⟨e, he, by simp [hKey]⟩
  simp [shifted, hAny]

theorem shifted_of_absent {r : Row} (h : ∀ e ∈ es, r.key ≠ Key.ofId e.id) :
    shifted source target es r = r := by
  have hNone : (es.any fun e => r.key == Key.ofId e.id) = false := by
    simpa using h
  simp [shifted, hNone]

theorem shifted_cons_of_ne {e : Entry} {r : Row} (h : r.key ≠ Key.ofId e.id) :
    shifted source target (e :: es) r = shifted source target es r := by
  simp [shifted, h]

/-- To shift the first entry and then the others is to shift them all. -/
theorem shifted_pointed (h : t.Consistent) {e : Entry} (he : e.row ∈ t)
    (hApart : ∀ f ∈ es, e.id ≠ f.id) {q : Text}
    (hCarry : (below source).carry? e.path (below target) = some q) :
    (t.map (pointed e.id q)).map (shifted source target es) =
      t.map (shifted source target (e :: es)) := by
  rw [List.map_map]
  refine List.map_congr_left fun r hr => ?_
  by_cases hKey : r.key = Key.ofId e.id
  · have hSame : r = e.row := h.eq_of_key hr he hKey
    have hAbsent : ∀ f ∈ es, r.key ≠ Key.ofId f.id := by
      intro f hf hBoth
      exact hApart f hf (Key.ofId_injective (hKey.symm.trans hBoth))
    have hMoved : r.relocate (carried source target) = ⟨r.key, q⟩ := by
      rw [Row.relocate, hSame]
      exact congrArg (Row.mk _) (carried_of_carry? hCarry)
    rw [Function.comp_apply, pointed_of_key hKey, shifted_of_mem List.mem_cons_self hKey, hMoved]
    exact shifted_of_absent hAbsent
  · rw [Function.comp_apply, pointed_of_ne hKey, shifted_cons_of_ne hKey]

/-- The statement that moves one entry, and the others after it. -/
theorem repointAll_cons_eq_ok {e : Entry} (he : e.row ∈ t) {q : Text}
    (hCarry : (below source).carry? e.path (below target) = some q) {u : Unit} :
    repointAll (below source) (below target) (e :: es) ⟨t, writable, supply⟩ = .ok u b' ↔
      writable = true ∧ (∀ r ∈ t, r.path = q → r.key = Key.ofId e.id) ∧
        repointAll (below source) (below target) es
          ⟨t.map (pointed e.id q), writable, supply⟩ = .ok u b' := by
  have hKey : ∃ r ∈ t, r.key = Key.ofId e.id := ⟨e.row, he, rfl⟩
  rw [repointAll, hCarry]
  simp only [bind_eq_ok, discard_eq_ok, write_eq_ok, repoint_eq_ok hKey]
  constructor
  · rintro ⟨-, b, ⟨n, hWritable, t', ⟨hFree, -, rfl⟩, rfl⟩, hRest⟩
    exact ⟨hWritable, hFree, hRest⟩
  · rintro ⟨hWritable, hFree, hRest⟩
    exact ⟨(), _, ⟨_, hWritable, _, ⟨hFree, rfl, rfl⟩, rfl⟩, hRest⟩

/-- The rows of other entries stay where they are when the row of one is pointed elsewhere. -/
theorem row_mem_pointed {e f : Entry} {q : Text} (hf : f.row ∈ t) (hApart : e.id ≠ f.id) :
    f.row ∈ t.map (pointed e.id q) := by
  refine List.mem_map.mpr ⟨f.row, hf, pointed_of_ne fun hKey => ?_⟩
  exact hApart (Key.ofId_injective hKey).symm

/-- If the paths are distinct in the end, the first row can meet none but a later one: a
row that stays would share its path with the first row in the end. -/
theorem free_of_nodup (h : t.Consistent) {e : Entry} (he : e.row ∈ t)
    (hRows : ∀ f ∈ es, f.row ∈ t) {q : Text}
    (hCarry : (below source).carry? e.path (below target) = some q)
    (hNodup : ((t.map (shifted source target (e :: es))).map (·.path)).Nodup)
    (hLater : ∀ f ∈ es, q ≠ f.path) : ∀ r ∈ t, r.path = q → r.key = Key.ofId e.id := by
  intro r hr hPath
  by_contra hOther
  by_cases hEntry : ∃ f ∈ es, r.key = Key.ofId f.id
  · obtain ⟨f, hf, hSame⟩ := hEntry
    have hRow : r = f.row := h.eq_of_key hr (hRows f hf) hSame
    rw [hRow] at hPath
    exact hLater f hf hPath.symm
  · have hStay : shifted source target (e :: es) r = r := by
      rw [shifted_cons_of_ne hOther]
      exact shifted_of_absent fun f hf hSame => hEntry ⟨f, hf, hSame⟩
    have hMoved : (shifted source target (e :: es) e.row).path = q := by
      rw [shifted_of_mem List.mem_cons_self rfl]
      exact carried_of_carry? hCarry
    rw [List.map_map] at hNodup
    have hRow : r = e.row := by
      apply List.inj_on_of_nodup_map hNodup hr he
      rw [Function.comp_apply, Function.comp_apply, hStay, hMoved, hPath]
    rw [hRow] at hOther
    exact hOther rfl

/-- **Moving rows by statements of their own**: the rows of the entries move all at once,
provided that the new paths are distinct and no row is sent to where a later one still
is. -/
theorem repointAll_eq_ok (h : t.Consistent) (hRows : ∀ e ∈ es, e.row ∈ t)
    (hApart : (es.map (·.id)).Nodup) (hBelow : ∀ e ∈ es, (below source).contains e.path = true)
    {u : Unit} :
    repointAll (below source) (below target) es ⟨t, writable, supply⟩ = .ok u b' ↔
      (es ≠ [] → writable = true) ∧
        b' = ⟨t.map (shifted source target es), writable, supply⟩ ∧
        ((t.map (shifted source target es)).map (·.path)).Nodup ∧
        es.Pairwise fun e f => (below source).carry? e.path (below target) ≠ some f.path := by
  induction es generalizing t with
  | nil =>
    have hSame : t.map (shifted source target []) = t := by
      refine List.map_id'' (fun r => ?_) t
      exact shifted_of_absent (by simp)
    rw [repointAll, pure_eq_ok, hSame]
    simp only [ne_eq, not_true_eq_false, false_implies, List.Pairwise.nil, and_true, true_and]
    exact ⟨fun hRun => ⟨hRun.symm, h.paths_nodup⟩, fun hRun => hRun.1.symm⟩
  | cons e es ih =>
    obtain ⟨he, hLaterRows⟩ := List.forall_mem_cons.mp hRows
    obtain ⟨heBelow, hLaterBelow⟩ := List.forall_mem_cons.mp hBelow
    obtain ⟨hNew, hLaterApart⟩ := List.nodup_cons.mp hApart
    obtain ⟨q, hCarry⟩ : ∃ q, (below source).carry? e.path (below target) = some q := by
      refine Option.ne_none_iff_exists'.mp fun hNone => ?_
      rw [carry?_eq_none, heBelow] at hNone
      cases hNone
    have hOthers : ∀ f ∈ es, e.id ≠ f.id := by
      intro f hf hSame
      exact hNew (List.mem_map.mpr ⟨f, hf, hSame.symm⟩)
    have hKey : ∃ r ∈ t, r.key = Key.ofId e.id := ⟨e.row, he, rfl⟩
    rw [repointAll_cons_eq_ok he hCarry, List.pairwise_cons, ← shifted_pointed h he hOthers hCarry]
    -- once the first row may move, the others are moved on a consistent table
    have hRest (hFree : ∀ r ∈ t, r.path = q → r.key = Key.ofId e.id) :=
      ih (h.repoint (normalize_of_carry? hCarry) ((repoint_eq_ok hKey).mpr ⟨hFree, rfl, rfl⟩))
        (fun f hf => row_mem_pointed (hLaterRows f hf) (hOthers f hf)) hLaterApart hLaterBelow
    constructor
    · rintro ⟨hWritable, hFree, hRun⟩
      obtain ⟨-, hEnd, hNodup, hLater⟩ := (hRest hFree).mp hRun
      refine ⟨fun _ => hWritable, hEnd, hNodup, fun f hf hSent => ?_, hLater⟩
      rw [hCarry, Option.some.injEq] at hSent
      have hSame := hFree f.row (hLaterRows f hf) hSent.symm
      exact hOthers f hf (Key.ofId_injective hSame).symm
    · rintro ⟨hWritable, hEnd, hNodup, hFirst, hLater⟩
      have hApartPaths : ∀ f ∈ es, q ≠ f.path := by
        intro f hf hSame
        exact hFirst f hf (by rw [hCarry, hSame])
      have hFree : ∀ r ∈ t, r.path = q → r.key = Key.ofId e.id := by
        refine free_of_nodup h he hLaterRows hCarry ?_ hApartPaths
        rw [← shifted_pointed h he hOthers hCarry]
        exact hNodup
      have hMayWrite := hWritable (List.cons_ne_nil e es)
      exact ⟨hMayWrite, hFree, (hRest hFree).mpr ⟨fun _ => hMayWrite, hEnd, hNodup, hLater⟩⟩

/-! ## Either way of moving -/

/-- Whether it takes a statement that writes to move the rows below a path. -/
def writes (source : Path) (t : Table) : Prop :=
  source ≠ .current ∧ (source.climbsOnly = true → visits source t ≠ [])

theorem within_below (s : Path) (t : Table) :
    t.within (below s).range = t.filter fun r => (below s).contains r.path := by
  simp only [within, contains_range]

theorem mem_within {s : Path} {r : Row} :
    r ∈ t.within (below s).range ↔ r ∈ t ∧ (below s).contains r.path = true := by
  rw [within_below, List.mem_filter]

theorem mem_visits {r : Row} :
    r ∈ visits source t ↔ r ∈ t ∧ (below source).contains r.path = true := by
  unfold visits
  split
  · rw [mem_byPath, mem_within]
  · exact mem_within

/-- What it takes to move the rows below a path: the paths are distinct in the end, and no
row is sent to where one that is visited later still is. -/
def Fits (source target : Path) (t : Table) : Prop :=
  ((t.relocate (carried source target)).map (·.path)).Nodup ∧
    (visits source t).Pairwise fun r s =>
      (below source).carry? r.path (below target) ≠ some s.path

/-- **The entries below a path** can be read on a consistent table, and each is read
once. -/
theorem exists_entriesWithin (h : t.Consistent) (s : Path) :
    ∃ es, t.entriesWithin (below s).range = .ok es ∧
      (t.within (below s).range).byPath = es.map Entry.row ∧
      (∀ e ∈ es, e.row ∈ t ∧ (below s).contains e.path = true) ∧ (es.map (·.id)).Nodup := by
  obtain ⟨es, hEntries, hRows⟩ := (h.filter _).entries_ok
  refine ⟨es, hEntries, hRows, fun e he => ?_, ?_⟩
  · have hVisited : e.row ∈ (t.within (below s).range).byPath := by
      rw [within, hRows]
      exact List.mem_map_of_mem he
    exact mem_within.mp (mem_byPath.mp hVisited)
  · have hKeys : ((es.map Entry.row).map (·.key)).Nodup := by
      rw [← hRows]
      exact ((byPath_perm _).map _).nodup_iff.mpr (h.filter _).keys_nodup
    apply List.Nodup.of_map Key.ofId
    rw [List.map_map] at hKeys ⊢
    exact hKeys

theorem relocate_of_outside {r : Row} (h : (below source).contains r.path = false) :
    r.relocate (carried source target) = r := by
  rw [Row.relocate, carried_of_outside h]

/-- The entries below a path, shifted, are the table with all paths carried. -/
theorem map_shifted (h : t.Consistent)
    (hEntries : (t.within (below source).range).byPath = es.map Entry.row) :
    t.map (shifted source target es) = t.relocate (carried source target) := by
  have hMem (r : Row) : (∃ e ∈ es, e.row = r) ↔ r ∈ t ∧ (below source).contains r.path = true := by
    rw [← mem_within, ← mem_byPath, hEntries, List.mem_map]
  refine List.map_congr_left fun r hr => ?_
  cases hIn : (below source).contains r.path with
  | true =>
    obtain ⟨e, he, rfl⟩ := (hMem r).mpr ⟨hr, hIn⟩
    exact shifted_of_mem he rfl
  | false =>
    rw [relocate_of_outside hIn]
    refine shifted_of_absent fun e he hKey => ?_
    obtain ⟨heTable, heIn⟩ := (hMem e.row).mp ⟨e, he, rfl⟩
    rw [h.eq_of_key hr heTable hKey, heIn] at hIn
    cases hIn

/-- Only the rows below the path can be in the way of one another while they move. -/
theorem pairwise_within (hNodup : ((t.relocate (carried source target)).map (·.path)).Nodup) :
    (t.Pairwise fun r s => (below source).carry? r.path (below target) ≠ some s.path) ↔
      (t.within (below source).range).Pairwise fun r s =>
        (below source).carry? r.path (below target) ≠ some s.path := by
  rw [within, List.pairwise_filter]
  rw [relocate_paths, List.Nodup, List.pairwise_map] at hNodup
  constructor
  · intro hAll
    exact hAll.imp fun hApart _ _ => hApart
  · intro hBelow
    refine (hBelow.and hNodup).imp fun {r s} hBoth hSent => ?_
    obtain ⟨hApart, hDistinct⟩ := hBoth
    have hIn := contains_of_carry? hSent
    cases hOut : (below source).contains s.path with
    | true => exact hApart (contains_range source _ ▸ hIn) (contains_range source _ ▸ hOut) hSent
    | false =>
      apply hDistinct
      rw [carried_of_carry? hSent, carried_of_outside hOut]

section OneStatement

variable (h : t.Consistent) (hs : source.IsNormal) (ht : target.IsNormal)
  (hClimbs : source.climbsOnly = false)

include h hs ht hClimbs

/-- **One statement moves all rows** below a path that is not made of parent steps only, if they
fit in the order of the table. -/
theorem rerootWithin_eq_ok_iff_fits {n : Nat} {t' : Table} :
    t.rerootWithin (below source).range (·.drop (below source).stem.length)
        (below target).stem = .ok (n, t') ↔
      n = (visits source t).length ∧ t' = t.relocate (carried source target) ∧
        Fits source target t := by
  have hVisits : visits source t = t.within (below source).range := by
    rw [visits, hClimbs, if_neg Bool.false_ne_true]
  have hCount : t.countP ((below source).range.contains ·.path) = (visits source t).length := by
    rw [hVisits, List.countP_eq_length_filter]
    rfl
  rw [rerootWithin_eq_ok h hs ht hClimbs, hCount, Fits, hVisits]
  constructor
  · rintro ⟨hLength, rfl, hNodup, hApart⟩
    exact ⟨hLength, rfl, hNodup, (pairwise_within hNodup).mp hApart⟩
  · rintro ⟨hLength, rfl, hNodup, hApart⟩
    exact ⟨hLength, rfl, hNodup, (pairwise_within hNodup).mpr hApart⟩

/-- If they do not, the statement names the first new path that is taken. -/
theorem rerootWithin_of_clash (hClash : ¬ Fits source target t) :
    t.rerootWithin (below source).range (·.drop (below source).stem.length)
        (below target).stem = .error (.duplicatePath
      ((t.firstTaken? (below source).range (rerooted source target)).getD target.stem)) := by
  cases hRun : t.rerootWithin (below source).range (·.drop (below source).stem.length)
      (below target).stem with
  | ok p =>
    exact absurd ((rerootWithin_eq_ok_iff_fits h hs ht hClimbs).mp hRun).2.2 hClash
  | error e => rw [rerootWithin_eq_error h.normal hs ht hClimbs hRun]

end OneStatement

/-- Nothing lies below the current directory. -/
theorem move_current_eq_ok (h : t.Consistent) {n : Nat} :
    move .current target ⟨t, writable, supply⟩ = .ok n b' ↔
      n = (visits .current t).length ∧
        b' = ⟨t.relocate (carried .current target), writable, supply⟩ ∧
        Fits .current target t := by
  have hOutside (text : Text) : (below .current).contains text = false := rfl
  have hSame : t.relocate (carried .current target) = t :=
    List.map_id'' (fun r => relocate_of_outside (hOutside r.path)) t
  have hNone : visits .current t = [] := by
    refine List.filter_eq_nil_iff.mpr fun r _ => ?_
    rw [contains_range, hOutside]
    exact Bool.false_ne_true
  have hRun : move .current target ⟨t, writable, supply⟩ = .ok 0 ⟨t, writable, supply⟩ := rfl
  have hFits : Fits .current target t :=
    ⟨hSame.symm ▸ h.paths_nodup, hNone.symm ▸ .nil⟩
  rw [hRun, hSame, hNone, EStateM.Result.ok.injEq]
  constructor
  · rintro ⟨rfl, rfl⟩
    exact ⟨rfl, rfl, hFits⟩
  · rintro ⟨rfl, rfl, -⟩
    exact ⟨rfl, rfl⟩

/-- Below a path made of parent steps only, the entries are read and moved one by one. -/
theorem move_climbing_run (hClimbs : source.climbsOnly = true)
    (hEntries : t.entriesWithin (below source).range = .ok es) :
    move source target ⟨t, writable, supply⟩ =
      (do repointAll (below source) (below target) es
          return es.length : Action Nat) ⟨t, writable, supply⟩ := by
  have hCurrent : source ≠ .current := by
    rintro rfl
    cases hClimbs
  unfold move
  rw [if_neg (mt isEmpty_below.mp hCurrent), if_pos hClimbs, read_bind hEntries]

theorem move_climbing_eq_ok (hClimbs : source.climbsOnly = true)
    (hEntries : t.entriesWithin (below source).range = .ok es) {n : Nat} :
    move source target ⟨t, writable, supply⟩ = .ok n b' ↔
      n = es.length ∧ repointAll (below source) (below target) es
        ⟨t, writable, supply⟩ = .ok () b' := by
  rw [move_climbing_run hClimbs hEntries, bind_eq_ok]
  constructor
  · rintro ⟨u, b, hMoved, hEnd⟩
    obtain ⟨rfl, rfl⟩ := pure_eq_ok.mp hEnd
    exact ⟨rfl, hMoved⟩
  · rintro ⟨rfl, hMoved⟩
    exact ⟨(), b', hMoved, pure_eq_ok.mpr ⟨rfl, rfl⟩⟩

/-- Below any other path, one statement moves all rows. -/
theorem move_eq_write (hCurrent : source ≠ .current) (hClimbs : source.climbsOnly = false) :
    move source target = Action.write fun t =>
      t.rerootWithin (below source).range (·.drop (below source).stem.length)
        (below target).stem := by
  have hOnce : ¬ source.climbsOnly = true := by
    rw [hClimbs]
    exact Bool.false_ne_true
  unfold move
  rw [if_neg (mt isEmpty_below.mp hCurrent), if_neg hOnce]

/-- **Moving the rows below a path** moves them all at once, provided that they fit. -/
theorem move_eq_ok (h : t.Consistent) (hs : source.IsNormal) (ht : target.IsNormal) {n : Nat} :
    move source target ⟨t, writable, supply⟩ = .ok n b' ↔
      (writes source t → writable = true) ∧ n = (visits source t).length ∧
        b' = ⟨t.relocate (carried source target), writable, supply⟩ ∧ Fits source target t := by
  by_cases hCurrent : source = .current
  · subst hCurrent
    have hWrites : ¬ writes .current t := fun hWrites => hWrites.1 rfl
    rw [move_current_eq_ok h]
    exact ⟨fun hRun => ⟨fun hWrites' => absurd hWrites' hWrites, hRun⟩, fun hRun => hRun.2⟩
  cases hClimbs : source.climbsOnly with
  | true =>
    obtain ⟨es, hEntries, hRows, hMem, hApart⟩ := exists_entriesWithin h source
    have hVisits : visits source t = es.map Entry.row := by
      rw [visits, if_pos hClimbs, hRows]
    have hWrites : writes source t ↔ es ≠ [] := by
      simp [writes, hCurrent, hClimbs, hVisits]
    rw [move_climbing_eq_ok hClimbs hEntries, repointAll_eq_ok h (fun e he => (hMem e he).1)
      hApart (fun e he => (hMem e he).2), map_shifted h hRows, hWrites, Fits, hVisits,
      List.length_map, List.pairwise_map]
    exact and_left_comm
  | false =>
    have hWrites : writes source t := ⟨hCurrent, fun hTrue => by simp [hClimbs] at hTrue⟩
    rw [move_eq_write hCurrent hClimbs, write_eq_ok]
    simp only [rerootWithin_eq_ok_iff_fits h hs ht hClimbs]
    constructor
    · rintro ⟨hWritable, t', ⟨rfl, rfl, hFits⟩, rfl⟩
      exact ⟨fun _ => hWritable, rfl, rfl, hFits⟩
    · rintro ⟨hWritable, rfl, rfl, hFits⟩
      exact ⟨hWritable hWrites, _, ⟨rfl, rfl, hFits⟩, rfl⟩

end Relocation

end PathRegistry
