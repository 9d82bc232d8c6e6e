import PathRegistry.Proofs.Consistency

/-!
# Fresh identifiers

A supply is numbered, and an action takes its identifiers one after the other.  That
they are new is nothing a supply could promise for ever, since there are only so many
identifiers.  `Supply.IsFreshFor n t` says it of the next `n`: they differ from one
another and from every key of the table.

Rows that take the first of these identifiers leave the others fresh for the table with
these rows.

## Main statements

* `Supply.ahead_add` — the identifiers ahead, in two portions.
* `Supply.IsFreshFor.skip` — what is left is fresh for the table with the rows added.
-/

namespace PathRegistry

open Table

namespace Supply

/-- The next `n` identifiers, in the order in which they are taken. -/
def ahead : Supply → Nat → List Identifier
  | _, 0 => []
  | s, n + 1 => s.next :: s.rest.ahead n

/-- The supply after `n` identifiers have been taken. -/
def skip (s : Supply) (n : Nat) : Supply := ⟨s.draw, s.taken + n⟩

@[simp] theorem skip_zero (s : Supply) : s.skip 0 = s := rfl

@[simp] theorem rest_skip (s : Supply) (n : Nat) : s.rest.skip n = s.skip (n + 1) := by
  simp only [skip, rest, Supply.mk.injEq, true_and]
  omega

@[simp] theorem skip_skip (s : Supply) (m n : Nat) : (s.skip m).skip n = s.skip (m + n) := by
  simp only [skip, Nat.add_assoc]

/-- **In two portions**: first `m` identifiers, then `n` more. -/
theorem ahead_add (s : Supply) (m n : Nat) :
    s.ahead (m + n) = s.ahead m ++ (s.skip m).ahead n := by
  induction m generalizing s with
  | zero => rw [Nat.zero_add, ahead, List.nil_append, skip_zero]
  | succ m ih => rw [Nat.add_right_comm, ahead, ih, ahead, List.cons_append, rest_skip]

/-- The next `n` identifiers differ from one another and from every key of the table. -/
structure IsFreshFor (s : Supply) (n : Nat) (t : Table) : Prop where
  /-- No identifier comes twice. -/
  nodup : (s.ahead n).Nodup
  /-- None is in use. -/
  unused : ∀ i ∈ s.ahead n, ∀ r ∈ t, r.key ≠ Key.ofId i

namespace IsFreshFor

variable {s : Supply} {m n : Nat} {t rows : Table}

theorem next (h : s.IsFreshFor (n + 1) t) : ∀ r ∈ t, r.key ≠ Key.ofId s.next :=
  h.unused _ List.mem_cons_self

theorem take (h : s.IsFreshFor (m + n) t) : s.IsFreshFor m t := by
  have hNodup := h.nodup
  have hUnused := h.unused
  rw [ahead_add] at hNodup hUnused
  exact ⟨(List.nodup_append.mp hNodup).1, fun i hi => hUnused i (List.mem_append_left _ hi)⟩

/-- **What is left is fresh** for the table with rows that have taken the first
identifiers. -/
theorem skip (h : s.IsFreshFor (m + n) t)
    (hRows : rows.map (·.key) = (s.ahead m).map Key.ofId) :
    (s.skip m).IsFreshFor n (t ++ rows) := by
  have hNodup := h.nodup
  have hUnused := h.unused
  rw [ahead_add] at hNodup hUnused
  obtain ⟨-, hLeft, hApart⟩ := List.nodup_append.mp hNodup
  refine ⟨hLeft, fun i hi r hr => ?_⟩
  rcases List.mem_append.mp hr with hOld | hNew
  · exact hUnused i (List.mem_append_right _ hi) r hOld
  · intro hKey
    have hTaken : r.key ∈ (s.ahead m).map Key.ofId := hRows ▸ List.mem_map_of_mem hNew
    obtain ⟨j, hj, hSame⟩ := List.mem_map.mp hTaken
    exact hApart j hj i hi (Key.ofId_injective (hSame.trans hKey))

/-- The keys of a table stay distinct when rows take the first identifiers. -/
theorem keys_nodup (h : s.IsFreshFor m t) (ht : (t.map (·.key)).Nodup)
    (hRows : rows.map (·.key) = (s.ahead m).map Key.ofId) :
    ((t ++ rows).map (·.key)).Nodup := by
  rw [List.map_append, hRows, List.nodup_append]
  refine ⟨ht, h.nodup.map Key.ofId_injective, fun k hk l hl hSame => ?_⟩
  obtain ⟨r, hr, rfl⟩ := List.mem_map.mp hk
  obtain ⟨i, hi, rfl⟩ := List.mem_map.mp hl
  exact h.unused i hi r hr hSame

end IsFreshFor

end Supply

end PathRegistry
