import PathRegistry.Proofs.Descendants

/-!
# Rewriting a stem instead of carrying

There are two ways to move what lies below a path.  One reads the rows, carries each
path, which tests what it starts with, cuts that off and normalizes the rest behind the
target, and writes the rows one by one.  The other is a single statement: it finds the
rows by order alone, counts the characters of the stem, and joins texts without
normalizing.  The second serves every path but those made of parent steps only.

Where it serves, the two agree: on which texts lie below the path, on the text each of
them becomes, and so on the table that is left when both succeed.  They need not succeed
on the same tables, since they visit the rows in different orders.

## Main statements

* `Relocation.move_rewrites` — what the single statement does to rows of any keys.
* `Relocation.rewriting_agrees_with_carrying` — the two ways agree.
-/

namespace PathRegistry

open PathRegistry.Action Subtree Table

namespace Relocation

variable {source target : Path}

/-- **The single statement carries every row**, whatever the keys are, if it succeeds on
normal paths. -/
theorem move_rewrites (hs : source.IsNormal) (ht : target.IsNormal) (hCurrent : source ≠ .current)
    (hClimbs : source.climbsOnly = false) {t : Table}
    (hNormal : ∀ r ∈ t, normalize r.path = r.path) {writable : Bool} {supply : Supply} {n : Nat}
    {b' : Bench} (hRun : move source target ⟨t, writable, supply⟩ = .ok n b') :
    n = t.countP ((below source).contains ·.path) ∧
      b' = ⟨t.relocate (carried source target), writable, supply⟩ := by
  rw [move_eq_write hCurrent hClimbs] at hRun
  obtain ⟨-, t', hStatement, rfl⟩ := write_eq_ok.mp hRun
  dsimp only at hStatement
  rw [rerootWithin_eq hNormal hs ht hClimbs] at hStatement
  cases hVisits : retarget? (fun path => (below source).carry? path (below target)) [] t with
  | none => simp [hVisits] at hStatement
  | some u =>
    simp only [hVisits, Except.ok.injEq, Prod.mk.injEq] at hStatement
    obtain ⟨rfl, rfl⟩ := hStatement
    refine ⟨?_, ?_⟩
    · simp only [contains_range]
    · rw [relocate_of_retarget? hVisits]
      rfl

/-- **Rewriting agrees with carrying** for every path that neither is the current
directory nor is made of parent steps only.  A normal text lies in the open range exactly
if it can be carried, and it is carried to the text that rewriting the stem makes of it,
which is normal.  So if the single statement succeeds, it moves exactly the rows that the
other way would read, each to where the other way would write it, and if that succeeds
too, it leaves the same table. -/
theorem rewriting_agrees_with_carrying (hs : source.IsNormal) (ht : target.IsNormal)
    (hCurrent : source ≠ .current) (hClimbs : source.climbsOnly = false) :
    (∀ p, normalize p = p →
      ((below source).range.contains p = true ↔
        ∃ q, (below source).carry? p (below target) = some q) ∧
      ∀ q, (below source).carry? p (below target) = some q →
        q = target.stem ++ p.drop source.stem.length ∧ normalize q = q) ∧
    ∀ (t : Table) (writable : Bool) (supply : Supply) (n : Nat) (b' : Bench),
      (∀ r ∈ t, normalize r.path = r.path) →
      move source target ⟨t, writable, supply⟩ = .ok n b' →
      n = t.countP ((below source).contains ·.path) ∧
        b'.table = t.relocate (fun p => ((below source).carry? p (below target)).getD p) ∧
        (t.Consistent → ∃ es, t.entriesWithin (below source).range = .ok es ∧ n = es.length ∧
          b'.table = t.map (shifted source target es) ∧
          ∀ u b'', repointAll (below source) (below target) es ⟨t, writable, supply⟩ = .ok u b'' →
            b'' = b') := by
  refine ⟨fun p hp => ⟨?_, fun q hCarry => ?_⟩, fun t writable supply n b' hNormal hRun => ?_⟩
  · rw [contains_range, ← Option.isSome_iff_exists, ← Option.ne_none_iff_isSome, Ne,
      carry?_eq_none, Bool.not_eq_false]
  · have hIn := contains_of_carry? hCarry
    rw [carry?_eq_append hs ht hClimbs hp hIn, Option.some.injEq] at hCarry
    refine ⟨hCarry.symm, ?_⟩
    rw [← hCarry]
    exact normalize_of_carry? (carry?_eq_append hs ht hClimbs hp hIn)
  · obtain ⟨rfl, rfl⟩ := move_rewrites hs ht hCurrent hClimbs hNormal hRun
    refine ⟨rfl, rfl, fun h => ?_⟩
    obtain ⟨es, hEntries, hRows, hMem, hApart⟩ := exists_entriesWithin h source
    have hShifted : t.map (shifted source target es) = t.relocate (carried source target) :=
      map_shifted h hRows
    refine ⟨es, hEntries, ?_, hShifted.symm, fun u b'' hSlow => ?_⟩
    · have hLength := congrArg List.length hRows
      rw [(byPath_perm _).length_eq, within, ← List.countP_eq_length_filter,
        List.length_map] at hLength
      simpa only [contains_range] using hLength
    · obtain ⟨-, hEnd, -⟩ := (repointAll_eq_ok h (fun e he => (hMem e he).1) hApart
        fun e he => (hMem e he).2).mp hSlow
      rw [hEnd, hShifted]

/-- A stem beyond ASCII rewritten to one that climbs: `ü/b/ß` becomes `../ß`, and `ü/bc`
stays. -/
theorem rewriting_agrees_with_carrying_upwards :
    let source := Path.ofText ['Ü', '/', 'b']
    let target := Path.ofText ['.', '.']
    let t : Table := ((Call.indexAll [['ü', '/', 'b', '/', 'ß'], ['ü', '/', 'b', 'c']]).action.on
      [] true (.ofSeed 0)).2.1
    source.IsNormal ∧ target.IsNormal ∧ source ≠ .current ∧ source.climbsOnly = false ∧
      (below source).range.contains ['ü', '/', 'b', '/', 'ß'] = true ∧
      ∃ b', move source target ⟨t, true, .ofSeed 2⟩ = .ok 1 b' ∧
        b'.table.map (·.path) = [['.', '.', '/', 'ß'], ['ü', '/', 'b', 'c']] := by
  intro source target t
  have hs : source.IsNormal := Path.ofText_isNormal _
  have ht : target.IsNormal := Path.ofText_isNormal _
  have hCurrent : source ≠ .current := by decide +kernel
  have hClimbs : source.climbsOnly = false := by decide +kernel
  have hCarry : (below source).carry? ['ü', '/', 'b', '/', 'ß'] (below target) =
      some ['.', '.', '/', 'ß'] := by decide +kernel
  have hNormal : ∀ r ∈ t, normalize r.path = r.path := by decide +kernel
  have hOk : ((move source target).on t true (.ofSeed 2)).1 = .ok 1 := by decide +kernel
  obtain ⟨b', hRun⟩ := on_fst_eq_ok.mp hOk
  obtain ⟨hTexts, hTables⟩ := rewriting_agrees_with_carrying hs ht hCurrent hClimbs
  refine ⟨hs, ht, hCurrent, hClimbs, ?_, b', hRun, ?_⟩
  · exact (hTexts _ (by decide +kernel)).1.mpr ⟨_, hCarry⟩
  · rw [(hTables t true _ 1 b' hNormal hRun).2.1]
    decide +kernel

end Relocation

end PathRegistry
