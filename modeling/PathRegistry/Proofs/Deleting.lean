import PathRegistry.Proofs.Consistency
import PathRegistry.Proofs.Descent
import PathRegistry.Proofs.Run

/-!
# What a delete leaves

A delete takes away the row of a path and, if asked to, the rows below it, and that is all.
It reads no key, gives no row a new path and adds none, so on a table that may be written
nothing can go wrong, whatever the table holds.

The rows below a path are found as an open range of texts.  For every text, in normal form or
not, to lie in that range is to start with the stem of the path and to be longer, so a recursive
delete is complete and takes nothing else.

## Main statements

* `Registry.delete_run` — a delete keeps exactly the rows that the path does not cover.
* `Registry.delete_exact` — a recursive delete by what the paths start with, on any table.
-/

namespace PathRegistry

open PathRegistry.Action Subtree

/-- Whether a text is that of the path or, if the question is recursive, lies below it. -/
def Path.covers (p : Path) (recursive : Bool) (text : Text) : Bool :=
  text == p.text || recursive && (below p).contains text

theorem Path.covers_eq_false {p : Path} {recursive : Bool} {text : Text} :
    p.covers recursive text = false ↔
      text ≠ p.text ∧ (recursive = true → (below p).contains text = false) := by
  cases recursive <;> simp [covers]

/-- The text is that of the path or, unless the path is the current directory, is longer than the
stem of the path and starts with it. -/
def Path.IsAtOrAbove (p : Path) (text : Text) : Prop :=
  text = p.text ∨ p.text ≠ ['.'] ∧ p.stem <+: text ∧ p.stem.length < text.length

instance (p : Path) (text : Text) : Decidable (p.IsAtOrAbove text) :=
  inferInstanceAs (Decidable (_ ∨ _ ∧ _ ∧ _))

theorem Path.text_eq_dot {p : Path} (hp : p.IsNormal) : p.text = ['.'] ↔ p = current := by
  constructor
  · intro h
    exact text_injective hp current_isNormal h
  · rintro rfl
    rfl

/-- What a recursive delete covers, by what the text starts with. -/
theorem Path.covers_iff {p : Path} (hp : p.IsNormal) {text : Text} :
    p.covers true text = true ↔ p.IsAtOrAbove text := by
  simp only [covers, IsAtOrAbove, Bool.true_and, Bool.or_eq_true, beq_iff_eq]
  rw [contains_iff, Ne, Ne, text_eq_dot hp]
  refine or_congr_right (and_congr_right fun _ => ?_)
  constructor
  · rintro ⟨rest, hRest, rfl⟩
    have hLonger : 0 < rest.length := List.length_pos_iff.mpr hRest
    refine ⟨List.prefix_append _ _, ?_⟩
    rw [List.length_append]
    omega
  · rintro ⟨⟨rest, rfl⟩, hLonger⟩
    refine ⟨rest, ?_, rfl⟩
    rintro rfl
    simp at hLonger

/-- The rows below a path are taken away in one statement, which needs no key. -/
theorem Relocation.delete_run (root : Path) (t : Table) (supply : Supply) :
    ∃ n, delete root ⟨t, true, supply⟩ =
      .ok n ⟨t.filter fun r => !(below root).contains r.path, true, supply⟩ := by
  unfold delete
  by_cases hEmpty : (below root).isEmpty = true
  · rw [if_pos hEmpty]
    have hAll : (t.filter fun r => !(below root).contains r.path) = t :=
      List.filter_eq_self.mpr fun r _ => by simp [contains, hEmpty]
    rw [hAll]
    exact ⟨0, rfl⟩
  · rw [if_neg hEmpty]
    refine ⟨_, write_eq_ok.mpr ⟨rfl, _, rfl, ?_⟩⟩
    simp only [contains_range]

/-- **A delete keeps exactly the rows that the path does not cover.** -/
theorem Registry.delete_run (path : Text) (recursive : Bool) (t : Table) (supply : Supply) :
    delete path recursive ⟨t, true, supply⟩ =
      .ok () ⟨t.filter fun r => !(Path.ofText path).covers recursive r.path, true, supply⟩ := by
  have hErase (u : Table) : (discard <| Action.write fun t =>
      .ok (t.eraseAt (Path.ofText path).text) : Action Unit) ⟨u, true, supply⟩ =
      .ok () ⟨u.filter (·.path != (Path.ofText path).text), true, supply⟩ :=
    discard_eq_ok.mpr ⟨_, write_eq_ok.mpr ⟨rfl, _, rfl, rfl⟩⟩
  unfold delete
  rw [atomically_eq_ok]
  cases recursive with
  | false =>
    have hCovered (r : Row) : (!(Path.ofText path).covers false r.path) =
        (r.path != (Path.ofText path).text) := by
      simp [Path.covers, bne]
    simp only [hCovered]
    exact hErase t
  | true =>
    have hCovered (r : Row) : (!(Path.ofText path).covers true r.path) =
        (r.path != (Path.ofText path).text && !(below (.ofText path)).contains r.path) := by
      simp [Path.covers, bne]
    simp only [hCovered, ← List.filter_filter]
    obtain ⟨n, hBelow⟩ := Relocation.delete_run (.ofText path) t supply
    exact bind_eq_ok.mpr ⟨(), _, discard_eq_ok.mpr ⟨n, hBelow⟩, hErase _⟩

namespace Registry

/-- **A recursive delete**, on a table of any content: it succeeds and keeps exactly the rows
whose path is neither that of the path deleted nor longer than its stem and starting with it.
Then no text that normalizes to such a path has an identifier, and a second delete changes
nothing. -/
theorem delete_exact (path : Text) (t : Table) (supply : Supply) :
    let kept := t.filter fun r => ¬ (Path.ofText path).IsAtOrAbove r.path
    (delete path true).on t true supply = (.ok (), kept, supply) ∧
      (∀ text writable supply', (Path.ofText path).IsAtOrAbove (normalize text) →
        ((lookUp text).on kept writable supply').1 = .ok none) ∧
      ∀ supply', (delete path true).on kept true supply' = (.ok (), kept, supply') := by
  intro kept
  have hKept (u : Table) (s : Supply) : (delete path true).on u true s =
      (.ok (), u.filter fun r => ¬ (Path.ofText path).IsAtOrAbove r.path, s) := by
    rw [on_eq_ok]
    refine ⟨true, (delete_run path true u s).trans ?_⟩
    congr 2
    refine List.filter_congr fun r _ => ?_
    rw [Bool.eq_iff_iff, decide_eq_true_eq, ← Path.covers_iff (Path.ofText_isNormal path)]
    simp
  refine ⟨hKept t supply, fun text writable supply' hGone => ?_, fun supply' => ?_⟩
  · rw [lookUp, read_on, Table.idAt_eq_none, Table.holdsPath_eq_false]
    intro r hr hPath
    have hStays := (List.mem_filter.mp hr).2
    rw [decide_eq_true_eq, hPath] at hStays
    exact hStays hGone
  · rw [hKept kept supply', List.filter_filter]
    simp only [Bool.and_self]
    rfl

/-- Whatever stands in the key cells, `a` goes with everything that starts with `a/`, in normal
form or not, and leaves the sibling whose name goes on. -/
theorem delete_exact_of_malformed :
    let t : Table := [⟨.null, ['a', '/', '.']⟩, ⟨.integer 3, ['a', 'b']⟩, ⟨.octets [7], ['a']⟩,
      ⟨.text ['x'], ['a', '/', 'b', '\\', 'C']⟩]
    (delete ['A', '/'] true).on t true (.ofSeed 0) =
        (.ok (), [⟨.integer 3, ['a', 'b']⟩], .ofSeed 0) ∧
      (Path.ofText ['A', '/']).IsAtOrAbove (normalize ['a', '/', 'b', '\\', 'C']) ∧
      ((lookUp ['a', '/', 'b', '\\', 'C']).on [⟨.integer 3, ['a', 'b']⟩] true (.ofSeed 0)).1 =
        .ok none := by
  intro t
  obtain ⟨hDone, hGone, -⟩ := delete_exact ['A', '/'] t (.ofSeed 0)
  have hKept : (t.filter fun r => ¬ (Path.ofText ['A', '/']).IsAtOrAbove r.path) =
      [⟨.integer 3, ['a', 'b']⟩] := by decide +kernel
  rw [hKept] at hDone hGone
  have hBelow : (Path.ofText ['A', '/']).IsAtOrAbove (normalize ['a', '/', 'b', '\\', 'C']) := by
    decide +kernel
  exact ⟨hDone, hBelow, hGone _ true (.ofSeed 0) hBelow⟩

end Registry

end PathRegistry
