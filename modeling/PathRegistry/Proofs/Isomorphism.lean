import Mathlib.Order.RelIso.Basic
import PathRegistry.Proofs.RoundTrip

/-!
# Subtrees are alike

Below two paths that are neither the current directory nor made of parent steps only, the same
names can follow.  So to carry texts from one subtree to the other is to rename its members one by
one: none is lost, no two meet, the order of the encodings stays, and to carry back is to undo it.
To go on to a third subtree from there is to go to it at once, whatever that subtree is.

Below a path made of parent steps only, a text may climb out again when it is carried elsewhere.
Carried to where it is, it stays.

## Main statements

* `Subtree.descendantsIso` — two such subtrees, in order.
* `Subtree.carry?_carry?` — carrying in two steps.
* `Subtree.carrying_isomorphic` — all of this together.
-/

namespace PathRegistry

open Subtree

/-- A text in normal form that lies strictly below the path. -/
def Path.Descendant (p : Path) : Type :=
  { t : Text // normalize t = t ∧ (below p).contains t = true }

/-- One descendant comes before another in the order of the encodings. -/
def Path.Descendant.Precedes {p : Path} (d e : p.Descendant) : Prop :=
  Text.octets d.val < Text.octets e.val

namespace Subtree

variable {source target : Path}

section Across

variable (hs : source.IsNormal) (ht : target.IsNormal) (hClimbs : source.climbsOnly = false)
  (hCurrent : target ≠ .current)

include hs ht hClimbs hCurrent

/-- What has been carried lies below the target. -/
theorem contains_carried {t : Text} (hNormal : normalize t = t)
    (hIn : (below source).contains t = true) :
    (below target).contains (carried source target t) = true :=
  contains_of_carry? (carry?_carried hs ht hClimbs hCurrent hNormal hIn)

/-- A descendant of the source, carried to the target. -/
def transfer (d : source.Descendant) : target.Descendant :=
  ⟨carried source target d.val, normalize_carried d.property.1,
    contains_carried hs ht hClimbs hCurrent d.property.1 d.property.2⟩

/-- **Carrying keeps the order**: what follows the stems is compared either way. -/
theorem transfer_precedes (d e : source.Descendant) :
    (transfer hs ht hClimbs hCurrent d).Precedes (transfer hs ht hClimbs hCurrent e) ↔
      d.Precedes e := by
  obtain ⟨t, hNormal, hIn⟩ := d
  obtain ⟨u, hNormal', hIn'⟩ := e
  have hBoth : carried source target t = rerooted source target t ∧
      carried source target u = rerooted source target u :=
    ⟨carried_eq_rerooted hs ht hClimbs hNormal hIn, carried_eq_rerooted hs ht hClimbs hNormal' hIn'⟩
  obtain ⟨-, r, -, rfl⟩ := (contains_iff source t).mp hIn
  obtain ⟨-, v, -, rfl⟩ := (contains_iff source u).mp hIn'
  simp only [Path.Descendant.Precedes, transfer, hBoth, rerooted_append,
    ← Text.isBefore_iff_octets, Text.isBefore_append_left]

end Across

/-- **Two subtrees in order**, one carried to the other. -/
def descendantsIso (hs : source.IsNormal) (ht : target.IsNormal)
    (hSource : source ≠ .current ∧ source.climbsOnly = false)
    (hTarget : target ≠ .current ∧ target.climbsOnly = false) :
    (Path.Descendant.Precedes (p := source)) ≃r (Path.Descendant.Precedes (p := target)) where
  toFun := transfer hs ht hSource.2 hTarget.1
  invFun := transfer ht hs hTarget.2 hSource.1
  left_inv d := Subtype.ext <| carried_of_carry? <|
    carry?_carried hs ht hSource.2 hTarget.1 d.property.1 d.property.2
  right_inv d := Subtype.ext <| carried_of_carry? <|
    carry?_carried ht hs hTarget.2 hSource.1 d.property.1 d.property.2
  map_rel_iff' {d e} := transfer_precedes hs ht hSource.2 hTarget.1 d e

/-- **Carrying in two steps** is carrying at once, if the first leads to where names stay names. -/
theorem carry?_carry? (hs : source.IsNormal) (ht : target.IsNormal)
    (hClimbs : source.climbsOnly = false) (hCurrent : target ≠ .current) {t : Text}
    (hNormal : normalize t = t) (onward : Path) :
    ((below source).carry? t (below target)).bind
      (fun q => (below target).carry? q (below onward)) =
        (below source).carry? t (below onward) := by
  cases hIn : (below source).contains t with
  | false => rw [carry?_eq_none.mpr hIn, carry?_eq_none.mpr hIn, Option.bind_none]
  | true =>
    rw [carry?_eq_some_carried hIn, Option.bind_some,
      carried_eq_rerooted hs ht hClimbs hNormal hIn]
    obtain ⟨hSource, r, hr, rfl⟩ := (contains_iff source t).mp hIn
    rw [rerooted_append, carry?_eq_some.mpr ⟨hCurrent, r, hr, rfl, rfl⟩,
      carry?_eq_some.mpr ⟨hSource, r, hr, rfl, rfl⟩]

/-- **Carrying is an isomorphism of subtrees.**  Of two paths that are neither the current
directory nor made of parent steps only, each normal text strictly below the one is carried to one
strictly below the other, one to one, in the order of the encodings, and carrying back undoes it.
To carry a text on from there to any third subtree is to carry it there at once.  And below every
path, also one made of parent steps only, what is carried to where it is stays as it is. -/
theorem carrying_isomorphic (hs : source.IsNormal) (ht : target.IsNormal)
    (hSource : source ≠ .current ∧ source.climbsOnly = false)
    (hTarget : target ≠ .current ∧ target.climbsOnly = false) :
    (∃ f : (Path.Descendant.Precedes (p := source)) ≃r (Path.Descendant.Precedes (p := target)),
      (∀ d, (below source).carry? d.val (below target) = some (f d).val) ∧
        ∀ d, (below target).carry? d.val (below source) = some (f.symm d).val) ∧
      (∀ (onward : Path) (t : Text), normalize t = t →
        ((below source).carry? t (below target)).bind
          (fun q => (below target).carry? q (below onward)) =
            (below source).carry? t (below onward)) ∧
      ∀ (p : Path) (t : Text), normalize t = t → (below p).contains t = true →
        (below p).carry? t (below p) = some t := by
  refine ⟨⟨descendantsIso hs ht hSource hTarget, fun d => ?_, fun d => ?_⟩,
    fun onward t hNormal => carry?_carry? hs ht hSource.2 hTarget.1 hNormal onward,
    fun p t hNormal hIn => carry?_self hNormal hIn⟩
  · exact carry?_eq_some_carried d.property.2
  · exact carry?_eq_some_carried d.property.2

/-- From the root to `ü/b` beyond ASCII, on to `..` and back; and below `..`, where a text climbs
on. -/
theorem carrying_isomorphic_of_root :
    let target := Path.ofText ['Ü', '/', 'b']
    let climbing := Path.ofText ['.', '.']
    Path.root.IsNormal ∧ target.IsNormal ∧
      (Path.root ≠ .current ∧ Path.root.climbsOnly = false) ∧
      (target ≠ .current ∧ target.climbsOnly = false) ∧
      (∃ f : (Path.Descendant.Precedes (p := .root)) ≃r (Path.Descendant.Precedes (p := target)),
        ∀ d, d.val = ['/', 'ß', '/', 'x'] →
          (f d).val = ['ü', '/', 'b', '/', 'ß', '/', 'x'] ∧ f.symm (f d) = d) ∧
      ((below .root).carry? ['/', 'ß'] (below target)).bind
        (fun q => (below target).carry? q (below climbing)) = some ['.', '.', '/', 'ß'] ∧
      (below climbing).carry? ['.', '.', '/', '.', '.', '/', 'x'] (below climbing) =
        some ['.', '.', '/', '.', '.', '/', 'x'] := by
  intro target climbing
  have ht : target.IsNormal := Path.ofText_isNormal _
  have hRoot : Path.root ≠ .current ∧ Path.root.climbsOnly = false := by decide
  have hTarget : target ≠ .current ∧ target.climbsOnly = false := by decide +kernel
  obtain ⟨⟨f, hThere, -⟩, hOnward, hStay⟩ :=
    carrying_isomorphic Path.root_isNormal ht hRoot hTarget
  refine ⟨Path.root_isNormal, ht, hRoot, hTarget, ⟨f, fun d hd => ⟨?_, f.symm_apply_apply d⟩⟩, ?_,
    hStay climbing _ (by decide +kernel) (by decide +kernel)⟩
  · have hCarry : (below .root).carry? ['/', 'ß', '/', 'x'] (below target) =
        some ['ü', '/', 'b', '/', 'ß', '/', 'x'] := by decide +kernel
    have hCarried := hThere d
    rw [hd] at hCarried
    exact Option.some.inj (hCarried.symm.trans hCarry)
  · rw [hOnward climbing _ (by decide +kernel)]
    decide +kernel

end Subtree

end PathRegistry
