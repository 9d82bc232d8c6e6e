import PathRegistry.Proofs.Descent
import PathRegistry.Proofs.Equivalence

/-!
# Joining texts

To join two texts is to write one behind the other with a separator between them.  A joined text
can be read at once, or the first part can be normalized before the second is put behind its stem.
The two ways lead to the same place, whatever parent steps the second part has and wherever the
first one leads: either way the segments of the second part are entered from the path that the
first one means.  Nor is there a difference in the letters, although lowering looks at the
neighbours of a letter, since it does not look past a separator.

The separator must not be what makes the text absolute, so the first part has to be there.  And
the stem of the current directory is empty, so behind it the second part may not start with a
separator of its own.

Carrying a text to another subtree puts what follows the one stem behind the other, so it joins
that rest to any text that means the target.

## Main statements

* `Path.ofText_join` — the second part is entered from the path of the first.
* `normalize_joined` — joining commutes with normalizing, and carrying is joining.
-/

namespace PathRegistry

namespace Path

variable {p : Path}

theorem ofText_lower (t : Text) : ofText (lower t) = ofText t := by
  rw [ofText, ofText, lower_lower]

/-- **Reading a joined text**: the second part is entered from the path of the first. -/
theorem ofText_join {c : Char} (hc : Text.isSeparator c = true) {a : Text} (ha : a ≠ [])
    (b : Text) :
    ofText (a ++ c :: b) = (Text.segments (lower b)).foldl enter (ofText a) := by
  have hStart : (a ++ c :: b).isAbsolute = a.isAbsolute := by
    cases a with
    | nil => exact absurd rfl ha
    | cons d rest => rfl
  have hSegments : Text.segments (lower (a ++ c :: b)) =
      Text.segments (lower a) ++ Text.segments (lower b) := by
    rw [lower_append hc]
    exact Text.pieces_append hc (lower a) (lower b)
  rw [ofText_eq_foldl, hStart, hSegments, List.foldl_append, ← ofText_eq_foldl]

/-- The stem of a normal path stays while the text behind it is lowered. -/
theorem lower_stem_append (hp : p.IsNormal) (t : Text) :
    lower (p.stem ++ t) = p.stem ++ lower t := by
  by_cases hCurrent : p = current
  · subst hCurrent
    rfl
  · obtain ⟨x, hx⟩ := stem_eq_concat hCurrent
    have hSettled : ∀ c ∈ x, Lowercase.IsSettled c := by
      intro c hc
      exact stem_settled hp c (hx ▸ List.mem_append_left _ hc)
    rw [hx, List.append_assoc, List.append_assoc]
    show lower (x ++ '/' :: t) = x ++ '/' :: lower t
    rw [lower_append (by decide), lower_of_settled hSettled]

/-- **Reading what stands behind a stem**, in letters of any case: it is entered from the path. -/
theorem ofText_behind_stem (hp : p.IsNormal) {t : Text}
    (hStart : p = current → t.isAbsolute = false) :
    ofText (p.stem ++ t) = (Text.segments (lower t)).foldl enter p := by
  have hAnchor (hCurrent : p = current) : Anchor.ofText (lower t) = .above 0 := by
    have hLower : (lower t).isAbsolute = false := (isAbsolute_lower t).trans (hStart hCurrent)
    cases h : lower t with
    | nil => rfl
    | cons c rest =>
      rw [h] at hLower
      have hc : Text.isSeparator c = false := hLower
      simp [Anchor.ofText, hc]
  rw [← ofText_lower, lower_stem_append hp,
    ofText_stem_append hp (settled_lower t) hAnchor]

end Path

open Subtree

/-- **Joining commutes with normalizing.**  To join a text that does not start with a separator to
one that is not empty, and to normalize the whole, is to normalize the first and to put the second
behind its stem.  So if what follows the stem of the source in a text below it does not start with
a separator, then the text is carried to what that rest joined to the target means, however the
target is written. -/
theorem normalize_joined :
    (∀ a b : Text, a ≠ [] → b.isAbsolute = false →
      normalize (a ++ '/' :: b) = normalize ((Path.ofText a).stem ++ b)) ∧
    ∀ (source : Path) (path target : Text), (below source).contains path = true →
      Text.isAbsolute (path.drop (below source).stem.length) = false → target ≠ [] →
      (below source).carry? path (below (.ofText target)) =
        some (normalize (target ++ '/' :: path.drop (below source).stem.length)) := by
  have hJoined (a b : Text) (ha : a ≠ []) (hb : b.isAbsolute = false) :
      normalize (a ++ '/' :: b) = normalize ((Path.ofText a).stem ++ b) := by
    rw [normalize, normalize, Path.ofText_join (by decide) ha,
      Path.ofText_behind_stem (Path.ofText_isNormal a) fun _ => hb]
  refine ⟨hJoined, fun source path target hIn hRest hTarget => ?_⟩
  rw [carry?, if_pos hIn, hJoined target _ hTarget hRest]
  rfl

/-- The sigma of `ΑΣ` ends a word before the separator as it does at the end of the text, and one
that starts the second part does not, although a letter stands before the separator. -/
theorem normalize_joined_sigma :
    let a : Text := ['x', '\\', '.', '.', '/', 'Α', 'Σ']
    let b : Text := ['Σ', 'Α', '/', '.', '.', '/', 'Σ']
    a ≠ [] ∧ b.isAbsolute = false ∧
      normalize (a ++ '/' :: b) = ['α', 'ς', '/', 'σ'] ∧
      normalize ((Path.ofText a).stem ++ b) = ['α', 'ς', '/', 'σ'] ∧
      (below (.ofText ['.', '.'])).contains (['.', '.', '/'] ++ b) = true ∧
      (below (.ofText ['.', '.'])).carry? (['.', '.', '/'] ++ b) (below (.ofText a)) =
        some ['α', 'ς', '/', 'σ'] := by
  intro a b
  have ha : a ≠ [] := by decide
  have hb : b.isAbsolute = false := by decide
  have hWhole : normalize (a ++ '/' :: b) = ['α', 'ς', '/', 'σ'] := by decide +kernel
  have hIn : (below (.ofText ['.', '.'])).contains (['.', '.', '/'] ++ b) = true := by
    decide +kernel
  have hRest : (['.', '.', '/'] ++ b).drop (below (.ofText ['.', '.'])).stem.length = b := by
    decide +kernel
  have hCarry := normalize_joined.2 _ _ a hIn (by rw [hRest]; exact hb) ha
  rw [hRest, hWhole] at hCarry
  exact ⟨ha, hb, hWhole, (normalize_joined.1 a b ha hb).symm.trans hWhole, hIn, hCarry⟩

end PathRegistry
