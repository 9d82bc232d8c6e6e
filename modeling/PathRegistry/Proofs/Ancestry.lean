import PathRegistry.Proofs.Descent

/-!
# Subtrees form a tree

A subtree is known by its stem, what all its members start with.  A stem is the path with a
separator behind it, except that the root is its own stem and that the current directory has none.
Either way it is read as the path, so two paths have the same subtree only if they are the same.

Of two stems that one text starts with, the shorter starts the longer, up to the separator at the
end of the longer one or even before that.  So one of the paths lies below the other, unless they
are the same: the paths above a text form a chain.  And to lie within a subtree is the same for a
path and for all that is below it.

## Main statements

* `Path.stem_injective` — a path is known by its stem.
* `Subtree.contains_trans` — what lies below a path lies below all paths above that one.
* `Subtree.contains_or_contains` — of two paths above one text, one lies below the other.
* `Subtree.below_forms_tree` — all of this together.
-/

namespace PathRegistry

namespace Path

variable {p q : Path}

/-- A stem is read as its path, unless it is empty. -/
theorem ofText_stem (hp : p.IsNormal) (hCurrent : p ≠ current) : ofText p.stem = p := by
  have hRead := ofText_stem_append hp (t := []) (by simp) fun h => absurd h hCurrent
  rw [List.append_nil] at hRead
  exact hRead

/-- **A path is known by its stem.** -/
theorem stem_injective (hp : p.IsNormal) (hq : q.IsNormal) (h : p.stem = q.stem) : p = q := by
  by_cases hCurrent : p = current
  · rw [hCurrent] at h ⊢
    exact (stem_eq_nil.mp h.symm).symm
  · have hCurrent' : q ≠ current := by
      rintro rfl
      exact hCurrent (stem_eq_nil.mp h)
    rw [← ofText_stem hp hCurrent, h, ofText_stem hq hCurrent']

end Path

namespace Subtree

open PathRegistry.Path

variable {p q : Path} {t : Text}

/-- **Different paths have different subtrees**, and these have different ranges. -/
theorem below_eq_iff (hp : p.IsNormal) (hq : q.IsNormal) :
    (below p = below q ↔ p = q) ∧ ((below p).range = (below q).range ↔ p = q) := by
  have hSame (h : p.stem = q.stem) : p = q := stem_injective hp hq h
  refine ⟨⟨fun h => hSame (congrArg stem h), fun h => h ▸ rfl⟩, ?_⟩
  exact ⟨fun h => hSame (congrArg TextRange.lower h), fun h => h ▸ rfl⟩

/-- The root lies below no path, and a path that does starts with a stem and goes on. -/
theorem contains_text_iff (p q : Path) : (below p).contains q.text = true ↔
    p ≠ current ∧ q ≠ root ∧ ∃ r, r ≠ [] ∧ q.text = p.stem ++ r := by
  rw [contains_iff]
  refine and_congr_right fun hCurrent => ⟨fun hText => ⟨?_, hText⟩, fun hText => hText.2⟩
  rintro rfl
  obtain ⟨r, hr, hText⟩ := hText
  obtain ⟨x, hx⟩ := stem_eq_concat hCurrent
  have hLength := congrArg List.length hText
  have hPos : 0 < r.length := List.length_pos_iff.mpr hr
  simp only [text_root, hx, List.length_append, List.length_singleton] at hLength
  omega

/-- **What lies below a path lies below all paths above that one.** -/
theorem contains_trans (hPath : (below p).contains q.text = true)
    (hText : (below q).contains t = true) : (below p).contains t = true := by
  obtain ⟨hCurrent, hRoot, r, -, hq⟩ := (contains_text_iff p q).mp hPath
  obtain ⟨hCurrent', r', -, rfl⟩ := (contains_iff q t).mp hText
  refine (contains_iff p _).mpr ⟨hCurrent, r ++ '/' :: r', by simp, ?_⟩
  rw [stem_eq_text hRoot hCurrent', hq]
  simp

/-- If a stem starts another, the paths are the same or the second lies below the first. -/
theorem contains_of_stem_starts (hp : p.IsNormal) (hq : q.IsNormal) (hCurrent : p ≠ current)
    (hPrefix : p.stem <+: q.stem) : p = q ∨ (below p).contains q.text = true := by
  obtain ⟨u, hu⟩ := stem_eq_concat hCurrent
  have hCurrent' : q ≠ current := by
    rintro rfl
    exact hCurrent (stem_eq_nil.mp (List.prefix_nil.mp hPrefix))
  by_cases hRoot : q = root
  · -- the stem of the root is one separator, so nothing shorter but the empty text starts it
    subst hRoot
    left
    refine stem_injective hp hq (hPrefix.eq_of_length_le ?_)
    rw [hu, List.length_append]
    exact Nat.le_add_left 1 _
  · have hStem := stem_eq_text hRoot hCurrent'
    rw [hStem, List.prefix_concat_iff, ← hStem] at hPrefix
    obtain hSame | ⟨r, hText⟩ := hPrefix
    · exact .inl (stem_injective hp hq hSame)
    by_cases hr : r = []
    · -- a stem is read as its path, also where it is the text of another
      rw [hr, List.append_nil] at hText
      left
      rw [← ofText_stem hp hCurrent, hText, ofText_text hq]
    · exact .inr ((contains_iff p q.text).mpr ⟨hCurrent, r, hr, hText.symm⟩)

/-- **Of two paths above one text, one lies below the other**, unless they are the same. -/
theorem contains_or_contains (hp : p.IsNormal) (hq : q.IsNormal)
    (hText : (below p).contains t = true) (hText' : (below q).contains t = true) :
    p = q ∨ (below p).contains q.text = true ∨ (below q).contains p.text = true := by
  obtain ⟨hCurrent, r, -, hStart⟩ := (contains_iff p t).mp hText
  obtain ⟨hCurrent', r', -, hStart'⟩ := (contains_iff q t).mp hText'
  have hBoth := List.prefix_or_prefix_of_prefix ⟨r, hStart.symm⟩ ⟨r', hStart'.symm⟩
  obtain hPrefix | hPrefix := hBoth
  · exact (contains_of_stem_starts hp hq hCurrent hPrefix).imp_right .inl
  · obtain hSame | hBelow := contains_of_stem_starts hq hp hCurrent' hPrefix
    · exact .inl hSame.symm
    · exact .inr (.inr hBelow)

/-- **To lie within a subtree is to lie below its path**, or to be the same or empty. -/
theorem contains_all_iff (hp : p.IsNormal) (hq : q.IsNormal) :
    (∀ t, (below q).contains t = true → (below p).contains t = true) ↔
      q = current ∨ p = q ∨ (below p).contains q.text = true := by
  constructor
  · intro hAll
    by_cases hCurrent : q = current
    · exact .inl hCurrent
    have hMember : (below q).contains (q.stem ++ ['a']) = true :=
      (contains_iff q _).mpr ⟨hCurrent, ['a'], by simp, rfl⟩
    obtain hSame | hBelow | hAbove := contains_or_contains hp hq (hAll _ hMember) hMember
    · exact .inr (.inl hSame)
    · exact .inr (.inr hBelow)
    · -- then `p` would lie below itself
      have hSelf := hAll _ hAbove
      rw [contains_self] at hSelf
      cases hSelf
  · rintro (rfl | rfl | hBelow) t hText
    · cases hText
    · exact hText
    · exact contains_trans hBelow hText

/-- **Subtrees form a tree.**  Two paths have the same subtree, and the same range, only if they
are the same.  If a path lies below another, so does all that is below it, and a subtree lies within
another in no other way, unless they are the same or it is empty.  If a text lies below two paths,
these are the same or one lies below the other; and no path lies below itself. -/
theorem below_forms_tree (hp : p.IsNormal) (hq : q.IsNormal) :
    (below p = below q ↔ p = q) ∧ ((below p).range = (below q).range ↔ p = q) ∧
      ((below p).contains q.text = true →
        ∀ t, (below q).contains t = true → (below p).contains t = true) ∧
      ((∀ t, (below q).contains t = true → (below p).contains t = true) →
        q = current ∨ p = q ∨ (below p).contains q.text = true) ∧
      (∀ t, (below p).contains t = true → (below q).contains t = true →
        p = q ∨ (below p).contains q.text = true ∨ (below q).contains p.text = true) ∧
      (below p).contains p.text = false := by
  obtain ⟨hSame, hRange⟩ := below_eq_iff hp hq
  refine ⟨hSame, hRange, fun hBelow t hText => contains_trans hBelow hText,
    (contains_all_iff hp hq).mp, fun t hText hText' => ?_, contains_self p⟩
  exact contains_or_contains hp hq hText hText'

/-- Below `..` lies `../..` with all that is below it, and not the other way round. -/
theorem below_forms_tree_of_climbing :
    let p := Path.ofText ['.', '.']
    let q := Path.ofText ['.', '.', '\\', '.', '.']
    p.IsNormal ∧ q.IsNormal ∧ (below p).range ≠ (below q).range ∧
      (below p).contains q.text = true ∧
      (∀ t, (below q).contains t = true → (below p).contains t = true) ∧
      (below q).contains ['.', '.', '/', '.', '.', '/', 'ß'] = true ∧
      ¬∀ t, (below p).contains t = true → (below q).contains t = true := by
  intro p q
  have hp : p.IsNormal := Path.ofText_isNormal _
  have hq : q.IsNormal := Path.ofText_isNormal _
  have hOther : p ≠ q := by decide +kernel
  have hBelow : (below p).contains q.text = true := by decide +kernel
  obtain ⟨-, hRange, hWithin, -⟩ := below_forms_tree hp hq
  obtain ⟨-, -, -, hConverse, -⟩ := below_forms_tree hq hp
  refine ⟨hp, hq, fun hSame => hOther (hRange.mp hSame), hBelow, hWithin hBelow,
    by decide +kernel, fun hAll => ?_⟩
  obtain hCurrent | hSame | hAbove := hConverse hAll
  · exact absurd hCurrent (by decide +kernel)
  · exact hOther hSame.symm
  · exact absurd hAbove (by decide +kernel)

end Subtree

end PathRegistry
