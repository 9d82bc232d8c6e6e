import PathRegistry.Subtree
import PathRegistry.Proofs.NormalForm

/-!
# What lies below a path

A text lies below a path if it consists of the stem and something more.  The
open range of a subtree says the same by order alone: a text strictly between
`x/` and `x0` starts with `x/`.

Below a path that is not made of parent steps only, a normal text descends by
names: it is the text of the path with some names added.  Carrying it to another
path then adds the same names there, and no step of the new text has to be
resolved, which is why one rewriting of the stem serves all descendants at once.
Below `..` this fails, since `../../x` lies below `..` and descends by no names.

## Main statements

* `Subtree.contains_iff` — membership as a stem with something behind it.
* `Subtree.contains_range` — the open range has exactly the members of the subtree.
* `Subtree.contains_iff_descend` — the normal members descend by names.
* `Subtree.carry?_descend` — carrying keeps the names.
-/

namespace PathRegistry

namespace Text

/-- **Between a separator and the next character**: a text between `x/` and `x0`
starts with `x/` and is longer. -/
theorem between_iff (x t : Text) :
    isBefore (x ++ ['/']) t = true ∧ isBefore t (x ++ ['0']) = true ↔
      ∃ r, r ≠ [] ∧ t = x ++ '/' :: r := by
  induction x generalizing t with
  | nil =>
    cases t with
    | nil => simp [isBefore]
    | cons c rest =>
      have hSlash : ('/' : Char).toNat = 47 := rfl
      have hZero : ('0' : Char).toNat = 48 := rfl
      have hSame : ∀ d : Char, c = d ↔ c.toNat = d.toNat := fun d => Char.toNat_inj.symm
      have hNil : isBefore [] rest = true ↔ rest ≠ [] := by cases rest <;> simp [isBefore]
      have hNone : isBefore rest [] = false := by cases rest <;> rfl
      simp only [List.nil_append, isBefore, Bool.or_eq_true, decide_eq_true_eq, hSlash, hZero,
        Bool.and_eq_true, beq_iff_eq, hNil, hNone, Bool.false_eq_true, and_false, or_false,
        List.cons.injEq, exists_eq_right_right']
      rw [eq_comm, hSame, hSlash]
      constructor
      · rintro ⟨hLow | ⟨hEq, hRest⟩, hHigh⟩
        · omega
        · exact ⟨hRest, hEq⟩
      · rintro ⟨hRest, hEq⟩
        exact ⟨.inr ⟨hEq, hRest⟩, by omega⟩
  | cons d x ih =>
    cases t with
    | nil => simp [isBefore]
    | cons c rest =>
      have hSame : d = c ↔ d.toNat = c.toNat := Char.toNat_inj.symm
      simp only [List.cons_append, isBefore, Bool.or_eq_true, decide_eq_true_eq,
        Bool.and_eq_true, beq_iff_eq, List.cons.injEq]
      constructor
      · rintro ⟨hLow | ⟨rfl, hLow⟩, hHigh | ⟨hEq, hHigh⟩⟩
        · omega
        · rw [hEq] at hLow
          omega
        · omega
        · obtain ⟨r, hr, rfl⟩ := (ih rest).mp ⟨hLow, hHigh⟩
          exact ⟨r, hr, rfl, rfl⟩
      · rintro ⟨r, hr, rfl, rfl⟩
        obtain ⟨hLow, hHigh⟩ := (ih (x ++ '/' :: r)).mpr ⟨r, hr, rfl⟩
        exact ⟨.inr ⟨rfl, hLow⟩, .inr ⟨rfl, hHigh⟩⟩

end Text

namespace Subtree

open PathRegistry.Path

variable {s target : Path}

/-- Only the current directory has a subtree without members. -/
theorem isEmpty_below {p : Path} : (below p).isEmpty = true ↔ p = current := by
  rw [isEmpty, List.isEmpty_iff]
  exact stem_eq_nil

theorem contains_iff (s : Path) (t : Text) :
    (below s).contains t = true ↔ s ≠ current ∧ ∃ r, r ≠ [] ∧ t = s.stem ++ r := by
  unfold contains below
  simp only [isEmpty, Bool.and_eq_true, Bool.not_eq_true', List.isEmpty_eq_false_iff,
    decide_eq_true_eq, List.isPrefixOf_iff_prefix]
  constructor
  · rintro ⟨⟨hStem, hLonger⟩, r, rfl⟩
    refine ⟨fun h => hStem (stem_eq_nil.mpr h), r, ?_, rfl⟩
    rintro rfl
    simp at hLonger
  · rintro ⟨hOther, r, hr, rfl⟩
    refine ⟨⟨fun h => hOther (stem_eq_nil.mp h), ?_⟩, List.prefix_append _ _⟩
    have hLength : 0 < r.length := List.length_pos_iff.mpr hr
    rw [List.length_append]
    omega

/-- **Range and subtree agree** on every text, normal or not. -/
theorem contains_range (s : Path) (t : Text) :
    (below s).range.contains t = (below s).contains t := by
  rw [Bool.eq_iff_iff, contains_iff]
  by_cases hCurrent : s = current
  · subst hCurrent
    have hStem : current.stem = [] := rfl
    cases t <;> simp [TextRange.contains, range, below, isEmpty, hStem, Text.isBefore]
  · obtain ⟨x, hx⟩ := stem_eq_concat hCurrent
    simp [TextRange.contains, range, below, isEmpty, hx, Text.between_iff, hCurrent]

/-- A path does not lie below itself. -/
theorem contains_self (s : Path) : (below s).contains s.text = false := by
  rw [Bool.eq_false_iff, Ne, contains_iff]
  rintro ⟨hCurrent, r, hr, hText⟩
  by_cases hRoot : s = root
  · subst hRoot
    have hStem : root.stem = ['/'] := rfl
    rw [text_root, hStem] at hText
    simp_all
  · rw [stem_eq_text hRoot hCurrent] at hText
    simp at hText

theorem carry?_eq_some {t q : Text} :
    (below s).carry? t (below target) = some q ↔
      s ≠ current ∧ ∃ r, r ≠ [] ∧ t = s.stem ++ r ∧ q = normalize (target.stem ++ r) := by
  unfold carry?
  split
  · rename_i hIn
    obtain ⟨hCurrent, r, hr, rfl⟩ := (contains_iff s t).mp hIn
    have hDrop : (s.stem ++ r).drop (below s).stem.length = r := List.drop_left
    rw [hDrop]
    constructor
    · rintro ⟨rfl⟩
      exact ⟨hCurrent, r, hr, rfl, rfl⟩
    · rintro ⟨-, u, -, hu, rfl⟩
      rw [List.append_cancel_left hu]
      rfl
  · rename_i hOut
    simp only [reduceCtorEq, false_iff]
    rintro ⟨hCurrent, r, hr, rfl, -⟩
    exact hOut ((contains_iff s _).mpr ⟨hCurrent, r, hr, rfl⟩)

/-- What is carried comes to lie in normal form. -/
theorem normalize_of_carry? {t q : Text} {u : Subtree} (h : (below s).carry? t u = some q) :
    normalize q = q := by
  unfold carry? at h
  split at h
  · cases h
    exact normalize_normalize _
  · cases h

end Subtree

/-! ## Descending by names -/

namespace Path

variable {p q : Path} {ns : List Text}

/-- The path reached from `p` by some names. -/
def descend (p : Path) (ns : List Text) : Path := ⟨p.anchor, p.names ++ ns⟩

/-- The names with a separator between them. -/
def joined (ns : List Text) : Text := (ns.flatMap (· ++ ['/'])).dropLast

theorem descend_isNormal (hp : p.IsNormal) (hns : ∀ n ∈ ns, IsName n) :
    (p.descend ns).IsNormal := by
  intro n hn
  rcases List.mem_append.mp hn with hOld | hNew
  · exact hp n hOld
  · exact hns n hNew

theorem stem_descend (p : Path) (ns : List Text) :
    (p.descend ns).stem = p.stem ++ ns.flatMap (· ++ ['/']) := by
  simp [stem, descend]

theorem flatMap_eq_joined (hNames : ns ≠ []) :
    ns.flatMap (· ++ ['/']) = joined ns ++ ['/'] := by
  rcases List.eq_nil_or_concat ns with hNil | ⟨front, last, rfl⟩
  · exact absurd hNil hNames
  · have hEnd : (front ++ [last]).flatMap (· ++ ['/']) =
        (front.flatMap (· ++ ['/']) ++ last) ++ ['/'] := by simp
    rw [joined, List.concat_eq_append, hEnd, List.dropLast_concat]

theorem descend_ne (hNames : ns ≠ []) : p.descend ns ≠ root ∧ p.descend ns ≠ current := by
  constructor
  · intro h
    have hNil : p.names ++ ns = [] := congrArg Path.names h
    exact hNames (List.append_eq_nil_iff.mp hNil).2
  · intro h
    have hNil : p.names ++ ns = [] := congrArg Path.names h
    exact hNames (List.append_eq_nil_iff.mp hNil).2

theorem text_descend (hNames : ns ≠ []) : (p.descend ns).text = p.stem ++ joined ns := by
  obtain ⟨hRoot, hCurrent⟩ := descend_ne (p := p) hNames
  have hStem := stem_eq_text hRoot hCurrent
  rw [stem_descend, flatMap_eq_joined hNames, ← List.append_assoc] at hStem
  exact (List.append_cancel_right hStem).symm

theorem joined_ne_nil (hNames : ns ≠ []) (hns : ∀ n ∈ ns, IsName n) : joined ns ≠ [] := by
  intro hNil
  cases ns with
  | nil => exact hNames rfl
  | cons n ns =>
    have hEnd := flatMap_eq_joined hNames
    have hName := (hns n List.mem_cons_self).ne_nil
    have hLength := congrArg List.length hEnd
    have hPos : 0 < n.length := List.length_pos_iff.mpr hName
    simp only [hNil, List.flatMap_cons, List.length_append, List.length_cons,
      List.length_nil] at hLength
    omega

private theorem replicate_append_inj {a m : Text} {n k : Nat} {u w : List Text}
    (hu : a ∉ u) (hm : m ≠ a)
    (h : List.replicate n a ++ u = List.replicate k a ++ m :: w) : n = k ∧ u = m :: w := by
  induction n generalizing k with
  | zero =>
    cases k with
    | zero => exact ⟨rfl, h⟩
    | succ k =>
      have hIn : u = a :: (List.replicate k a ++ m :: w) := h
      exact absurd (hIn ▸ List.mem_cons_self) hu
  | succ n ih =>
    cases k with
    | zero =>
      have hHead : a :: (List.replicate n a ++ u) = m :: w := h
      exact absurd (List.cons.inj hHead).1.symm hm
    | succ k =>
      have hTail : a :: (List.replicate n a ++ u) = a :: (List.replicate k a ++ m :: w) := h
      obtain ⟨hEq, hRest⟩ := ih (List.cons.inj hTail).2
      exact ⟨by rw [hEq], hRest⟩

/-- Behind the steps of a path that ends in a name, or of the root, only names can
follow in normal form. -/
theorem descend_of_steps (hp : p.IsNormal) (hq : q.IsNormal) (hCurrent : q ≠ current)
    (hClimbs : q.climbsOnly = false) {l : List Text} (h : p.steps = q.steps ++ l) :
    p = q.descend l ∧ ∀ n ∈ l, IsName n := by
  suffices hSame : p = q.descend l by
    refine ⟨hSame, fun n hn => hp n ?_⟩
    rw [hSame]
    exact List.mem_append_right _ hn
  obtain ⟨anchor, names⟩ := p
  obtain ⟨anchor', names'⟩ := q
  have hParent : ['.', '.'] ∉ names := fun hIn => (hp _ hIn).ne_parent rfl
  cases anchor' with
  | root =>
    cases anchor with
    | root => simpa [steps, Anchor.steps, descend] using h
    | above n =>
      cases n with
      | zero =>
        have hIn : names = [] :: (names' ++ l) := h
        exact absurd rfl (hp [] (hIn ▸ List.mem_cons_self)).ne_nil
      | succ n => simp [steps, Anchor.steps, List.replicate_succ] at h
  | above k =>
    cases names' with
    | nil => cases k with
      | zero => exact absurd rfl hCurrent
      | succ k => simp [climbsOnly] at hClimbs
    | cons m ms =>
      have hName : IsName m := hq m List.mem_cons_self
      cases anchor with
      | root =>
        cases k with
        | zero =>
          have hHead : [] :: names = m :: (ms ++ l) := h
          exact absurd (List.cons.inj hHead).1.symm hName.ne_nil
        | succ k => simp [steps, Anchor.steps, List.replicate_succ] at h
      | above n =>
        have hSteps : List.replicate n ['.', '.'] ++ names =
            List.replicate k ['.', '.'] ++ m :: (ms ++ l) := by
          simpa [steps, Anchor.steps] using h
        obtain ⟨rfl, rfl⟩ := replicate_append_inj hParent hName.ne_parent hSteps
        rfl

/-- What follows the stem in a normal text below the path is made of names. -/
theorem exists_joined (hp : p.IsNormal) (hCurrent : p ≠ current)
    (hClimbs : p.climbsOnly = false) {r : Text} (hr : r ≠ [])
    (hNormal : normalize (p.stem ++ r) = p.stem ++ r) :
    ∃ ns, ns ≠ [] ∧ (∀ n ∈ ns, IsName n) ∧ r = joined ns := by
  obtain ⟨d, hd, hText⟩ := exists_path_of_normalize hNormal
  obtain ⟨u, hu⟩ := stem_eq_concat hCurrent
  have hLength : 2 ≤ d.text.length := by
    have hPos : 0 < r.length := List.length_pos_iff.mpr hr
    rw [hText, hu, List.length_append, List.length_append, List.length_singleton]
    omega
  have hRoot : d ≠ root := by
    rintro rfl
    simp [text_root] at hLength
  have hOther : d ≠ current := by
    rintro rfl
    simp [text_current] at hLength
  have hStem : d.stem = p.stem ++ (r ++ ['/']) := by
    rw [stem_eq_text hRoot hOther, hText, List.append_assoc]
  have hSegments : d.steps ++ [[]] = p.steps ++ Text.segments r ++ [[]] := by
    have hLeft := segments_stem_append hd []
    rw [List.append_nil, hStem, segments_stem_append hp, Text.segments_concat_separator,
      ← List.append_assoc] at hLeft
    exact hLeft.symm
  obtain ⟨hDescend, hNames⟩ :=
    descend_of_steps hd hp hCurrent hClimbs (List.append_cancel_right hSegments)
  have hSome : Text.segments r ≠ [] := Text.pieces_ne_nil _ r
  refine ⟨Text.segments r, hSome, hNames, ?_⟩
  rw [hDescend, text_descend hSome] at hText
  exact (List.append_cancel_left hText).symm

end Path

namespace Subtree

open PathRegistry.Path

variable {s target : Path} {ns : List Text}

/-- **Members descend by names**, unless the path is made of parent steps only. -/
theorem contains_iff_descend (hs : s.IsNormal) (hCurrent : s ≠ current)
    (hClimbs : s.climbsOnly = false) {t : Text} (ht : normalize t = t) :
    (below s).contains t = true ↔
      ∃ ns, ns ≠ [] ∧ (∀ n ∈ ns, IsName n) ∧ t = (s.descend ns).text := by
  rw [contains_iff]
  constructor
  · rintro ⟨-, r, hr, rfl⟩
    obtain ⟨ns, hSome, hNames, rfl⟩ := exists_joined hs hCurrent hClimbs hr ht
    exact ⟨ns, hSome, hNames, (text_descend hSome).symm⟩
  · rintro ⟨ns, hSome, hNames, rfl⟩
    exact ⟨hCurrent, joined ns, joined_ne_nil hSome hNames, text_descend hSome⟩

/-- **Carrying keeps the names**: what descends from one path comes to descend from
the other by the same names. -/
theorem carry?_descend (hCurrent : s ≠ current) (ht : target.IsNormal) (hSome : ns ≠ [])
    (hNames : ∀ n ∈ ns, IsName n) :
    (below s).carry? (s.descend ns).text (below target) = some (target.descend ns).text := by
  refine carry?_eq_some.mpr
    ⟨hCurrent, joined ns, joined_ne_nil hSome hNames, text_descend hSome, ?_⟩
  rw [← text_descend hSome, normalize_text (descend_isNormal ht hNames)]

/-- **Rewriting the stem is carrying**: below a path that is not made of parent
steps only, the rest of a normal text needs no second normalization. -/
theorem carry?_eq_append (hs : s.IsNormal) (ht : target.IsNormal)
    (hClimbs : s.climbsOnly = false) {t : Text} (hNormal : normalize t = t)
    (hIn : (below s).contains t = true) :
    (below s).carry? t (below target) = some (target.stem ++ t.drop s.stem.length) := by
  have hCurrent : s ≠ current := ((contains_iff s t).mp hIn).1
  obtain ⟨ns, hSome, hNames, rfl⟩ := (contains_iff_descend hs hCurrent hClimbs hNormal).mp hIn
  rw [carry?_descend hCurrent ht hSome hNames, text_descend hSome, text_descend hSome,
    List.drop_left]

end Subtree

end PathRegistry
