import Mathlib.Logic.Relation
import PathRegistry.Proofs.NormalForm

/-!
# Texts that lead to the same place

A list of segments makes a detour where it stays: at an empty segment or `.`, at a name with a
parent step right behind it, and, if it starts from the root, at a parent step in front.  Two
lists lead alike if one becomes the other when detours are left out and put in, any number of
them, anywhere and in any order.  This says nothing about a stack, a normal form or an order in
which to look for detours.

`normalize` decides that relation.  A detour changes nothing about where a walk along the
segments ends, whatever comes before and after it, so lists that lead alike end at one path.  For
the converse no two ways of leaving out detours have to be compared: the walk itself leaves them
out from the front on, and what is left of the list are the steps of the path where it ends,
which depend on that path alone.

## Main statements

* `Detour.foldl_enter` — a detour does not change where a walk ends.
* `leadsAlike_foldl_enter` — a list leads like the steps of the path where it ends.
* `normalize_eq_iff` — texts have one normal form exactly if they start alike and their segments
  lead alike.
-/

namespace PathRegistry

/-- Whether a text starts with a separator. -/
def Text.isAbsolute : Text → Bool
  | [] => false
  | c :: _ => isSeparator c

/-- The first list of segments has one detour more than the second. -/
inductive Detour (absolute : Bool) : List Text → List Text → Prop
  /-- An empty segment or `.`, anywhere. -/
  | stay (before : List Text) (s : Text) (after : List Text) (hStay : s = [] ∨ s = ['.']) :
      Detour absolute (before ++ s :: after) (before ++ after)
  /-- A name and the parent step right behind it, anywhere. -/
  | back (before : List Text) (s : Text) (after : List Text) (hStay : ¬ (s = [] ∨ s = ['.']))
      (hParent : s ≠ ['.', '.']) :
      Detour absolute (before ++ s :: ['.', '.'] :: after) (before ++ after)
  /-- A parent step at the start, if that is the root. -/
  | top (after : List Text) (hRoot : absolute = true) : Detour absolute (['.', '.'] :: after) after

/-- One list of segments becomes the other when detours are left out and put in. -/
def LeadsAlike (absolute : Bool) : List Text → List Text → Prop :=
  Relation.EqvGen (Detour absolute)

/-! ## Walking along a detour -/

namespace Path

/-- Where a walk starts: at the root or in the current directory. -/
def outset (absolute : Bool) : Path := if absolute then root else current

theorem parent_concat (a : Anchor) (names : List Text) (s : Text) :
    parent ⟨a, names ++ [s]⟩ = ⟨a, names⟩ := by
  cases names with
  | nil => rfl
  | cons n names =>
    show (⟨a, (n :: names ++ [s]).dropLast⟩ : Path) = _
    rw [List.dropLast_concat]

end Path

open PathRegistry.Path

/-- **A detour does not change where a walk ends.** -/
theorem Detour.foldl_enter {absolute : Bool} {l m : List Text} (h : Detour absolute l m) :
    l.foldl enter (outset absolute) = m.foldl enter (outset absolute) := by
  cases h with
  | stay before s after hStay =>
    rw [List.foldl_append, List.foldl_cons, enter_stay hStay, ← List.foldl_append]
  | back before s after hStay hParent =>
    rw [List.foldl_append, List.foldl_cons, List.foldl_cons, enter_other hStay hParent,
      enter_parent, parent_concat, ← List.foldl_append]
  | top after hRoot =>
    rw [List.foldl_cons, enter_parent, hRoot]
    rfl

/-- What may come behind does not matter for a detour. -/
theorem Detour.append_right {absolute : Bool} {l m : List Text} (h : Detour absolute l m)
    (rest : List Text) : Detour absolute (l ++ rest) (m ++ rest) := by
  cases h with
  | stay before s after hStay =>
    rw [List.append_assoc, List.append_assoc]
    exact .stay before s (after ++ rest) hStay
  | back before s after hStay hParent =>
    rw [List.append_assoc, List.append_assoc]
    exact .back before s (after ++ rest) hStay hParent
  | top _ hRoot => exact .top (m ++ rest) hRoot

namespace LeadsAlike

variable {absolute : Bool} {l m k : List Text}

theorem refl (l : List Text) : LeadsAlike absolute l l := Relation.EqvGen.refl l

theorem symm (h : LeadsAlike absolute l m) : LeadsAlike absolute m l :=
  Relation.EqvGen.symm l m h

theorem trans (h : LeadsAlike absolute l m) (h' : LeadsAlike absolute m k) :
    LeadsAlike absolute l k :=
  Relation.EqvGen.trans l m k h h'

theorem of_detour (h : Detour absolute l m) : LeadsAlike absolute l m :=
  Relation.EqvGen.rel l m h

/-- Lists that lead alike end at one path. -/
theorem foldl_enter (h : LeadsAlike absolute l m) :
    l.foldl enter (outset absolute) = m.foldl enter (outset absolute) := by
  induction h with
  | rel l m hDetour => exact hDetour.foldl_enter
  | refl l => rfl
  | symm l m _ ih => exact ih.symm
  | trans l m k _ _ ih ih' => exact ih.trans ih'

theorem append_right (h : LeadsAlike absolute l m) (rest : List Text) :
    LeadsAlike absolute (l ++ rest) (m ++ rest) := by
  induction h with
  | rel l m hDetour => exact of_detour (hDetour.append_right rest)
  | refl l => exact refl _
  | symm l m _ ih => exact ih.symm
  | trans l m k _ _ ih ih' => exact ih.trans ih'

end LeadsAlike

/-! ## Leaving out detours from the front on -/

/-- Whether a path starts at the root. -/
def Anchor.isRoot : Anchor → Bool
  | .root => true
  | .above _ => false

namespace Path

theorem enter_isRoot (p : Path) (s : Text) : (p.enter s).anchor.isRoot = p.anchor.isRoot := by
  by_cases hStay : s = [] ∨ s = ['.']
  · rw [enter_stay hStay]
  by_cases hParent : s = ['.', '.']
  · rw [hParent, enter_parent]
    obtain ⟨anchor, names⟩ := p
    cases names <;> cases anchor <;> rfl
  · rw [enter_other hStay hParent]

theorem foldl_enter_isRoot (segments : List Text) (p : Path) :
    (segments.foldl enter p).anchor.isRoot = p.anchor.isRoot := by
  induction segments generalizing p with
  | nil => rfl
  | cons s segments ih => rw [List.foldl_cons, ih, enter_isRoot]

/-- A parent step behind the steps of a path leads like the steps of its parent. -/
theorem leadsAlike_parent {p : Path} (hp : p.IsNormal) :
    LeadsAlike p.anchor.isRoot (p.steps ++ [['.', '.']]) p.parent.steps := by
  obtain ⟨anchor, names⟩ := p
  rcases List.eq_nil_or_concat names with hNil | ⟨front, last, hLast⟩
  · rw [hNil]
    cases anchor with
    | root =>
      -- the empty segment of the root is in front of the parent step, and is put back
      have hEmpty : LeadsAlike true [[], ['.', '.']] [['.', '.']] :=
        .of_detour (.stay [] [] [['.', '.']] (.inl rfl))
      have hTop : LeadsAlike true [['.', '.']] [] := .of_detour (.top [] rfl)
      have hBack : LeadsAlike true [[]] [] := .of_detour (.stay [] [] [] (.inl rfl))
      exact hEmpty.trans (hTop.trans hBack.symm)
    | above n =>
      have hSteps : List.replicate n ['.', '.'] ++ [['.', '.']] =
          List.replicate (n + 1) ['.', '.'] := List.replicate_succ'.symm
      simp only [steps, Anchor.steps, parent, Anchor.parent, List.append_nil]
      rw [hSteps]
      exact .refl _
  · rw [List.concat_eq_append] at hLast
    subst hLast
    have hName : IsName last := hp last (List.mem_append_right _ List.mem_cons_self)
    have hStay : ¬ (last = [] ∨ last = ['.']) := by
      rintro (hEmpty | hDot)
      · exact hName.ne_nil hEmpty
      · exact hName.ne_stay hDot
    have hDetour : Detour anchor.isRoot ((anchor.steps ++ front) ++ last :: ['.', '.'] :: [])
        ((anchor.steps ++ front) ++ []) := .back _ last [] hStay hName.ne_parent
    rw [parent_concat]
    simpa [steps] using LeadsAlike.of_detour hDetour

/-- One more segment behind the steps of a path leads like the steps of the path it enters. -/
theorem leadsAlike_enter {p : Path} (hp : p.IsNormal) (s : Text) :
    LeadsAlike p.anchor.isRoot (p.steps ++ [s]) (p.enter s).steps := by
  by_cases hStay : s = [] ∨ s = ['.']
  · have hDetour : Detour p.anchor.isRoot (p.steps ++ s :: []) (p.steps ++ []) :=
      .stay p.steps s [] hStay
    rw [enter_stay hStay]
    simpa using LeadsAlike.of_detour hDetour
  · by_cases hParent : s = ['.', '.']
    · rw [hParent, enter_parent]
      exact leadsAlike_parent hp
    · rw [enter_other hStay hParent]
      simpa [steps] using LeadsAlike.refl (p.steps ++ [s])

/-- **A walk leaves out detours**: segments behind the steps of a path lead like the steps of
the path where they end. -/
theorem leadsAlike_foldl_enter {segments : List Text} {p : Path} (hp : p.IsNormal)
    (hWhole : ∀ s ∈ segments, ∀ c ∈ s, Text.isSeparator c = false)
    (hSettled : ∀ s ∈ segments, ∀ c ∈ s, Lowercase.IsSettled c) :
    LeadsAlike p.anchor.isRoot (p.steps ++ segments) (segments.foldl enter p).steps := by
  induction segments generalizing p with
  | nil =>
    rw [List.append_nil]
    exact .refl _
  | cons s segments ih =>
    obtain ⟨hFirstWhole, hRestWhole⟩ := List.forall_mem_cons.mp hWhole
    obtain ⟨hFirstSettled, hRestSettled⟩ := List.forall_mem_cons.mp hSettled
    have hFirst := (leadsAlike_enter hp s).append_right segments
    have hRest := ih (enter_isNormal hp hFirstWhole hFirstSettled) hRestWhole hRestSettled
    rw [enter_isRoot] at hRest
    rw [List.append_assoc] at hFirst
    exact hFirst.trans hRest

/-! ## Reading a text -/

theorem outset_isRoot (absolute : Bool) : (outset absolute).anchor.isRoot = absolute := by
  cases absolute <;> rfl

/-- Lowering a text keeps whether it is absolute. -/
theorem isAbsolute_lower (t : Text) : (lower t).isAbsolute = t.isAbsolute := by
  cases t with
  | nil => rfl
  | cons c rest =>
    obtain ⟨d, after, hLower, hSame⟩ := exists_lower_cons c rest
    rw [hLower]
    exact hSame

/-- **Reading a text** is walking along its segments, from the root if it is absolute. -/
theorem ofText_eq_foldl (t : Text) :
    ofText t = (Text.segments (lower t)).foldl enter (outset t.isAbsolute) := by
  have hStart (u : Text) : (⟨Anchor.ofText u, []⟩ : Path) = outset u.isAbsolute := by
    cases u with
    | nil => rfl
    | cons c rest =>
      rw [Anchor.ofText, Text.isAbsolute]
      cases Text.isSeparator c <;> rfl
  rw [ofText, hStart, isAbsolute_lower]

/-- A text starts at the root exactly if its path does. -/
theorem ofText_isRoot (t : Text) : (ofText t).anchor.isRoot = t.isAbsolute := by
  rw [ofText_eq_foldl, foldl_enter_isRoot, outset_isRoot]

/-- The segments of a text lead like the steps of the path that it means. -/
theorem leadsAlike_steps (t : Text) :
    LeadsAlike t.isAbsolute (Text.segments (lower t)) (ofText t).steps := by
  have hNormal : (outset t.isAbsolute).IsNormal := by
    cases t.isAbsolute with
    | false => exact current_isNormal
    | true => exact root_isNormal
  have hWalk := leadsAlike_foldl_enter hNormal
    (fun s hs => (Text.segments_settled (settled_lower t) hs).1)
    fun s hs => (Text.segments_settled (settled_lower t) hs).2
  rw [outset_isRoot, ← ofText_eq_foldl] at hWalk
  refine .trans ?_ hWalk
  cases t.isAbsolute with
  | false => exact .refl _
  | true => exact .symm (.of_detour (.stay [] [] _ (.inl rfl)))

end Path

/-- **Normal forms decide where texts lead**: two texts have one normal form exactly if both or
neither of them start with a separator and the segments of their lowercase forms lead alike. -/
theorem normalize_eq_iff (s t : Text) :
    normalize s = normalize t ↔
      s.isAbsolute = t.isAbsolute ∧
        LeadsAlike s.isAbsolute (Text.segments (lower s)) (Text.segments (lower t)) := by
  constructor
  · intro hSame
    have hPath : ofText s = ofText t :=
      text_injective (ofText_isNormal s) (ofText_isNormal t) hSame
    have hStart : s.isAbsolute = t.isAbsolute := by
      rw [← ofText_isRoot s, hPath, ofText_isRoot t]
    have hLeft := leadsAlike_steps s
    have hRight := leadsAlike_steps t
    rw [← hPath, ← hStart] at hRight
    exact ⟨hStart, hLeft.trans hRight.symm⟩
  · rintro ⟨hStart, hAlike⟩
    have hPath : ofText s = ofText t := by
      rw [ofText_eq_foldl s, ofText_eq_foldl t, hAlike.foldl_enter, hStart]
    rw [normalize, normalize, hPath]

/-- A parent step in front is a detour at the root only. -/
example : normalize ['/', '.', '.', '/', 'B'] = normalize ['\\', 'b', '/'] ∧
    normalize ['.', '.', '/', 'B'] ≠ normalize ['b', '/'] := by
  decide +kernel

end PathRegistry
