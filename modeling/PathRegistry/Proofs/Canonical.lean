import PathRegistry.Proofs.NormalForm

/-!
# The shape of normal forms

`IsCanonical` is a grammar of texts: the root, the current directory, names behind the root, or
parent steps and names behind them, one step at least, with a single `/` between any two.  It
says nothing of case.

The normal forms are the texts of this grammar that lowering leaves alone, and no others.  One
direction is the shape of the text of a path.  For the other one the path is put together from
the parts that the grammar names; lowering the text as a whole leaves it alone exactly if it
leaves each character alone, so the names of that path are settled and the path is normal.

## Main statements

* `Path.text_eq_intercalate` — the text of a path are its steps with a separator between them.
* `IsCanonical.exists_path` — a settled text of the grammar is the text of a normal path.
* `normalize_canonical` — the normal forms are the texts of the grammar in lowercase.
-/

namespace PathRegistry

open Lowercase

/-- A segment that is a name: not empty, neither `.` nor `..`, and without a separator. -/
structure IsSegmentName (s : Text) : Prop where
  /-- It is not empty. -/
  ne_nil : s ≠ []
  /-- It does not mean to stay. -/
  ne_stay : s ≠ ['.']
  /-- It does not mean to go to the parent. -/
  ne_parent : s ≠ ['.', '.']
  /-- It has no separator. -/
  whole : ∀ c ∈ s, Text.isSeparator c = false

/-- The texts that name a path in one way only, up to case. -/
inductive IsCanonical : Text → Prop
  /-- The root. -/
  | root : IsCanonical ['/']
  /-- The current directory. -/
  | current : IsCanonical ['.']
  /-- Names, one at least, behind the root. -/
  | absolute (names : List Text) (hSome : names ≠ []) (hNames : ∀ n ∈ names, IsSegmentName n) :
      IsCanonical ('/' :: List.intercalate ['/'] names)
  /-- Parent steps and names behind them, one step at least. -/
  | relative (climbs : Nat) (names : List Text)
      (hSome : List.replicate climbs ['.', '.'] ++ names ≠ [])
      (hNames : ∀ n ∈ names, IsSegmentName n) :
      IsCanonical (List.intercalate ['/'] (List.replicate climbs ['.', '.'] ++ names))

theorem IsName.isSegmentName {s : Text} (h : IsName s) : IsSegmentName s :=
  ⟨h.ne_nil, h.ne_stay, h.ne_parent, h.whole⟩

theorem IsSegmentName.isName {s : Text} (h : IsSegmentName s) (hSettled : ∀ c ∈ s, IsSettled c) :
    IsName s :=
  ⟨h.ne_nil, h.ne_stay, h.ne_parent, h.whole, hSettled⟩

/-! ## Steps with a separator between them -/

/-- A separator behind the whole is one behind each step. -/
theorem intercalate_concat_separator {steps : List Text} (h : steps ≠ []) :
    List.intercalate ['/'] steps ++ ['/'] = steps.flatMap (· ++ ['/']) := by
  induction steps with
  | nil => exact absurd rfl h
  | cons s steps ih =>
    cases steps with
    | nil => simp
    | cons u rest =>
      have hRest := ih (List.cons_ne_nil u rest)
      rw [List.intercalate_cons_cons, List.flatMap_cons, ← hRest]
      simp

/-- What stands in the whole is the separator or stands in one of the steps. -/
theorem mem_intercalate {steps : List Text} {c : Char} (h : c ∈ List.intercalate ['/'] steps) :
    c = '/' ∨ ∃ s ∈ steps, c ∈ s := by
  by_cases hNil : steps = []
  · simp [hNil] at h
  · have hIn : c ∈ steps.flatMap (· ++ ['/']) := by
      rw [← intercalate_concat_separator hNil]
      exact List.mem_append_left _ h
    obtain ⟨s, hs, hc⟩ := List.mem_flatMap.mp hIn
    rcases List.mem_append.mp hc with hStep | hSlash
    · exact .inr ⟨s, hs, hStep⟩
    · exact .inl (List.mem_singleton.mp hSlash)

/-- What stands in one of the steps stands in the whole. -/
theorem mem_intercalate_of_mem {steps : List Text} {s : Text} (hs : s ∈ steps) {c : Char}
    (hc : c ∈ s) (hOther : c ≠ '/') : c ∈ List.intercalate ['/'] steps := by
  have hIn : c ∈ steps.flatMap (· ++ ['/']) :=
    List.mem_flatMap.mpr ⟨s, hs, List.mem_append_left _ hc⟩
  rw [← intercalate_concat_separator (List.ne_nil_of_mem hs)] at hIn
  rcases List.mem_append.mp hIn with hWhole | hSlash
  · exact hWhole
  · exact absurd (List.mem_singleton.mp hSlash) hOther

namespace Path

variable {p : Path}

/-- **The text of a path** are its steps with a separator between them. -/
theorem text_eq_intercalate (hRoot : p ≠ root) (hCurrent : p ≠ current) :
    p.text = List.intercalate ['/'] p.steps := by
  have hStem := stem_eq_text hRoot hCurrent
  rw [stem_eq, ← intercalate_concat_separator (steps_ne_nil hCurrent)] at hStem
  exact (List.append_cancel_right hStem).symm

theorem text_absolute {names : List Text} (hSome : names ≠ []) :
    (⟨.root, names⟩ : Path).text = '/' :: List.intercalate ['/'] names := by
  obtain ⟨n, rest, rfl⟩ := List.exists_cons_of_ne_nil hSome
  rw [text_eq_intercalate (by simp [root]) (by simp [current])]
  show List.intercalate ['/'] ([] :: n :: rest) = _
  rw [List.intercalate_cons_cons]
  rfl

theorem text_relative {climbs : Nat} {names : List Text}
    (hSome : List.replicate climbs ['.', '.'] ++ names ≠ []) :
    (⟨.above climbs, names⟩ : Path).text =
      List.intercalate ['/'] (List.replicate climbs ['.', '.'] ++ names) := by
  refine text_eq_intercalate (by simp [root]) fun hCurrent => hSome ?_
  cases hCurrent
  rfl

/-- The text of a normal path is one of the grammar. -/
theorem text_isCanonical (hp : p.IsNormal) : IsCanonical p.text := by
  have hNames : ∀ n ∈ p.names, IsSegmentName n := fun n hn => (hp n hn).isSegmentName
  obtain ⟨anchor, names⟩ := p
  cases anchor with
  | root =>
    by_cases hNil : names = []
    · rw [hNil]
      exact .root
    · rw [text_absolute hNil]
      exact .absolute names hNil hNames
  | above climbs =>
    by_cases hNil : List.replicate climbs ['.', '.'] ++ names = []
    · obtain ⟨hClimbs, rfl⟩ := List.append_eq_nil_iff.mp hNil
      obtain rfl : climbs = 0 := by simpa using hClimbs
      exact .current
    · rw [text_relative hNil]
      exact .relative climbs names hNil hNames

end Path

namespace IsCanonical

open PathRegistry.Path

/-- The grammar has one separator only. -/
theorem no_backslash {t : Text} (h : IsCanonical t) : '\\' ∉ t := by
  have hWhole {steps : List Text} (hSteps : ∀ s ∈ steps, '\\' ∉ s) :
      '\\' ∉ List.intercalate ['/'] steps := by
    intro hIn
    rcases mem_intercalate hIn with hSlash | ⟨s, hs, hc⟩
    · cases hSlash
    · exact hSteps s hs hc
  have hName {s : Text} (hs : IsSegmentName s) : '\\' ∉ s := by
    intro hIn
    have hCut := hs.whole _ hIn
    cases hCut
  cases h with
  | root => decide
  | current => decide
  | absolute names hSome hNames =>
    have hRest := hWhole fun n hn => hName (hNames n hn)
    simpa using hRest
  | relative climbs names hSome hNames =>
    refine hWhole fun s hs => ?_
    rcases List.mem_append.mp hs with hClimb | hIn
    · rw [List.eq_of_mem_replicate hClimb]
      decide
    · exact hName (hNames s hIn)

/-- **A settled text of the grammar** is the text of a normal path. -/
theorem exists_path {t : Text} (h : IsCanonical t) (hSettled : ∀ c ∈ t, IsSettled c) :
    ∃ p : Path, p.IsNormal ∧ p.text = t := by
  have hNormal {names steps : List Text} (hNames : ∀ n ∈ names, IsSegmentName n)
      (hSub : ∀ n ∈ names, n ∈ steps) (hAll : ∀ c ∈ List.intercalate ['/'] steps, IsSettled c) :
      ∀ n ∈ names, IsName n := by
    intro n hn
    refine (hNames n hn).isName fun c hc => hAll c (mem_intercalate_of_mem (hSub n hn) hc ?_)
    rintro rfl
    have hCut := (hNames n hn).whole _ hc
    cases hCut
  cases h with
  | root => exact ⟨Path.root, root_isNormal, rfl⟩
  | current => exact ⟨Path.current, current_isNormal, rfl⟩
  | absolute names hSome hNames =>
    have hAll := (List.forall_mem_cons.mp hSettled).2
    exact ⟨⟨.root, names⟩, hNormal hNames (fun n hn => hn) hAll, text_absolute hSome⟩
  | relative climbs names hSome hNames =>
    exact ⟨⟨.above climbs, names⟩, hNormal hNames (fun n hn => List.mem_append_right _ hn) hSettled,
      text_relative hSome⟩

end IsCanonical

/-- **The normal forms** are the texts of the grammar that lowering leaves alone: what
`normalize` yields is one of them and has no other separator than `/`, and what is one of them
it yields unchanged, so that normalizing a second time changes nothing. -/
theorem normalize_canonical (t : Text) :
    (lower (normalize t) = normalize t ∧ '\\' ∉ normalize t ∧ IsCanonical (normalize t)) ∧
      (normalize t = t ↔ IsCanonical t ∧ lower t = t) ∧
      normalize (normalize t) = normalize t := by
  have hShape (u : Text) : IsCanonical (normalize u) :=
    Path.text_isCanonical (Path.ofText_isNormal u)
  have hLower (u : Text) : lower (normalize u) = normalize u :=
    lower_eq_self_iff.mpr (Path.text_settled (Path.ofText_isNormal u))
  refine ⟨⟨hLower t, (hShape t).no_backslash, hShape t⟩, ⟨fun hSame => ?_, ?_⟩,
    normalize_normalize t⟩
  · rw [← hSame]
    exact ⟨hShape t, hLower t⟩
  · rintro ⟨hCanonical, hLowered⟩
    obtain ⟨p, hp, rfl⟩ := hCanonical.exists_path (lower_eq_self_iff.mp hLowered)
    exact Path.normalize_text hp

end PathRegistry
