import PathRegistry.Path
import PathRegistry.Proofs.Lowercase

/-!
# Normal forms read back

The names of a path may be any texts; `Path.IsNormal` says that they are names:
not empty, not `.` or `..`, settled, and without a separator.  Reading a text
yields a normal path, and reading the text of a normal path yields that path, so
`normalize` changes nothing the second time.

The steps of a path are the segments of its stem, with the anchor written out.
Most of what follows is one fact in several forms: a stem put in front of a text
puts its steps in front of the segments of the text, and entering these steps
leads to the path.

## Main statements

* `Path.ofText_isNormal` — every text reads as a normal path.
* `Path.ofText_stem_append` — a text behind a stem is entered from the path.
* `Path.ofText_text` — the text of a normal path reads as that path.
* `normalize_normalize` — normalizing twice is normalizing once.
-/

namespace PathRegistry

open Lowercase

namespace Text

theorem mem_of_mem_pieces {isCut : Char → Bool} {t s : Text} {c : Char}
    (hs : s ∈ pieces isCut t) (hc : c ∈ s) : c ∈ t ∧ isCut c = false := by
  induction t generalizing s with
  | nil =>
    rw [List.mem_singleton.mp hs] at hc
    cases hc
  | cons d rest ih =>
    cases hd : isCut d with
    | true =>
      simp only [pieces, hd, if_true, List.mem_cons] at hs
      rcases hs with rfl | hs
      · cases hc
      · exact ⟨List.mem_cons_of_mem d (ih hs hc).1, (ih hs hc).2⟩
    | false =>
      obtain ⟨first, others, hRest, hCons⟩ := pieces_cons_of_not_cut hd rest
      rw [hCons] at hs
      rcases List.mem_cons.mp hs with rfl | hs
      · rcases List.mem_cons.mp hc with rfl | hc
        · exact ⟨List.mem_cons_self, hd⟩
        · have hFirst : first ∈ pieces isCut rest := hRest ▸ List.mem_cons_self
          exact ⟨List.mem_cons_of_mem d (ih hFirst hc).1, (ih hFirst hc).2⟩
      · have hOther : s ∈ pieces isCut rest := hRest ▸ List.mem_cons_of_mem first hs
        exact ⟨List.mem_cons_of_mem d (ih hOther hc).1, (ih hOther hc).2⟩

/-- Texts, each with a cut behind it, are the first pieces of the whole. -/
theorem pieces_terminated {isCut : Char → Bool} {c : Char} (hCut : isCut c = true)
    {texts : List Text} (h : ∀ s ∈ texts, ∀ d ∈ s, isCut d = false) (t : Text) :
    pieces isCut (texts.flatMap (· ++ [c]) ++ t) = texts ++ pieces isCut t := by
  induction texts with
  | nil => rfl
  | cons s texts ih =>
    have hRest := ih fun u hu => h u (List.mem_cons_of_mem s hu)
    have hFirst : pieces isCut s = [s] := pieces_of_not_cut (h s List.mem_cons_self)
    rw [List.flatMap_cons, List.append_assoc, List.append_assoc, List.cons_append,
      List.nil_append, pieces_append hCut, hFirst, hRest]
    rfl

/-- Steps, each with a separator behind it, are the first segments of the whole. -/
theorem segments_terminated {steps : List Text}
    (h : ∀ s ∈ steps, ∀ c ∈ s, isSeparator c = false) (t : Text) :
    segments (steps.flatMap (· ++ ['/']) ++ t) = steps ++ segments t :=
  pieces_terminated (by decide) h t

/-- The segments of a settled text have no separator and are settled. -/
theorem segments_settled {t : Text} (h : ∀ c ∈ t, IsSettled c) {s : Text} (hs : s ∈ segments t) :
    (∀ c ∈ s, isSeparator c = false) ∧ ∀ c ∈ s, IsSettled c :=
  ⟨fun _ hc => (mem_of_mem_pieces hs hc).2, fun c hc => h c (mem_of_mem_pieces hs hc).1⟩

theorem segments_concat_separator (t : Text) : segments (t ++ ['/']) = segments t ++ [[]] :=
  pieces_append (by decide) t []

end Text

/-- A text that can be a name of a path in normal form. -/
structure IsName (t : Text) : Prop where
  /-- It is not empty. -/
  ne_nil : t ≠ []
  /-- It does not mean to stay. -/
  ne_stay : t ≠ ['.']
  /-- It does not mean to go to the parent. -/
  ne_parent : t ≠ ['.', '.']
  /-- It has no separator. -/
  whole : ∀ c ∈ t, Text.isSeparator c = false
  /-- It is in lowercase. -/
  settled : ∀ c ∈ t, IsSettled c

namespace Anchor

/-- The segments that lead to the anchor, from the start of a text on. -/
def steps : Anchor → List Text
  | .root => [[]]
  | .above n => List.replicate n ['.', '.']

/-- Where a text whose steps lead to the anchor starts. -/
def start : Anchor → Anchor
  | .root => .root
  | .above _ => .above 0

theorem stem_eq (a : Anchor) : a.stem = a.steps.flatMap (· ++ ['/']) := by
  cases a with
  | root => rfl
  | above n => simp [stem, steps, List.flatMap]

/-- The steps to an anchor are made of dots. -/
theorem eq_dot_of_mem_steps {a : Anchor} {s : Text} {c : Char} (hs : s ∈ a.steps) (hc : c ∈ s) :
    c = '.' := by
  cases a with
  | root =>
    rw [List.mem_singleton.mp hs] at hc
    cases hc
  | above n =>
    rw [List.eq_of_mem_replicate hs] at hc
    simpa using hc

theorem steps_whole (a : Anchor) : ∀ s ∈ a.steps, ∀ c ∈ s, Text.isSeparator c = false := by
  intro s hs c hc
  rw [eq_dot_of_mem_steps hs hc]
  decide

theorem steps_settled (a : Anchor) : ∀ s ∈ a.steps, ∀ c ∈ s, IsSettled c := by
  intro s hs c hc
  rw [eq_dot_of_mem_steps hs hc]
  decide

end Anchor

namespace Path

/-- Every name of the path can be one. -/
def IsNormal (p : Path) : Prop := ∀ n ∈ p.names, IsName n

theorem root_isNormal : root.IsNormal := fun n hn => by cases hn

theorem current_isNormal : current.IsNormal := fun n hn => by cases hn

/-! ## Entering segments -/

theorem enter_stay {s : Text} (h : s = [] ∨ s = ['.']) (p : Path) : p.enter s = p := if_pos h

theorem enter_parent (p : Path) : p.enter ['.', '.'] = p.parent := by
  simp [enter]

theorem enter_other {s : Text} (hStay : ¬ (s = [] ∨ s = ['.'])) (hParent : s ≠ ['.', '.'])
    (p : Path) : p.enter s = ⟨p.anchor, p.names ++ [s]⟩ := by
  rw [enter, if_neg hStay, if_neg hParent]

theorem enter_name {n : Text} (h : IsName n) (p : Path) :
    p.enter n = ⟨p.anchor, p.names ++ [n]⟩ :=
  enter_other (not_or.mpr ⟨h.ne_nil, h.ne_stay⟩) h.ne_parent p

theorem parent_isNormal {p : Path} (hp : p.IsNormal) : p.parent.IsNormal := by
  unfold parent
  split
  · exact fun n hn => by cases hn
  · exact fun n hn => hp n (List.dropLast_subset _ hn)

theorem enter_isNormal {p : Path} (hp : p.IsNormal) {s : Text}
    (hWhole : ∀ c ∈ s, Text.isSeparator c = false) (hSettled : ∀ c ∈ s, IsSettled c) :
    (p.enter s).IsNormal := by
  by_cases hStay : s = [] ∨ s = ['.']
  · rw [enter_stay hStay]
    exact hp
  by_cases hParent : s = ['.', '.']
  · rw [hParent, enter_parent]
    exact parent_isNormal hp
  rw [enter_other hStay hParent]
  intro n hn
  rcases List.mem_append.mp hn with hOld | hNew
  · exact hp n hOld
  · rw [List.mem_singleton.mp hNew]
    exact ⟨fun h => hStay (.inl h), fun h => hStay (.inr h), hParent, hWhole, hSettled⟩

theorem foldl_enter_isNormal {segments : List Text} {p : Path} (hp : p.IsNormal)
    (hWhole : ∀ s ∈ segments, ∀ c ∈ s, Text.isSeparator c = false)
    (hSettled : ∀ s ∈ segments, ∀ c ∈ s, IsSettled c) :
    (segments.foldl enter p).IsNormal := by
  induction segments generalizing p with
  | nil => exact hp
  | cons s segments ih =>
    refine ih (enter_isNormal hp (hWhole s ?_) (hSettled s ?_)) (fun u hu => hWhole u ?_)
      (fun u hu => hSettled u ?_)
    · exact List.mem_cons_self
    · exact List.mem_cons_self
    · exact List.mem_cons_of_mem s hu
    · exact List.mem_cons_of_mem s hu

/-- **Reading yields a normal path.** -/
theorem ofText_isNormal (t : Text) : (ofText t).IsNormal := by
  refine foldl_enter_isNormal (by simp [IsNormal]) (fun s hs => ?_) fun s hs => ?_
  · exact (Text.segments_settled (settled_lower t) hs).1
  · exact (Text.segments_settled (settled_lower t) hs).2

theorem foldl_enter_names {ns : List Text} (h : ∀ n ∈ ns, IsName n) (p : Path) :
    ns.foldl enter p = ⟨p.anchor, p.names ++ ns⟩ := by
  induction ns generalizing p with
  | nil => simp
  | cons n ns ih =>
    rw [List.foldl_cons, enter_name (h n List.mem_cons_self),
      ih fun m hm => h m (List.mem_cons_of_mem n hm)]
    simp

theorem foldl_enter_climbs (n k : Nat) :
    (List.replicate n ['.', '.']).foldl enter ⟨.above k, []⟩ = ⟨.above (k + n), []⟩ := by
  induction n generalizing k with
  | zero => rfl
  | succ n ih =>
    rw [List.replicate_succ, List.foldl_cons]
    have hStep : enter ⟨.above k, []⟩ ['.', '.'] = ⟨.above (k + 1), []⟩ := enter_parent _
    rw [hStep, ih, show k + 1 + n = k + (n + 1) by omega]

/-! ## The steps of a path -/

/-- The segments of the stem of a path. -/
def steps (p : Path) : List Text := p.anchor.steps ++ p.names

theorem stem_eq (p : Path) : p.stem = p.steps.flatMap (· ++ ['/']) := by
  rw [stem, steps, List.flatMap_append, Anchor.stem_eq]

variable {p q : Path}

theorem steps_whole (hp : p.IsNormal) : ∀ s ∈ p.steps, ∀ c ∈ s, Text.isSeparator c = false := by
  intro s hs
  rcases List.mem_append.mp hs with hAnchor | hName
  · exact p.anchor.steps_whole s hAnchor
  · exact (hp s hName).whole

theorem stem_settled (hp : p.IsNormal) : ∀ c ∈ p.stem, IsSettled c := by
  intro c hc
  rw [stem_eq] at hc
  obtain ⟨s, hs, hc⟩ := List.mem_flatMap.mp hc
  rcases List.mem_append.mp hc with hStep | hSlash
  · rcases List.mem_append.mp hs with hAnchor | hName
    · exact p.anchor.steps_settled s hAnchor c hStep
    · exact (hp s hName).settled c hStep
  · rw [List.mem_singleton.mp hSlash]
    decide

theorem segments_stem_append (hp : p.IsNormal) (t : Text) :
    Text.segments (p.stem ++ t) = p.steps ++ Text.segments t := by
  rw [stem_eq]
  exact Text.segments_terminated (steps_whole hp) t

/-- Entering the steps of a normal path leads to it. -/
theorem foldl_enter_steps (hp : p.IsNormal) :
    p.steps.foldl enter ⟨p.anchor.start, []⟩ = p := by
  have hAnchor : p.anchor.steps.foldl enter ⟨p.anchor.start, []⟩ = ⟨p.anchor, []⟩ := by
    cases p.anchor with
    | root => rfl
    | above n => simpa [Anchor.steps, Anchor.start] using foldl_enter_climbs n 0
  rw [steps, List.foldl_append, hAnchor, foldl_enter_names hp]
  rfl

theorem ofText_stem_anchor (hp : p.IsNormal) {t : Text}
    (hStart : p = current → Anchor.ofText t = .above 0) :
    Anchor.ofText (p.stem ++ t) = p.anchor.start := by
  obtain ⟨anchor, names⟩ := p
  cases anchor with
  | root => rfl
  | above n =>
    cases n with
    | succ n => rfl
    | zero =>
      cases names with
      | nil => exact hStart rfl
      | cons name names =>
        have hName : IsName name := hp name List.mem_cons_self
        cases name with
        | nil => exact absurd rfl hName.ne_nil
        | cons c rest =>
          have hc : Text.isSeparator c = false := hName.whole c List.mem_cons_self
          simp [stem, Anchor.stem, Anchor.ofText, Anchor.start, hc]

/-- **Behind a stem**: the rest of the text is entered from the path.  Only behind
the empty stem could the rest still move the start. -/
theorem ofText_stem_append (hp : p.IsNormal) {t : Text} (ht : ∀ c ∈ t, IsSettled c)
    (hStart : p = current → Anchor.ofText t = .above 0) :
    ofText (p.stem ++ t) = (Text.segments t).foldl enter p := by
  have hLower : lower (p.stem ++ t) = p.stem ++ t := by
    refine lower_of_settled fun c hc => ?_
    rcases List.mem_append.mp hc with hStem | hRest
    · exact stem_settled hp c hStem
    · exact ht c hRest
  rw [ofText, hLower, ofText_stem_anchor hp hStart, segments_stem_append hp,
    List.foldl_append, foldl_enter_steps hp]

/-! ## The text of a path -/

theorem text_root : root.text = ['/'] := rfl

theorem text_current : current.text = ['.'] := rfl

theorem steps_ne_nil (hCurrent : p ≠ current) : p.steps ≠ [] := by
  intro hNil
  obtain ⟨anchor, names⟩ := p
  cases anchor with
  | root => simp [steps, Anchor.steps] at hNil
  | above n =>
    cases n with
    | zero => simp_all [steps, Anchor.steps, current]
    | succ n => simp [steps, Anchor.steps, List.replicate_succ] at hNil

/-- A stem that is not empty ends in a separator. -/
theorem stem_eq_concat (hCurrent : p ≠ current) : ∃ t, p.stem = t ++ ['/'] := by
  rcases List.eq_nil_or_concat p.steps with hNil | ⟨steps, last, hSteps⟩
  · exact absurd hNil (steps_ne_nil hCurrent)
  · exact ⟨steps.flatMap (· ++ ['/']) ++ last, by simp [stem_eq, hSteps]⟩

theorem stem_eq_nil : p.stem = [] ↔ p = current := by
  constructor
  · intro hNil
    by_cases hCurrent : p = current
    · exact hCurrent
    · obtain ⟨t, ht⟩ := stem_eq_concat hCurrent
      simp [ht] at hNil
  · rintro rfl
    rfl

theorem stem_eq_text (hRoot : p ≠ root) (hCurrent : p ≠ current) :
    p.stem = p.text ++ ['/'] := by
  obtain ⟨t, ht⟩ := stem_eq_concat hCurrent
  rw [text, if_neg hRoot, if_neg hCurrent, ht, List.dropLast_concat]

theorem text_ne_nil (hp : p.IsNormal) : p.text ≠ [] := by
  by_cases hRoot : p = root
  · rw [hRoot]
    decide
  by_cases hCurrent : p = current
  · rw [hCurrent]
    decide
  intro hNil
  have hSegments := segments_stem_append hp []
  rw [List.append_nil, stem_eq_text hRoot hCurrent, hNil] at hSegments
  have hSteps : p.steps = [[]] := by
    have hEnd : ([[]] : List Text) ++ [[]] = p.steps ++ [[]] := hSegments
    exact (List.append_cancel_right hEnd).symm
  have hRead := foldl_enter_steps hp
  rw [hSteps] at hRead
  obtain ⟨anchor, names⟩ := p
  cases anchor with
  | root => exact hRoot hRead.symm
  | above n => exact hCurrent hRead.symm

/-- The text of a normal path is settled. -/
theorem text_settled (hp : p.IsNormal) : ∀ c ∈ p.text, IsSettled c := by
  intro c hc
  by_cases hRoot : p = root
  · rw [hRoot, text_root] at hc
    rw [List.mem_singleton.mp hc]
    decide
  by_cases hCurrent : p = current
  · rw [hCurrent, text_current] at hc
    rw [List.mem_singleton.mp hc]
    decide
  have hStem := stem_eq_text hRoot hCurrent
  exact stem_settled hp c (hStem ▸ List.mem_append_left _ hc)

/-- **Reading what was written**: a normal path is read back from its text. -/
theorem ofText_text (hp : p.IsNormal) : ofText p.text = p := by
  by_cases hRoot : p = root
  · rw [hRoot, text_root]
    decide
  by_cases hCurrent : p = current
  · rw [hCurrent, text_current]
    decide
  have hStem := stem_eq_text hRoot hCurrent
  have hRead : ofText (p.text ++ ['/']) = p := by
    have := ofText_stem_append hp (t := []) (by simp) (fun h => absurd h hCurrent)
    rw [List.append_nil, hStem] at this
    exact this
  have hLower : lower p.text = p.text := lower_of_settled (text_settled hp)
  have hLowerStem : lower (p.text ++ ['/']) = p.text ++ ['/'] :=
    hStem ▸ lower_of_settled (stem_settled hp)
  rw [ofText, hLowerStem, Text.segments_concat_separator, List.foldl_append] at hRead
  have hStart : Anchor.ofText (p.text ++ ['/']) = Anchor.ofText p.text := by
    cases h : p.text with
    | nil => exact absurd h (text_ne_nil hp)
    | cons c rest => rfl
  rw [ofText, hLower, ← hStart]
  simpa [enter_stay] using hRead

theorem text_injective (hp : p.IsNormal) (hq : q.IsNormal) (h : p.text = q.text) : p = q := by
  rw [← ofText_text hp, h, ofText_text hq]

theorem normalize_text (hp : p.IsNormal) : normalize p.text = p.text := by
  rw [normalize, ofText_text hp]

end Path

/-- **Normalizing twice is normalizing once.** -/
@[simp] theorem normalize_normalize (t : Text) : normalize (normalize t) = normalize t :=
  Path.normalize_text (Path.ofText_isNormal t)

/-- A normal text is the text of the normal path that it means. -/
theorem exists_path_of_normalize {t : Text} (h : normalize t = t) :
    ∃ p : Path, p.IsNormal ∧ p.text = t :=
  ⟨Path.ofText t, Path.ofText_isNormal t, h⟩

end PathRegistry
