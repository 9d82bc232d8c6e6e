import PathRegistry.Lowercase

/-!
# Lowering a text twice

A character is settled if its lowercase form is itself.  Every character that
`lower` writes is settled, and a settled text stays as it is, so a second
lowering changes nothing.  The sigma rule, which looks at the neighbours of a
character, has no part in this: it applies to `Σ` alone, and `Σ` is not settled.

The one fact about the case data that is needed says that no lowercase form is
itself listed as a capital.  It is checked run against run, not character by
character: a run of forms is clear of a run of capitals if it ends before it,
starts after it, or lies between its members because both take every second
number and differ by an odd one.

Separators have no case, and no other character has a lowercase form that starts with one, so
lowering a text keeps what it starts with in this respect.  The search for a cased neighbour does
not look past a separator either: a sigma ends a word in its own segment, and a text is lowered
segment by segment.  And since every form that is listed is a character behind the separators, no
NUL comes from anything but a NUL.

## Main statements

* `lower_of_settled` — a settled text is its own lowercase form.
* `settled_lower` — what `lower` writes is settled.
* `exists_lower_cons` — the lowercase form starts with a separator if the text does.
* `lower_append` — what stands behind a separator is lowered on its own.
* `nul_mem_lower` — lowering makes no NUL.
-/

namespace PathRegistry.Lowercase

/-- The lowercase form of the character is the character itself. -/
def IsSettled (c : Char) : Prop := ofChar c = [c]

instance (c : Char) : Decidable (IsSettled c) := inferInstanceAs (Decidable (_ = _))

/-! ## The forms of a run -/

/-- Whether none of the ascending `runs` has one of the numbers from `low` on in
steps of `step` up to `high`. -/
def isClear (low high step : Nat) : List Run → Bool
  | [] => true
  | r :: runs =>
    Nat.blt high r.first ||
      ((Nat.blt r.last low ||
          ((Nat.beq low high || Nat.beq step 2) && Nat.beq r.step 2 &&
            Nat.beq ((low + r.first) % 2) 1)) &&
        isClear low high step runs)

/-- Whether the forms of a run are clear of all capitals and of `İ`. -/
def Run.isClear (r : Run) : Bool :=
  let last := r.image + (r.last - r.first)
  Lowercase.isClear r.image last r.step capitals &&
    (Nat.blt last 0x130 || Nat.blt 0x130 r.image)

theorem capitals_isClear : (capitals.all Run.isClear) = true := by decide +kernel

/-- A number that the runs are clear of has no lowercase form. -/
theorem image?_of_isClear {low high step n : Nat} {runs : List Run}
    (hClear : isClear low high step runs = true) (hLow : low ≤ n) (hHigh : n ≤ high)
    (hStep : (n - low) % step = 0) : image? n runs = none := by
  induction runs with
  | nil => rfl
  | cons r runs ih =>
    simp only [isClear, Bool.or_eq_true, Bool.and_eq_true, Nat.blt_eq, Nat.beq_eq] at hClear
    rw [image?]
    rcases hClear with hBefore | ⟨hApart, hRest⟩
    · rw [if_pos (by omega)]
    · split
      · rfl
      · rename_i hFirst
        have hMiss : ¬ (n ≤ r.last ∧ (n - r.first) % r.step = 0) := by
          rcases hApart with hAfter | ⟨⟨hEven, hTwo⟩, hOdd⟩
          · omega
          · rw [hTwo]
            rcases hEven with hSame | hStepTwo
            · omega
            · rw [hStepTwo] at hStep
              omega
        simpa [hMiss] using ih hRest

/-- A lowercase form comes from a run that has the number. -/
theorem image?_eq_some {n m : Nat} {runs : List Run} (h : image? n runs = some m) :
    ∃ r ∈ runs, r.first ≤ n ∧ n ≤ r.last ∧ (n - r.first) % r.step = 0 ∧
      m = r.image + (n - r.first) := by
  induction runs with
  | nil => simp [image?] at h
  | cons r runs ih =>
    rw [image?] at h
    split at h
    · cases h
    · split at h
      · rename_i hFirst hIn
        simp only [Bool.and_eq_true, decide_eq_true_eq, beq_iff_eq] at hIn
        exact ⟨r, List.mem_cons_self, by omega, hIn.1, hIn.2, (Option.some.inj h).symm⟩
      · obtain ⟨s, hs, hRest⟩ := ih h
        exact ⟨s, List.mem_cons_of_mem r hs, hRest⟩

/-- A lowercase form has no lowercase form of its own, and is not `İ`. -/
theorem image?_image {n m : Nat} (h : image? n capitals = some m) :
    image? m capitals = none ∧ m ≠ 0x130 := by
  obtain ⟨r, hr, hFirst, hLast, hStep, rfl⟩ := image?_eq_some h
  have hClear : r.isClear = true := List.all_eq_true.mp capitals_isClear r hr
  simp only [Run.isClear, Bool.and_eq_true, Bool.or_eq_true, Nat.blt_eq] at hClear
  refine ⟨image?_of_isClear hClear.1 (by omega) (by omega) ?_, by omega⟩
  rwa [Nat.add_sub_cancel_left]

/-! ## Settled characters -/

/-- The character of a number without a lowercase form is settled. -/
theorem settled_ofNat {m : Nat} (hNone : image? m capitals = none) (hDot : m ≠ 0x130) :
    IsSettled (Char.ofNat m) := by
  by_cases hValid : m.isValidChar
  · have hNat : (Char.ofNat m).toNat = m := congrArg Char.toNat (dif_pos hValid)
    have hOther : Char.ofNat m ≠ 'İ' := fun h => hDot (by rw [← hNat, h]; rfl)
    rw [IsSettled, ofChar, if_neg hOther, hNat, hNone]
  · rw [Char.ofNat, dif_neg hValid]
    decide

/-- Every character of a lowercase form is settled. -/
theorem settled_of_mem_ofChar {c d : Char} (h : d ∈ ofChar c) : IsSettled d := by
  unfold ofChar at h
  split at h
  · have hForms : IsSettled 'i' ∧ IsSettled '\u0307' := by decide
    simp only [List.mem_cons, List.not_mem_nil, or_false] at h
    rcases h with rfl | rfl
    · exact hForms.1
    · exact hForms.2
  · rename_i hOther
    split at h
    · rename_i n hImage
      obtain ⟨hNone, hDot⟩ := image?_image hImage
      rw [List.mem_singleton.mp h]
      exact settled_ofNat hNone hDot
    · rename_i hImage
      rw [List.mem_singleton.mp h, IsSettled, ofChar, if_neg hOther, hImage]

/-! ## Separators -/

/-- All lowercase forms of capitals lie behind both separators. -/
theorem capitals_behind_separators : (capitals.all fun r => Nat.blt 0x5C r.image) = true := by
  decide +kernel

theorem image?_behind_separators {n m : Nat} (h : image? n capitals = some m) : 0x5C < m := by
  obtain ⟨r, hr, -, -, -, rfl⟩ := image?_eq_some h
  have hBehind : 0x5C < r.image := by
    simpa using List.all_eq_true.mp capitals_behind_separators r hr
  omega

theorem settled_of_separator {c : Char} (hc : Text.isSeparator c = true) : IsSettled c := by
  have hSettled : IsSettled '/' ∧ IsSettled '\\' := by decide
  simp only [Text.isSeparator, Bool.or_eq_true, beq_iff_eq] at hc
  rcases hc with rfl | rfl
  · exact hSettled.1
  · exact hSettled.2

theorem not_separator_ofNat {m : Nat} (h : 0x5C < m) :
    Text.isSeparator (Char.ofNat m) = false := by
  by_cases hValid : m.isValidChar
  · have hNat : (Char.ofNat m).toNat = m := congrArg Char.toNat (dif_pos hValid)
    have hSlash : ('/' : Char).toNat = 0x2F := rfl
    have hBackslash : ('\\' : Char).toNat = 0x5C := rfl
    have hOther : Char.ofNat m ≠ '/' ∧ Char.ofNat m ≠ '\\' := by
      constructor <;> intro hSame <;> rw [hSame] at hNat <;> omega
    simp [Text.isSeparator, hOther]
  · rw [Char.ofNat, dif_neg hValid]
    decide

/-- The lowercase form of a character starts with a separator exactly if the character is one. -/
theorem exists_ofChar (c : Char) :
    ∃ d forms, ofChar c = d :: forms ∧ Text.isSeparator d = Text.isSeparator c := by
  cases hc : Text.isSeparator c with
  | true => exact ⟨c, [], settled_of_separator hc, hc⟩
  | false =>
    unfold ofChar
    split
    · exact ⟨'i', ['\u0307'], rfl, by decide⟩
    · split
      · rename_i n hImage
        exact ⟨_, [], rfl, not_separator_ofNat (image?_behind_separators hImage)⟩
      · exact ⟨c, [], rfl, hc⟩

/-- Separators have no case, and no search looks past them. -/
theorem caseless_of_separator {c : Char} (hc : Text.isSeparator c = true) :
    isCased c = false ∧ isCaseIgnorable c = false := by
  have hSlash : isCased '/' = false ∧ isCaseIgnorable '/' = false := by decide +kernel
  have hBackslash : isCased '\\' = false ∧ isCaseIgnorable '\\' = false := by decide +kernel
  simp only [Text.isSeparator, Bool.or_eq_true, beq_iff_eq] at hc
  rcases hc with rfl | rfl
  · exact hSlash
  · exact hBackslash

/-- A search for a cased neighbour ends at a separator, with nothing found. -/
theorem meetsCased_append {c : Char} (hc : Text.isSeparator c = true) (u w : Text) :
    meetsCased (u ++ c :: w) = meetsCased u := by
  obtain ⟨hCased, hIgnorable⟩ := caseless_of_separator hc
  induction u with
  | nil => simp [meetsCased, hIgnorable, hCased]
  | cons d u ih =>
    unfold meetsCased at ih ⊢
    cases hd : isCaseIgnorable d with
    | true => simpa [hd] using ih
    | false => simp [hd]

/-! ## NUL -/

/-- All lowercase forms of capitals are characters. -/
theorem capitals_valid : (capitals.all fun r =>
    let last := r.image + (r.last - r.first)
    Nat.blt last 0xD800 || (Nat.blt 0xDFFF r.image && Nat.blt last 0x110000)) = true := by
  decide +kernel

theorem isValidChar_of_image? {n m : Nat} (h : image? n capitals = some m) : m.isValidChar := by
  obtain ⟨r, hr, hFirst, hLast, -, rfl⟩ := image?_eq_some h
  have hValid := List.all_eq_true.mp capitals_valid r hr
  simp only [Bool.or_eq_true, Bool.and_eq_true, Nat.blt_eq] at hValid
  unfold Nat.isValidChar
  omega

/-- Only NUL has a lowercase form with a NUL in it. -/
theorem eq_nul_of_mem_ofChar {c : Char} (h : '\x00' ∈ ofChar c) : c = '\x00' := by
  unfold ofChar at h
  split at h
  · exact absurd h (by decide)
  · split at h
    · rename_i m hImage
      have hNat : (Char.ofNat m).toNat = m :=
        congrArg Char.toNat (dif_pos (isValidChar_of_image? hImage))
      rw [← List.mem_singleton.mp h] at hNat
      have hBehind := image?_behind_separators hImage
      rw [← hNat] at hBehind
      exact absurd hBehind (by decide)
    · exact (List.mem_singleton.mp h).symm

theorem nul_of_mem_lowerAfter {before t : Text} (h : '\x00' ∈ lowerAfter before t) :
    '\x00' ∈ t := by
  induction t generalizing before with
  | nil => exact h
  | cons c rest ih =>
    rw [lowerAfter] at h
    obtain hFirst | hRest := List.mem_append.mp h
    · split at hFirst
      · split at hFirst <;> exact absurd hFirst (by decide)
      · rw [eq_nul_of_mem_ofChar hFirst]
        exact List.mem_cons_self
    · exact List.mem_cons_of_mem c (ih hRest)

/-! ## Settled texts -/

theorem IsSettled.ne_sigma {c : Char} (h : IsSettled c) : c ≠ 'Σ' := by
  have hSigma : ¬ IsSettled 'Σ' := by decide
  exact fun hc => hSigma (hc ▸ h)

theorem lowerAfter_of_settled {t : Text} (h : ∀ c ∈ t, IsSettled c) (before : Text) :
    lowerAfter before t = t := by
  induction t generalizing before with
  | nil => rfl
  | cons c rest ih =>
    have hc : IsSettled c := h c List.mem_cons_self
    have hRest := ih (fun d hd => h d (List.mem_cons_of_mem c hd)) (c :: before)
    rw [lowerAfter, if_neg hc.ne_sigma, hRest, show ofChar c = [c] from hc]
    rfl

theorem settled_lowerAfter (before t : Text) : ∀ c ∈ lowerAfter before t, IsSettled c := by
  induction t generalizing before with
  | nil => simp [lowerAfter]
  | cons c rest ih =>
    intro d hd
    rw [lowerAfter] at hd
    rcases List.mem_append.mp hd with hHead | hTail
    · split at hHead
      · have hSigmas : IsSettled 'ς' ∧ IsSettled 'σ' := by decide
        rw [List.mem_singleton.mp hHead]
        split
        · exact hSigmas.1
        · exact hSigmas.2
      · exact settled_of_mem_ofChar hHead
    · exact ih (c :: before) d hTail

/-! ## Lowering segment by segment -/

section Separated

variable {c : Char} (hc : Text.isSeparator c = true)

include hc

/-- What stands before a separator does not matter behind it. -/
theorem lowerAfter_separated (u w t : Text) : lowerAfter (u ++ c :: w) t = lowerAfter u t := by
  induction t generalizing u with
  | nil => rfl
  | cons d t ih =>
    have hRest := ih (d :: u)
    rw [List.cons_append] at hRest
    rw [lowerAfter, lowerAfter, hRest, endsWord, endsWord, meetsCased_append hc]

theorem lowerAfter_append (before s t : Text) :
    lowerAfter before (s ++ c :: t) = lowerAfter before s ++ c :: lowerAfter [] t := by
  induction s generalizing before with
  | nil =>
    have hSettled : IsSettled c := settled_of_separator hc
    have hForget : lowerAfter (c :: before) t = lowerAfter [] t :=
      lowerAfter_separated hc [] before t
    show lowerAfter before (c :: t) = c :: lowerAfter [] t
    rw [lowerAfter, if_neg hSettled.ne_sigma, hForget, show ofChar c = [c] from hSettled]
    rfl
  | cons d s ih =>
    rw [List.cons_append, lowerAfter, lowerAfter, ih, endsWord, endsWord, meetsCased_append hc,
      List.append_assoc]

end Separated

end PathRegistry.Lowercase

namespace PathRegistry

open Lowercase

/-- A settled text is its own lowercase form. -/
theorem lower_of_settled {t : Text} (h : ∀ c ∈ t, IsSettled c) : lower t = t :=
  lowerAfter_of_settled h []

/-- **Lowering settles a text**: no character of the result would change again. -/
theorem settled_lower (t : Text) : ∀ c ∈ lower t, IsSettled c := settled_lowerAfter [] t

/-- A text without NUL has none in lowercase. -/
theorem nul_mem_lower {t : Text} (h : '\x00' ∈ lower t) : '\x00' ∈ t := nul_of_mem_lowerAfter h

/-- Lowering twice is lowering once. -/
theorem lower_lower (t : Text) : lower (lower t) = lower t := lower_of_settled (settled_lower t)

/-- **Lowering goes segment by segment**: behind a separator it starts anew, and what stands behind
one has no part in what comes before it. -/
theorem lower_append {c : Char} (hc : Text.isSeparator c = true) (s t : Text) :
    lower (s ++ c :: t) = lower s ++ c :: lower t :=
  lowerAfter_append hc [] s t

/-- A text is settled exactly if it is its own lowercase form. -/
theorem lower_eq_self_iff {t : Text} : lower t = t ↔ ∀ c ∈ t, IsSettled c := by
  refine ⟨fun h => ?_, lower_of_settled⟩
  have hSettled := settled_lower t
  rwa [h] at hSettled

/-- **Lowering keeps the start**: the result starts with a separator exactly if the text does. -/
theorem exists_lower_cons (c : Char) (rest : Text) :
    ∃ d after, lower (c :: rest) = d :: after ∧ Text.isSeparator d = Text.isSeparator c := by
  rw [lower, lowerAfter]
  split
  · rename_i hSigma
    rw [hSigma]
    refine ⟨_, _, rfl, ?_⟩
    split <;> decide
  · obtain ⟨d, forms, hForms, hSame⟩ := exists_ofChar c
    rw [hForms]
    exact ⟨d, _, rfl, hSame⟩

end PathRegistry
