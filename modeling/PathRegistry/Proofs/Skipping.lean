import PathRegistry.Json.Skip
import PathRegistry.Proofs.Grammar

/-!
# What is skipped

Skipping keeps nothing of a value, but it has to find where the value ends.  It goes through the
text as the grammar does: a string is skipped escape by escape, and of a surrogate pair each half
by itself; a number is read; lists and objects are taken apart element by element.  So whatever is
JSON is skipped to its end, however deep it is nested.

The induction is on the rules of the grammar.  A value may have blanks in front, since the blanks
between elements are passed over only when the next value is skipped.

## Main statements

* `Json.skipString_of_body` — a string is skipped to its closing quote.
* `Json.Reads.isSkipped`, `Json.skipValue_of_reads` — a value is skipped to its end.
-/

namespace PathRegistry.Json

variable {s s' t u content : Text} {c : Char} {n : Nat}

/-! ## Blanks and words -/

/-- What follows blanks is found behind them. -/
theorem Blanks.skip (h : Blanks s (c :: t)) (hc : isBlank c = false) : skipBlanks s = c :: t :=
  (skipBlanks_of_blanks h).trans (skipBlanks_cons hc)

/-- A reader that looks behind blanks goes on with the character that it finds there. -/
theorem skipBlanks_cases {α : Type} (h : skipBlanks s = c :: t) (atEnd : skipBlanks s = [] → α)
    (goOn : (c : Char) → (rest : Text) → skipBlanks s = c :: rest → α) :
    (match h' : skipBlanks s with
      | [] => atEnd h'
      | c :: rest => goOn c rest h') = goOn c t h := by
  split
  · rename_i hNone
    cases h.symm.trans hNone
  · rename_i d rest hSome
    cases h.symm.trans hSome
    rfl

/-- A word is skipped to its last letter. -/
theorem skipWord_append (word t : Text) : ∃ r, skipWord word (word ++ t) = .ok r ∧ r.rest = t := by
  induction word with
  | nil => exact ⟨.all t, rfl, rfl⟩
  | cons w word ih =>
    obtain ⟨r, hSkip, hRest⟩ := ih
    refine ⟨(r.behind w).weaken, ?_, hRest⟩
    simp only [List.cons_append, skipWord, if_true, hSkip]

/-! ## Strings -/

/-- An escape with four digits is skipped, whatever the digits are. -/
theorem skipUnit_of_quad (h : Quad s n t) :
    ∃ r, skipUnit ('\\' :: 'u' :: s) = .ok (false, r) ∧ r.rest = t := by
  obtain ⟨r, hRead, hRest⟩ := readQuad_of_quad h
  refine ⟨(r.behind 'u').behind '\\', ?_, hRest⟩
  have hNone : unescape? 'u' = none := by decide
  rw [skipUnit.eq_def]
  simp [hNone, hRead]

/-- Behind one unit, the rest of a string is skipped. -/
theorem skipString_of_skipUnit (hUnit : ∃ r, skipUnit s = .ok (false, r) ∧ r.rest = u)
    (hMore : ∃ r, skipString u = .ok r ∧ r.rest = t) :
    ∃ r, skipString s = .ok r ∧ r.rest = t := by
  obtain ⟨⟨rest, hShorter⟩, hSkip, rfl⟩ := hUnit
  obtain ⟨r', hSkip', hRest'⟩ := hMore
  refine ⟨Shorter.andThen ⟨rest, hShorter⟩ r', ?_, hRest'⟩
  rw [skipString.eq_def]
  simp only [hSkip, hSkip']

/-- A character is skipped, however it is written.  A surrogate pair takes two steps. -/
theorem skipString_of_spells (h : Spells s c u) (hMore : ∃ r, skipString u = .ok r ∧ r.rest = t) :
    ∃ r, skipString s = .ok r ∧ r.rest = t := by
  cases h with
  | plain hPrintable hQuote hBackslash =>
    have hNot : ¬c.toNat < 32 := by omega
    refine skipString_of_skipUnit ⟨.tail c u, ?_, rfl⟩ hMore
    rw [skipUnit.eq_def]
    simp only [if_neg hQuote, if_neg hBackslash, if_neg hNot]
  | short hMem =>
    rename_i e
    refine skipString_of_skipUnit ⟨(Shorter.tail e u).behind '\\', ?_, rfl⟩ hMore
    rw [skipUnit.eq_def]
    simp [unescape?_of_mem hMem]
  | unit hQuad _ => exact skipString_of_skipUnit (skipUnit_of_quad hQuad) hMore
  | pair hFirst hSecond _ _ =>
    have hTrailing := skipString_of_skipUnit (skipUnit_of_quad hSecond) hMore
    exact skipString_of_skipUnit (skipUnit_of_quad hFirst) hTrailing

/-- **A string is skipped to its closing quote.** -/
theorem skipString_of_body (h : Body s content t) : ∃ r, skipString s = .ok r ∧ r.rest = t := by
  induction h with
  | closed =>
    rename_i t
    refine ⟨.tail '"' t, ?_, rfl⟩
    rw [skipString.eq_def]
    rfl
  | cons hUnit _ ih => exact skipString_of_spells hUnit ih

/-! ## Values without elements -/

/-- A number is skipped to its end. -/
theorem skipScalar_of_numeric {negative : Bool} {numeral : Numeral}
    (h : Numeric (c :: s) negative numeral t) : ∃ r, skipScalar c s = .ok r ∧ r.rest = t := by
  cases negative with
  | true =>
    obtain ⟨s', hSame, hNumeric⟩ := h.of_negative
    cases hSame
    obtain ⟨r, hRead, hRest⟩ := readNumeral_of_numeric .invalidNumber hNumeric
    exact ⟨r.weaken, by simp [skipScalar, hRead, Except.map], hRest⟩
  | false =>
    obtain ⟨d, rest, hSame, hDigit⟩ := h.head_positive
    cases hSame
    obtain ⟨r, hRead, hRest⟩ := readNumeral_of_numeric .invalidNumber h
    have hOther {w : Char} (hw : isDigit w = false) : c ≠ w := by
      rintro rfl
      rw [hDigit] at hw
      cases hw
    refine ⟨r.untail, ?_, hRest⟩
    rw [skipScalar, if_neg (hOther (by decide)), if_neg (hOther (by decide)),
      if_neg (hOther (by decide)), if_neg (hOther (by decide)), if_neg (hOther (by decide)),
      if_pos hDigit, hRead]
    rfl

/-- A value without elements is skipped behind the blanks in front of it. -/
theorem skipValue_of_skipScalar (hBlanks : Blanks s' (c :: s)) (hc : isBlank c = false)
    (hList : c ≠ '[') (hObject : c ≠ '\x7b') (hScalar : ∃ r, skipScalar c s = .ok r ∧ r.rest = t) :
    ∃ r, skipValue s' = .ok r ∧ r.rest = t := by
  have hSkip := hBlanks.skip hc
  obtain ⟨r, hRead, hRest⟩ := hScalar
  refine ⟨r.below (length_lt_of_skipBlanks hSkip), ?_, hRest⟩
  rw [skipValue.eq_def]
  refine (skipBlanks_cases hSkip _ _).trans ?_
  simp only [if_neg hList, if_neg hObject, hRead]

/-- A number is skipped behind the blanks in front of it. -/
theorem skipValue_of_numeric {negative : Bool} {numeral : Numeral}
    (h : Numeric s negative numeral t) (hBlanks : Blanks s' s) :
    ∃ r, skipValue s' = .ok r ∧ r.rest = t := by
  obtain ⟨c, rest, rfl, hHead⟩ := h.head
  have hFirst : isBlank c = false ∧ c ≠ '[' ∧ c ≠ '\x7b' := by
    have hAll : (('-' :: decimals).all fun c => !isBlank c && c != '[' && c != '\x7b') = true := by
      decide
    have hMem : c ∈ '-' :: decimals := List.mem_cons.mpr (hHead.imp_right isDigit_iff.mp)
    simpa [and_assoc] using List.all_eq_true.mp hAll c hMem
  exact skipValue_of_skipScalar hBlanks hFirst.1 hFirst.2.1 hFirst.2.2 (skipScalar_of_numeric h)

/-! ## Names -/

/-- The colon behind a name is skipped. -/
theorem skipColon_of_blanks (h : Blanks s (':' :: t)) :
    ∃ r, skipColon s = .ok r ∧ r.rest = t := by
  have hSkip := h.skip (by decide)
  refine ⟨⟨t, length_lt_of_skipBlanks hSkip⟩, ?_, rfl⟩
  unfold skipColon
  exact skipBlanks_cases hSkip _ _

/-- The name of a member and its colon are skipped. -/
theorem skipName_of_named {name : Text} (h : Named s name t) :
    ∃ r, skipName s = .ok r ∧ r.rest = t := by
  cases h with
  | name hQuote hBody hColon =>
    have hSkip := hQuote.skip (by decide)
    obtain ⟨⟨rest, hShorter⟩, hString, rfl⟩ := skipString_of_body hBody
    obtain ⟨r', hEnd, hRest⟩ := skipColon_of_blanks hColon
    refine ⟨(Shorter.andThen ⟨rest, hShorter⟩ r').below (length_lt_of_skipBlanks hSkip), ?_,
      hRest⟩
    unfold skipName
    refine (skipBlanks_cases hSkip _ _).trans ?_
    simp only [if_true, hString, hEnd]

/-! ## Lists and objects -/

/-- The elements of a list start with the first character of a value. -/
theorem Reads.elements_head {vs : List Value} (h : Reads s (.elements vs) t) :
    ∃ c rest, skipBlanks s = c :: rest ∧ c ≠ ']' := by
  have hHead {s' t' : Text} {v : Value} (hBlanks : Blanks s s') (hv : Reads s' (.value v) t') :
      ∃ c rest, skipBlanks s = c :: rest ∧ c ≠ ']' := by
    obtain ⟨c, rest, rfl, hBlank, hClose⟩ := hv.head
    exact ⟨c, rest, hBlanks.skip hBlank, hClose⟩
  cases h with
  | lastElement hBlanks hv _ => exact hHead hBlanks hv
  | element hBlanks hv _ _ => exact hHead hBlanks hv

theorem Named.head {name : Text} (h : Named s name t) : ∃ rest, skipBlanks s = '"' :: rest := by
  cases h with
  | name hQuote _ _ => exact ⟨_, hQuote.skip (by decide)⟩

/-- The members of an object start with the quote of a name. -/
theorem Reads.members_head {ms : List (Text × Value)} (h : Reads s (.members ms) t) :
    ∃ rest, skipBlanks s = '"' :: rest := by
  cases h with
  | lastMember hName _ _ _ => exact hName.head
  | member hName _ _ _ _ => exact hName.head

/-- A part is skipped to its end.  A value may have blanks in front. -/
def Part.IsSkipped (s t : Text) : Part → Prop
  | .value _ => ∀ s', Blanks s' s → ∃ r, skipValue s' = .ok r ∧ r.rest = t
  | .elements _ => ∃ r, skipElements s = .ok r ∧ r.rest = t
  | .members _ => ∃ r, skipMembers s = .ok r ∧ r.rest = t

/-- A list without elements is skipped. -/
theorem skipValue_noElements (h : Blanks s (']' :: t)) (hBlanks : Blanks s' ('[' :: s)) :
    ∃ r, skipValue s' = .ok r ∧ r.rest = t := by
  have hOpen := hBlanks.skip (by decide)
  have hClose := h.skip (by decide)
  refine ⟨Shorter.below ⟨t, length_lt_of_skipBlanks hClose⟩ (length_lt_of_skipBlanks hOpen), ?_,
    rfl⟩
  rw [skipValue.eq_def]
  refine (skipBlanks_cases hOpen _ _).trans ?_
  rw [if_pos rfl]
  exact skipBlanks_cases hClose _ _

/-- An object without members is skipped. -/
theorem skipValue_noMembers (h : Blanks s ('\x7d' :: t)) (hBlanks : Blanks s' ('\x7b' :: s)) :
    ∃ r, skipValue s' = .ok r ∧ r.rest = t := by
  have hOpen := hBlanks.skip (by decide)
  have hClose := h.skip (by decide)
  refine ⟨Shorter.below ⟨t, length_lt_of_skipBlanks hClose⟩ (length_lt_of_skipBlanks hOpen), ?_,
    rfl⟩
  rw [skipValue.eq_def]
  refine (skipBlanks_cases hOpen _ _).trans ?_
  rw [if_neg (by decide), if_pos rfl]
  exact skipBlanks_cases hClose _ _

/-- A list is skipped if its elements are. -/
theorem skipValue_list {vs : List Value} (h : Reads s (.elements vs) t)
    (hElements : ∃ r, skipElements s = .ok r ∧ r.rest = t) (hBlanks : Blanks s' ('[' :: s)) :
    ∃ r, skipValue s' = .ok r ∧ r.rest = t := by
  have hOpen := hBlanks.skip (by decide)
  obtain ⟨c, rest, hFirst, hNot⟩ := h.elements_head
  obtain ⟨r, hSkip, hRest⟩ := hElements
  refine ⟨r.below (length_lt_of_skipBlanks hOpen), ?_, hRest⟩
  rw [skipValue.eq_def]
  refine (skipBlanks_cases hOpen _ _).trans ?_
  rw [if_pos rfl]
  refine (skipBlanks_cases hFirst _ _).trans ?_
  simp only [if_neg hNot, hSkip]

/-- An object is skipped if its members are. -/
theorem skipValue_object {ms : List (Text × Value)} (h : Reads s (.members ms) t)
    (hMembers : ∃ r, skipMembers s = .ok r ∧ r.rest = t) (hBlanks : Blanks s' ('\x7b' :: s)) :
    ∃ r, skipValue s' = .ok r ∧ r.rest = t := by
  have hOpen := hBlanks.skip (by decide)
  obtain ⟨rest, hFirst⟩ := h.members_head
  obtain ⟨r, hSkip, hRest⟩ := hMembers
  refine ⟨r.below (length_lt_of_skipBlanks hOpen), ?_, hRest⟩
  rw [skipValue.eq_def]
  refine (skipBlanks_cases hOpen _ _).trans ?_
  rw [if_neg (by decide), if_pos rfl]
  refine (skipBlanks_cases hFirst _ _).trans ?_
  rw [if_neg (by decide), hSkip]

/-- The last element and the closing bracket are skipped. -/
theorem skipElements_last (hValue : ∃ r, skipValue s = .ok r ∧ r.rest = u)
    (hEnd : Blanks u (']' :: t)) : ∃ r, skipElements s = .ok r ∧ r.rest = t := by
  obtain ⟨⟨rest, hShorter⟩, hSkip, rfl⟩ := hValue
  have hClose := hEnd.skip (by decide)
  refine ⟨Shorter.andThen ⟨rest, hShorter⟩ ⟨t, length_lt_of_skipBlanks hClose⟩, ?_, rfl⟩
  rw [skipElements.eq_def, hSkip]
  exact skipBlanks_cases hClose _ _

/-- An element and a comma are skipped, and then the other elements. -/
theorem skipElements_cons {u' : Text} (hValue : ∃ r, skipValue s = .ok r ∧ r.rest = u)
    (hComma : Blanks u (',' :: u')) (hMore : ∃ r, skipElements u' = .ok r ∧ r.rest = t) :
    ∃ r, skipElements s = .ok r ∧ r.rest = t := by
  obtain ⟨⟨rest, hShorter⟩, hSkip, rfl⟩ := hValue
  obtain ⟨r', hSkip', hRest⟩ := hMore
  have hNext := hComma.skip (by decide)
  refine ⟨(Shorter.andThen ⟨rest, hShorter⟩ ⟨u', length_lt_of_skipBlanks hNext⟩).andThen r', ?_,
    hRest⟩
  rw [skipElements.eq_def, hSkip]
  refine (skipBlanks_cases hNext _ _).trans ?_
  rw [if_neg (by decide), if_pos rfl]
  simp only [Shorter.andThen, Shorter.below, hSkip']

/-- The last member and the closing brace are skipped. -/
theorem skipMembers_last {u' : Text} (hName : ∃ r, skipName s = .ok r ∧ r.rest = u')
    (hValue : ∃ r, skipValue u' = .ok r ∧ r.rest = u) (hEnd : Blanks u ('\x7d' :: t)) :
    ∃ r, skipMembers s = .ok r ∧ r.rest = t := by
  obtain ⟨⟨_, hShorter⟩, hSkipName, rfl⟩ := hName
  obtain ⟨⟨rest, hShorter'⟩, hSkip, rfl⟩ := hValue
  have hClose := hEnd.skip (by decide)
  refine ⟨(Shorter.andThen ⟨_, hShorter⟩ ⟨rest, hShorter'⟩).andThen
    ⟨t, length_lt_of_skipBlanks hClose⟩, ?_, rfl⟩
  rw [skipMembers.eq_def]
  simp only [hSkipName, hSkip]
  exact skipBlanks_cases hClose _ _

/-- A member and a comma are skipped, and then the other members. -/
theorem skipMembers_cons {u' w : Text} (hName : ∃ r, skipName s = .ok r ∧ r.rest = u')
    (hValue : ∃ r, skipValue u' = .ok r ∧ r.rest = u) (hComma : Blanks u (',' :: w))
    (hMore : ∃ r, skipMembers w = .ok r ∧ r.rest = t) :
    ∃ r, skipMembers s = .ok r ∧ r.rest = t := by
  obtain ⟨⟨_, hShorter⟩, hSkipName, rfl⟩ := hName
  obtain ⟨⟨rest, hShorter'⟩, hSkip, rfl⟩ := hValue
  obtain ⟨r', hSkip', hRest⟩ := hMore
  have hNext := hComma.skip (by decide)
  refine ⟨((Shorter.andThen ⟨_, hShorter⟩ ⟨rest, hShorter'⟩).andThen
    ⟨w, length_lt_of_skipBlanks hNext⟩).andThen r', ?_, hRest⟩
  rw [skipMembers.eq_def]
  simp only [hSkipName, hSkip]
  refine (skipBlanks_cases hNext _ _).trans ?_
  rw [if_neg (by decide), if_pos rfl]
  simp only [Shorter.andThen, Shorter.below, hSkip']

/-- **Whatever is JSON is skipped to its end.**  The induction is on the rules of the grammar; the
blanks that may stand in front of a value are those that its list or its object has in front of
it. -/
theorem Reads.isSkipped {p : Part} (h : Reads s p t) : p.IsSkipped s t := by
  induction h with
  | nullWord =>
    intro s' hBlanks
    refine skipValue_of_skipScalar hBlanks (by decide) (by decide) (by decide) ?_
    exact skipWord_append ['u', 'l', 'l'] _
  | trueWord =>
    intro s' hBlanks
    refine skipValue_of_skipScalar hBlanks (by decide) (by decide) (by decide) ?_
    exact skipWord_append ['r', 'u', 'e'] _
  | falseWord =>
    intro s' hBlanks
    refine skipValue_of_skipScalar hBlanks (by decide) (by decide) (by decide) ?_
    exact skipWord_append ['a', 'l', 's', 'e'] _
  | number hNumber => exact fun s' hBlanks => skipValue_of_numeric hNumber hBlanks
  | string hBody =>
    intro s' hBlanks
    refine skipValue_of_skipScalar hBlanks (by decide) (by decide) (by decide) ?_
    obtain ⟨r, hSkip, hRest⟩ := skipString_of_body hBody
    exact ⟨r.weaken, by simp [skipScalar, hSkip, Except.map], hRest⟩
  | noElements hClose => exact fun s' hBlanks => skipValue_noElements hClose hBlanks
  | list hElements ih => exact fun s' hBlanks => skipValue_list hElements ih hBlanks
  | noMembers hClose => exact fun s' hBlanks => skipValue_noMembers hClose hBlanks
  | object hMembers ih => exact fun s' hBlanks => skipValue_object hMembers ih hBlanks
  | lastElement hBlanks _ hEnd ihv => exact skipElements_last (ihv _ hBlanks) hEnd
  | element hBlanks _ hComma _ ihv ih => exact skipElements_cons (ihv _ hBlanks) hComma ih
  | lastMember hName hBlanks _ hEnd ihv =>
    exact skipMembers_last (skipName_of_named hName) (ihv _ hBlanks) hEnd
  | member hName hBlanks _ hComma _ ihv ih =>
    exact skipMembers_cons (skipName_of_named hName) (ihv _ hBlanks) hComma ih

/-- **A value is skipped to its end**, and so are the blanks in front of it. -/
theorem skipValue_of_reads {v : Value} (hBlanks : Blanks s' s) (h : Reads s (.value v) t) :
    ∃ r, skipValue s' = .ok r ∧ r.rest = t :=
  h.isSkipped s' hBlanks

end PathRegistry.Json
