import PathRegistry.Proofs.Quoting

/-!
# What a JSON text means

`Json.IsTextOf s v` is the grammar of JSON: the text `s` stands for the value `v`.  Each rule takes
what it reads off the front of a text and leaves the rest, so that no rule has to say where a list
or an object is cut.  A number has no end of its own; it ends where a blank, a comma or a closing
bracket stands, or the text ends.

The first character of a value tells which rule has read it, and strings and numbers are read by
functions.  So a text stands for one value at most: that is an induction over the rules, in which
lists and objects are taken apart element by element.

## Main statements

* `Json.readNumeral_of_numeric` — a number is read to its end.
* `Json.Reads.isOnly`, `Json.IsTextOf.unique` — a text stands for one value at most.
* `Json.isWritten_object`, `Json.object_clear` — what the writer of objects writes.
-/

namespace PathRegistry.Json

/-! ## Values -/

/-- A JSON value.  A number is kept as it is written, an object with its members in their order. -/
inductive Value where
  | null
  | boolean (value : Bool)
  | number (negative : Bool) (numeral : Numeral)
  | string (content : Text)
  | list (elements : List Value)
  | object (members : List (Text × Value))

/-! ## Lexical elements -/

/-- The characters that may stand between elements. -/
def blanks : List Char := [' ', '\t', '\n', '\r']

/-- The characters in front of which a number may end. -/
def closers : List Char := blanks ++ [',', ']', '\x7d']

/-- The decimal digits. -/
def decimals : List Char := ['0', '1', '2', '3', '4', '5', '6', '7', '8', '9']

/-- `Blanks s t`: `s` is blanks and then `t`. -/
inductive Blanks : Text → Text → Prop where
  | none {t : Text} : Blanks t t
  | one {c : Char} {s t : Text} : c ∈ blanks → Blanks s t → Blanks (c :: s) t

/-- Some digits. -/
def IsDigits (ds : List Char) : Prop := ds ≠ [] ∧ ∀ d ∈ ds, d ∈ decimals

/-- The digits of a whole part, which have no zero in front. -/
def IsWhole (ds : List Char) : Prop :=
  IsDigits ds ∧ (ds.head? = some '0' → ds = ['0'])

/-- How the digits behind the point are written, if there are any. -/
inductive IsFraction : List Char → Text → Prop where
  | none : IsFraction [] []
  | digits {ds : List Char} : IsDigits ds → IsFraction ds ('.' :: ds)

/-- How an exponent is written, if there is one. -/
inductive IsExponent : Option (Bool × List Char) → Text → Prop where
  | none : IsExponent none []
  | unsigned {e : Char} {ds : List Char} : e ∈ ['e', 'E'] → IsDigits ds →
      IsExponent (some (false, ds)) (e :: ds)
  | plus {e : Char} {ds : List Char} : e ∈ ['e', 'E'] → IsDigits ds →
      IsExponent (some (false, ds)) (e :: '+' :: ds)
  | minus {e : Char} {ds : List Char} : e ∈ ['e', 'E'] → IsDigits ds →
      IsExponent (some (true, ds)) (e :: '-' :: ds)

/-- Where a number may end. -/
def Ends (t : Text) : Prop :=
  ∀ c, t.head? = some c → c ∈ closers

/-- `Numeric s negative n t`: a number starts `s`, and `t` follows, in front of which it may
end. -/
inductive Numeric : Text → Bool → Numeral → Text → Prop where
  | positive {n : Numeral} {fraction exponent t : Text} : IsWhole n.whole →
      IsFraction n.fraction fraction → IsExponent n.exponent exponent → Ends t →
        Numeric (n.whole ++ (fraction ++ (exponent ++ t))) false n t
  | negative {n : Numeral} {s t : Text} : Numeric s false n t → Numeric ('-' :: s) true n t

/-- `Named s name t`: the name of a member and a colon start `s`, and `t` follows. -/
inductive Named : Text → Text → Text → Prop where
  | name {s s₁ s₂ t content : Text} : Blanks s ('"' :: s₁) → Body s₁ content s₂ →
      Blanks s₂ (':' :: t) → Named s content t

/-! ## The grammar -/

/-- What a rule reads. -/
inductive Part where
  | value (v : Value)
  /-- The elements of a list, one at least, and its closing bracket. -/
  | elements (vs : List Value)
  /-- The members of an object, one at least, and its closing brace. -/
  | members (ms : List (Text × Value))

/-- `Reads s p t`: the part `p` starts `s`, and `t` follows. -/
inductive Reads : Text → Part → Text → Prop where
  | nullWord {t : Text} : Reads ('n' :: 'u' :: 'l' :: 'l' :: t) (.value .null) t
  | trueWord {t : Text} : Reads ('t' :: 'r' :: 'u' :: 'e' :: t) (.value (.boolean true)) t
  | falseWord {t : Text} :
      Reads ('f' :: 'a' :: 'l' :: 's' :: 'e' :: t) (.value (.boolean false)) t
  | number {s t : Text} {negative : Bool} {n : Numeral} :
      Numeric s negative n t → Reads s (.value (.number negative n)) t
  | string {s t content : Text} : Body s content t → Reads ('"' :: s) (.value (.string content)) t
  | noElements {s t : Text} : Blanks s (']' :: t) → Reads ('[' :: s) (.value (.list [])) t
  | list {s t : Text} {vs : List Value} :
      Reads s (.elements vs) t → Reads ('[' :: s) (.value (.list vs)) t
  | noMembers {s t : Text} : Blanks s ('\x7d' :: t) → Reads ('\x7b' :: s) (.value (.object [])) t
  | object {s t : Text} {ms : List (Text × Value)} :
      Reads s (.members ms) t → Reads ('\x7b' :: s) (.value (.object ms)) t
  | lastElement {s s' t t' : Text} {v : Value} : Blanks s s' → Reads s' (.value v) t' →
      Blanks t' (']' :: t) → Reads s (.elements [v]) t
  | element {s s' t t' u : Text} {v : Value} {vs : List Value} : Blanks s s' →
      Reads s' (.value v) t' → Blanks t' (',' :: u) → Reads u (.elements vs) t →
        Reads s (.elements (v :: vs)) t
  | lastMember {s name s₁ s₂ t t' : Text} {v : Value} : Named s name s₁ → Blanks s₁ s₂ →
      Reads s₂ (.value v) t' → Blanks t' ('\x7d' :: t) → Reads s (.members [(name, v)]) t
  | member {s name s₁ s₂ t t' u : Text} {v : Value} {ms : List (Text × Value)} :
      Named s name s₁ → Blanks s₁ s₂ → Reads s₂ (.value v) t' → Blanks t' (',' :: u) →
        Reads u (.members ms) t → Reads s (.members ((name, v) :: ms)) t

/-- **A JSON text**: blanks, a value, and blanks. -/
def IsTextOf (text : Text) (v : Value) : Prop :=
  ∃ s t, Blanks text s ∧ Reads s (.value v) t ∧ Blanks t []

variable {s s' t t' w : Text} {c : Char}

/-! ## Blanks -/

theorem isBlank_iff : isBlank c = true ↔ c ∈ blanks := by
  simp [isBlank, blanks, or_assoc, or_left_comm]

theorem skipBlanks_cons (h : isBlank c = false) : skipBlanks (c :: t) = c :: t :=
  List.dropWhile_cons_of_neg (by simp [h])

/-- Blanks in front are skipped. -/
theorem skipBlanks_of_blanks (h : Blanks s t) : skipBlanks s = skipBlanks t := by
  induction h with
  | none => rfl
  | one hBlank _ ih => exact (List.dropWhile_cons_of_pos (isBlank_iff.mpr hBlank)).trans ih

/-- What follows blanks and is none itself starts at one place. -/
theorem Blanks.unique {c' : Char} (h : Blanks s (c :: t)) (h' : Blanks s (c' :: t'))
    (hc : isBlank c = false) (hc' : isBlank c' = false) : c' = c ∧ t' = t := by
  have hSame : skipBlanks (c' :: t') = skipBlanks (c :: t) :=
    (skipBlanks_of_blanks h').symm.trans (skipBlanks_of_blanks h)
  rw [skipBlanks_cons hc, skipBlanks_cons hc'] at hSame
  exact List.cons.inj hSame

/-- What goes on behind blanks does not end there. -/
theorem Blanks.not_both {d : Char} (h : Blanks s (c :: t)) (h' : Blanks s (d :: t'))
    (hc : isBlank c = false) (hd : isBlank d = false) (hOther : d ≠ c) : False :=
  hOther (h.unique h' hc hd).1

theorem Named.not_end {name : Text} (h : Named s name t) (hEnd : Blanks s ('\x7d' :: t')) :
    False := by
  cases h with
  | name hQuote _ _ => exact hEnd.not_both hQuote (by decide) (by decide) (by decide)

/-- A name is read in one way. -/
theorem Named.unique {name name' : Text} (h : Named s name t) (h' : Named s name' t') :
    name' = name ∧ t' = t := by
  cases h with
  | name hQuote hBody hColon =>
    cases h' with
    | name hQuote' hBody' hColon' =>
      obtain ⟨-, rfl⟩ := hQuote.unique hQuote' (by decide) (by decide)
      obtain ⟨rfl, rfl⟩ := hBody.unique hBody'
      exact ⟨rfl, (hColon.unique hColon' (by decide) (by decide)).2⟩

/-! ## Numbers -/

theorem isDigit_iff : isDigit c = true ↔ c ∈ decimals := by
  have hAll : ∀ m : Fin 58, isDigit (Char.ofNat m.val) = true → Char.ofNat m.val ∈ decimals := by
    decide +kernel
  have hDigits : decimals.all isDigit = true := by decide
  refine ⟨fun h => ?_, List.all_eq_true.mp hDigits c⟩
  have hLast : c.toNat < 58 := by
    simp only [isDigit, Bool.and_eq_true, decide_eq_true_eq] at h
    exact Nat.lt_succ_of_le h.2
  have hMem := hAll ⟨c.toNat, hLast⟩
  rw [Char.ofNat_toNat] at hMem
  exact hMem h

/-- Nothing of a number goes on where it may end. -/
theorem Ends.not_numeric (h : Ends t) (hc : t.head? = some c) :
    isDigit c = false ∧ c ≠ '.' ∧ c ≠ 'e' ∧ c ≠ 'E' := by
  have hAll : (closers.all fun c => !isDigit c && c != '.' && c != 'e' && c != 'E') = true := by
    decide
  have hOne := List.all_eq_true.mp hAll c (h c hc)
  simpa [and_assoc] using hOne

/-- Digits are read to the last one. -/
theorem readDigits_append {ds : List Char} (atEnd : Problem) (h : IsDigits ds)
    (hNext : ∀ c, t.head? = some c → isDigit c = false) :
    ∃ r, readDigits atEnd (ds ++ t) = .ok (ds, r) ∧ r.rest = t := by
  obtain ⟨hSome, hDigits⟩ := h
  obtain ⟨d, more, rfl⟩ := List.exists_cons_of_ne_nil hSome
  have hMore : ∀ e ∈ more, isDigit e = true :=
    fun e he => isDigit_iff.mpr (hDigits e (List.mem_cons_of_mem d he))
  have hStop : t.takeWhile isDigit = [] ∧ t.dropWhile isDigit = t := by
    cases t with
    | nil => exact ⟨rfl, rfl⟩
    | cons c t => simp [hNext c rfl]
  have hTake : (more ++ t).takeWhile isDigit = more := by
    rw [List.takeWhile_append_of_pos hMore, hStop.1, List.append_nil]
  have hDrop : (more ++ t).dropWhile isDigit = t := by
    rw [List.dropWhile_append_of_pos hMore, hStop.2]
  refine ⟨(NotLonger.dropWhile isDigit (more ++ t)).behind d, ?_, hDrop⟩
  have hFirst := isDigit_iff.mpr (hDigits d List.mem_cons_self)
  simp only [List.cons_append, readDigits, if_pos hFirst, hTake]

/-- The first of some digits. -/
theorem IsDigits.head {ds : List Char} (h : IsDigits ds) :
    ∃ d more, ds = d :: more ∧ isDigit d = true := by
  obtain ⟨d, more, rfl⟩ := List.exists_cons_of_ne_nil h.1
  exact ⟨d, more, rfl, isDigit_iff.mpr (h.2 d List.mem_cons_self)⟩

/-- Behind its letter and its sign, an exponent is read to its last digit. -/
theorem readExponent_cons {e : Char} {rest : Text} {negative : Bool} {ds : List Char}
    (atEnd : Problem) (he : e ∈ ['e', 'E'])
    (hSign : ∃ r, skipSign rest = (negative, r) ∧ r.rest = ds ++ t) (hds : IsDigits ds)
    (hEnds : Ends t) :
    ∃ r, readExponent atEnd (e :: rest) = .ok (some (negative, ds), r) ∧ r.rest = t := by
  have hLetter : (e = 'e' || e = 'E') = true := by simpa using he
  obtain ⟨⟨left, hShorter⟩, hSkip, rfl⟩ := hSign
  obtain ⟨r', hRead, hRest⟩ :=
    readDigits_append atEnd hds fun c hc => (hEnds.not_numeric hc).1
  refine ⟨((NotLonger.behind e ⟨_, hShorter⟩).andThen r').weaken, ?_, hRest⟩
  rw [readExponent, if_pos hLetter, hSkip]
  simp only [hRead]

/-- An exponent is read to its last digit. -/
theorem readExponent_append {exponent : Option (Bool × List Char)} (atEnd : Problem)
    (h : IsExponent exponent w) (hEnds : Ends t) :
    ∃ r, readExponent atEnd (w ++ t) = .ok (exponent, r) ∧ r.rest = t := by
  cases h with
  | none =>
    cases t with
    | nil => exact ⟨.all [], rfl, rfl⟩
    | cons c t =>
      obtain ⟨-, -, hSmall, hLarge⟩ := hEnds.not_numeric rfl
      refine ⟨.all (c :: t), ?_, rfl⟩
      simp [readExponent, hSmall, hLarge]
  | unsigned he hds =>
    refine readExponent_cons atEnd he ?_ hds hEnds
    obtain ⟨d, more, rfl, hDigit⟩ := hds.head
    have hMinus : d ≠ '-' := fun h => absurd hDigit (by rw [h]; decide)
    have hPlus : d ≠ '+' := fun h => absurd hDigit (by rw [h]; decide)
    refine ⟨.all (d :: (more ++ t)), ?_, rfl⟩
    show skipSign (d :: (more ++ t)) = _
    rw [skipSign, if_neg hMinus, if_neg hPlus]
  | plus he hds => exact readExponent_cons atEnd he ⟨_, rfl, rfl⟩ hds hEnds
  | minus he hds => exact readExponent_cons atEnd he ⟨_, rfl, rfl⟩ hds hEnds

/-- An exponent starts with its letter. -/
theorem IsExponent.head {exponent : Option (Bool × List Char)} (h : IsExponent exponent w)
    (hEnds : Ends t) (hc : (w ++ t).head? = some c) : isDigit c = false ∧ c ≠ '.' := by
  have hLetter {e : Char} (he : e ∈ ['e', 'E']) : isDigit e = false ∧ e ≠ '.' := by
    have hAll : (['e', 'E'].all fun e => !isDigit e && e != '.') = true := by decide
    simpa using List.all_eq_true.mp hAll e he
  cases h with
  | none => exact ⟨(hEnds.not_numeric hc).1, (hEnds.not_numeric hc).2.1⟩
  | unsigned he _ => exact Option.some.inj hc ▸ hLetter he
  | plus he _ => exact Option.some.inj hc ▸ hLetter he
  | minus he _ => exact Option.some.inj hc ▸ hLetter he

/-- The digits behind a point are read to the last one. -/
theorem readFraction_append {ds : List Char} (atEnd : Problem) (h : IsFraction ds w)
    (hNext : ∀ c, t.head? = some c → isDigit c = false ∧ c ≠ '.') :
    ∃ r, readFraction atEnd (w ++ t) = .ok (ds, r) ∧ r.rest = t := by
  cases h with
  | none =>
    cases t with
    | nil => exact ⟨.all [], rfl, rfl⟩
    | cons c t => exact ⟨.all (c :: t), by simp [readFraction, (hNext c rfl).2], rfl⟩
  | digits hds =>
    obtain ⟨r, hRead, hRest⟩ := readDigits_append atEnd hds fun c hc => (hNext c hc).1
    refine ⟨(r.behind '.').weaken, ?_, hRest⟩
    simp only [List.cons_append, readFraction, if_true, hRead]

/-- A fraction starts with its point. -/
theorem IsFraction.head {ds : List Char} (h : IsFraction ds w)
    (hNext : ∀ c, t.head? = some c → isDigit c = false) (hc : (w ++ t).head? = some c) :
    isDigit c = false := by
  cases h with
  | none => exact hNext c hc
  | digits _ => exact Option.some.inj hc ▸ by decide

/-- A whole part is read to its last digit. -/
theorem readWhole_append {ds : List Char} (atEnd : Problem) (h : IsWhole ds)
    (hNext : ∀ c, t.head? = some c → isDigit c = false) :
    ∃ r, readWhole atEnd (ds ++ t) = .ok (ds, r) ∧ r.rest = t := by
  obtain ⟨d, more, rfl, -⟩ := h.1.head
  by_cases hZero : d = '0'
  · subst hZero
    obtain rfl : more = [] := List.cons.inj (h.2 rfl) |>.2
    have hStop : ¬t.head?.any isDigit = true := by
      cases t with
      | nil => exact Bool.false_ne_true
      | cons c t => simp [hNext c rfl]
    refine ⟨.tail '0' t, ?_, rfl⟩
    simp only [List.cons_append, readWhole, if_true, List.nil_append, if_neg hStop]
  · obtain ⟨r, hRead, hRest⟩ := readDigits_append atEnd h.1 hNext
    refine ⟨r, ?_, hRest⟩
    rw [← hRead, List.cons_append, readWhole, if_neg hZero]

/-- **A number is read to its end.** -/
theorem readNumeral_of_numeric {n : Numeral} (atEnd : Problem) (h : Numeric s false n t) :
    ∃ r, readNumeral atEnd s = .ok (n, r) ∧ r.rest = t := by
  cases h with
  | positive hWhole hFraction hExponent hEnds =>
    rename_i fraction exponent
    have hBehindFraction (c : Char) (hc : (exponent ++ t).head? = some c) :=
      hExponent.head hEnds hc
    have hBehindWhole (c : Char) (hc : (fraction ++ (exponent ++ t)).head? = some c) :=
      hFraction.head (fun c hc => (hBehindFraction c hc).1) hc
    obtain ⟨⟨_, h₁⟩, hRead₁, rfl⟩ := readWhole_append atEnd hWhole hBehindWhole
    obtain ⟨⟨_, h₂⟩, hRead₂, rfl⟩ := readFraction_append atEnd hFraction hBehindFraction
    obtain ⟨r₃, hRead₃, hRest⟩ := readExponent_append atEnd hExponent hEnds
    refine ⟨(Shorter.andThenMaybe ⟨_, h₁⟩ ⟨_, h₂⟩).andThenMaybe r₃, ?_, hRest⟩
    simp only [readNumeral, hRead₁, hRead₂, hRead₃]

variable {n n' : Numeral} {negative negative' : Bool}

theorem Numeric.of_negative (h : Numeric s true n t) :
    ∃ s', s = '-' :: s' ∧ Numeric s' false n t := by
  cases h with
  | negative h => exact ⟨_, rfl, h⟩

/-- A number without a sign starts with a digit. -/
theorem Numeric.head_positive (h : Numeric s false n t) :
    ∃ d rest, s = d :: rest ∧ isDigit d = true := by
  cases h with
  | positive hWhole _ _ _ =>
    obtain ⟨d, more, hDigits, hDigit⟩ := hWhole.1.head
    exact ⟨d, _, by rw [hDigits, List.cons_append], hDigit⟩

/-- A number starts with its sign or a digit. -/
theorem Numeric.head (h : Numeric s negative n t) :
    ∃ c rest, s = c :: rest ∧ (c = '-' ∨ isDigit c = true) := by
  cases negative with
  | false =>
    obtain ⟨d, rest, rfl, hDigit⟩ := h.head_positive
    exact ⟨d, rest, rfl, .inr hDigit⟩
  | true =>
    obtain ⟨s', rfl, -⟩ := h.of_negative
    exact ⟨'-', s', rfl, .inl rfl⟩

theorem Numeric.not_cons (hSign : c ≠ '-') (hDigit : isDigit c = false) :
    ¬Numeric (c :: s) negative n t := by
  intro h
  obtain ⟨d, rest, hSame, rfl | hd⟩ := h.head
  · exact hSign (List.cons.inj hSame).1
  · rw [← (List.cons.inj hSame).1, hDigit] at hd
    cases hd

/-- A number without a sign is read in one way. -/
theorem Numeric.unique_positive (h : Numeric s false n t) (h' : Numeric s false n' t') :
    n' = n ∧ t' = t := by
  obtain ⟨r, hRead, rfl⟩ := readNumeral_of_numeric .endInValue h
  obtain ⟨r', hRead', rfl⟩ := readNumeral_of_numeric .endInValue h'
  rw [hRead] at hRead'
  cases hRead'
  exact ⟨rfl, rfl⟩

/-- **A number is read in one way.** -/
theorem Numeric.unique (h : Numeric s negative n t) (h' : Numeric s negative' n' t') :
    negative' = negative ∧ n' = n ∧ t' = t := by
  have hSign {s' t : Text} {n : Numeral} (h : Numeric ('-' :: s') false n t) : False := by
    obtain ⟨d, rest, hSame, hDigit⟩ := h.head_positive
    cases hSame
    exact absurd hDigit (by decide)
  cases negative with
  | false =>
    cases negative' with
    | false => exact ⟨rfl, h.unique_positive h'⟩
    | true =>
      obtain ⟨s', rfl, -⟩ := h'.of_negative
      exact (hSign h).elim
  | true =>
    obtain ⟨s', rfl, hRest⟩ := h.of_negative
    cases negative' with
    | false => exact (hSign h').elim
    | true =>
      obtain ⟨_, hSame, hRest'⟩ := h'.of_negative
      cases hSame
      exact ⟨rfl, hRest.unique_positive hRest'⟩

/-! ## One value at most -/

/-- A value starts with a character that is no blank and closes no list. -/
theorem Reads.head {v : Value} (h : Reads s (.value v) t) :
    ∃ c rest, s = c :: rest ∧ isBlank c = false ∧ c ≠ ']' := by
  cases h with
  | number hNumeric =>
    obtain ⟨c, rest, rfl, hHead⟩ := hNumeric.head
    refine ⟨c, rest, rfl, ?_⟩
    have hAll : (decimals.all fun c => !isBlank c && c != ']') = true := by decide
    rcases hHead with rfl | hDigit
    · exact ⟨by decide, by decide⟩
    · simpa using List.all_eq_true.mp hAll c (isDigit_iff.mp hDigit)
  | _ => exact ⟨_, _, rfl, by decide, by decide⟩

/-- What is read is all that can be read there of its kind. -/
def Part.IsOnly (s t : Text) : Part → Prop
  | .value v => ∀ v' t', Reads s (.value v') t' → v' = v ∧ t' = t
  | .elements vs => ∀ vs' t', Reads s (.elements vs') t' → vs' = vs ∧ t' = t
  | .members ms => ∀ ms' t', Reads s (.members ms') t' → ms' = ms ∧ t' = t

/-- The elements of a list do not start where the list ends. -/
theorem Reads.not_elements {vs : List Value} {u : Text} (h : Blanks s (']' :: t)) :
    ¬Reads s (.elements vs) u := by
  have hOther {s' t' : Text} {v : Value} (hBlanks : Blanks s s') (hv : Reads s' (.value v) t') :
      False := by
    obtain ⟨c, rest, rfl, hBlank, hClose⟩ := hv.head
    exact hClose (h.unique hBlanks (by decide) hBlank).1
  intro hElements
  cases hElements with
  | lastElement hBlanks hv _ => exact hOther hBlanks hv
  | element hBlanks hv _ _ => exact hOther hBlanks hv

/-- The members of an object do not start where the object ends. -/
theorem Reads.not_members {ms : List (Text × Value)} {u : Text} (h : Blanks s ('\x7d' :: t)) :
    ¬Reads s (.members ms) u := by
  intro hMembers
  cases hMembers with
  | lastMember hName _ _ _ => exact hName.not_end h
  | member hName _ _ _ _ => exact hName.not_end h

/-- The same blanks are in front of a value, however it is read. -/
theorem Reads.start_unique {v v' : Value} {u u' : Text} (hBlanks : Blanks s t)
    (h : Reads t (.value v) u) (hBlanks' : Blanks s t') (h' : Reads t' (.value v') u') :
    t' = t := by
  obtain ⟨c, rest, rfl, hc, -⟩ := h.head
  obtain ⟨c', rest', rfl, hc', -⟩ := h'.head
  obtain ⟨rfl, rfl⟩ := hBlanks.unique hBlanks' hc hc'
  rfl

/-- **What a rule reads, no other rule reads otherwise.**  The induction is on the rules; what they
read first decides which of them can have read the same text. -/
theorem Reads.isOnly {p : Part} (h : Reads s p t) : p.IsOnly s t := by
  induction h with
  | nullWord =>
    intro v' t' h'
    cases h' with
    | nullWord => exact ⟨rfl, rfl⟩
    | number hNumber => exact absurd hNumber (Numeric.not_cons (by decide) (by decide))
  | trueWord =>
    intro v' t' h'
    cases h' with
    | trueWord => exact ⟨rfl, rfl⟩
    | number hNumber => exact absurd hNumber (Numeric.not_cons (by decide) (by decide))
  | falseWord =>
    intro v' t' h'
    cases h' with
    | falseWord => exact ⟨rfl, rfl⟩
    | number hNumber => exact absurd hNumber (Numeric.not_cons (by decide) (by decide))
  | number hNumber =>
    intro v' t' h'
    cases h' with
    | number hNumber' =>
      obtain ⟨rfl, rfl, rfl⟩ := hNumber.unique hNumber'
      exact ⟨rfl, rfl⟩
    | _ => exact absurd hNumber (Numeric.not_cons (by decide) (by decide))
  | string hBody =>
    intro v' t' h'
    cases h' with
    | string hBody' =>
      obtain ⟨rfl, rfl⟩ := hBody.unique hBody'
      exact ⟨rfl, rfl⟩
    | number hNumber => exact absurd hNumber (Numeric.not_cons (by decide) (by decide))
  | noElements hClose =>
    intro v' t' h'
    cases h' with
    | noElements hClose' => exact ⟨rfl, (hClose.unique hClose' (by decide) (by decide)).2⟩
    | list hElements => exact absurd hElements (Reads.not_elements hClose)
    | number hNumber => exact absurd hNumber (Numeric.not_cons (by decide) (by decide))
  | list hElements ih =>
    intro v' t' h'
    cases h' with
    | noElements hClose => exact absurd hElements (Reads.not_elements hClose)
    | list hElements' =>
      obtain ⟨rfl, rfl⟩ := ih _ _ hElements'
      exact ⟨rfl, rfl⟩
    | number hNumber => exact absurd hNumber (Numeric.not_cons (by decide) (by decide))
  | noMembers hClose =>
    intro v' t' h'
    cases h' with
    | noMembers hClose' => exact ⟨rfl, (hClose.unique hClose' (by decide) (by decide)).2⟩
    | object hMembers => exact absurd hMembers (Reads.not_members hClose)
    | number hNumber => exact absurd hNumber (Numeric.not_cons (by decide) (by decide))
  | object hMembers ih =>
    intro v' t' h'
    cases h' with
    | noMembers hClose => exact absurd hMembers (Reads.not_members hClose)
    | object hMembers' =>
      obtain ⟨rfl, rfl⟩ := ih _ _ hMembers'
      exact ⟨rfl, rfl⟩
    | number hNumber => exact absurd hNumber (Numeric.not_cons (by decide) (by decide))
  | lastElement hBlanks hv hEnd ihv =>
    intro vs' t' h'
    cases h' with
    | lastElement hBlanks' hv' hEnd' =>
      obtain rfl := hv.start_unique hBlanks hBlanks' hv'
      obtain ⟨rfl, rfl⟩ := ihv _ _ hv'
      exact ⟨rfl, (hEnd.unique hEnd' (by decide) (by decide)).2⟩
    | element hBlanks' hv' hComma' _ =>
      obtain rfl := hv.start_unique hBlanks hBlanks' hv'
      obtain ⟨-, rfl⟩ := ihv _ _ hv'
      exact (hEnd.not_both hComma' (by decide) (by decide) (by decide)).elim
  | element hBlanks hv hComma _ ihv ih =>
    intro vs' t' h'
    cases h' with
    | lastElement hBlanks' hv' hEnd' =>
      obtain rfl := hv.start_unique hBlanks hBlanks' hv'
      obtain ⟨-, rfl⟩ := ihv _ _ hv'
      exact (hComma.not_both hEnd' (by decide) (by decide) (by decide)).elim
    | element hBlanks' hv' hComma' hMore' =>
      obtain rfl := hv.start_unique hBlanks hBlanks' hv'
      obtain ⟨rfl, rfl⟩ := ihv _ _ hv'
      obtain ⟨-, rfl⟩ := hComma.unique hComma' (by decide) (by decide)
      obtain ⟨rfl, rfl⟩ := ih _ _ hMore'
      exact ⟨rfl, rfl⟩
  | lastMember hName hBlanks hv hEnd ihv =>
    intro ms' t' h'
    cases h' with
    | lastMember hName' hBlanks' hv' hEnd' =>
      obtain ⟨rfl, rfl⟩ := hName.unique hName'
      obtain rfl := hv.start_unique hBlanks hBlanks' hv'
      obtain ⟨rfl, rfl⟩ := ihv _ _ hv'
      exact ⟨rfl, (hEnd.unique hEnd' (by decide) (by decide)).2⟩
    | member hName' hBlanks' hv' hComma' _ =>
      obtain ⟨-, rfl⟩ := hName.unique hName'
      obtain rfl := hv.start_unique hBlanks hBlanks' hv'
      obtain ⟨-, rfl⟩ := ihv _ _ hv'
      exact (hEnd.not_both hComma' (by decide) (by decide) (by decide)).elim
  | member hName hBlanks hv hComma _ ihv ih =>
    intro ms' t' h'
    cases h' with
    | lastMember hName' hBlanks' hv' hEnd' =>
      obtain ⟨-, rfl⟩ := hName.unique hName'
      obtain rfl := hv.start_unique hBlanks hBlanks' hv'
      obtain ⟨-, rfl⟩ := ihv _ _ hv'
      exact (hComma.not_both hEnd' (by decide) (by decide) (by decide)).elim
    | member hName' hBlanks' hv' hComma' hMore' =>
      obtain ⟨rfl, rfl⟩ := hName.unique hName'
      obtain rfl := hv.start_unique hBlanks hBlanks' hv'
      obtain ⟨rfl, rfl⟩ := ihv _ _ hv'
      obtain ⟨-, rfl⟩ := hComma.unique hComma' (by decide) (by decide)
      obtain ⟨rfl, rfl⟩ := ih _ _ hMore'
      exact ⟨rfl, rfl⟩

/-- **A text stands for one value at most.** -/
theorem IsTextOf.unique {v v' : Value} (h : IsTextOf s v) (h' : IsTextOf s v') : v' = v := by
  obtain ⟨u, t, hFront, hValue, -⟩ := h
  obtain ⟨u', t', hFront', hValue', -⟩ := h'
  obtain rfl := hValue.start_unique hFront hFront' hValue'
  exact (hValue.isOnly _ _ hValue').1

/-! ## Writing -/

/-- `IsWritten w v`: wherever it may end, the text `w` is read as the value `v`. -/
def IsWritten (w : Text) (v : Value) : Prop :=
  ∀ t, Ends t → Reads (w ++ t) (.value v) t

theorem IsWritten.isTextOf {v : Value} (h : IsWritten w v) : IsTextOf w v := by
  have hReads := h [] nofun
  rw [List.append_nil] at hReads
  exact ⟨w, [], .none, hReads, .none⟩

/-- What is written has one meaning. -/
theorem IsWritten.isTextOf_iff {v v' : Value} (h : IsWritten w v) : IsTextOf w v' ↔ v' = v :=
  ⟨h.isTextOf.unique, fun hSame => hSame ▸ h.isTextOf⟩

theorem isWritten_quote (content : Text) : IsWritten (quote content) (.string content) := by
  intro t _
  have hQuote : quote content ++ t = '"' :: (content.flatMap escape ++ '"' :: t) := by
    simp [quote]
  rw [hQuote]
  exact .string (body_escape content t)

/-- The name of a member is written as it should be. -/
theorem named_quote (name t : Text) : Named (quote name ++ ':' :: t) name t := by
  have hQuote : quote name ++ ':' :: t = '"' :: (name.flatMap escape ++ '"' :: ':' :: t) := by
    simp [quote]
  rw [hQuote]
  exact .name .none (body_escape name _) .none

/-- A member of an object whose value is written as it should be. -/
structure WrittenMember where
  /-- Its name. -/
  name : Text
  /-- The text of its value. -/
  text : Text
  /-- Its value. -/
  value : Value
  /-- The text is how the value is written. -/
  isWritten : IsWritten text value

theorem ends_cons (hc : c ∈ closers) : Ends (c :: t) := by
  intro d hd
  cases hd
  exact hc

/-- The members of an object are written as they should be. -/
theorem reads_members (m : WrittenMember) (ms : List WrittenMember) (t : Text) :
    Reads (members ((m :: ms).map fun m => (m.name, m.text)) ++ '\x7d' :: t)
      (.members ((m :: ms).map fun m => (m.name, m.value))) t := by
  induction ms generalizing m with
  | nil =>
    have hValue := m.isWritten ('\x7d' :: t) (ends_cons (by decide))
    simp only [List.map_cons, List.map_nil, members, member, List.append_assoc, List.cons_append]
    exact .lastMember (named_quote _ _) .none hValue .none
  | cons m' ms ih =>
    have hMore := ih m'
    have hValue := m.isWritten
      (',' :: (members ((m' :: ms).map fun m => (m.name, m.text)) ++ '\x7d' :: t))
      (ends_cons (by decide))
    simp only [List.map_cons, members, member, List.append_assoc, List.cons_append]
      at hMore hValue ⊢
    exact .member (named_quote _ _) .none hValue .none hMore

/-- **An object is written as it should be.** -/
theorem isWritten_object (ms : List WrittenMember) :
    IsWritten (object (ms.map fun m => (m.name, m.text)))
      (.object (ms.map fun m => (m.name, m.value))) := by
  intro t _
  cases ms with
  | nil => exact .noMembers .none
  | cons m ms =>
    have hMembers := reads_members m ms t
    rw [object, List.cons_append, List.append_assoc]
    exact .object hMembers

/-- No control character stands in the members of an object if none stands in their values. -/
theorem members_clear {ms : List (Text × Text)}
    (h : ∀ m ∈ ms, ∀ d ∈ m.2, 0x20 ≤ d.toNat) {d : Char} (hd : d ∈ members ms) :
    0x20 ≤ d.toNat := by
  induction ms with
  | nil => cases hd
  | cons m ms ih =>
    have hMember {d : Char} (hd : d ∈ member m.1 m.2) : 0x20 ≤ d.toNat := by
      rw [member, List.mem_append, List.mem_cons] at hd
      obtain hName | rfl | hValue := hd
      · exact quote_clear hName
      · decide
      · exact h m List.mem_cons_self d hValue
    have hMore := ih fun n hn => h n (List.mem_cons_of_mem m hn)
    cases ms with
    | nil => exact hMember hd
    | cons m' ms =>
      rw [members, List.mem_append, List.mem_cons] at hd
      obtain hFirst | rfl | hRest := hd
      · exact hMember hFirst
      · decide
      · exact hMore hRest
      · simp

/-- **An object stays on its line** if its values do. -/
theorem object_clear {ms : List (Text × Text)} (h : ∀ m ∈ ms, ∀ d ∈ m.2, 0x20 ≤ d.toNat)
    {d : Char} (hd : d ∈ object ms) : 0x20 ≤ d.toNat := by
  rw [object, List.mem_cons, List.mem_append, List.mem_singleton] at hd
  obtain rfl | hMembers | rfl := hd
  · decide
  · exact members_clear h hMembers
  · decide

end PathRegistry.Json
