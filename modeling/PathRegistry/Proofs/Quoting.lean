import PathRegistry.Json.Unfit

/-!
# Strings between quotes

`Json.Body` is what JSON says about the inside of a string: most characters stand for themselves,
and a backslash starts an escape, of which there are eight short ones and one with the four digits
of a code unit.  A character beyond the first plane takes two units, a surrogate pair; no other
surrogate has a meaning.

Reading is a function, so what stands inside a string and where the string ends are no matter of
choice.  Writing is one of the ways to write a text down, and one that stays on a line.

## Main statements

* `Json.readString_of_body` — what is written reads back.
* `Json.Body.unique` — the inside of a string means one text and ends at one place.
* `Json.body_escape` — the writer writes what it should.
* `Json.quote_clear` — it writes no line end, nor any other control character.
-/

namespace PathRegistry.Json

/-- The escapes of two characters, each by the character behind the backslash and the one that it
stands for. -/
def twoCharacterEscapes : List (Char × Char) :=
  [('"', '"'), ('\\', '\\'), ('/', '/'), ('b', '\x08'), ('f', '\x0c'), ('n', '\n'), ('r', '\r'),
    ('t', '\t')]

/-- `Quad s n t`: four hexadecimal digits of the number `n` start `s`, and `t` follows. -/
inductive Quad : Text → Nat → Text → Prop where
  | digits {a b c d : Char} {w x y z : Nat} {t : Text} :
    Hex.value? a = some w → Hex.value? b = some x → Hex.value? c = some y →
      Hex.value? d = some z → Quad (a :: b :: c :: d :: t) (w * 4096 + x * 256 + y * 16 + z) t

/-- `Spells s c t`: one way to write the character `c` inside a string starts `s`, and `t`
follows. -/
inductive Spells : Text → Char → Text → Prop where
  | plain {c : Char} {t : Text} : 0x20 ≤ c.toNat → c ≠ '"' → c ≠ '\\' → Spells (c :: t) c t
  | short {e c : Char} {t : Text} : (e, c) ∈ twoCharacterEscapes → Spells ('\\' :: e :: t) c t
  | unit {s t : Text} {n : Nat} : Quad s n t → ¬(0xD800 ≤ n ∧ n ≤ 0xDFFF) →
      Spells ('\\' :: 'u' :: s) (Char.ofNat n) t
  /-- A leading surrogate and a trailing one. -/
  | pair {s t u : Text} {n m : Nat} : Quad s n ('\\' :: 'u' :: t) → Quad t m u →
      0xD800 ≤ n ∧ n ≤ 0xDBFF → 0xDC00 ≤ m ∧ m ≤ 0xDFFF →
        Spells ('\\' :: 'u' :: s) (Char.ofNat (0x10000 + (n - 0xD800) * 1024 + (m - 0xDC00))) u

/-- `Body s content t`: the inside of a string with that content and the closing quote start `s`,
and `t` follows. -/
inductive Body : Text → Text → Text → Prop where
  | closed {t : Text} : Body ('"' :: t) [] t
  | cons {s u t content : Text} {c : Char} :
      Spells s c u → Body u content t → Body s (c :: content) t

variable {s t u content : Text} {c : Char} {n : Nat}

/-! ## Reading -/

theorem readQuad_of_quad (h : Quad s n t) : ∃ r, readQuad s = .ok (n, r) ∧ r.rest = t := by
  cases h with
  | digits ha hb hc hd =>
    exact ⟨⟨t, length_lt_cons_four⟩, by simp only [readQuad, ha, hb, hc, hd], rfl⟩

/-- The reader knows the short escapes. -/
theorem unescape?_of_mem {e : Char} (h : (e, c) ∈ twoCharacterEscapes) : unescape? e = some c := by
  have hAll : ∀ p ∈ twoCharacterEscapes, unescape? p.1 = some p.2 := by decide
  exact hAll (e, c) h

theorem isTrailingSurrogate_iff : isTrailingSurrogate n = true ↔ 0xDC00 ≤ n ∧ n ≤ 0xDFFF := by
  simp [isTrailingSurrogate]

theorem isLeadingSurrogate_iff : isLeadingSurrogate n = true ↔ 0xD800 ≤ n ∧ n ≤ 0xDBFF := by
  simp [isLeadingSurrogate]

/-- One unit is read that is no surrogate. -/
theorem readUnicode_of_quad (h : Quad s n t) (hNot : ¬(0xD800 ≤ n ∧ n ≤ 0xDFFF)) :
    ∃ r, readUnicode s = .ok (Char.ofNat n, r) ∧ r.rest = t := by
  obtain ⟨r, hRead, hRest⟩ := readQuad_of_quad h
  have hTrailing : ¬isTrailingSurrogate n = true := by
    rw [isTrailingSurrogate_iff]
    omega
  have hLeading : ¬isLeadingSurrogate n = true := by
    rw [isLeadingSurrogate_iff]
    omega
  exact ⟨r, by simp only [readUnicode, hRead, if_neg hTrailing, if_neg hLeading], hRest⟩

/-- A surrogate pair is read as one character. -/
theorem readUnicode_of_pair {m : Nat} (hFirst : Quad s n ('\\' :: 'u' :: t)) (hSecond : Quad t m u)
    (hLeading : 0xD800 ≤ n ∧ n ≤ 0xDBFF) (hTrailing : 0xDC00 ≤ m ∧ m ≤ 0xDFFF) :
    ∃ r, readUnicode s = .ok (Char.ofNat (0x10000 + (n - 0xD800) * 1024 + (m - 0xDC00)), r) ∧
      r.rest = u := by
  obtain ⟨⟨rest, hShorter⟩, hRead, rfl⟩ := readQuad_of_quad hFirst
  obtain ⟨r', hRead', hRest'⟩ := readQuad_of_quad hSecond
  have hNot : ¬isTrailingSurrogate n = true := by
    rw [isTrailingSurrogate_iff]
    omega
  have hPair : readTrailing ('\\' :: 'u' :: t) = .ok (m, (r'.behind 'u').behind '\\') := by
    simp only [readTrailing, hRead', if_pos (isTrailingSurrogate_iff.mpr hTrailing)]
  refine ⟨Shorter.andThen ⟨_, hShorter⟩ ((r'.behind 'u').behind '\\'), ?_, hRest'⟩
  simp only [readUnicode, hRead, if_neg hNot, if_pos (isLeadingSurrogate_iff.mpr hLeading), hPair]

/-- What is read behind `\u` is the character of the escape. -/
theorem readUnit_of_readUnicode (h : ∃ r, readUnicode s = .ok (c, r) ∧ r.rest = t) :
    ∃ r, readUnit ('\\' :: 'u' :: s) = .ok (some c, r) ∧ r.rest = t := by
  obtain ⟨r, hRead, hRest⟩ := h
  refine ⟨(r.behind 'u').behind '\\', ?_, hRest⟩
  have hNone : unescape? 'u' = none := by decide
  rw [readUnit.eq_def]
  simp [hNone, hRead]

/-- One character is read, however it is written. -/
theorem readUnit_of_spells (h : Spells s c t) :
    ∃ r, readUnit s = .ok (some c, r) ∧ r.rest = t := by
  cases h with
  | plain hPrintable hQuote hBackslash =>
    have hNot : ¬c.toNat < 32 := by omega
    refine ⟨.tail c t, ?_, rfl⟩
    rw [readUnit.eq_def]
    simp only [if_neg hQuote, if_neg hBackslash, if_neg hNot]
  | short hMem =>
    rename_i e
    refine ⟨(Shorter.tail e t).behind '\\', ?_, rfl⟩
    rw [readUnit.eq_def]
    simp [unescape?_of_mem hMem]
  | unit hQuad hNot => exact readUnit_of_readUnicode (readUnicode_of_quad hQuad hNot)
  | pair hFirst hSecond hLeading hTrailing =>
    exact readUnit_of_readUnicode (readUnicode_of_pair hFirst hSecond hLeading hTrailing)

/-- **What is written reads back**, and reading stops at the closing quote. -/
theorem readString_of_body (h : Body s content t) :
    ∃ r, readString s = .ok (content, r) ∧ r.rest = t := by
  induction h with
  | closed =>
    rename_i t
    refine ⟨.tail '"' t, ?_, rfl⟩
    rw [readString.eq_def]
    rfl
  | cons hUnit _ ih =>
    obtain ⟨⟨rest, hShorter⟩, hRead, rfl⟩ := readUnit_of_spells hUnit
    obtain ⟨r', hRead', hRest'⟩ := ih
    refine ⟨Shorter.andThen ⟨rest, hShorter⟩ r', ?_, hRest'⟩
    rw [readString.eq_def]
    simp only [hRead, hRead']

/-- **A string means one text and ends at one place.** -/
theorem Body.unique {content' t' : Text} (h : Body s content t) (h' : Body s content' t') :
    content' = content ∧ t' = t := by
  obtain ⟨r, hRead, rfl⟩ := readString_of_body h
  obtain ⟨r', hRead', rfl⟩ := readString_of_body h'
  rw [hRead] at hRead'
  cases hRead'
  exact ⟨rfl, rfl⟩

/-! ## Writing -/

/-- The writer uses escapes that there are. -/
theorem mem_twoCharacterEscapes {e : Char} (h : shortEscapes.lookup c = some e) :
    (e, c) ∈ twoCharacterEscapes := by
  have hAll : ∀ p ∈ shortEscapes, (p.2, p.1) ∈ twoCharacterEscapes := by decide
  obtain ⟨before, after, hSplit, -⟩ := List.lookup_eq_some_iff.mp h
  exact hAll (c, e) (by simp [hSplit])

/-- The writer writes a character as it should be written. -/
theorem spells_escape (c : Char) (t : Text) : Spells (escape c ++ t) c t := by
  unfold escape
  split
  · rename_i e hShort
    exact .short (mem_twoCharacterEscapes hShort)
  · rename_i hNone
    split
    · rename_i hControl
      have hZero : Hex.value? '0' = some 0 := by decide
      have hHigh := Hex.value?_digit (n := c.toNat / 16) (by omega)
      have hLow := Hex.value?_digit (n := c.toNat % 16) (by omega)
      have hUnit := Spells.unit (.digits (t := t) hZero hZero hHigh hLow) (by omega)
      rwa [show 0 * 4096 + 0 * 256 + c.toNat / 16 * 16 + c.toNat % 16 = c.toNat by omega,
        Char.ofNat_toNat] at hUnit
    · have hOther {d : Char} (hd : (shortEscapes.lookup d).isSome) : c ≠ d := by
        rintro rfl
        rw [hNone] at hd
        cases hd
      exact .plain (by omega) (hOther (by decide)) (hOther (by decide))

/-- **The writer writes a text as it should be written.** -/
theorem body_escape (content t : Text) : Body (content.flatMap escape ++ '"' :: t) content t := by
  induction content with
  | nil => exact .closed
  | cons c content ih =>
    rw [List.flatMap_cons, List.append_assoc]
    exact .cons (spells_escape c _) ih

/-- What the writer writes reads back, whatever follows. -/
theorem readText_quote (wanted : String) (content t : Text) :
    ∃ r, readText wanted (quote content ++ t) = .ok (content, r) ∧ r.rest = t := by
  have hBody := body_escape content t
  have hQuote : quote content ++ t = '"' :: (content.flatMap escape ++ '"' :: t) := by
    simp [quote]
  rw [hQuote]
  obtain ⟨r, hRead, hRest⟩ := readString_of_body hBody
  unfold readText
  split
  · rename_i h
    cases h
  · rename_i c rest h
    cases h
    simp only [if_true, hRead]
    exact ⟨_, rfl, hRest⟩

/-- Nothing that the writer writes for a character is a control character. -/
theorem escape_clear {d : Char} (h : d ∈ escape c) : 0x20 ≤ d.toNat := by
  unfold escape at h
  split at h
  · rename_i e hShort
    have hAll : ∀ p ∈ twoCharacterEscapes, 0x20 ≤ p.1.toNat := by decide
    obtain rfl | rfl : d = '\\' ∨ d = e := by simpa using h
    · decide
    · exact hAll (d, c) (mem_twoCharacterEscapes hShort)
  · split at h
    · have hDigit : ∀ n : Fin 16, 0x20 ≤ (Hex.digit n.val).toNat := by decide
      have hHigh := hDigit ⟨c.toNat / 16, by omega⟩
      have hLow := hDigit ⟨c.toNat % 16, by omega⟩
      simp only [List.mem_cons, List.not_mem_nil, or_false] at h
      obtain rfl | rfl | rfl | rfl | rfl | rfl := h
      · decide
      · decide
      · decide
      · decide
      · exact hHigh
      · exact hLow
    · obtain rfl : d = c := by simpa using h
      omega

/-- **No control character stands in what is written**, so a text stays on its line. -/
theorem quote_clear {d : Char} (h : d ∈ quote content) : 0x20 ≤ d.toNat := by
  simp only [quote, List.mem_cons, List.mem_append, List.mem_flatMap, List.not_mem_nil,
    or_false] at h
  obtain rfl | ⟨c, -, hd⟩ | rfl := h
  · decide
  · exact escape_clear hd
  · decide

end PathRegistry.Json
