import Mathlib.Data.List.Basic
import PathRegistry.CommandLine
import PathRegistry.Identifier.Document
import PathRegistry.Proofs.Hexadecimal
import PathRegistry.Proofs.Quoting

/-!
# Which texts are identifiers

An identifier is written with 32 hexadecimal digits, which stand either side by side or in five
groups with a hyphen between them.  These are all the texts that are read, and letter case is all
that reading loses: the identifier is printed with the same digits in lowercase, in groups.

What keeps the other forms of documents out is the length.  It is counted in octets, so there are
texts of the right length that have fewer characters, but none of them is a form at all: every form
has one octet for each character, and the wrapped ones have more than 36.

## Main statements

* `Identifier.ofPlain?_eq_some`, `Identifier.ofGrouped?_eq_some` — the two layouts.
* `Identifier.ofDocumentText?_of_length` — wrapped groups are longer.
* `Identifier.ofText?_eq_some` — a text is read as the identifier whose digits it has.
* `Identifier.reading_exact` — which texts are read, as what, and that every form reads back.
-/

namespace PathRegistry

namespace Identifier

variable {t ds : Text} {i j : Identifier}

/-! ## Digits side by side -/

theorem length_plain (i : Identifier) : i.plain.length = 32 := by
  rw [plain, Hex.length_encode, i.length_octets]

/-- **Digits are read as the identifier that has them**, in lowercase. -/
theorem ofPlain?_eq_some : ofPlain? t = some i ↔ t.map Char.toLower = i.plain := by
  rw [ofPlain?, plain, ← Hex.decode?_eq_some, Option.bind_eq_some_iff]
  constructor
  · rintro ⟨octets, hRead, hSome⟩
    rw [ofOctets?] at hSome
    split at hSome
    · cases hSome
      exact hRead
    · cases hSome
  · exact fun h => ⟨i.octets, h, by rw [ofOctets?, dif_pos i.length_octets]⟩

/-- An identifier has 32 digits, in either letter case. -/
theorem length_of_digits (h : ds.map Char.toLower = i.plain) : ds.length = 32 := by
  rw [← length_plain i, ← h, List.length_map]

theorem ofPlain?_plain (i : Identifier) : ofPlain? i.plain = some i := by
  rw [ofPlain?, plain, Hex.decode?_encode, Option.bind_some, ofOctets?, dif_pos i.length_octets]

/-- Which texts are the digits of an identifier. -/
theorem exists_ofPlain? :
    (∃ i, ofPlain? t = some i) ↔ t.length = 32 ∧ ∀ c ∈ t, c ∈ Hex.digits := by
  constructor
  · rintro ⟨i, h⟩
    have hText := ofPlain?_eq_some.mp h
    have hLength := congrArg List.length hText
    rw [List.length_map, length_plain] at hLength
    exact ⟨hLength, (Hex.exists_decode?.mp ⟨_, Hex.decode?_eq_some.mpr hText⟩).2⟩
  · rintro ⟨hLength, hDigits⟩
    obtain ⟨octets, hRead⟩ := Hex.exists_decode?.mpr ⟨by omega, hDigits⟩
    have hText := Hex.decode?_eq_some.mp hRead
    have hOctets := congrArg List.length hText
    rw [List.length_map, Hex.length_encode] at hOctets
    exact ⟨⟨octets, by omega⟩, ofPlain?_eq_some.mpr hText⟩

/-! ## Digits in groups -/

section Layout

variable {a b c d : Text}

theorem group_append (ha : a.length = 8) (hb : b.length = 4) (hc : c.length = 4)
    (hd : d.length = 4) (e : Text) : group (a ++ (b ++ (c ++ (d ++ e)))) =
      a ++ '-' :: (b ++ '-' :: (c ++ '-' :: (d ++ '-' :: e))) := by
  simp [group, List.drop_append, List.drop_of_length_le, ha, hb, hc, hd]

theorem ungroup?_append (ha : a.length = 8) (hb : b.length = 4) (hc : c.length = 4)
    (hd : d.length = 4) (e : Text) :
    ungroup? (a ++ '-' :: (b ++ '-' :: (c ++ '-' :: (d ++ '-' :: e)))) =
      some (a ++ (b ++ (c ++ (d ++ e)))) := by
  simp [ungroup?, List.drop_append, List.drop_of_length_le,
    List.getElem?_append, ha, hb, hc, hd]

end Layout

/-- What follows some characters starts with the next few. -/
theorem take_drop_append (t : Text) (m n : Nat) :
    (t.drop m).take n ++ t.drop (m + n) = t.drop m := by
  rw [← List.drop_drop, List.take_append_drop]

theorem drop_of_getElem? {c : Char} {n : Nat} (h : t[n]? = some c) :
    t.drop n = c :: t.drop (n + 1) := by
  obtain ⟨hn, rfl⟩ := List.getElem?_eq_some_iff.mp h
  exact List.drop_eq_getElem_cons hn

/-- Any text of some length falls into groups. -/
theorem exists_append (h : 20 ≤ t.length) : ∃ a b c d e : Text, a.length = 8 ∧ b.length = 4 ∧
    c.length = 4 ∧ d.length = 4 ∧ t = a ++ (b ++ (c ++ (d ++ e))) := by
  refine ⟨t.take 8, (t.drop 8).take 4, (t.drop 12).take 4, (t.drop 16).take 4, t.drop 20,
    ?_, ?_, ?_, ?_, ?_⟩
  · rw [List.length_take]
    omega
  · rw [List.length_take, List.length_drop]
    omega
  · rw [List.length_take, List.length_drop]
    omega
  · rw [List.length_take, List.length_drop]
    omega
  · rw [take_drop_append, take_drop_append, take_drop_append, List.take_append_drop]

theorem map_group {f : Char → Char} (h : f '-' = '-') (ds : Text) :
    (group ds).map f = group (ds.map f) := by
  simp [group, h, List.map_take, List.map_drop]

theorem ungroup?_group (h : 20 ≤ ds.length) : ungroup? (group ds) = some ds := by
  obtain ⟨a, b, c, d, e, ha, hb, hc, hd, rfl⟩ := exists_append h
  rw [group_append ha hb hc hd, ungroup?_append ha hb hc hd]

theorem length_group (h : 20 ≤ ds.length) : (group ds).length = ds.length + 4 := by
  simp only [group, List.length_append, List.length_cons, List.length_take, List.length_drop]
  omega

theorem mem_group {c : Char} (h : c ∈ group ds) : c = '-' ∨ c ∈ ds := by
  have hPart {m n : Nat} (hc : c ∈ (ds.drop m).take n) : c ∈ ds :=
    List.mem_of_mem_drop (List.mem_of_mem_take hc)
  simp only [group, List.mem_append, List.mem_cons] at h
  obtain h | h | h | h | h | h | h | h | h := h
  · exact .inr (List.mem_of_mem_take h)
  · exact .inl h
  · exact .inr (hPart h)
  · exact .inl h
  · exact .inr (hPart h)
  · exact .inl h
  · exact .inr (hPart h)
  · exact .inl h
  · exact .inr (List.mem_of_mem_drop h)

/-- What is taken out of groups was in groups. -/
theorem group_of_ungroup? (h : ungroup? t = some ds) : t = group ds := by
  rw [ungroup?] at h
  split at h
  · rename_i hHyphens
    obtain ⟨h₈, h₁₃, h₁₈, h₂₃⟩ := hHyphens
    have hLong := (List.getElem?_eq_some_iff.mp h₂₃).1
    cases h
    have hFour {m : Nat} (hm : m + 4 ≤ t.length) : ((t.drop m).take 4).length = 4 := by
      rw [List.length_take, List.length_drop]
      omega
    have hEight : (t.take 8).length = 8 := by
      rw [List.length_take]
      omega
    rw [group_append hEight (hFour (by omega)) (hFour (by omega)) (hFour (by omega)),
      ← drop_of_getElem? h₂₃, take_drop_append, ← drop_of_getElem? h₁₈, take_drop_append,
      ← drop_of_getElem? h₁₃, take_drop_append, ← drop_of_getElem? h₈, List.take_append_drop]
  · cases h

/-- **Digits in groups are read as the identifier that has them.** -/
theorem ofGrouped?_eq_some :
    ofGrouped? t = some i ↔ ∃ ds, t = group ds ∧ ds.map Char.toLower = i.plain := by
  rw [ofGrouped?, Option.bind_eq_some_iff]
  constructor
  · rintro ⟨ds, hGroup, hRead⟩
    exact ⟨ds, group_of_ungroup? hGroup, ofPlain?_eq_some.mp hRead⟩
  · rintro ⟨ds, rfl, hDigits⟩
    exact ⟨ds, ungroup?_group (by rw [length_of_digits hDigits]; omega),
      ofPlain?_eq_some.mpr hDigits⟩

theorem length_of_ofGrouped? (h : ofGrouped? t = some i) : t.length = 36 := by
  obtain ⟨ds, rfl, hDigits⟩ := ofGrouped?_eq_some.mp h
  rw [length_group (by rw [length_of_digits hDigits]; omega), length_of_digits hDigits]

/-! ## Wrapped groups -/

theorem length_of_unbrace? {s : Text} (h : unbrace? t = some s) : t.length = s.length + 2 := by
  unfold unbrace? at h
  split at h
  · rename_i rest
    split at h
    · rename_i hClosed
      obtain ⟨inside, rfl⟩ := List.getLast?_eq_some_iff.mp hClosed
      cases h
      simp
    · cases h
  · cases h

theorem length_of_afterUrn? {s : Text} (h : afterUrn? t = some s) : t.length = s.length + 9 := by
  unfold afterUrn? at h
  split at h
  · rename_i hUrn
    have hLength := congrArg List.length hUrn
    simp only [List.length_map, List.length_take, List.length_cons, List.length_nil] at hLength
    cases h
    rw [List.length_drop]
    omega
  · cases h

/-- **A short text is read without wrapping**: braces or `urn:uuid:` around groups make it longer
than the groups alone. -/
theorem ofDocumentText?_of_length (h : t.length ≤ 36) :
    ofDocumentText? t = (ofPlain? t).or (ofGrouped? t) := by
  have hWrapped {unwrap : Option Text}
      (hLonger : ∀ s, unwrap = some s → s.length < t.length) : unwrap.bind ofGrouped? = none := by
    refine Option.bind_eq_none_iff.mpr fun s hs => Option.eq_none_iff_forall_ne_some.mpr ?_
    intro j hj
    have hShorter := hLonger s hs
    rw [length_of_ofGrouped? hj] at hShorter
    omega
  have hBraces : (unbrace? t).bind ofGrouped? = none :=
    hWrapped fun s hs => by rw [length_of_unbrace? hs]; omega
  have hUrn : (afterUrn? t).bind ofGrouped? = none :=
    hWrapped fun s hs => by rw [length_of_afterUrn? hs]; omega
  rw [ofDocumentText?, hBraces, hUrn, Option.or_none, Option.or_none]

/-! ## Both layouts -/

/-- A hyphen is no digit. -/
theorem ofPlain?_group (ds : Text) : ofPlain? (group ds) = none := by
  refine Option.eq_none_iff_forall_ne_some.mpr fun i h => ?_
  have hDigits := (exists_ofPlain?.mp ⟨i, h⟩).2 '-' (by simp [group])
  exact absurd hDigits (by decide)

/-- Either layout of an identifier has digits and hyphens. -/
theorem mem_of_mem_layout (hDigits : ds.map Char.toLower = i.plain) {c : Char}
    (hc : c ∈ ds ∨ c ∈ group ds) : c ∈ '-' :: Hex.digits := by
  have hDigit {d : Char} (hd : d ∈ ds) : d ∈ '-' :: Hex.digits :=
    List.mem_cons_of_mem _ ((exists_ofPlain?.mp ⟨i, ofPlain?_eq_some.mpr hDigits⟩).2 d hd)
  obtain hc | hc := hc
  · exact hDigit hc
  · obtain rfl | hc := mem_group hc
    · exact List.mem_cons_self
    · exact hDigit hc

/-- Either layout has one octet for each character. -/
theorem utf8Length_of_layout (hDigits : ds.map Char.toLower = i.plain)
    (hLayout : t = ds ∨ t = group ds) : t.utf8Length = t.length := by
  have hAll : (('-' :: Hex.digits).all fun c => c.utf8Size == 1) = true := by decide
  have hOctet {c : Char} (hc : c ∈ ds ∨ c ∈ group ds) : c.utf8Size = 1 :=
    beq_iff_eq.mp (List.all_eq_true.mp hAll c (mem_of_mem_layout hDigits hc))
  obtain rfl | rfl := hLayout
  · exact Text.utf8Length_of_ascii fun c hc => hOctet (.inl hc)
  · exact Text.utf8Length_of_ascii fun c hc => hOctet (.inr hc)

/-- **A text is read as the identifier whose digits it has.** -/
theorem ofText?_eq_some : ofText? t = some i ↔
    ∃ ds, (t = ds ∨ t = group ds) ∧ ds.map Char.toLower = i.plain := by
  constructor
  · intro h
    rw [ofText?] at h
    split at h
    · rename_i hOctets
      have hShort : t.length ≤ 36 := by
        have hAtMost := Text.length_le_utf8Length t
        omega
      rw [ofDocumentText?_of_length hShort, Option.or_eq_some_iff] at h
      obtain h | ⟨-, h⟩ := h
      · exact ⟨t, .inl rfl, ofPlain?_eq_some.mp h⟩
      · obtain ⟨ds, hGroup, hDigits⟩ := ofGrouped?_eq_some.mp h
        exact ⟨ds, .inr hGroup, hDigits⟩
    · cases h
  · rintro ⟨ds, hLayout, hDigits⟩
    have hLength := length_of_digits hDigits
    have hOctets := utf8Length_of_layout hDigits hLayout
    obtain rfl | rfl := hLayout
    · rw [ofText?, hOctets, hLength, if_pos (.inl rfl), ofDocumentText?,
        ofPlain?_eq_some.mpr hDigits, Option.some_or]
    · have hGroup : ofGrouped? (group ds) = some i := ofGrouped?_eq_some.mpr ⟨ds, rfl, hDigits⟩
      rw [ofText?, hOctets, length_of_ofGrouped? hGroup, if_pos (.inr rfl), ofDocumentText?,
        ofPlain?_group, hGroup, Option.none_or, Option.some_or]

theorem ofText?_text (i : Identifier) : ofText? i.text = some i :=
  ofText?_eq_some.mpr ⟨i.plain, .inr rfl, ofPlain?_eq_some.mp (ofPlain?_plain i)⟩

theorem ofText?_plain (i : Identifier) : ofText? i.plain = some i :=
  ofText?_eq_some.mpr ⟨i.plain, .inl rfl, ofPlain?_eq_some.mp (ofPlain?_plain i)⟩

/-- In a document an identifier stands between quotes, and no character of it is escaped. -/
theorem json_eq (i : Identifier) : i.json = '"' :: (i.text ++ ['"']) := by
  have hAll : (('-' :: Hex.digits).all fun c => Json.escape c == [c]) = true := by decide
  have hClear : ∀ c ∈ i.text, Json.escape c = [c] := fun c hc =>
    beq_iff_eq.mp (List.all_eq_true.mp hAll c
      (mem_of_mem_layout (ofPlain?_eq_some.mp (ofPlain?_plain i)) (.inr hc)))
  rw [json, Json.quote, List.flatMap_congr hClear, List.flatMap_singleton']

/-- What is written in a document reads back. -/
theorem ofJson_json (i : Identifier) : ofJson i.json = .ok i := by
  have hQuote := Json.readText_quote "a UUID string" i.text []
  rw [List.append_nil] at hQuote
  obtain ⟨r, hRead, hRest⟩ := hQuote
  have hDocument : ofDocumentText? i.text = some i := by
    have hGroup : ofGrouped? i.text = some i := ofGrouped?_eq_some.mpr
      ⟨i.plain, rfl, ofPlain?_eq_some.mp (ofPlain?_plain i)⟩
    rw [ofDocumentText?, text, ofPlain?_group, ← text, hGroup, Option.none_or, Option.some_or]
  simp only [ofJson, json, hRead, hDocument, hRest]
  rfl

end Identifier

/-! ## The forms of identifiers -/

/-- Hexadecimal digits in groups of 8, 4, 4, 4 and 12. -/
structure DigitGroups where
  first : Text
  second : Text
  third : Text
  fourth : Text
  fifth : Text
  length_first : first.length = 8
  length_second : second.length = 4
  length_third : third.length = 4
  length_fourth : fourth.length = 4
  length_fifth : fifth.length = 12
  /-- They are digits, of either letter case. -/
  digits : ∀ c ∈ first ++ second ++ third ++ fourth ++ fifth, c ∈ Hex.digits

namespace DigitGroups

variable (g : DigitGroups)

/-- The groups side by side. -/
def plain : Text := g.first ++ g.second ++ g.third ++ g.fourth ++ g.fifth

/-- The groups with a hyphen between them. -/
def hyphenated : Text :=
  g.first ++ ['-'] ++ g.second ++ ['-'] ++ g.third ++ ['-'] ++ g.fourth ++ ['-'] ++ g.fifth

theorem length_plain : g.plain.length = 32 := by
  simp [plain, g.length_first, g.length_second, g.length_third, g.length_fourth, g.length_fifth]

theorem group_plain : Identifier.group g.plain = g.hyphenated := by
  have hGroups := Identifier.group_append g.length_first g.length_second g.length_third
    g.length_fourth g.fifth
  simpa [plain, hyphenated] using hGroups

/-- Any 32 digits fall into groups. -/
theorem exists_plain {t : Text} (hLength : t.length = 32) (hDigits : ∀ c ∈ t, c ∈ Hex.digits) :
    ∃ g : DigitGroups, g.plain = t := by
  obtain ⟨a, b, c, d, e, ha, hb, hc, hd, rfl⟩ := Identifier.exists_append (t := t) (by omega)
  have he : e.length = 12 := by
    simp only [List.length_append, ha, hb, hc, hd] at hLength
    omega
  exact ⟨⟨a, b, c, d, e, ha, hb, hc, hd, he, by simpa using hDigits⟩, by simp [plain]⟩

/-- Digits are the digits of an identifier exactly if they fall into groups. -/
theorem exists_plain_iff {t : Text} :
    (∃ g : DigitGroups, g.plain = t) ↔ ∃ i, Identifier.ofPlain? t = some i := by
  rw [Identifier.exists_ofPlain?]
  constructor
  · rintro ⟨g, rfl⟩
    exact ⟨g.length_plain, g.digits⟩
  · exact fun h => exists_plain h.1 h.2

end DigitGroups

namespace Identifier

variable {s : Text}

/-- Digits in groups are read, and printed in lowercase. -/
theorem ofText?_digits (g : DigitGroups) (h : s = g.plain ∨ s = g.hyphenated) :
    ∃ i, ofText? s = some i ∧ i.text = g.hyphenated.map Char.toLower := by
  obtain ⟨i, hPlain⟩ := DigitGroups.exists_plain_iff.mp ⟨g, rfl⟩
  have hDigits := ofPlain?_eq_some.mp hPlain
  refine ⟨i, ofText?_eq_some.mpr ⟨g.plain, ?_, hDigits⟩, ?_⟩
  · rwa [g.group_plain]
  · rw [text, ← hDigits, ← map_group rfl, g.group_plain]

/-- What is read consists of digits in groups. -/
theorem exists_digits (h : ofText? s = some i) :
    ∃ g : DigitGroups, s = g.plain ∨ s = g.hyphenated := by
  obtain ⟨ds, hLayout, hDigits⟩ := ofText?_eq_some.mp h
  obtain ⟨g, rfl⟩ := DigitGroups.exists_plain_iff.mpr ⟨i, ofPlain?_eq_some.mpr hDigits⟩
  exact ⟨g, g.group_plain ▸ hLayout⟩

/-- **A text is read if it consists of digits**, side by side or in groups, and it is read as the
identifier that is printed with these digits in lowercase.  Every other text is refused by name,
and the three forms of an identifier all read back. -/
theorem reading_exact :
    (∀ s, (∃ i, ofText? s = some i) ↔ ∃ g : DigitGroups, s = g.plain ∨ s = g.hyphenated) ∧
      (∀ g : DigitGroups, ∀ s, s = g.plain ∨ s = g.hyphenated →
        ∃ i, CommandLine.readId s = .ok i ∧ i.text = g.hyphenated.map Char.toLower) ∧
      (∀ s, (¬∃ g : DigitGroups, s = g.plain ∨ s = g.hyphenated) →
        CommandLine.readId s = .error (.ofFailure (.invalidIdentifier s))) ∧
      ∀ i : Identifier, ofText? i.text = some i ∧ ofText? i.plain = some i ∧
        ofJson i.json = .ok i := by
  refine ⟨fun s => ⟨fun ⟨i, h⟩ => exists_digits h, fun ⟨g, h⟩ => ?_⟩, fun g s h => ?_,
    fun s hNone => ?_, fun i => ⟨ofText?_text i, ofText?_plain i, ofJson_json i⟩⟩
  · obtain ⟨i, hRead, -⟩ := ofText?_digits g h
    exact ⟨i, hRead⟩
  · obtain ⟨i, hRead, hText⟩ := ofText?_digits g h
    exact ⟨i, by rw [CommandLine.readId, hRead], hText⟩
  · have hRefused : ofText? s = none :=
      Option.eq_none_iff_forall_ne_some.mpr fun i h => hNone (exists_digits h)
    rw [CommandLine.readId, hRefused]

/-- Digits of either letter case, the same groups in braces, and a text that has the right number of
octets for groups and one character less. -/
theorem reading_exact_of_mixed :
    let g : DigitGroups := ⟨['6', 'b', 'A', '7', 'B', '8', '1', '0'], ['9', 'd', 'a', 'D'],
      ['1', '1', 'd', '1'], ['8', '0', 'B', '4'],
      ['0', '0', 'C', '0', '4', 'f', 'D', '4', '3', '0', 'c', '8'],
      rfl, rfl, rfl, rfl, rfl, by simp [Hex.digits]⟩
    let braced : Text := '\x7b' :: g.hyphenated ++ ['\x7d']
    let accented : Text := g.hyphenated.dropLast.dropLast ++ ['é']
    (∃ i, CommandLine.readId g.plain = .ok i ∧
      i.text = "6ba7b810-9dad-11d1-80b4-00c04fd430c8".toList) ∧
        (∃ i, ofDocumentText? braced = some i) ∧
        CommandLine.readId braced = .error (.ofFailure (.invalidIdentifier braced)) ∧
        accented.utf8Length = 36 ∧
        CommandLine.readId accented = .error (.ofFailure (.invalidIdentifier accented)) := by
  intro g braced accented
  obtain ⟨hIff, hRead, hRefused, -⟩ := reading_exact
  have hNot {s : Text} (hNone : ofText? s = none) :
      ¬∃ g : DigitGroups, s = g.plain ∨ s = g.hyphenated := by
    intro hDigits
    obtain ⟨i, hSome⟩ := (hIff s).mpr hDigits
    rw [hNone] at hSome
    cases hSome
  have hDocument : (ofDocumentText? braced).isSome = true := by decide +kernel
  refine ⟨?_, Option.isSome_iff_exists.mp hDocument, hRefused braced (hNot (by decide +kernel)),
    by decide +kernel, hRefused accented (hNot (by decide +kernel))⟩
  obtain ⟨i, hOk, hText⟩ := hRead g g.plain (.inl rfl)
  exact ⟨i, hOk, hText⟩

end Identifier

end PathRegistry
