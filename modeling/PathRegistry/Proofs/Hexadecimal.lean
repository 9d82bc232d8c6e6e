import PathRegistry.Hex

/-!
# Which texts are octets

The reader takes exactly the texts of an even number of hexadecimal digits, and writing the octets
again gives the same digits in lowercase.  So a text stands for the octets whose digits it has, and
letter case is all that reading loses.

## Main statements

* `Hex.value?_eq_some` — the number that a digit stands for is the one it is written for, up to
  letter case.
* `Hex.decode?_eq_some` — a text stands for the octets that have its lowercase digits.
* `Hex.exists_decode?` — which texts stand for octets.
-/

namespace PathRegistry.Hex

/-- The hexadecimal digits, in lowercase and in uppercase. -/
def digits : Text :=
  ['0', '1', '2', '3', '4', '5', '6', '7', '8', '9', 'a', 'b', 'c', 'd', 'e', 'f',
    'A', 'B', 'C', 'D', 'E', 'F']

variable {c : Char} {n : Nat} {t : Text} {octets : List UInt8}

/-! ## One digit -/

/-- Beyond ASCII no letter has a lowercase. -/
theorem toLower_of_le (h : 128 ≤ c.toNat) : c.toLower = c := by
  have hNot : ¬(c.val ≥ 'A'.val ∧ c.val ≤ 'Z'.val) := fun hCapital => by
    have hLast : c.toNat ≤ 90 := UInt32.le_iff_toNat_le.mp hCapital.2
    omega
  exact dif_neg hNot

/-- Beyond ASCII there is no digit. -/
theorem value?_of_le (h : 128 ≤ c.toNat) : value? c = none := by
  simp only [value?]
  grind

theorem value?_lt (h : value? c = some n) : n < 16 := by
  simp only [value?] at h
  grind

/-- A digit stands for the number whose digit it is, up to letter case. -/
theorem value?_eq_some : value? c = some n ↔ n < 16 ∧ digit n = c.toLower := by
  have hAll : ∀ m : Fin 128, ∀ n : Fin 16, value? (Char.ofNat m.val) = some n.val ↔
      digit n.val = (Char.ofNat m.val).toLower := by decide +kernel
  have hDigits : ∀ n : Fin 16, (digit n.val).toNat < 128 := by decide
  by_cases hSmall : c.toNat < 128
  · have hSame (hn : n < 16) := hAll ⟨c.toNat, hSmall⟩ ⟨n, hn⟩
    simp only [Char.ofNat_toNat] at hSame
    exact ⟨fun h => ⟨value?_lt h, (hSame (value?_lt h)).mp h⟩, fun h => (hSame h.1).mpr h.2⟩
  · rw [value?_of_le (by omega), toLower_of_le (by omega)]
    exact iff_of_false nofun fun ⟨hn, h⟩ => hSmall (h ▸ hDigits ⟨n, hn⟩)

/-- The characters that stand for a number are the digits. -/
theorem exists_value? : (∃ n, value? c = some n) ↔ c ∈ digits := by
  rw [← Option.isSome_iff_exists]
  have hAll : ∀ m : Fin 128, (value? (Char.ofNat m.val)).isSome ↔ Char.ofNat m.val ∈ digits := by
    decide +kernel
  have hDigits : (digits.all fun c => c.toNat < 128) = true := by decide
  by_cases hSmall : c.toNat < 128
  · have hSame := hAll ⟨c.toNat, hSmall⟩
    rwa [Char.ofNat_toNat] at hSame
  · rw [value?_of_le (by omega)]
    exact iff_of_false nofun fun h => hSmall (of_decide_eq_true (List.all_eq_true.mp hDigits c h))

/-! ## Texts -/

/-- The octet of two digits is written with them. -/
theorem encode_cons {high low : Nat} (hHigh : high < 16) (hLow : low < 16) :
    encode (UInt8.ofNat (high * 16 + low) :: octets) =
      digit high :: digit low :: encode octets := by
  have hNat : (UInt8.ofNat (high * 16 + low)).toNat = high * 16 + low :=
    UInt8.toNat_ofNat_of_lt' (by change _ < 256; omega)
  have hDiv : (high * 16 + low) / 16 = high := by omega
  have hMod : (high * 16 + low) % 16 = low := by omega
  rw [encode, List.flatMap_cons, hNat, hDiv, hMod]
  rfl

/-- Two digits and a text stand for an octet and what the text stands for. -/
theorem decode?_cons {high low : Char} :
    decode? (high :: low :: t) = some octets ↔
      ∃ h l rest, value? high = some h ∧ value? low = some l ∧ decode? t = some rest ∧
        UInt8.ofNat (h * 16 + l) :: rest = octets := by
  simp [decode?, Option.bind_eq_some_iff]

/-- **A text stands for the octets that have its digits**, in lowercase. -/
theorem decode?_eq_some : decode? t = some octets ↔ t.map Char.toLower = encode octets := by
  induction t using decode?.induct generalizing octets with
  | case1 => cases octets <;> simp [decode?, encode]
  | case2 c => cases octets <;> simp [decode?, encode]
  | case3 high low rest ih =>
    rw [decode?_cons]
    constructor
    · rintro ⟨h, l, os, hHigh, hLow, hRest, rfl⟩
      obtain ⟨hh, hDigitHigh⟩ := value?_eq_some.mp hHigh
      obtain ⟨hl, hDigitLow⟩ := value?_eq_some.mp hLow
      rw [encode_cons hh hl, hDigitHigh, hDigitLow, List.map_cons, List.map_cons, ih.mp hRest]
    · intro hText
      cases octets with
      | nil => cases hText
      | cons b os =>
        have hByte : b.toNat < 256 := b.toNat_lt
        have hJoin : UInt8.ofNat (b.toNat / 16 * 16 + b.toNat % 16) = b := by
          rw [show b.toNat / 16 * 16 + b.toNat % 16 = b.toNat by omega, UInt8.ofNat_toNat]
        injection hText with hHigh hMore
        injection hMore with hLow hRest
        exact ⟨_, _, os, value?_eq_some.mpr ⟨by omega, hHigh.symm⟩,
          value?_eq_some.mpr ⟨by omega, hLow.symm⟩, ih.mpr hRest, by rw [hJoin]⟩

/-- **Which texts stand for octets**: those of an even number of digits. -/
theorem exists_decode? : (∃ octets, decode? t = some octets) ↔
    t.length % 2 = 0 ∧ ∀ c ∈ t, c ∈ digits := by
  induction t using decode?.induct with
  | case1 => exact iff_of_true ⟨[], rfl⟩ ⟨rfl, nofun⟩
  | case2 c => exact iff_of_false (fun ⟨_, h⟩ => nomatch h) fun h => nomatch h.1
  | case3 high low rest ih =>
    have hEven : (high :: low :: rest).length % 2 = rest.length % 2 := by
      simp only [List.length_cons]
      omega
    rw [hEven, List.forall_mem_cons, List.forall_mem_cons, ← exists_value?, ← exists_value?]
    constructor
    · rintro ⟨octets, hText⟩
      obtain ⟨h, l, os, hHigh, hLow, hRest, -⟩ := decode?_cons.mp hText
      obtain ⟨hLength, hDigits⟩ := ih.mp ⟨os, hRest⟩
      exact ⟨hLength, ⟨h, hHigh⟩, ⟨l, hLow⟩, hDigits⟩
    · rintro ⟨hLength, ⟨h, hHigh⟩, ⟨l, hLow⟩, hDigits⟩
      obtain ⟨os, hRest⟩ := ih.mpr ⟨hLength, hDigits⟩
      exact ⟨_, decode?_cons.mpr ⟨h, l, os, hHigh, hLow, hRest, rfl⟩⟩

end PathRegistry.Hex
