/-!
# Texts, separators and segments

A text is the list of its characters.  `isBefore` is the lexicographic order by
code point, which is also the order of the UTF-8 encodings octet by octet;
every "ordered by path" of this library means that order.

Both `/` and `\` separate the segments of a path.  `segments` cuts a text at
every separator and keeps the empty pieces, so that a text with `n` separators
has `n + 1` segments.  `pieces` cuts at characters of any choice.

## Main statements

* `length_le_utf8Length`, `utf8Length_of_ascii` — octets and characters.
* `isBefore_iff` — the order is core's order on lists of characters.
* `pieces_ne_nil` — every text has a piece.
* `pieces_of_not_cut` — a text without a cut is its own piece.
* `pieces_append` — cutting a text in the middle cuts it into the pieces of the
  two sides.
-/

namespace PathRegistry

/-- A text is the list of its characters. -/
abbrev Text := List Char

namespace Text

/-- Whether the code point `n` lies in one of the ascending closed `ranges`. -/
def isWithin (n : Nat) : List (Nat × Nat) → Bool
  | [] => false
  | r :: ranges => if n < r.1 then false else n ≤ r.2 || isWithin n ranges

/-- The number of octets of the UTF-8 encoding. -/
def utf8Length : Text → Nat
  | [] => 0
  | c :: rest => c.utf8Size + utf8Length rest

/-- Every character has an octet. -/
theorem length_le_utf8Length (t : Text) : t.length ≤ utf8Length t := by
  induction t with
  | nil => exact Nat.le_refl 0
  | cons c rest ih =>
    have hOctet : 0 < c.utf8Size := c.utf8Size_pos
    rw [List.length_cons, utf8Length]
    omega

/-- The characters of ASCII have one octet each. -/
theorem utf8Length_of_ascii {t : Text} (h : ∀ c ∈ t, c.utf8Size = 1) :
    utf8Length t = t.length := by
  induction t with
  | nil => rfl
  | cons c rest ih =>
    obtain ⟨hFirst, hRest⟩ := List.forall_mem_cons.mp h
    rw [List.length_cons, utf8Length, hFirst, ih hRest, Nat.add_comm]

/-- Whether `s` comes strictly before `t`: at the first difference by code point,
and a proper beginning before what continues it. -/
def isBefore : Text → Text → Bool
  | _, [] => false
  | [], _ :: _ => true
  | c :: s, d :: t => c.toNat < d.toNat || (c == d && isBefore s t)

/-- How two texts compare. -/
def order (s t : Text) : Ordering :=
  if isBefore s t then .lt else if s == t then .eq else .gt

theorem isBefore_iff (s t : Text) : isBefore s t = true ↔ s < t := by
  induction s generalizing t with
  | nil => cases t <;> simp [isBefore]
  | cons c s ih =>
    cases t with
    | nil => simp [isBefore]
    | cons d t =>
      have hVal : c.toNat < d.toNat ↔ c < d := Iff.rfl
      simp [isBefore, List.cons_lt_cons_iff, ih, hVal]

/-- The characters that separate the segments of a path. -/
def isSeparator (c : Char) : Bool :=
  c == '/' || c == '\\'

/-- The pieces of a text between the characters that `isCut` marks, empty ones
included. -/
def pieces (isCut : Char → Bool) : Text → List Text
  | [] => [[]]
  | c :: rest =>
    if isCut c then
      [] :: pieces isCut rest
    else
      match pieces isCut rest with
      | [] => [[c]]
      | first :: others => (c :: first) :: others

/-- The pieces of a text between its separators. -/
def segments (t : Text) : List Text := pieces isSeparator t

theorem pieces_ne_nil (isCut : Char → Bool) (t : Text) : pieces isCut t ≠ [] := by
  cases t with
  | nil => simp [pieces]
  | cons c rest =>
    unfold pieces
    split
    · simp
    · split <;> simp

theorem pieces_cons_of_not_cut {isCut : Char → Bool} {c : Char} (hc : isCut c = false)
    (t : Text) : ∃ first others,
      pieces isCut t = first :: others ∧ pieces isCut (c :: t) = (c :: first) :: others := by
  cases h : pieces isCut t with
  | nil => exact absurd h (pieces_ne_nil isCut t)
  | cons first others => exact ⟨first, others, rfl, by simp [pieces, hc, h]⟩

/-- A text without a cut is its own only piece. -/
theorem pieces_of_not_cut {isCut : Char → Bool} {t : Text} (ht : ∀ c ∈ t, isCut c = false) :
    pieces isCut t = [t] := by
  induction t with
  | nil => rfl
  | cons c rest ih =>
    have hRest := ih fun d hd => ht d (List.mem_cons_of_mem c hd)
    simp [pieces, ht c List.mem_cons_self, hRest]

/-- **Cutting in the middle**: the pieces of the whole are those of the left
side followed by those of the right side. -/
theorem pieces_append {isCut : Char → Bool} {c : Char} (hc : isCut c = true) (s t : Text) :
    pieces isCut (s ++ c :: t) = pieces isCut s ++ pieces isCut t := by
  induction s with
  | nil => simp [pieces, hc]
  | cons d rest ih =>
    cases hd : isCut d with
    | true => simp [pieces, hd, ih]
    | false =>
      obtain ⟨first, others, hRest, hCons⟩ := pieces_cons_of_not_cut hd rest
      rw [hCons, List.cons_append, pieces, ih, hRest]
      simp [hd]

end Text

end PathRegistry
