import PathRegistry.Text

/-!
# Positions in a text

A position counts the characters of a text: from 1 at its start, or from -1 at
its end and backwards.  A statement keeps a position as 32 bits with a sign, so
behind very many characters it comes to count from the end.  What a text has
from a position on is limited to a number of characters; a position before the
start takes as many fewer as it lies before it.

## Main statements

* `Text.behind_eq_drop` — as long as the position fits, what lies behind a number
  of characters is the text without them.
-/

namespace PathRegistry

/-- The position behind `n` characters, as 32 bits with a sign hold it. -/
def positionBehind (n : Nat) : Int := Int.bmod (n + 1) 0x100000000

namespace Text

/-- The most characters that a statement takes from a text. -/
def limit : Nat := 1000000000

/-- What a text has from a position on. -/
def fromPosition (p : Int) (t : Text) : Text :=
  if 0 < p then t.drop (p.toNat - 1)
  else if p = 0 then t
  else
    let back := (-p).toNat
    if back ≤ t.length then t.drop (t.length - back)
    else t.take (limit - (back - t.length))

/-- What a text has behind its first `n` characters, found by position. -/
def behind (n : Nat) (t : Text) : Text := fromPosition (positionBehind n) t

theorem positionBehind_of_lt {n : Nat} (h : n < 0x7FFFFFFF) :
    positionBehind n = (n : Int) + 1 := by
  unfold positionBehind
  exact Int.bmod_eq_of_le (by omega) (by omega)

/-- **Behind few characters**: the text without them. -/
theorem behind_eq_drop {n : Nat} (h : n < 0x7FFFFFFF) (t : Text) : behind n t = t.drop n := by
  have hPos : 0 < (n : Int) + 1 := by omega
  simp [behind, positionBehind_of_lt h, fromPosition, hPos]

end Text

end PathRegistry
