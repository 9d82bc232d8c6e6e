import PathRegistry.Text
import PathRegistry.Lowercase.Tables

/-!
# Lowercase texts

`lower` is the full Unicode lowercase mapping of a whole text.  Each character
maps on its own, with two exceptions of the standard:

* `İ` becomes two characters, `i` and a combining dot above;
* `Σ` becomes `ς` at the end of a word and `σ` elsewhere.  It ends a word when
  a cased character stands before it and none after it, looking past
  case-ignorable characters on both sides.

No other rule looks at the context, and none depends on a language.
-/

namespace PathRegistry.Lowercase

/-- The lowercase form of the code point `n`, if one of `runs` lists it.  The
runs ascend, so the search ends at the first one above `n`. -/
def image? (n : Nat) : List Run → Option Nat
  | [] => none
  | r :: runs =>
    if n < r.first then none
    else if n ≤ r.last && (n - r.first) % r.step == 0 then some (r.image + (n - r.first))
    else image? n runs

/-- Characters that have case: letters with a lowercase, uppercase or titlecase form. -/
def isCased (c : Char) : Bool := Text.isWithin c.toNat cased

/-- Characters that a search for a cased neighbour looks past. -/
def isCaseIgnorable (c : Char) : Bool := Text.isWithin c.toNat caseIgnorable

/-- Whether the first character that is not case-ignorable is there and cased. -/
def meetsCased (t : Text) : Bool :=
  match t.dropWhile isCaseIgnorable with
  | [] => false
  | c :: _ => isCased c

/-- Whether a sigma between `before`, read backwards, and `after` ends a word. -/
def endsWord (before after : Text) : Bool :=
  meetsCased before && !meetsCased after

/-- The lowercase form of a character that stands alone. -/
def ofChar (c : Char) : Text :=
  if c = 'İ' then ['i', '\u0307']
  else match image? c.toNat capitals with
    | some n => [Char.ofNat n]
    | none => [c]

/-- The lowercase form of a text that follows `before`, given backwards. -/
def lowerAfter (before : Text) : Text → Text
  | [] => []
  | c :: rest =>
    (if c = 'Σ' then [if endsWord before rest then 'ς' else 'σ'] else ofChar c) ++
      lowerAfter (c :: before) rest

end PathRegistry.Lowercase

namespace PathRegistry

/-- The lowercase form of a whole text. -/
def lower (t : Text) : Text := Lowercase.lowerAfter [] t

end PathRegistry
