import PathRegistry.Path

/-!
# Subtrees

The subtree of a path holds the texts that lie strictly below it: those that
start with the stem of the path and are longer.  Since a stem ends in `/` and
`0` is the next character, these are also the texts strictly between the stem
and the stem with its final `/` replaced by `0`, so a table ordered by path can
find them as one open range.  The current directory has an empty stem and, by
decision, an empty subtree.

`Subtree.carry?` carries a text from one subtree to another.
-/

namespace PathRegistry

/-- The texts strictly below a path, given by what they start with. -/
structure Subtree where
  /-- What each member starts with; empty if there is no member. -/
  stem : Text
deriving DecidableEq, Repr

/-- The texts strictly between two texts. -/
structure TextRange where
  /-- The lower end, not a member. -/
  lower : Text
  /-- The upper end, not a member. -/
  upper : Text
deriving DecidableEq, Repr

/-- Whether a text lies strictly between the ends. -/
def TextRange.contains (r : TextRange) (t : Text) : Bool :=
  Text.isBefore r.lower t && Text.isBefore t r.upper

namespace Subtree

/-- The subtree of a path. -/
def below (p : Path) : Subtree := ⟨p.stem⟩

/-- Whether the subtree can have no member. -/
def isEmpty (s : Subtree) : Bool := s.stem.isEmpty

/-- The open range of the members: from the stem up to the stem whose final
separator is replaced by the next character. -/
def range (s : Subtree) : TextRange :=
  ⟨s.stem, if s.isEmpty then [] else s.stem.dropLast ++ ['0']⟩

/-- Whether a text lies strictly below the path of the subtree. -/
def contains (s : Subtree) (t : Text) : Bool :=
  !s.isEmpty && s.stem.length < t.length && s.stem.isPrefixOf t

/-- The text of `t` moved from subtree `s` to subtree `target`, in normal form;
nothing if `t` is no member of `s`. -/
def carry? (s : Subtree) (t : Text) (target : Subtree) : Option Text :=
  if s.contains t then
    some (normalize (target.stem ++ t.drop s.stem.length))
  else
    none

end Subtree

end PathRegistry
