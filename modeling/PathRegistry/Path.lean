import PathRegistry.Lowercase

/-!
# Paths in normal form

A path has an anchor, the place it starts from, and a list of names to enter
one after the other.  The anchor is the root of an absolute path, or lies some
number of levels above the current directory: zero levels for the current
directory itself.  So a parent step can stand only in front of all names, and
above the root there is nothing to climb to.

`Path.ofText` reads any text as a path.  It lowers the text, takes the anchor
from the first character, and enters segment after segment: an empty segment or
`.` stays, `..` goes to the parent, anything else is a name.  `Path.text`
writes the path again, `Path.stem` is what the text of everything below the
path starts with.
-/

namespace PathRegistry

/-- Where a path starts. -/
inductive Anchor where
  /-- At the root. -/
  | root
  /-- As many levels above the current directory as given. -/
  | above (levels : Nat)
deriving DecidableEq, Repr

/-- A path in normal form: the names to enter, from the anchor on. -/
structure Path where
  /-- Where the path starts. -/
  anchor : Anchor
  /-- The names to enter from there, outermost first. -/
  names : List Text
deriving DecidableEq, Repr

namespace Anchor

/-- One level up; the root is its own parent. -/
def parent : Anchor → Anchor
  | .root => .root
  | .above n => .above (n + 1)

/-- The root if the text starts with a separator, else the current directory. -/
def ofText : Text → Anchor
  | [] => .above 0
  | c :: _ => if Text.isSeparator c then .root else .above 0

/-- What the text of every path below the anchor starts with. -/
def stem : Anchor → Text
  | .root => ['/']
  | .above n => (List.replicate n ['.', '.', '/']).flatten

end Anchor

namespace Path

/-- The root `/`. -/
def root : Path := ⟨.root, []⟩

/-- The current directory `.`. -/
def current : Path := ⟨.above 0, []⟩

/-- One level up: the last name is left, or the anchor climbs. -/
def parent (p : Path) : Path :=
  match p.names with
  | [] => ⟨p.anchor.parent, []⟩
  | _ :: _ => ⟨p.anchor, p.names.dropLast⟩

/-- The path reached from `p` by one segment. -/
def enter (p : Path) (segment : Text) : Path :=
  if segment = [] ∨ segment = ['.'] then p
  else if segment = ['.', '.'] then p.parent
  else ⟨p.anchor, p.names ++ [segment]⟩

/-- The path that a text means. -/
def ofText (t : Text) : Path :=
  (Text.segments (lower t)).foldl enter ⟨Anchor.ofText (lower t), []⟩

/-- What the text of every path below `p` starts with: each step followed by a
separator.  It is `/` for the root and empty for the current directory. -/
def stem (p : Path) : Text :=
  p.anchor.stem ++ p.names.flatMap (· ++ ['/'])

/-- The normal text of a path: the steps with a separator between them, `/` for
the root and `.` for the current directory. -/
def text (p : Path) : Text :=
  if p = root then ['/']
  else if p = current then ['.']
  else p.stem.dropLast

/-- Whether the path is the root. -/
def isRoot (p : Path) : Bool := p = root

/-- Whether the path is the current directory. -/
def isCurrent (p : Path) : Bool := p = current

/-- Whether the path is made of parent steps only, one at least.  What lies
below such a path may start with further parent steps. -/
def climbsOnly (p : Path) : Bool :=
  match p.anchor, p.names with
  | .above (_ + 1), [] => true
  | _, _ => false

end Path

/-- The normal text of the path that a text means. -/
def normalize (t : Text) : Text := (Path.ofText t).text

end PathRegistry
