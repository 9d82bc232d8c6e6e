import PathRegistry.Hex

/-!
# Strings and objects as compact JSON text

A string is written between quotes.  A quote, a backslash and the characters
below the blank are escaped: seven by a letter of their own, the other control
characters as `\u00` and two lowercase digits.  Every other character stands
for itself.  So the text of a string is one line, and its closing quote is the
first quote that no backslash precedes.
-/

namespace PathRegistry.Json

/-- The characters that have an escape of two characters, each with the
character that follows the backslash.  A reader also takes a slash in this way. -/
def shortEscapes : List (Char × Char) :=
  [('"', '"'), ('\\', '\\'), ('\x08', 'b'), ('\x0c', 'f'), ('\n', 'n'), ('\r', 'r'), ('\t', 't')]

/-- How a character is written inside a string. -/
def escape (c : Char) : Text :=
  match shortEscapes.lookup c with
  | some e => ['\\', e]
  | none =>
    if c.toNat < 32 then ['\\', 'u', '0', '0', Hex.digit (c.toNat / 16), Hex.digit (c.toNat % 16)]
    else [c]

/-- The compact JSON text of a string. -/
def quote (t : Text) : Text :=
  '"' :: (t.flatMap escape ++ ['"'])

/-- One member of an object, its value given as JSON text. -/
def member (name value : Text) : Text :=
  quote name ++ ':' :: value

/-- The members with a comma between them. -/
def members : List (Text × Text) → Text
  | [] => []
  | [m] => member m.1 m.2
  | m :: more => member m.1 m.2 ++ ',' :: members more

/-- The compact JSON text of an object, in the order of its members. -/
def object (ms : List (Text × Text)) : Text :=
  '{' :: (members ms ++ ['}'])

end PathRegistry.Json
