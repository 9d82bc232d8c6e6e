import PathRegistry.Text
import PathRegistry.Printable.Tables

/-!
# Texts with every character visible

A message that quotes a text from elsewhere has to show each character of it.  A
character that leaves a mark of its own is shown as it is, unless the quotation
uses it; any other is written as an escape.  A combining character counts as one
that leaves no mark, since it would join what stands before it.
-/

namespace PathRegistry.Printable

/-- Whether a character leaves a mark of its own; the blank counts as one. -/
def isMarked (c : Char) : Bool := !Text.isWithin c.toNat unmarked

/-- A character inside double quotes. -/
def escape (c : Char) : Text :=
  if c = '"' then ['\\', '"']
  else if c = '\\' then ['\\', '\\']
  else if c = '\n' then ['\\', 'n']
  else if c = '\r' then ['\\', 'r']
  else if c = '\t' then ['\\', 't']
  else if c.toNat = 0 then ['\\', '0']
  else if isMarked c then [c]
  else ['\\', 'u', '\x7b'] ++ Nat.toDigits 16 c.toNat ++ ['\x7d']

/-- A text in double quotes. -/
def quote (t : Text) : Text := '"' :: (t.flatMap escape ++ ['"'])

end PathRegistry.Printable
