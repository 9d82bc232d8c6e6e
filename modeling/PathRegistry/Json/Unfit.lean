import PathRegistry.Json.Number

/-!
# A value of another kind than wanted

Where a string or an object is wanted and something else stands, the fault says
what it is.  A literal, a number or a string is read for that, and may turn out
to be no JSON; a list or an object is named by its bracket alone.
-/

namespace PathRegistry.Json

/-- The fault of a value of another kind in front of `rest`. -/
def wrongKind (found : Found) (wanted : String) (rest : Text) : Fault :=
  .here (.wrongKind found wanted) rest

/-- The fault of a number where something else is wanted. -/
def unfitNumber (wanted : String) (negative : Bool) (s : Text) : Fault :=
  match readNumeral .endInValue s with
  | .error f => f
  | .ok (n, r) =>
    match n.found? negative with
    | some found => wrongKind found wanted r.rest
    | none => ⟨.numberOutOfRange, Text.utf8Length r.rest + n.unread⟩

/-- The fault of a literal where something else is wanted. -/
def unfitLiteral (wanted : String) (found : Found) (word rest : Text) : Fault :=
  match skipWord word rest with
  | .error f => f
  | .ok r => wrongKind found wanted r.rest

/-- The fault of the value that starts with `c`, where something else is wanted. -/
def unfit (wanted : String) (c : Char) (rest : Text) : Fault :=
  if c = 'n' then unfitLiteral wanted .null ['u', 'l', 'l'] rest
  else if c = 't' then unfitLiteral wanted (.boolean true) ['r', 'u', 'e'] rest
  else if c = 'f' then unfitLiteral wanted (.boolean false) ['a', 'l', 's', 'e'] rest
  else if c = '-' then unfitNumber wanted true rest
  else if isDigit c then unfitNumber wanted false (c :: rest)
  else if c = '"' then
    match readString rest with
    | .error f => f
    | .ok (content, r) => wrongKind (.string content) wanted r.rest
  else if c = '[' then wrongKind .list wanted (c :: rest)
  else if c = '\x7b' then wrongKind .object wanted (c :: rest)
  else .ahead .expectedValue (c :: rest)

/-- The string in front of a text, and what follows it. -/
def readText (wanted : String) (s : Text) : Except Fault (Text × Shorter s) :=
  match h : skipBlanks s with
  | [] => .error (.here .endInValue [])
  | c :: rest =>
    if c = '"' then
      match readString rest with
      | .error f => .error f
      | .ok (content, r) =>
        .ok (content, r.below (length_lt_of_skipBlanks h))
    else .error (unfit wanted c rest)

/-- Succeeds if nothing but blanks is left to read. -/
def finish (s : Text) : Except Fault Unit :=
  match skipBlanks s with
  | [] => .ok ()
  | c :: rest => .error (.ahead .trailingCharacters (c :: rest))

end PathRegistry.Json
