import PathRegistry.Printable

/-!
# What can be wrong with a JSON text

A `Problem` names what is wrong, a `Fault` also where: by the number of octets
that follow the place.  Counting from the end lets a reader know the place from
what it has left to read.  `Fault.locate` turns the count into a line and a
column; lines count from one, columns are the octets since the line began.

Problems fall into three categories: the text is no JSON, it ends too early, or
it is JSON that does not fit what is wanted.
-/

namespace PathRegistry.Json

/-- What stands where something else was wanted. -/
inductive Found where
  | null
  | boolean (value : Bool)
  /-- A whole number, given by its text. -/
  | integer (digits : String)
  /-- Any other number, given by its text. -/
  | floating (digits : String)
  | string (content : Text)
  | list
  | object
deriving DecidableEq, Repr

/-- What is wrong with a JSON text. -/
inductive Problem where
  | endInList
  | endInObject
  | endInString
  | endInValue
  | expectedColon
  | expectedListCommaOrEnd
  | expectedObjectCommaOrEnd
  | expectedLiteral
  | expectedValue
  | invalidEscape
  | invalidNumber
  | numberOutOfRange
  | controlCharacter
  | keyNotString
  | loneSurrogate
  | trailingComma
  | trailingCharacters
  | endOfHexEscape
  /-- A value of another kind than wanted. -/
  | wrongKind (found : Found) (wanted : String)
  /-- A member given twice. -/
  | duplicateMember (name : String)
  /-- A string that is no identifier in any of its forms. -/
  | notIdentifier (content : Text)
deriving DecidableEq, Repr

/-- The three kinds of problems. -/
inductive Category where
  /-- The text is no JSON. -/
  | malformed
  /-- The text ends too early. -/
  | truncated
  /-- The text is JSON, but does not fit what is wanted. -/
  | unfit
deriving DecidableEq, Repr

/-- The kind of a problem. -/
def Problem.category : Problem → Category
  | .endInList | .endInObject | .endInString | .endInValue => .truncated
  | .wrongKind .. | .duplicateMember _ | .notIdentifier _ => .unfit
  | _ => .malformed

/-- How messages name what was found. -/
def Found.describe : Found → String
  | .null => "null"
  | .boolean b => "boolean `" ++ (if b then "true" else "false") ++ "`"
  | .integer digits => "integer `" ++ digits ++ "`"
  | .floating digits => "floating point `" ++ digits ++ "`"
  | .string content => "string " ++ String.ofList (Printable.quote content)
  | .list => "sequence"
  | .object => "map"

/-- The wording of a problem. -/
def Problem.message : Problem → String
  | .endInList => "EOF while parsing a list"
  | .endInObject => "EOF while parsing an object"
  | .endInString => "EOF while parsing a string"
  | .endInValue => "EOF while parsing a value"
  | .expectedColon => "expected `:`"
  | .expectedListCommaOrEnd => "expected `,` or `]`"
  | .expectedObjectCommaOrEnd => "expected `,` or `\x7d`"
  | .expectedLiteral => "expected ident"
  | .expectedValue => "expected value"
  | .invalidEscape => "invalid escape"
  | .invalidNumber => "invalid number"
  | .numberOutOfRange => "number out of range"
  | .controlCharacter => "control character (\\u0000-\\u001F) found while parsing a string"
  | .keyNotString => "key must be a string"
  | .loneSurrogate => "lone leading surrogate in hex escape"
  | .trailingComma => "trailing comma"
  | .trailingCharacters => "trailing characters"
  | .endOfHexEscape => "unexpected end of hex escape"
  | .wrongKind found wanted => "invalid type: " ++ found.describe ++ ", expected " ++ wanted
  | .duplicateMember name => "duplicate field `" ++ name ++ "`"
  | .notIdentifier content => "UUID parsing failed: " ++ String.ofList content

/-- A problem and its place in the text. -/
structure Fault where
  /-- What is wrong. -/
  problem : Problem
  /-- How many octets follow the place. -/
  left : Nat
deriving DecidableEq, Repr

namespace Fault

/-- A fault in front of what is left to read. -/
def here (problem : Problem) (rest : Text) : Fault :=
  ⟨problem, Text.utf8Length rest⟩

/-- A fault one octet into what is left to read, or at the end if nothing is. -/
def ahead (problem : Problem) (rest : Text) : Fault :=
  ⟨problem, Text.utf8Length rest - 1⟩

end Fault

/-- A problem with its line and column. -/
structure LocatedProblem where
  /-- What is wrong. -/
  problem : Problem
  /-- The line, the first being 1. -/
  line : Nat
  /-- The octets between the start of the line and the place. -/
  column : Nat
deriving DecidableEq, Repr

/-- Line and column after `octets` octets of a text, counted on from the given
line and column. -/
def positionAfter (octets line column : Nat) : Text → Nat × Nat
  | [] => (line, column)
  | c :: rest =>
    if octets < c.utf8Size then (line, column + octets)
    else if c = '\n' then positionAfter (octets - 1) (line + 1) 0 rest
    else positionAfter (octets - c.utf8Size) line (column + c.utf8Size) rest

/-- The fault of reading `text`, with line and column. -/
def Fault.locate (text : Text) (f : Fault) : LocatedProblem :=
  let place := positionAfter (Text.utf8Length text - f.left) 1 0 text
  ⟨f.problem, place.1, place.2⟩

/-- The wording of a problem with its place. -/
def LocatedProblem.message (p : LocatedProblem) : String :=
  p.problem.message ++ " at line " ++ toString p.line ++ " column " ++ toString p.column

end PathRegistry.Json
