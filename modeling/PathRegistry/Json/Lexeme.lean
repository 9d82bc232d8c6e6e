import PathRegistry.Json.Fault
import PathRegistry.Json.Quoted

/-!
# The lexical elements of JSON

Blanks, the three literals, strings and numbers.  Each reader takes the text
from the first character of its element on, or from behind the opening quote of
a string, and returns what it has left to read, which is shorter.

A string can be read for its content or only skipped.  A string that is skipped
may hold surrogates that make no pair; one that is read may not.
-/

namespace PathRegistry.Json

/-- What a reader leaves of `s` that has read something. -/
structure Shorter (s : Text) where
  /-- What is left. -/
  rest : Text
  /-- Something has been read. -/
  shorter : rest.length < s.length

/-- What a reader leaves of `s` that may have read nothing. -/
structure NotLonger (s : Text) where
  /-- What is left. -/
  rest : Text
  /-- Nothing has been added. -/
  notLonger : rest.length ≤ s.length

namespace Shorter

variable {s t : Text}

/-- What is left behind the first character. -/
def tail (c : Char) (rest : Text) : Shorter (c :: rest) :=
  ⟨rest, Nat.lt_succ_self _⟩

/-- What is left of a text is left of every longer one. -/
def below (r : Shorter t) (h : t.length < s.length) : Shorter s :=
  ⟨r.rest, Nat.lt_trans r.shorter h⟩

/-- What is left behind one more character in front. -/
def behind (c : Char) (r : Shorter s) : Shorter (c :: s) :=
  ⟨r.rest, Nat.lt_succ_of_lt r.shorter⟩

/-- What a second reader leaves of what the first has left. -/
def andThen (r : Shorter s) (r' : Shorter r.rest) : Shorter s :=
  r'.below r.shorter

/-- What a second reader leaves that may have read nothing. -/
def andThenMaybe (r : Shorter s) (r' : NotLonger r.rest) : Shorter s :=
  ⟨r'.rest, Nat.lt_of_le_of_lt r'.notLonger r.shorter⟩

/-- A reader that has read something may be used where one may read nothing. -/
def weaken (r : Shorter s) : NotLonger s :=
  ⟨r.rest, Nat.le_of_lt r.shorter⟩

/-- All that a reader leaves of a character and what follows it, if it has read at
least that character. -/
def untail {c : Char} (r : Shorter (c :: s)) : NotLonger s :=
  ⟨r.rest, Nat.le_of_lt_succ r.shorter⟩

end Shorter

namespace NotLonger

variable {s t : Text}

/-- A reader that has read nothing. -/
def all (s : Text) : NotLonger s := ⟨s, Nat.le_refl _⟩

/-- What is left of a text is left of every longer one. -/
def below (r : NotLonger t) (h : t.length < s.length) : Shorter s :=
  ⟨r.rest, Nat.lt_of_le_of_lt r.notLonger h⟩

/-- What is left behind one more character in front. -/
def behind (c : Char) (r : NotLonger s) : Shorter (c :: s) :=
  ⟨r.rest, Nat.lt_succ_of_le r.notLonger⟩

/-- What is left behind the characters that `p` accepts. -/
def dropWhile (p : Char → Bool) (s : Text) : NotLonger s :=
  ⟨s.dropWhile p, (List.dropWhile_sublist p).length_le⟩

end NotLonger

/-- The characters allowed between elements. -/
def isBlank (c : Char) : Bool :=
  c == ' ' || c == '\n' || c == '\t' || c == '\r'

/-- What follows the blanks in front. -/
def skipBlanks (s : Text) : Text := s.dropWhile isBlank

theorem length_skipBlanks (s : Text) : (skipBlanks s).length ≤ s.length :=
  (List.dropWhile_sublist isBlank).length_le

/-- What follows the blanks in front and one character is shorter. -/
theorem length_lt_of_skipBlanks {s : Text} {c : Char} {rest : Text}
    (h : skipBlanks s = c :: rest) : rest.length < s.length := by
  have hLen := length_skipBlanks s
  rw [h, List.length_cons] at hLen
  omega

/-! ## Literals -/

/-- What follows the given word in front of a text. -/
def skipWord : (word s : Text) → Except Fault (NotLonger s)
  | [], s => .ok (.all s)
  | _ :: _, [] => .error (.here .endInValue [])
  | w :: word, c :: rest =>
    if c = w then
      match skipWord word rest with
      | .ok r => .ok (r.behind c).weaken
      | .error f => .error f
    else
      .error (.ahead .expectedLiteral (c :: rest))

/-! ## Strings -/

/-- The character that a backslash and `e` stand for, if the two make an escape. -/
def unescape? (e : Char) : Option Char :=
  if e = '/' then some '/' else (shortEscapes.find? (·.2 == e)).map (·.1)

theorem length_lt_cons_four {a b c d : Char} {rest : Text} :
    rest.length < (a :: b :: c :: d :: rest).length := by
  simp only [List.length_cons]
  omega

/-- The number of four hexadecimal digits and what follows them. -/
def readQuad (s : Text) : Except Fault (Nat × Shorter s) :=
  match s with
  | a :: b :: c :: d :: rest =>
    match Hex.value? a, Hex.value? b, Hex.value? c, Hex.value? d with
    | some a, some b, some c, some d =>
      .ok (a * 4096 + b * 256 + c * 16 + d, ⟨rest, length_lt_cons_four⟩)
    | _, _, _, _ => .error ⟨.invalidEscape, Text.utf8Length s - 4⟩
  | _ =>
    if Text.utf8Length s < 4 then .error (.here .endInString [])
    else .error ⟨.invalidEscape, Text.utf8Length s - 4⟩

/-- Whether a number is the first of a surrogate pair. -/
def isLeadingSurrogate (n : Nat) : Bool := 0xD800 ≤ n && n ≤ 0xDBFF

/-- Whether a number is the second of a surrogate pair. -/
def isTrailingSurrogate (n : Nat) : Bool := 0xDC00 ≤ n && n ≤ 0xDFFF

/-- The second number of a surrogate pair, which must follow as an escape. -/
def readTrailing (s : Text) : Except Fault (Nat × Shorter s) :=
  match s with
  | [] => .error (.here .endInString [])
  | '\\' :: [] => .error (.here .endInString [])
  | '\\' :: 'u' :: rest =>
    match readQuad rest with
    | .error f => .error f
    | .ok (n, r) =>
      if isTrailingSurrogate n then
        .ok (n, (r.behind 'u').behind '\\')
      else
        .error (.here .loneSurrogate r.rest)
  | '\\' :: rest => .error (.ahead .endOfHexEscape rest)
  | _ => .error (.ahead .endOfHexEscape s)

/-- The character of a `\u` escape whose digits start the text. -/
def readUnicode (s : Text) : Except Fault (Char × Shorter s) :=
  match readQuad s with
  | .error f => .error f
  | .ok (n, r) =>
    if isTrailingSurrogate n then .error (.here .loneSurrogate r.rest)
    else if isLeadingSurrogate n then
      match readTrailing r.rest with
      | .error f => .error f
      | .ok (m, r') =>
        .ok (Char.ofNat (0x10000 + (n - 0xD800) * 1024 + (m - 0xDC00)), r.andThen r')
    else .ok (Char.ofNat n, r)

/-- The next character of a string's content, or nothing at its closing quote. -/
def readUnit (s : Text) : Except Fault (Option Char × Shorter s) :=
  match s with
  | [] => .error (.here .endInString [])
  | c :: rest =>
    if c = '"' then .ok (none, .tail c rest)
    else if c = '\\' then
      match rest with
      | [] => .error (.here .endInString [])
      | e :: rest =>
        match unescape? e with
        | some d => .ok (some d, (Shorter.tail e rest).behind c)
        | none =>
          if e = 'u' then
            match readUnicode rest with
            | .error f => .error f
            | .ok (d, r) => .ok (some d, (r.behind e).behind c)
          else .error (.ahead .invalidEscape (e :: rest))
    else if c.toNat < 32 then .error (.ahead .controlCharacter (c :: rest))
    else .ok (some c, .tail c rest)

/-- The content of a string whose opening quote has been read. -/
def readString (s : Text) : Except Fault (Text × Shorter s) :=
  match readUnit s with
  | .error f => .error f
  | .ok (none, r) => .ok ([], r)
  | .ok (some c, r) =>
    match readString r.rest with
    | .error f => .error f
    | .ok (content, r') => .ok (c :: content, r.andThen r')
termination_by s.length
decreasing_by exact r.shorter

/-- What follows one character of a string that is skipped, and whether that
character was the closing quote. -/
def skipUnit (s : Text) : Except Fault (Bool × Shorter s) :=
  match s with
  | [] => .error (.here .endInString [])
  | c :: rest =>
    if c = '"' then .ok (true, .tail c rest)
    else if c = '\\' then
      match rest with
      | [] => .error (.here .endInString [])
      | e :: rest =>
        if (unescape? e).isSome then .ok (false, (Shorter.tail e rest).behind c)
        else if e = 'u' then
          match readQuad rest with
          | .error f => .error f
          | .ok (_, r) => .ok (false, (r.behind e).behind c)
        else .error (.ahead .invalidEscape (e :: rest))
    else if c.toNat < 32 then .error (.here .controlCharacter (c :: rest))
    else .ok (false, .tail c rest)

/-- What follows a string whose opening quote has been read. -/
def skipString (s : Text) : Except Fault (Shorter s) :=
  match skipUnit s with
  | .error f => .error f
  | .ok (true, r) => .ok r
  | .ok (false, r) =>
    match skipString r.rest with
    | .error f => .error f
    | .ok r' => .ok (r.andThen r')
termination_by s.length
decreasing_by exact r.shorter

/-! ## Numbers -/

/-- A number without its sign, cut into its parts. -/
structure Numeral where
  /-- The digits of the whole part. -/
  whole : List Char
  /-- The digits behind the point, empty if there is no point. -/
  fraction : List Char
  /-- The sign and the digits of the exponent, if there is one. -/
  exponent : Option (Bool × List Char)
deriving DecidableEq, Repr

/-- The digits `0` to `9`. -/
def isDigit (c : Char) : Bool := '0' ≤ c && c ≤ '9'

/-- What follows the sign of an exponent, and whether the sign is minus. -/
def skipSign (s : Text) : Bool × NotLonger s :=
  match s with
  | [] => (false, .all [])
  | c :: rest =>
    if c = '-' then (true, (Shorter.tail c rest).weaken)
    else if c = '+' then (false, (Shorter.tail c rest).weaken)
    else (false, .all (c :: rest))

/-- The digits in front of a text, one at least.  `atEnd` is the problem of a text
that ends here. -/
def readDigits (atEnd : Problem) (s : Text) : Except Fault (List Char × Shorter s) :=
  match s with
  | [] => .error (.here atEnd [])
  | d :: rest =>
    if isDigit d then
      .ok (d :: rest.takeWhile isDigit, (NotLonger.dropWhile isDigit rest).behind d)
    else .error (.ahead .invalidNumber (d :: rest))

/-- The exponent in front of a text, true for a negative one. -/
def readExponent (atEnd : Problem) (s : Text) :
    Except Fault (Option (Bool × List Char) × NotLonger s) :=
  match s with
  | [] => .ok (none, .all [])
  | e :: rest =>
    if e = 'e' || e = 'E' then
      match skipSign rest with
      | (negative, r) =>
        match readDigits atEnd r.rest with
        | .error f => .error f
        | .ok (digits, r') =>
          .ok (some (negative, digits), ((r.behind e).andThen r').weaken)
    else .ok (none, .all (e :: rest))

/-- The point and the digits behind it in front of a text, no digits if there is
no point. -/
def readFraction (atEnd : Problem) (s : Text) : Except Fault (List Char × NotLonger s) :=
  match s with
  | [] => .ok ([], .all [])
  | p :: rest =>
    if p = '.' then
      match readDigits atEnd rest with
      | .error f => .error f
      | .ok (digits, r) => .ok (digits, (r.behind p).weaken)
    else .ok ([], .all (p :: rest))

/-- The whole part in front of a text.  A zero stands alone. -/
def readWhole (atEnd : Problem) (s : Text) : Except Fault (List Char × Shorter s) :=
  match s with
  | [] => .error (.here atEnd [])
  | c :: rest =>
    if c = '0' then
      if rest.head?.any isDigit then .error (.ahead .invalidNumber rest)
      else .ok (['0'], .tail c rest)
    else readDigits atEnd (c :: rest)

/-- A number without its sign. -/
def readNumeral (atEnd : Problem) (s : Text) : Except Fault (Numeral × Shorter s) :=
  match readWhole atEnd s with
  | .error f => .error f
  | .ok (whole, r) =>
    match readFraction atEnd r.rest with
    | .error f => .error f
    | .ok (fraction, r') =>
      match readExponent atEnd r'.rest with
      | .error f => .error f
      | .ok (exponent, r'') =>
        .ok (⟨whole, fraction, exponent⟩, (r.andThenMaybe r').andThenMaybe r'')

end PathRegistry.Json
