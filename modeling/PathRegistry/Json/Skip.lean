import PathRegistry.Json.Lexeme

/-!
# Skipping a JSON value

`skipValue` reads a value of any kind and any depth and keeps nothing of it.
The text must be JSON as far as the value goes; what the value means is not
looked at, so a number may be as large as it likes and a surrogate may lack its
partner.
-/

namespace PathRegistry.Json

/-- What follows a value that starts with `c` and has neither elements nor
members. -/
def skipScalar (c : Char) (rest : Text) : Except Fault (NotLonger rest) :=
  if c = '"' then (skipString rest).map fun r => r.weaken
  else if c = 'n' then skipWord ['u', 'l', 'l'] rest
  else if c = 't' then skipWord ['r', 'u', 'e'] rest
  else if c = 'f' then skipWord ['a', 'l', 's', 'e'] rest
  else if c = '-' then (readNumeral .invalidNumber rest).map fun r => r.2.weaken
  else if isDigit c then (readNumeral .invalidNumber (c :: rest)).map fun r => r.2.untail
  else .error (.ahead .expectedValue (c :: rest))

/-- What follows the colon in front of a text. -/
def skipColon (s : Text) : Except Fault (Shorter s) :=
  match h : skipBlanks s with
  | [] => .error (.here .endInObject [])
  | c :: rest =>
    if c = ':' then .ok ⟨rest, length_lt_of_skipBlanks h⟩
    else .error (.ahead .expectedColon (c :: rest))

/-- What follows the quoted name and the colon of a member. -/
def skipName (s : Text) : Except Fault (Shorter s) :=
  match h : skipBlanks s with
  | [] => .error (.here .endInObject [])
  | c :: rest =>
    if c = '"' then
      match skipString rest with
      | .error f => .error f
      | .ok r =>
        match skipColon r.rest with
        | .error f => .error f
        | .ok r' => .ok ((r.andThen r').below (length_lt_of_skipBlanks h))
    else .error (.ahead .keyNotString (c :: rest))

mutual

/-- What follows the value in front of a text. -/
def skipValue (s : Text) : Except Fault (Shorter s) :=
  match h : skipBlanks s with
  | [] => .error (.here .endInValue [])
  | c :: rest =>
    have hRest := length_lt_of_skipBlanks h
    if c = '[' then
      match h' : skipBlanks rest with
      | [] => .error (.here .endInList [])
      | d :: rest' =>
        if d = ']' then .ok (Shorter.below ⟨rest', length_lt_of_skipBlanks h'⟩ hRest)
        else
          match skipElements rest with
          | .error f => .error f
          | .ok r => .ok (r.below hRest)
    else if c = '\x7b' then
      match h' : skipBlanks rest with
      | [] => .error (.here .endInObject [])
      | d :: rest' =>
        if d = '\x7d' then .ok (Shorter.below ⟨rest', length_lt_of_skipBlanks h'⟩ hRest)
        else
          match skipMembers rest with
          | .error f => .error f
          | .ok r => .ok (r.below hRest)
    else
      match skipScalar c rest with
      | .error f => .error f
      | .ok r => .ok (r.below hRest)
termination_by (s.length, 0)

/-- What follows the elements of a list, one at least, and its closing bracket. -/
def skipElements (s : Text) : Except Fault (Shorter s) :=
  match skipValue s with
  | .error f => .error f
  | .ok r =>
    match h : skipBlanks r.rest with
    | [] => .error (.here .endInList [])
    | c :: rest =>
      let r' := r.andThen ⟨rest, length_lt_of_skipBlanks h⟩
      if c = ']' then .ok r'
      else if c = ',' then
        match skipElements r'.rest with
        | .error f => .error f
        | .ok r'' => .ok (r'.andThen r'')
      else .error (.ahead .expectedListCommaOrEnd (c :: rest))
termination_by (s.length, 1)
decreasing_by
  · exact Prod.Lex.right _ Nat.zero_lt_one
  · exact Prod.Lex.left _ _ r'.shorter

/-- What follows the members of an object, one at least, and its closing brace. -/
def skipMembers (s : Text) : Except Fault (Shorter s) :=
  match skipName s with
  | .error f => .error f
  | .ok n =>
    match skipValue n.rest with
    | .error f => .error f
    | .ok v =>
      let r := n.andThen v
      match h : skipBlanks r.rest with
      | [] => .error (.here .endInObject [])
      | c :: rest =>
        let r' := r.andThen ⟨rest, length_lt_of_skipBlanks h⟩
        if c = '\x7d' then .ok r'
        else if c = ',' then
          match skipMembers r'.rest with
          | .error f => .error f
          | .ok r'' => .ok (r'.andThen r'')
        else .error (.ahead .expectedObjectCommaOrEnd (c :: rest))
termination_by (s.length, 1)
decreasing_by
  · exact Prod.Lex.left _ _ n.shorter
  · exact Prod.Lex.left _ _ r'.shorter

end

end PathRegistry.Json
