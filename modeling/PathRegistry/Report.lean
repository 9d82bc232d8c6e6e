import PathRegistry.Failure

/-!
# Reports of errors

A report is a message and, below it, the messages of what caused it, outermost
first.  A single cause is indented; several are numbered, and the lines of each
are aligned behind its number.
-/

namespace PathRegistry

/-- A message and the messages of its causes. -/
structure Report where
  /-- What went wrong. -/
  message : String
  /-- What caused it, outermost first. -/
  causes : List String
deriving DecidableEq, Repr

namespace Report

/-- A report of a message alone. -/
def plain (message : String) : Report := ⟨message, []⟩

/-- The report of a failure. -/
def ofFailure (f : Failure) : Report := ⟨f.message, f.causes⟩

/-- The report of a failure with a message of what was being done. -/
def whileDoing (message : String) (f : Failure) : Report :=
  ⟨message, f.message :: f.causes⟩

/-- A text whose lines after the first are moved in by `width` blanks. -/
def alignLines (width : Nat) (message : String) : Text :=
  message.toList.flatMap fun c => if c = '\n' then c :: List.replicate width ' ' else [c]

/-- The causes with their numbers, from `n` on. -/
def numbered (n : Nat) : List String → Text
  | [] => []
  | cause :: causes =>
    let digits := Nat.toDigits 10 n
    List.replicate (5 - digits.length) ' ' ++ digits ++ [':', ' '] ++ alignLines 7 cause ++
      ['\n'] ++ numbered (n + 1) causes

/-- The text below the message. -/
def causesText : List String → Text
  | [] => []
  | [cause] => "\nCaused by:\n    ".toList ++ alignLines 4 cause ++ ['\n']
  | causes => "\nCaused by:\n".toList ++ numbered 0 causes

/-- The text of a report. -/
def text (r : Report) : Text :=
  "Error: ".toList ++ r.message.toList ++ ['\n'] ++ causesText r.causes

end Report

end PathRegistry
