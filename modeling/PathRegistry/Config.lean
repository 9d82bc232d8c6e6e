import PathRegistry.Disk
import PathRegistry.Json.Skip
import PathRegistry.Json.Unfit

/-!
# Configuration

A configuration names the file of the store.  Without a configuration file it is
the conventional one: `fileid/file_id_manager.db` in the user's data directory,
which is `XDG_DATA_HOME` if that is taken from the root, else `.local/share` in
the home directory.

A configuration file is a JSON object whose member `db_path` gives the file of
the store; other members are skipped, and without that member the default
stands.  A list is read as the same object with its members in order.
-/

namespace PathRegistry

/-- What a user's environment says about directories. -/
structure Environment where
  /-- The value of `XDG_DATA_HOME`. -/
  dataHome : Option Text
  /-- The value of `HOME`. -/
  home : Option Text
  /-- The home directory that the system has for the user. -/
  account : Option Text
deriving DecidableEq, Repr

namespace Environment

/-- The home directory: `HOME` unless it is empty, else the system's. -/
def homeDirectory (e : Environment) : Option Text :=
  (e.home.filter (· != [])).or e.account

/-- The user's data directory. -/
def dataDirectory (e : Environment) : Option Text :=
  (e.dataHome.filter Text.isRooted).or
    (e.homeDirectory.map fun home => Text.join home ".local/share".toList)

end Environment

/-- The file of the store. -/
structure Config where
  /-- The file name of the store. -/
  storePath : Text
deriving DecidableEq, Repr

namespace Config

/-- The directory of the store in the data directory. -/
def directoryName : Text := "fileid".toList

/-- The file name of the store in its directory. -/
def fileName : Text := "file_id_manager.db".toList

/-- The conventional file of the store; in the working directory if there is no
data directory. -/
def default (e : Environment) : Config :=
  match e.dataDirectory with
  | some d => ⟨Text.join (Text.join d directoryName) fileName⟩
  | none => ⟨Text.join ['.'] fileName⟩

/-- Whether two configurations name the same file: the same steps, whatever the
empty ones between them. -/
def same (a b : Config) : Bool :=
  Route.ofText a.storePath == Route.ofText b.storePath

/-- The member that names the file of the store. -/
def storeMember : Text := ['d', 'b', '_', 'p', 'a', 't', 'h']

/-- The compact JSON text of a configuration. -/
def json (c : Config) : Text :=
  Json.object [(storeMember, Json.quote c.storePath)]

/-- What a fault calls the value of the member. -/
def storeKind : String := "path string"

/-! ## Reading -/

open Json

/-- The name of the next member and what follows it, or nothing and what follows
the closing brace.  Between members there is a comma. -/
def nextName (first : Bool) (s : Text) : Except Fault (Option Text × Shorter s) :=
  match h : skipBlanks s with
  | [] => .error (.here .endInObject [])
  | c :: rest =>
    have hRest := length_lt_of_skipBlanks h
    if c = '\x7d' then .ok (none, ⟨rest, hRest⟩)
    else if first then
      if c = '"' then
        match readString rest with
        | .error f => .error f
        | .ok (name, r) => .ok (some name, r.below hRest)
      else .error (.ahead .keyNotString (c :: rest))
    else if c = ',' then
      match h' : skipBlanks rest with
      | [] => .error (.here .endInValue [])
      | d :: rest' =>
        if d = '"' then
          match readString rest' with
          | .error f => .error f
          | .ok (name, r) =>
            .ok (some name, (r.below (length_lt_of_skipBlanks h')).below hRest)
        else if d = '\x7d' then .error (.ahead .trailingComma (d :: rest'))
        else .error (.ahead .keyNotString (d :: rest'))
    else .error (.ahead .expectedObjectCommaOrEnd (c :: rest))

/-- The fault of a second `db_path`, noticed in front of `rest`. -/
def duplicate (rest : Text) : Fault :=
  let problem := Problem.duplicateMember (String.ofList storeMember)
  match skipBlanks rest with
  | '\x7d' :: rest' => .here problem rest'
  | rest' => .here problem rest'

/-- The value of `db_path` among the members in front of a text, or `found` if it
is not among them, and what follows the closing brace. -/
def readMembers (found : Option Text) (first : Bool) (s : Text) :
    Except Fault (Option Text × Shorter s) :=
  match nextName first s with
  | .error f => .error f
  | .ok (none, r) => .ok (found, r)
  | .ok (some name, n) =>
    if name = storeMember && found.isSome then .error (duplicate n.rest)
    else
      match skipColon n.rest with
      | .error f => .error f
      | .ok v =>
        if name = storeMember then
          match readText storeKind v.rest with
          | .error f => .error f
          | .ok (path, v') =>
            let r := n.andThen (v.andThen v')
            match readMembers (some path) false r.rest with
            | .error f => .error f
            | .ok (p, r') => .ok (p, r.andThen r')
        else
          match skipValue v.rest with
          | .error f => .error f
          | .ok v' =>
            let r := n.andThen (v.andThen v')
            match readMembers found false r.rest with
            | .error f => .error f
            | .ok (p, r') => .ok (p, r.andThen r')
termination_by s.length
decreasing_by
  · exact r.shorter
  · exact r.shorter

/-- What follows the closing bracket of a list whose one element has been read. -/
def closeList (s : Text) : Except Fault Text :=
  match skipBlanks s with
  | [] => .error (.here .endInList [])
  | c :: rest =>
    if c = ']' then .ok rest
    else if c = ',' then
      match skipBlanks rest with
      | ']' :: rest' => .error (.ahead .trailingComma (']' :: rest'))
      | rest' => .error (.ahead .trailingCharacters rest')
    else .error (.ahead .trailingCharacters (c :: rest))

/-- The first element of a list behind its opening bracket, if there is one, and
what follows the list. -/
def readList (s : Text) : Except Fault (Option Text × Text) :=
  match skipBlanks s with
  | [] => .error (.here .endInList [])
  | c :: rest =>
    if c = ']' then .ok (none, rest)
    else
      match readText storeKind (c :: rest) with
      | .error f => .error f
      | .ok (path, r) =>
        match closeList r.rest with
        | .error f => .error f
        | .ok rest' => .ok (some path, rest')

/-- The value of `db_path` in front of a text, if it is given, and what follows
the configuration. -/
def readBody (s : Text) : Except Fault (Option Text × Text) :=
  match skipBlanks s with
  | [] => .error (.here .endInValue [])
  | c :: rest =>
    if c = '[' then readList rest
    else if c = '\x7b' then
      match readMembers none true rest with
      | .error f => .error f
      | .ok (path, r) => .ok (path, r.rest)
    else .error (unfit "struct FileIdConfig" c rest)

/-- The configuration that a JSON text stands for; `fallback` gives what the text
does not say. -/
def ofJson (fallback : Config) (t : Text) : Except LocatedProblem Config :=
  match readBody t with
  | .error f => .error (f.locate t)
  | .ok (path, rest) =>
    match finish rest with
    | .error f => .error (f.locate t)
    | .ok () => .ok (match path with | some p => ⟨p⟩ | none => fallback)

/-- The configuration in a file. -/
def load (fallback : Config) (d : Disk) (working : Location) (name : Text) :
    Except Failure Config :=
  match d.readText working name with
  | .error e => .error (.file e)
  | .ok t =>
    match ofJson fallback t with
    | .error p => .error (.config p)
    | .ok c => .ok c

end Config

end PathRegistry
