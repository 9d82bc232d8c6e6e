import PathRegistry.Json.Lexeme
import PathRegistry.Disk

/-!
# Stores as files

The content of a store's file is a heading line, which tells the kind of store,
and a line for each row, in the order of the table.  A line has a letter for the
kind of the key, then the key and the path as JSON strings, which never break a
line.  What lies beside a store has a heading of its own.
-/

namespace PathRegistry.StoreFile

/-- The letter and the text of a key. -/
def keyText : Key → Char × Text
  | .octets content => ('o', Hex.encode content)
  | .text content => ('t', content)
  | .integer value => ('i', (toString value).toList)
  | .null => ('n', [])

/-- The key of a letter and a text. -/
def key? (kind : Char) (content : Text) : Option Key :=
  if kind = 'o' then (Hex.decode? content).map .octets
  else if kind = 't' then some (.text content)
  else if kind = 'i' then (String.ofList content).toInt?.map .integer
  else if kind = 'n' then some .null
  else none

/-- The line of a row. -/
def encodeRow (r : Row) : Text :=
  let (kind, content) := keyText r.key
  kind :: (Json.quote content ++ Json.quote r.path ++ ['\n'])

/-- The lines of the rows of a table. -/
def encodeRows (t : Table) : Text := t.flatMap encodeRow

/-- The heading of a store whose changes go to a log. -/
def loggedHeading : Text := "path registry, logged\n".toList

/-- The heading of such a store that has no table yet. -/
def newHeading : Text := "path registry, new\n".toList

/-- The heading of a store whose changes go to the file itself. -/
def directHeading : Text := "path registry, direct\n".toList

/-- The heading of a log. -/
def logHeading : Text := "path registry, log\n".toList

/-- The heading of an index. -/
def indexHeading : Text := "path registry, index\n".toList

/-- The content of the file that a place holds. -/
def encode : Node → Option (List UInt8)
  | .directory => none
  | .document content => some content
  | .store (some t) true => octets (loggedHeading ++ encodeRows t)
  | .store none _ => octets newHeading
  | .store (some t) false => octets (directHeading ++ encodeRows t)
  | .log (some t) => octets (logHeading ++ encodeRows t)
  | .log none => some []
  | .index => octets indexHeading
where
  /-- The octets of a text. -/
  octets (t : Text) : Option (List UInt8) := some (String.ofList t).toUTF8.data.toList

/-- The JSON string in front of a text. -/
def readQuoted (s : Text) : Option (Text × Json.Shorter s) :=
  match s with
  | [] => none
  | c :: rest =>
    if c = '"' then
      match Json.readString rest with
      | .ok (content, r) => some (content, r.behind c)
      | .error _ => none
    else none

/-- The row in front of a text. -/
def decodeRow (s : Text) : Option (Row × Json.Shorter s) :=
  match s with
  | [] => none
  | kind :: rest =>
    match readQuoted rest with
    | none => none
    | some (content, r) =>
      match readQuoted r.rest with
      | none => none
      | some (path, r') =>
        match key? kind content with
        | none => none
        | some key => some (⟨key, path⟩, (r.andThen r').behind kind)

/-- What follows the end of a line. -/
def skipLineEnd (s : Text) : Option (Json.Shorter s) :=
  match s with
  | [] => none
  | c :: rest => if c = '\n' then some (.tail c rest) else none

/-- The rows that lines stand for. -/
def decodeRows (s : Text) : Option Table :=
  match s with
  | [] => some []
  | c :: rest =>
    match decodeRow (c :: rest) with
    | none => none
    | some (row, r) =>
      match skipLineEnd r.rest with
      | none => none
      | some r' =>
        let more := r.andThen r'
        (decodeRows more.rest).map (row :: ·)
termination_by s.length
decreasing_by exact more.shorter

/-- What follows a heading, if the text starts with it. -/
def behind? (heading s : Text) : Option Text :=
  if heading.isPrefixOf s then some (s.drop heading.length) else none

/-- The store or companion of a store whose file has a text for content. -/
def ofText? (s : Text) : Option Node :=
  let logged := ((behind? loggedHeading s).bind decodeRows).map fun t => .store (some t) true
  let direct := ((behind? directHeading s).bind decodeRows).map fun t => .store (some t) false
  let log := ((behind? logHeading s).bind decodeRows).map fun t => .log (some t)
  let new := if s = newHeading then some (.store none true) else none
  let index := if s = indexHeading then some .index else none
  logged.or (direct.or (log.or (new.or index)))

/-- What a place holds whose file has the given content. -/
def decode (content : List UInt8) : Node :=
  match (String.fromUTF8? ⟨content.toArray⟩).bind fun s => ofText? s.toList with
  | some node => node
  | none => .document content

end PathRegistry.StoreFile
