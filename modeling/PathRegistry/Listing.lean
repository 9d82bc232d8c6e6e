import PathRegistry.Json.Quoted
import PathRegistry.Table

/-!
# Entries as text

`Entry.text` shows an entry to a reader, the identifier first.  `Entry.json` is
its compact JSON text.  A listing has one JSON text on a line for each entry;
JSON escapes line ends, so no path can break a line or forge one.
-/

namespace PathRegistry

/-- The compact JSON text of an identifier. -/
def Identifier.json (i : Identifier) : Text := Json.quote i.text

namespace Entry

/-- The identifier and the path with a blank between them. -/
def text (e : Entry) : Text := e.id.text ++ ' ' :: e.path

/-- The compact JSON text of an entry. -/
def json (e : Entry) : Text :=
  Json.object [(['i', 'd'], e.id.json), (['p', 'a', 't', 'h'], Json.quote e.path)]

end Entry

/-- One line for each entry. -/
def listing (entries : List Entry) : Text :=
  entries.flatMap fun e => e.json ++ ['\n']

end PathRegistry
