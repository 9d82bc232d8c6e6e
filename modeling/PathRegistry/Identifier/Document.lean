import PathRegistry.Identifier
import PathRegistry.Json.Unfit

/-!
# Identifiers in JSON documents

A document that is an identifier is a string in one of the four text forms.
-/

namespace PathRegistry.Identifier

/-- The identifier that a JSON text stands for. -/
def ofJson (t : Text) : Except Json.Fault Identifier :=
  match Json.readText "a UUID string" t with
  | .error f => .error f
  | .ok (content, r) =>
    match ofDocumentText? content with
    | none => .error (.here (.notIdentifier content) r.rest)
    | some i =>
      match Json.finish r.rest with
      | .error f => .error f
      | .ok () => .ok i

end PathRegistry.Identifier
