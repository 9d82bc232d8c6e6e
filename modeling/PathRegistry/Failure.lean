import PathRegistry.Json.Fault

/-!
# Failures and their wording

A `Failure` says why an operation did not happen.  `Failure.message` is its
wording; `Failure.causes` lists the further messages of a report, outermost
first, for those failures that have something else behind them.
-/

namespace PathRegistry

/-- What stands in a key cell that holds no identifier. -/
inductive KeyKind where
  | null
  | integer
  | text
deriving DecidableEq, Repr

/-- What the storage layer refuses. -/
inductive StoreProblem where
  /-- A row with the same key exists. -/
  | keyTaken
  /-- A row with the same path exists, and the writer went past the library. -/
  | pathTaken
  /-- The store has no table yet. -/
  | noTable
  /-- The file holds something else than a store. -/
  | notAStore
  /-- The file cannot be opened. -/
  | cannotOpen (path : Text)
  /-- The file was opened, but the store in it or its log cannot be used. -/
  | unavailable
  /-- What was opened cannot be read. -/
  | unreadable
  /-- The store was opened for reading only. -/
  | readOnly
  /-- The file is no longer what the log beside it belongs to. -/
  | malformed
  /-- Others keep the store from being opened. -/
  | locked
  /-- The name holds a character zero behind the given number of octets. -/
  | nulInName (octets : Nat)
  /-- An address names a host that is not this one. -/
  | foreignAuthority (authority : Text)
  /-- An address asks for an unknown kind of access. -/
  | noSuchAccess (word : Text)
  /-- An address asks for more access than one before allows. -/
  | accessNotAllowed (word : Text)
  /-- An address asks for an unknown kind of cache. -/
  | noSuchCache (word : Text)
  /-- An address asks for an unknown backend. -/
  | noSuchBackend (word : Text)
  /-- A key cell holds no octets. -/
  | keyKind (kind : KeyKind)
  /-- A key cell holds octets, but not sixteen. -/
  | keyLength (octets : Nat)
  | transactionInTransaction
  | commitOutsideTransaction
  | rollbackOutsideTransaction
deriving DecidableEq, Repr

/-- What the file system refuses. -/
inductive FileProblem where
  | notFound
  | alreadyExists
  | notADirectory
  | isADirectory
  /-- The name, or a step of it, has too many octets. -/
  | nameTooLong
  /-- The name holds a character zero. -/
  | nulInName
  /-- The content of a file is no text. -/
  | notText
deriving DecidableEq, Repr

/-- Why an operation did not happen. -/
inductive Failure where
  /-- The text is no identifier. -/
  | invalidIdentifier (text : Text)
  /-- Another record holds the path. -/
  | duplicatePath (path : Text)
  /-- The storage layer refused. -/
  | store (problem : StoreProblem)
  /-- The file system refused. -/
  | file (problem : FileProblem)
  /-- A configuration file is wrong. -/
  | config (problem : Json.LocatedProblem)
  /-- A store path without a directory to put the store into. -/
  | noDirectory (path : Text)
deriving DecidableEq, Repr

/-- The name of a kind of key cell. -/
def KeyKind.name : KeyKind → String
  | .null => "Null"
  | .integer => "Integer"
  | .text => "Text"

namespace StoreProblem

/-- The wording of a refusal of the storage layer. -/
def message : StoreProblem → String
  | .keyTaken => "UNIQUE constraint failed: files.id"
  | .pathTaken => "UNIQUE constraint failed: files.path"
  | .noTable => "no such table: files"
  | .notAStore => "file is not a database"
  | .cannotOpen path => "unable to open database file: " ++ String.ofList path
  | .unavailable => "unable to open database file"
  | .unreadable => "disk I/O error"
  | .readOnly => "attempt to write a readonly database"
  | .malformed => "database disk image is malformed"
  | .locked => "database is locked"
  | .nulInName octets => "nul byte found in provided data at position: " ++ toString octets
  | .foreignAuthority authority => "invalid uri authority: " ++ String.ofList authority
  | .noSuchAccess word => "no such access mode: " ++ String.ofList word
  | .accessNotAllowed word => "access mode not allowed: " ++ String.ofList word
  | .noSuchCache word => "no such cache mode: " ++ String.ofList word
  | .noSuchBackend word => "no such vfs: " ++ String.ofList word
  | .keyKind kind => "Invalid column type " ++ kind.name ++ " at index: 0, name: id"
  | .keyLength octets =>
    "Conversion error from type Blob at index: 0, Cannot read 16 byte value out of " ++
      toString octets ++ " byte blob"
  | .transactionInTransaction => "cannot start a transaction within a transaction"
  | .commitOutsideTransaction => "cannot commit - no transaction is active"
  | .rollbackOutsideTransaction => "cannot rollback - no transaction is active"

/-- The number and the general description that a refusal falls under. -/
def code? : StoreProblem → Option (Nat × String)
  | .keyTaken => some (1555, "A PRIMARY KEY constraint failed")
  | .pathTaken => some (2067, "A UNIQUE constraint failed")
  | .notAStore => some (26, "File opened that is not a database file")
  | .cannotOpen _ | .unavailable => some (14, "Unable to open the database file")
  | .unreadable => some (266, "Error reading from disk")
  | .readOnly => some (8, "Attempt to write a readonly database")
  | .malformed => some (11, "The database disk image is malformed")
  | .locked => some (5, "The database file is locked")
  | .accessNotAllowed _ => some (3, "Access permission denied")
  | .keyKind _ | .keyLength _ | .nulInName _ => none
  | .noTable | .foreignAuthority _ | .noSuchAccess _ | .noSuchCache _ | .noSuchBackend _
  | .transactionInTransaction | .commitOutsideTransaction
  | .rollbackOutsideTransaction => some (1, "SQL logic error")

/-- What stands behind a refusal: its number and general description, or what it
found. -/
def causes (p : StoreProblem) : List String :=
  match p.code? with
  | some (n, description) => ["Error code " ++ toString n ++ ": " ++ description]
  | none =>
    match p with
    | .keyLength octets =>
      ["Cannot read 16 byte value out of " ++ toString octets ++ " byte blob"]
    | .nulInName _ => [p.message]
    | _ => []

end StoreProblem

/-- The wording of a refusal of the file system. -/
def FileProblem.message : FileProblem → String
  | .notFound => "No such file or directory (os error 2)"
  | .alreadyExists => "File exists (os error 17)"
  | .notADirectory => "Not a directory (os error 20)"
  | .isADirectory => "Is a directory (os error 21)"
  | .nameTooLong => "File name too long (os error 36)"
  | .nulInName => "file name contained an unexpected NUL byte"
  | .notText => "stream did not contain valid UTF-8"

namespace Failure

/-- The wording of a failure. -/
def message : Failure → String
  | .invalidIdentifier text => "Invalid identifier: " ++ String.ofList text
  | .duplicatePath path => "Path already indexed: " ++ String.ofList path
  | .store p => "Database error: " ++ p.message
  | .file p => "IO error: " ++ p.message
  | .config p => "Config error: " ++ p.message
  | .noDirectory path => "Invalid path: Invalid database path: " ++ String.ofList path

/-- The messages of what stands behind a failure, outermost first. -/
def causes : Failure → List String
  | .store p => p.message :: p.causes
  | .file p => [p.message]
  | .config p => [p.message]
  | _ => []

end Failure

end PathRegistry
