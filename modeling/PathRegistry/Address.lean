import PathRegistry.Failure
import PathRegistry.Hex

/-!
# Addresses of stores

The name of a store is a file name, or an address: `file:`, perhaps an authority
behind `//`, the file name, options behind `?` and a fragment behind `#` that
means nothing.  Options stand between `&`, each with its value behind `=`.  In
the file name, in an option and in a value `%` and two hexadecimal digits stand
for an octet of a UTF-8 encoding, and the octet zero hides the rest of the piece.

The options `mode`, `cache`, `vfs`, `immutable` and `nolock` say how the store is
opened; every other option is ignored.

## Main statements

* `Address.ofText_plain` — a name without `file:` in front is taken as it is.
-/

namespace PathRegistry

/-- What may be done with an opened store. -/
inductive Access where
  /-- It may be read. -/
  | readOnly
  /-- It may be read and written. -/
  | readWrite
  /-- It may be read and written, and is made if it is missing. -/
  | create
  /-- It is kept in memory and nowhere else. -/
  | memory
deriving DecidableEq, Repr

/-- What stores are kept by. -/
inductive Backend where
  /-- Files with locks. -/
  | plain
  /-- Files that only this process uses. -/
  | exclusive
  /-- Files without locks. -/
  | unlocked
  /-- Files with a lock file each. -/
  | lockFile
  /-- The memory. -/
  | memory
deriving DecidableEq, Repr

/-- How a store is addressed. -/
structure Address where
  /-- The file name. -/
  name : Text
  /-- What may be done with the store. -/
  access : Access
  /-- The backend. -/
  backend : Backend
  /-- Whether a store in memory is one for all handles that share its name. -/
  shared : Bool
  /-- Whether the file is trusted not to change. -/
  immutable : Bool
  /-- Whether no locks are taken. -/
  noLock : Bool
deriving DecidableEq, Repr

/-- The word of each access that an option can ask for. -/
def Access.words : List (Text × Access) :=
  [(['r', 'o'], readOnly), (['r', 'w'], readWrite), (['r', 'w', 'c'], create),
    ("memory".toList, memory)]

/-- How much an access allows. -/
def Access.rank : Access → Nat
  | readOnly => 1
  | readWrite => 2
  | create => 6
  | memory => 128

/-- Whether an option may ask for `a` where `limit` was granted before. -/
def Access.isWithin (a limit : Access) : Bool := a == .memory || a.rank ≤ limit.rank

/-- The word of each cache that an option can ask for, and whether it is shared. -/
def Address.cacheWords : List (Text × Bool) :=
  [("shared".toList, true), ("private".toList, false)]

/-- The word of each backend. -/
def Backend.words : List (Text × Backend) :=
  [("unix".toList, plain), ("unix-excl".toList, exclusive), ("unix-none".toList, unlocked),
    ("unix-dotfile".toList, lockFile), ("memdb".toList, memory)]

namespace Address

/-- The address of a store by its file name alone. -/
def plain (name : Text) : Address := ⟨name, .create, .plain, false, false, false⟩

/-! ## Pieces -/

/-- The character that the first octets encode, and how many octets follow it. -/
def firstChar? (octets : List UInt8) : Option (Char × Nat) :=
  [0, 1, 2, 3].findSome? fun more =>
    match String.fromUTF8? ⟨(octets.take (more + 1)).toArray⟩ with
    | some s =>
      match s.toList with
      | [c] => some (c, more)
      | _ => none
    | none => none

/-- The text that octets encode; one that belongs to no character becomes the
replacement character. -/
def textOfOctets : List UInt8 → Text
  | [] => []
  | o :: octets =>
    match firstChar? (o :: octets) with
    | some (c, more) => c :: textOfOctets (octets.drop more)
    | none => '\uFFFD' :: textOfOctets octets
termination_by octets => octets.length
decreasing_by
  · simp only [List.length_drop, List.length_cons]; omega
  · simp

/-- The octets that a piece stands for, up to the octet zero. -/
def octetsOfPiece : Text → List UInt8
  | '%' :: a :: b :: rest =>
    match Hex.value? a, Hex.value? b with
    | some hi, some lo =>
      if hi = 0 ∧ lo = 0 then [] else UInt8.ofNat (16 * hi + lo) :: octetsOfPiece rest
    | _, _ => 37 :: octetsOfPiece (a :: b :: rest)
  | c :: rest => (String.singleton c).toUTF8.data.toList ++ octetsOfPiece rest
  | [] => []

/-- The text that a piece stands for. -/
def decodePiece (piece : Text) : Text := textOfOctets (octetsOfPiece piece)

/-- An option and its value. -/
def decodeOption (piece : Text) : Text × Text :=
  (decodePiece (piece.takeWhile (· != '=')), decodePiece ((piece.dropWhile (· != '=')).drop 1))

/-- The options behind `?`; those without a name are left out. -/
def options (query : Text) : List (Text × Text) :=
  ((Text.pieces (· == '&') query).map decodeOption).filter (·.1 != [])

/-! ## Options -/

/-- What follows the authority, if there is one. -/
def skipAuthority (t : Text) : Except StoreProblem Text :=
  match t with
  | '/' :: '/' :: rest =>
    let authority := rest.takeWhile (· != '/')
    if authority = [] ∨ authority = "localhost".toList then .ok (rest.dropWhile (· != '/'))
    else .error (.foreignAuthority authority)
  | _ => .ok t

/-- The access and the cache that the options ask for, one after the other. -/
def readModes (access : Access) (shared : Bool) :
    List (Text × Text) → Except StoreProblem (Access × Bool)
  | [] => .ok (access, shared)
  | (option, value) :: options =>
    if option = "mode".toList then
      match Access.words.lookup value with
      | none => .error (.noSuchAccess value)
      | some a =>
        if a.isWithin access then readModes a shared options
        else .error (.accessNotAllowed value)
    else if option = "cache".toList then
      match cacheWords.lookup value with
      | none => .error (.noSuchCache value)
      | some s => readModes access s options
    else readModes access shared options

/-- The backend that the last option of that name asks for. -/
def readBackend (options : List (Text × Text)) : Except StoreProblem Backend :=
  match options.reverse.lookup "vfs".toList with
  | none => .ok .plain
  | some value =>
    match Backend.words.lookup value with
    | none => .error (.noSuchBackend value)
    | some b => .ok b

/-- The number that the digits in front of a text stand for, or zero if it takes
32 bits or more. -/
def leadingNumber (t : Text) : Nat :=
  let n := (t.takeWhile Char.isDigit).foldl (fun n c => 10 * n + (c.toNat - 48)) 0
  if n < 0x80000000 then n else 0

/-- Whether a value says yes: by a word, or by a number whose last octet is not
zero. -/
def saysYes (value : Text) : Bool :=
  if (value.head?.map Char.isDigit).getD false then leadingNumber value % 256 != 0
  else ["on".toList, "yes".toList, "true".toList].contains (value.map Char.toLower)

/-- Whether the first option of the given name says yes. -/
def isSet (option : Text) (options : List (Text × Text)) : Bool :=
  ((options.lookup option).map saysYes).getD false

/-! ## Addresses -/

/-- What an address starts with. -/
def scheme : Text := "file:".toList

/-- The address that a text is behind its scheme. -/
def ofAddress (t : Text) : Except StoreProblem Address :=
  match skipAuthority t with
  | .error e => .error e
  | .ok t =>
    let t := t.takeWhile (· != '#')
    let options := options ((t.dropWhile (· != '?')).drop 1)
    match readModes .create false options with
    | .error e => .error e
    | .ok (access, shared) =>
      match readBackend options with
      | .error e => .error e
      | .ok backend =>
        .ok ⟨decodePiece (t.takeWhile (· != '?')), access, backend, shared,
          isSet "immutable".toList options, isSet "nolock".toList options⟩

/-- The address that a text is. -/
def ofText (t : Text) : Except StoreProblem Address :=
  if scheme.isPrefixOf t then ofAddress (t.drop scheme.length) else .ok (plain t)

/-- A name without the scheme is a file name. -/
theorem ofText_plain {t : Text} (h : scheme.isPrefixOf t = false) : ofText t = .ok (plain t) := by
  simp [ofText, h]

end Address

end PathRegistry
