import PathRegistry.Hex

/-!
# Identifiers

An identifier is sixteen octets.  It is written in hexadecimal, either as the
plain 32 digits or in groups of 8, 4, 4, 4 and 12 digits with a hyphen between
them; the grouped form in lowercase is the one that is printed.

Some documents also hold the grouped form in braces or behind `urn:uuid:`;
`Identifier.ofDocumentText?` reads all four, in either letter case.
`Identifier.ofText?` asks for the length first, in octets, which is another one
behind `urn:uuid:` or in braces, so that it reads the first two and nothing else.

A fresh identifier is random but for its version, four, and its variant.
-/

namespace PathRegistry

/-- Sixteen octets. -/
structure Identifier where
  /-- The octets, first to last. -/
  octets : List UInt8
  /-- There are sixteen of them. -/
  length_octets : octets.length = 16
deriving DecidableEq

namespace Identifier

/-- The identifier made of the given octets, if they are sixteen. -/
def ofOctets? (octets : List UInt8) : Option Identifier :=
  if h : octets.length = 16 then some ⟨octets, h⟩ else none

/-- The order of identifiers: octet by octet. -/
def order (a b : Identifier) : Ordering :=
  List.compareLex compare a.octets b.octets

/-! ## Text forms -/

/-- The 32 lowercase digits without a hyphen. -/
def plain (i : Identifier) : Text := Hex.encode i.octets

/-- A list of digits in groups of 8, 4, 4, 4 and the rest, joined by hyphens. -/
def group (digits : Text) : Text :=
  digits.take 8 ++ '-' :: ((digits.drop 8).take 4 ++ '-' :: ((digits.drop 12).take 4 ++
    '-' :: ((digits.drop 16).take 4 ++ '-' :: digits.drop 20)))

/-- The digits of a text whose hyphens stand at the four places between groups. -/
def ungroup? (t : Text) : Option Text :=
  if t[8]? = some '-' ∧ t[13]? = some '-' ∧ t[18]? = some '-' ∧ t[23]? = some '-' then
    some (t.take 8 ++ ((t.drop 9).take 4 ++ ((t.drop 14).take 4 ++ ((t.drop 19).take 4 ++
      t.drop 24))))
  else
    none

/-- The lowercase digits in groups. -/
def text (i : Identifier) : Text := group i.plain

/-- Reads 32 digits. -/
def ofPlain? (t : Text) : Option Identifier :=
  (Hex.decode? t).bind ofOctets?

/-- Reads digits in groups. -/
def ofGrouped? (t : Text) : Option Identifier :=
  (ungroup? t).bind ofPlain?

/-- The inside of a text in braces. -/
def unbrace? : Text → Option Text
  | '{' :: rest => if rest.getLast? = some '}' then some rest.dropLast else none
  | _ => none

/-- What follows `urn:uuid:`, in either letter case. -/
def afterUrn? (t : Text) : Option Text :=
  if (t.take 9).map Char.toLower = ['u', 'r', 'n', ':', 'u', 'u', 'i', 'd', ':'] then
    some (t.drop 9)
  else
    none

/-- Reads an identifier in one of the four forms that documents may hold. -/
def ofDocumentText? (t : Text) : Option Identifier :=
  (ofPlain? t).or ((ofGrouped? t).or
    (((unbrace? t).bind ofGrouped?).or ((afterUrn? t).bind ofGrouped?)))

/-- Reads an identifier from a text of 32 or 36 octets. -/
def ofText? (t : Text) : Option Identifier :=
  if t.utf8Length = 32 ∨ t.utf8Length = 36 then ofDocumentText? t else none

/-! ## Fresh identifiers -/

/-- The sixteen octets of a number below 2 ^ 128, the highest first. -/
def ofNumber (n : Nat) : Identifier :=
  ⟨(List.range 16).map fun k => UInt8.ofNat (n >>> (8 * (15 - k))), by simp⟩

/-- The identifier with its version set to four and its variant to two. -/
def markRandom (i : Identifier) : Identifier :=
  ⟨(i.octets.modify 6 fun b => (b &&& 0x0F) ||| 0x40).modify 8 fun b => (b &&& 0x3F) ||| 0x80,
    by simp [i.length_octets]⟩

/-- Whether the identifier has version four and variant two. -/
def isRandom (i : Identifier) : Bool :=
  (i.octets[6]?.any fun b => b &&& 0xF0 == 0x40) &&
    (i.octets[8]?.any fun b => b &&& 0xC0 == 0x80)

end Identifier

/-- An endless stock of identifiers, from which each call takes the next ones. -/
structure Supply where
  /-- The identifiers of the stock. -/
  draw : Nat → Identifier
  /-- How many have been taken. -/
  taken : Nat

namespace Supply

/-- The next identifier. -/
def next (s : Supply) : Identifier := s.draw s.taken

/-- The stock after the next identifier has been taken. -/
def rest (s : Supply) : Supply := ⟨s.draw, s.taken + 1⟩

/-- The stock that numbers its identifiers from a seed.  The low 62 bits of an
identifier are not marked, so no two of the first 2 ^ 62 agree. -/
def ofSeed (seed : Nat) : Supply :=
  ⟨fun k => (Identifier.ofNumber (seed + k)).markRandom, 0⟩

end Supply

end PathRegistry
