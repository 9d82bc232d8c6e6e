import PathRegistry.Text

/-!
# Octets as pairs of hexadecimal digits

`Hex.encode` writes two lowercase digits for each octet, the high half first.
`Hex.decode?` reads digits of either case and refuses an odd number of digits
and every other character.

## Main statements

* `length_encode` — two digits for each octet.
* `decode?_encode` — what is written reads back.
-/

namespace PathRegistry.Hex

/-- The lowercase digit of a number below 16. -/
def digit (n : Nat) : Char :=
  if n < 10 then Char.ofNat (n + 48) else Char.ofNat (n + 87)

/-- The number that a digit of either case stands for. -/
def value? (c : Char) : Option Nat :=
  let n := c.toNat
  if 48 ≤ n ∧ n ≤ 57 then some (n - 48)
  else if 97 ≤ n ∧ n ≤ 102 then some (n - 87)
  else if 65 ≤ n ∧ n ≤ 70 then some (n - 55)
  else none

/-- Two lowercase digits for each octet. -/
def encode (octets : List UInt8) : Text :=
  octets.flatMap fun b => [digit (b.toNat / 16), digit (b.toNat % 16)]

/-- The octets that pairs of digits stand for. -/
def decode? : Text → Option (List UInt8)
  | [] => some []
  | [_] => none
  | high :: low :: rest => do
    let h ← value? high
    let l ← value? low
    let octets ← decode? rest
    return UInt8.ofNat (h * 16 + l) :: octets

theorem value?_digit {n : Nat} (hn : n < 16) : value? (digit n) = some n := by
  have hAll : ∀ m : Fin 16, value? (digit m.val) = some m.val := by decide
  exact hAll ⟨n, hn⟩

theorem length_encode (octets : List UInt8) : (encode octets).length = 2 * octets.length := by
  induction octets with
  | nil => rfl
  | cons b rest ih =>
    simp only [encode, List.flatMap_cons, List.length_append, List.length_cons,
      List.length_nil] at ih ⊢
    omega

theorem decode?_encode (octets : List UInt8) : decode? (encode octets) = some octets := by
  induction octets with
  | nil => rfl
  | cons b rest ih =>
    have hByte : b.toNat < 256 := b.toNat_lt
    have hHigh : value? (digit (b.toNat / 16)) = some (b.toNat / 16) := value?_digit (by omega)
    have hLow : value? (digit (b.toNat % 16)) = some (b.toNat % 16) := value?_digit (by omega)
    have hJoin : UInt8.ofNat (b.toNat / 16 * 16 + b.toNat % 16) = b := by
      rw [show b.toNat / 16 * 16 + b.toNat % 16 = b.toNat by omega]
      exact UInt8.ofNat_toNat
    have hUnfold : encode (b :: rest) =
        digit (b.toNat / 16) :: digit (b.toNat % 16) :: encode rest := rfl
    rw [hUnfold, decode?, hHigh, hLow, ih]
    exact congrArg (fun x => some (x :: rest)) hJoin

end PathRegistry.Hex
