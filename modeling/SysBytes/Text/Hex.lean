/-!
Lowercase hexadecimal text of byte strings and numbers, and reading it back.
-/
namespace SysBytes.Text.Hex

def digit (n : Nat) : Char :=
  if n < 10 then Char.ofNat (48 + n) else Char.ofNat (87 + n)

def byteDigits (b : UInt8) : List Char := [digit (b.toNat / 16), digit (b.toNat % 16)]

/-- The hex text of a byte string. -/
def encode (bytes : List UInt8) : String := String.ofList (bytes.flatMap byteDigits)

def digitValue? (c : Char) : Option Nat :=
  if '0' ≤ c ∧ c ≤ '9' then some (c.toNat - 48)
  else if 'a' ≤ c ∧ c ≤ 'f' then some (c.toNat - 87)
  else if 'A' ≤ c ∧ c ≤ 'F' then some (c.toNat - 55)
  else none

def decodeChars? : List Char → Option (List UInt8)
  | [] => some []
  | hi :: lo :: rest => do
    let h ← digitValue? hi
    let l ← digitValue? lo
    let tail ← decodeChars? rest
    pure ((h * 16 + l).toUInt8 :: tail)
  | [_] => none

/-- The bytes written by a hex text. -/
def decode? (s : String) : Option (List UInt8) := decodeChars? s.toList

def ofNat (n : Nat) : String := String.ofList (Nat.toDigits 16 n)

end SysBytes.Text.Hex
