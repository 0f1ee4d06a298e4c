/-!
Fixed-width words as stored in records: little-endian (native on the platform described) and
big-endian (network order) byte layouts of unsigned numbers, two's-complement 32-bit integers,
and rounding up to the 8-byte alignment of records. Reading a layout back gives the number
modulo its width.
-/
namespace SysBytes.Word

/-- Rounds up to a multiple of 8, the alignment of records and of region capacities. -/
def roundUp8 (n : Nat) : Nat := (n + 7) / 8 * 8

def encodeLE : Nat → Nat → List UInt8
  | 0, _ => []
  | width + 1, n => (n % 256).toUInt8 :: encodeLE width (n / 256)

def decodeLE : List UInt8 → Nat
  | [] => 0
  | b :: rest => b.toNat + 256 * decodeLE rest

def encodeBE (width n : Nat) : List UInt8 := (encodeLE width n).reverse

def decodeBE (bytes : List UInt8) : Nat := decodeLE bytes.reverse

def bitsOfInt32 (x : Int32) : Nat := x.toUInt32.toNat

def int32OfBits (n : Nat) : Int32 := (UInt32.ofNat n).toInt32

/-- The little-endian layout of a 32-bit integer. -/
def encodeInt32 (x : Int32) : List UInt8 := encodeLE 4 (bitsOfInt32 x)

def decodeInt32 (bytes : List UInt8) : Int32 := int32OfBits (decodeLE bytes)

def slice (bytes : List UInt8) (offset count : Nat) : List UInt8 :=
  (bytes.drop offset).take count

/-- Replaces the bytes from `offset` on by `patch`, keeping the length. -/
def overwrite (bytes : List UInt8) (offset : Nat) (patch : List UInt8) : List UInt8 :=
  bytes.take offset ++ (patch.take (bytes.length - offset)) ++ bytes.drop (offset + patch.length)

end SysBytes.Word
