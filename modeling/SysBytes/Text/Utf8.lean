/-!
UTF-8 decoding of byte strings. A byte string splits into pieces, each a scalar value or a
maximal ill-formed subpart: the longest prefix of some well-formed sequence that cannot be
completed. Lossy decoding writes U+FFFD for every ill-formed piece, strict decoding refuses
any, and `encode` writes a string's own bytes.
-/
namespace SysBytes.Text.Utf8

/-- One decoded piece: a scalar value, or an ill-formed subpart. -/
inductive Piece where
  | scalar (c : Char)
  | invalid
  deriving DecidableEq, Repr

def isTrail (b : UInt8) : Bool := 0x80 ≤ b && b ≤ 0xBF

def secondOk (lead b : UInt8) : Bool :=
  if lead = 0xE0 then 0xA0 ≤ b && b ≤ 0xBF
  else if lead = 0xED then 0x80 ≤ b && b ≤ 0x9F
  else if lead = 0xF0 then 0x90 ≤ b && b ≤ 0xBF
  else if lead = 0xF4 then 0x80 ≤ b && b ≤ 0x8F
  else isTrail b

def width (b : UInt8) : Nat :=
  if 0xC2 ≤ b && b ≤ 0xDF then 1
  else if 0xE0 ≤ b && b ≤ 0xEF then 2
  else if 0xF0 ≤ b && b ≤ 0xF4 then 3
  else 0

def accepted (lead : UInt8) : Nat → Bool → List UInt8 → Nat
  | 0, _, _ => 0
  | _, _, [] => 0
  | need + 1, first, c :: rest =>
    if (if first then secondOk lead c else isTrail c) then 1 + accepted lead need false rest
    else 0

def low (b : UInt8) (bits : Nat) : Nat := b.toNat % Nat.pow 2 bits

def scalarOf (lead : UInt8) (conts : List UInt8) : Char :=
  Char.ofNat (conts.foldl (fun acc c => acc * 64 + low c 6) (low lead (6 - conts.length)))

/-- Splits a byte string into scalar values and maximal ill-formed subparts. -/
def pieces : List UInt8 → List Piece
  | [] => []
  | b :: rest =>
    if b < 0x80 then .scalar (Char.ofNat b.toNat) :: pieces rest
    else
      let need := width b
      let taken := accepted b need true rest
      if need ≠ 0 ∧ taken = need then .scalar (scalarOf b (rest.take need)) :: pieces (rest.drop need)
      else .invalid :: pieces (rest.drop taken)
termination_by bytes => bytes.length
decreasing_by all_goals (simp only [List.length_drop, List.length_cons]; omega)

def Piece.lossy : Piece → Char
  | .scalar c => c
  | .invalid => '�'

def Piece.scalar? : Piece → Option Char
  | .scalar c => some c
  | .invalid => none

/-- Lossy text: every maximal ill-formed subpart becomes one U+FFFD. -/
def lossy (bytes : List UInt8) : String :=
  String.ofList ((pieces bytes).map Piece.lossy)

def decode? (bytes : List UInt8) : Option String :=
  ((pieces bytes).mapM Piece.scalar?).map String.ofList

def isValid (bytes : List UInt8) : Bool := (decode? bytes).isSome

def encode (s : String) : List UInt8 := s.toUTF8.toList

end SysBytes.Text.Utf8
