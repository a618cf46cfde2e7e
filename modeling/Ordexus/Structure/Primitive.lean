import Mathlib.Data.FinEnum
import Ordexus.Library.Borsh

/-!
# Primitive values

Byte strings, digests and addresses. A 32-byte digest or address is kept as the
number its bytes spell; the all-zero value is the number zero. Go strings are
byte strings.
-/

namespace Ordexus

abbrev Bytes := List UInt8

instance : LawfulBEq Bytes := List.instLawfulBEq

/-- A 32-byte digest. -/
abbrev Hash := ℕ

/-- A 32-byte account address or Ed25519 key. -/
abbrev PublicKey := ℕ

/-- A 64-byte Ed25519 signature. -/
abbrev Signature := ℕ

/-- The largest 64-bit unsigned value, `^uint64(0)`. -/
def maxUint64 : ℕ := 2 ^ 64 - 1

/-- Unsigned 64-bit arithmetic keeps the low 64 bits of a result. -/
def wrapUint64 (value : ℕ) : ℕ := value % 2 ^ 64

export Borsh (littleEndian bigEndian)

/-- `appendUint64ForHash`. -/
def uint64ForHash (value : ℕ) : Bytes :=
  littleEndian 8 value

/-- The UTF-8 encodings of the multi-byte runes that Go counts as white space. -/
def wideSpaces : List Bytes :=
  [[0xC2, 0x85], [0xC2, 0xA0], [0xE1, 0x9A, 0x80],
    [0xE2, 0x80, 0x80], [0xE2, 0x80, 0x81], [0xE2, 0x80, 0x82], [0xE2, 0x80, 0x83],
    [0xE2, 0x80, 0x84], [0xE2, 0x80, 0x85], [0xE2, 0x80, 0x86], [0xE2, 0x80, 0x87],
    [0xE2, 0x80, 0x88], [0xE2, 0x80, 0x89], [0xE2, 0x80, 0x8A], [0xE2, 0x80, 0xA8],
    [0xE2, 0x80, 0xA9], [0xE2, 0x80, 0xAF], [0xE2, 0x81, 0x9F], [0xE3, 0x80, 0x80]]

/-- The length of the white-space rune a text starts with, or zero. -/
def leadingSpace (text : Bytes) : ℕ :=
  match text with
  | [] => 0
  | byte :: _ =>
    if byte = 0x20 ∨ (0x09 ≤ byte ∧ byte ≤ 0x0D) then 1
    else ((wideSpaces.find? fun space => space.isPrefixOf text).map List.length).getD 0

/-- `strings.TrimSpace(text) == ""`: the text is empty or white space throughout.
The fuel is the length of the text. -/
def isBlankWithin : ℕ → Bytes → Bool
  | 0, text => text.isEmpty
  | fuel + 1, text =>
    text.isEmpty || (leadingSpace text != 0 && isBlankWithin fuel (text.drop (leadingSpace text)))

def isBlank (text : Bytes) : Bool :=
  isBlankWithin text.length text

def base58Alphabet : List Char :=
  "123456789ABCDEFGHJKLMNPQRSTUVWXYZabcdefghijkmnopqrstuvwxyz".toList

/-- The loop of `Base58Encode`: the digits of a number, the lowest one first. The fuel
bounds their count. -/
def base58Digits : ℕ → ℕ → List Char
  | 0, _ => []
  | fuel + 1, value =>
    if value = 0 then []
    else base58Alphabet.getD (value % 58) '1' :: base58Digits fuel (value / 58)

/-- `Base58Encode`: every leading zero byte is a digit of its own. -/
def base58Encode (value : Bytes) : List Char :=
  (base58Digits (2 * value.length) (Borsh.ofBigEndian value) ++
    (value.takeWhile (· = 0)).map fun _ => '1').reverse

/-- `Hash.String`, also the text of an address. -/
def Hash.text (hash : Hash) : List Char :=
  base58Encode (bigEndian 32 hash)

def Hash.string (hash : Hash) : String :=
  String.ofList hash.text

end Ordexus
