import Mathlib.Algebra.GroupWithZero.Nat
import Mathlib.Data.List.DropRight

namespace AbyssBackend.Text

/-- Rust's `char::is_whitespace`: the Unicode property `White_Space`. -/
def isWhitespace (c : Char) : Bool :=
  let code := c.toNat
  (0x9 ≤ code && code ≤ 0xD) || code = 0x20 || code = 0x85 || code = 0xA0 || code = 0x1680 ||
    (0x2000 ≤ code && code ≤ 0x200A) || code = 0x2028 || code = 0x2029 || code = 0x202F ||
    code = 0x205F || code = 0x3000

def trim (text : String) : String :=
  String.ofList ((text.toList.dropWhile isWhitespace).rdropWhile isWhitespace)

def lenUtf16 (c : Char) : ℕ :=
  if c.toNat < 0x10000 then 1 else 2

def utf16Length (text : String) : ℕ :=
  (text.toList.map lenUtf16).sum

def hexDigit (n : ℕ) : Char :=
  "0123456789abcdef".toList.getD n '0'

/-- `hex::encode`: two lowercase digits for each byte. -/
def hexEncode (bytes : List UInt8) : String :=
  String.ofList (bytes.flatMap fun byte => [hexDigit (byte.toNat / 16), hexDigit (byte.toNat % 16)])

def dropBytes : List Char → ℕ → Option (List Char)
  | cs, 0 => some cs
  | [], _ + 1 => none
  | c :: cs, n + 1 => if c.utf8Size ≤ n + 1 then dropBytes cs (n + 1 - c.utf8Size) else none

def takeBytes : List Char → ℕ → Option (List Char)
  | _, 0 => some []
  | [], _ + 1 => none
  | c :: cs, n + 1 => if c.utf8Size ≤ n + 1 then (takeBytes cs (n + 1 - c.utf8Size)).map (c :: ·) else none

/-- Rust's `str::get` of a range of bytes. -/
def byteSlice (text : List Char) (start finish : ℕ) : Option (List Char) :=
  if start ≤ finish then (dropBytes text start).bind fun rest => takeBytes rest (finish - start) else none

def utf8 (text : String) : List UInt8 := text.toUTF8.data.toList

/-- SHA-256, which the program takes from a library. -/
class Sha256 where
  digestBytes : List UInt8 → List UInt8

def Sha256.digest [Sha256] (text : String) : List UInt8 := Sha256.digestBytes (utf8 text)

end AbyssBackend.Text
