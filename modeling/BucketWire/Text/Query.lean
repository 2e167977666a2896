import BucketWire.Text.Numeral
import BucketWire.Text.Utf8

/-!
# Query strings

Object tags travel as a form-encoded query, `k1=v1&k2=v2`: pairs parted by `&`, key and value by
the first `=`, a space written `+` and any byte `%XX`. Every text reads as some list of pairs; an
escape that is not followed by two hexadecimal digits stands for itself.

## Main definitions

* `Query.pieces` — the parts of a byte sequence between separators
* `Query.component` — the text that an encoded key or value stands for
* `Query.parse` — the pairs of a query, in order
-/

namespace BucketWire

namespace Query

/-- The parts of `bytes` between the bytes equal to `separator`; one more than there are
separators. -/
def pieces (separator : UInt8) : Bytes → List Bytes
  | [] => [[]]
  | b :: bytes =>
    if b = separator then [] :: pieces separator bytes
    else
      match pieces separator bytes with
      | [] => [[b]]
      | piece :: rest => (b :: piece) :: rest

/-- The value of `b` as a hexadecimal digit. -/
def hexDigit? (b : UInt8) : Option Nat := Numeral.digit? 16 (Char.ofNat b.toNat)

/-- `bytes` with every `%XX` replaced by the byte it stands for. -/
def percentDecode : Bytes → Bytes
  | 0x25 :: high :: low :: rest =>
    match hexDigit? high, hexDigit? low with
    | some h, some l => UInt8.ofNat (h * 16 + l) :: percentDecode rest
    | _, _ => 0x25 :: percentDecode (high :: low :: rest)
  | b :: rest => b :: percentDecode rest
  | [] => []

/-- `bytes` with a space for every `+`. -/
def plusToSpace (bytes : Bytes) : Bytes := bytes.map fun b => if b = 0x2B then 0x20 else b

/-- The text of an encoded key or value. -/
def component (bytes : Bytes) : String := Utf8.decodeLossy (percentDecode (plusToSpace bytes))

/-- The key and the value in one part of a query: what is before the first `=` and what is after
it, which is nothing if there is no `=`. -/
def pair (piece : Bytes) : String × String :=
  (component (piece.takeWhile (· != 0x3D)), component ((piece.dropWhile (· != 0x3D)).drop 1))

/-- The pairs of the query `text`, in order. Empty parts hold no pair. -/
def parse (text : String) : List (String × String) :=
  ((pieces 0x26 (Utf8.encode text)).filter fun piece => !piece.isEmpty).map pair

end Query

end BucketWire
