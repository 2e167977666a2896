import BucketWire.Text.Utf8

/-!
# Base64

Digests are kept as text in base64 with the standard alphabet. Padding is required, and the bits
that no byte uses have to be zero, so every byte sequence has exactly one such text.

A text is read in groups of four symbols. The last group, which may be padded, is read apart from
the others.

## Main definitions

* `Base64.encode` — the text of a byte sequence
* `Base64.decode` — the bytes of a text
* `Base64.Fault` — why a text is no base64
-/

namespace BucketWire

namespace Base64

/-- Why a text is no base64. Offsets count bytes. -/
inductive Fault where
  /-- The byte at `offset` cannot stand there. -/
  | invalidSymbol (byte : UInt8) (offset : Nat)
  /-- The text ends with a group of a single symbol, the `length`-th byte of the text. -/
  | invalidLength (length : Nat)
  /-- The last symbol has bits that no byte uses. -/
  | invalidLastSymbol (byte : UInt8) (offset : Nat)
  /-- The last group is not filled up with padding. -/
  | invalidPadding
  deriving DecidableEq, Repr

/-- The wording of a fault. -/
def Fault.message : Fault → String
  | .invalidSymbol byte offset =>
    "Invalid symbol " ++ Numeral.decimal byte.toNat ++ ", offset " ++ Numeral.decimal offset ++ "."
  | .invalidLength length => "Invalid input length: " ++ Numeral.decimal length
  | .invalidLastSymbol byte offset =>
    "Invalid last symbol " ++ Numeral.decimal byte.toNat ++ ", offset " ++
      Numeral.decimal offset ++ "."
  | .invalidPadding => "Invalid padding"

/-! ### The alphabet -/

/-- The padding sign `=`. -/
abbrev padding : UInt8 := 0x3D

/-- The symbol of a value below 64. -/
def symbol (value : Nat) : UInt8 :=
  if value < 26 then UInt8.ofNat (value + 65)
  else if value < 52 then UInt8.ofNat (value + 71)
  else if value < 62 then UInt8.ofNat (value - 4)
  else if value = 62 then 0x2B
  else 0x2F

/-- The value of a symbol. -/
def value? (b : UInt8) : Option Nat :=
  if 0x41 ≤ b ∧ b ≤ 0x5A then some (b.toNat - 65)
  else if 0x61 ≤ b ∧ b ≤ 0x7A then some (b.toNat - 71)
  else if 0x30 ≤ b ∧ b ≤ 0x39 then some (b.toNat + 4)
  else if b = 0x2B then some 62
  else if b = 0x2F then some 63
  else none

/-! ### Encoding -/

/-- The symbols of a byte sequence. -/
def encodeBytes : Bytes → Bytes
  | [] => []
  | [a] => [symbol (a.toNat / 4), symbol (a.toNat % 4 * 16), padding, padding]
  | [a, b] =>
    [symbol (a.toNat / 4), symbol (a.toNat % 4 * 16 + b.toNat / 16), symbol (b.toNat % 16 * 4),
      padding]
  | a :: b :: c :: rest =>
    symbol (a.toNat / 4) :: symbol (a.toNat % 4 * 16 + b.toNat / 16) ::
      symbol (b.toNat % 16 * 4 + c.toNat / 64) :: symbol (c.toNat % 64) :: encodeBytes rest

/-- The text of a byte sequence. -/
def encode (bytes : Bytes) : String :=
  String.ofList ((encodeBytes bytes).map fun b => Char.ofNat b.toNat)

/-! ### Decoding -/

/-- The value of the symbol at `offset`. -/
def readSymbol (offset : Nat) (b : UInt8) : Except Fault Nat :=
  match value? b with
  | some value => .ok value
  | none => .error (.invalidSymbol b offset)

/-- The three bytes of four values. -/
def threeBytes (a b c d : Nat) : Bytes :=
  [UInt8.ofNat (a * 4 + b / 16), UInt8.ofNat (b % 16 * 16 + c / 4), UInt8.ofNat (c % 4 * 64 + d)]

/-- The values of the symbols of the last group, from `position` within it on. Padding may only
follow two symbols, and only padding may follow padding, which began at `padded`. -/
def lastValues (offset position : Nat) (padded : Option Nat) : Bytes → Except Fault (List Nat)
  | [] => .ok []
  | b :: rest =>
    if b = padding then
      if position < 2 then .error (.invalidSymbol b (offset + position))
      else lastValues offset (position + 1) (some (padded.getD position)) rest
    else
      match padded with
      | some first => .error (.invalidSymbol padding (offset + first))
      | none => do
        let value ← readSymbol (offset + position) b
        let values ← lastValues offset (position + 1) none rest
        return value :: values

/-- The bytes of the last group, one to four bytes long, which starts at `offset`. -/
def lastGroup (offset : Nat) (group : Bytes) : Except Fault Bytes := do
  let values ← lastValues offset 0 none group
  let fault := Fault.invalidLastSymbol ((group[values.length - 1]?).getD padding)
    (offset + values.length - 1)
  if values.length < 2 then .error (.invalidLength (offset + values.length))
  else if group.length ≠ 4 then .error .invalidPadding
  else
    match values with
    | [a, b] => if b % 16 = 0 then .ok [UInt8.ofNat (a * 4 + b / 16)] else .error fault
    | [a, b, c] =>
      if c % 4 = 0 then .ok [UInt8.ofNat (a * 4 + b / 16), UInt8.ofNat (b % 16 * 16 + c / 4)]
      else .error fault
    | [a, b, c, d] => .ok (threeBytes a b c d)
    | _ => .error .invalidPadding

/-- The bytes of the groups from `offset` on. -/
def decodeGroups (offset : Nat) : Bytes → Except Fault Bytes
  | [] => .ok []
  | a :: b :: c :: d :: e :: rest => do
    let a ← readSymbol offset a
    let b ← readSymbol (offset + 1) b
    let c ← readSymbol (offset + 2) c
    let d ← readSymbol (offset + 3) d
    let bytes ← decodeGroups (offset + 4) (e :: rest)
    return threeBytes a b c d ++ bytes
  | group => lastGroup offset group

/-- The fault of a byte that is left over after full groups and is no symbol, which is noticed
before anything else. -/
def strayByte? (bytes : Bytes) : Option Fault :=
  match bytes.getLast? with
  | none => none
  | some b =>
    if bytes.length % 4 = 1 ∧ b ≠ padding ∧ (value? b).isNone then
      some (.invalidSymbol b (bytes.length - 1))
    else none

/-- The bytes that `text` stands for. -/
def decode (text : String) : Except Fault Bytes :=
  let bytes := Utf8.encode text
  match strayByte? bytes with
  | some fault => .error fault
  | none => decodeGroups 0 bytes

end Base64

end BucketWire
