import BucketWire.Text.Numeral

/-!
# UTF-8

Documents and digests are sequences of bytes; names and values are text. This module turns text
into bytes and bytes into text, strictly or leniently.

Both readers look at one character at a time. `Utf8.front` says what stands at the front of a byte
sequence: a character, a maximal ill-formed part, or the beginning of a character that the
sequence cuts off.

## Main definitions

* `Bytes` — byte sequences
* `Utf8.encode` — the bytes of a text
* `Utf8.front` — what a byte sequence starts with
* `Utf8.decode` — strict decoding, which reports where it failed
* `Utf8.decodeLossy` — lenient decoding, which puts U+FFFD for every ill-formed part

## Main results

* `Utf8.length_lt_of_front_character`, `Utf8.length_lt_of_front_illFormed` — looking at the front
  of a sequence leaves a shorter one
-/

namespace BucketWire

/-- A sequence of bytes. -/
abbrev Bytes := List UInt8

namespace Utf8

/-- The bytes of a text. -/
def encode (text : String) : Bytes :=
  text.toList.flatMap String.utf8EncodeChar

/-! ### The front of a byte sequence -/

/-- What a byte sequence starts with. -/
inductive Front where
  /-- Nothing: the sequence is empty. -/
  | done
  /-- The character `c`, with `rest` after it. -/
  | character (c : Char) (rest : Bytes)
  /-- `length` bytes that no character starts with and that no further byte could mend. -/
  | illFormed (length : Nat) (rest : Bytes)
  /-- The first bytes of a character whose other bytes are missing at the end. -/
  | cutOff

/-- Whether `b` can continue a character, `10xxxxxx`. -/
def isContinuation (b : UInt8) : Bool := 0x80 ≤ b && b < 0xC0

/-- Whether `b` can be the second of three bytes after `lead`: neither an overlong form nor a
surrogate. -/
def isSecondOfThree (lead b : UInt8) : Bool :=
  if lead = 0xE0 then 0xA0 ≤ b && b < 0xC0
  else if lead = 0xED then 0x80 ≤ b && b < 0xA0
  else isContinuation b

/-- Whether `b` can be the second of four bytes after `lead`: neither an overlong form nor past
U+10FFFF. -/
def isSecondOfFour (lead b : UInt8) : Bool :=
  if lead = 0xF0 then 0x90 ≤ b && b < 0xC0
  else if lead = 0xF4 then 0x80 ≤ b && b < 0x90
  else isContinuation b

/-- The six low bits of a continuation byte. -/
def payload (b : UInt8) : Nat := b.toNat % 64

/-- The front after a first byte that announces one more. -/
def frontTwo (lead : UInt8) : Bytes → Front
  | [] => .cutOff
  | b :: rest =>
    if isContinuation b then .character (Char.ofNat (lead.toNat % 32 * 64 + payload b)) rest
    else .illFormed 1 (b :: rest)

/-- The front after a first byte that announces two more. -/
def frontThree (lead : UInt8) : Bytes → Front
  | [] => .cutOff
  | b :: rest =>
    if isSecondOfThree lead b then
      match rest with
      | [] => .cutOff
      | c :: rest =>
        if isContinuation c then
          .character (Char.ofNat (lead.toNat % 16 * 4096 + payload b * 64 + payload c)) rest
        else .illFormed 2 (c :: rest)
    else .illFormed 1 (b :: rest)

/-- The front after a first byte that announces three more. -/
def frontFour (lead : UInt8) : Bytes → Front
  | [] => .cutOff
  | b :: rest =>
    if isSecondOfFour lead b then
      match rest with
      | [] => .cutOff
      | c :: rest =>
        if isContinuation c then
          match rest with
          | [] => .cutOff
          | d :: rest =>
            if isContinuation d then
              .character (Char.ofNat (lead.toNat % 8 * 262144 + payload b * 4096
                + payload c * 64 + payload d)) rest
            else .illFormed 3 (d :: rest)
        else .illFormed 2 (c :: rest)
    else .illFormed 1 (b :: rest)

/-- What a byte sequence starts with. -/
def front : Bytes → Front
  | [] => .done
  | lead :: rest =>
    if lead < 0x80 then .character (Char.ofNat lead.toNat) rest
    else if lead < 0xC2 then .illFormed 1 rest
    else if lead < 0xE0 then frontTwo lead rest
    else if lead < 0xF0 then frontThree lead rest
    else if lead < 0xF5 then frontFour lead rest
    else .illFormed 1 rest

theorem length_lt_of_front_character {bytes rest : Bytes} {c : Char}
    (h : front bytes = .character c rest) : rest.length < bytes.length := by
  unfold front frontTwo frontThree frontFour at h
  grind

theorem length_lt_of_front_illFormed {bytes rest : Bytes} {n : Nat}
    (h : front bytes = .illFormed n rest) : rest.length < bytes.length := by
  unfold front frontTwo frontThree frontFour at h
  grind

/-! ### Strict decoding -/

/-- Where and how a byte sequence stops being UTF-8. -/
inductive Fault where
  /-- `length` bytes from `index` on belong to no character. -/
  | invalid (length index : Nat)
  /-- The sequence ends inside the character that starts at `index`. -/
  | incomplete (index : Nat)
  deriving DecidableEq, Repr

/-- The wording of a fault. -/
def Fault.message : Fault → String
  | .invalid length index =>
    "invalid utf-8 sequence of " ++ Numeral.decimal length ++ " bytes from index " ++
      Numeral.decimal index
  | .incomplete index => "incomplete utf-8 byte sequence from index " ++ Numeral.decimal index

/-- The characters of `bytes`, after the characters `seen` (last first) that took up `index`
bytes. -/
def decodeFrom (index : Nat) (seen : List Char) (bytes : Bytes) : Except Fault (List Char) :=
  match h : front bytes with
  | .done => .ok seen.reverse
  | .character c rest =>
    have := length_lt_of_front_character h
    decodeFrom (index + c.utf8Size) (c :: seen) rest
  | .illFormed length _ => .error (.invalid length index)
  | .cutOff => .error (.incomplete index)
termination_by bytes.length

/-- The text that `bytes` encode, or the first fault in them. -/
def decode (bytes : Bytes) : Except Fault String :=
  (decodeFrom 0 [] bytes).map String.ofList

/-! ### Lenient decoding -/

/-- The replacement character. -/
def replacement : Char := '\uFFFD'

/-- The characters of `bytes` with U+FFFD for every ill-formed part, after `seen` (last first). -/
def decodeLossyFrom (seen : List Char) (bytes : Bytes) : List Char :=
  match h : front bytes with
  | .done => seen.reverse
  | .character c rest =>
    have := length_lt_of_front_character h
    decodeLossyFrom (c :: seen) rest
  | .illFormed _ rest =>
    have := length_lt_of_front_illFormed h
    decodeLossyFrom (replacement :: seen) rest
  | .cutOff => (replacement :: seen).reverse
termination_by bytes.length

/-- The text of `bytes`, each maximal ill-formed part read as one U+FFFD. -/
def decodeLossy (bytes : Bytes) : String :=
  String.ofList (decodeLossyFrom [] bytes)

end Utf8

end BucketWire
