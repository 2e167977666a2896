import BucketWire.Text.Numeral
import BucketWire.Text.Utf8

/-!
# References

What stands between `&` and `;` names a character: by its code, decimal or hexadecimal, or by one
of five names. Everything else is a fault.

## Main definitions

* `Reference.Fault` — why a reference names no character
* `Reference.predefined?` — the characters that have a name
* `Reference.ofCode` — the character that a numeral names
* `Reference.resolve` — the character that a reference names
-/

namespace BucketWire

namespace Reference

/-- Why a reference names no character. -/
inductive Fault where
  /-- The reference is not UTF-8. -/
  | encoding (fault : Utf8.Fault)
  /-- There is no such name. -/
  | unknown (name : String)
  /-- The code has a sign. -/
  | sign
  /-- The code is no numeral of 32 bits. -/
  | numeral (fault : Numeral.Fault)
  /-- The code is zero. -/
  | null
  /-- No character has this code. -/
  | noCharacter (code : Nat)
  deriving DecidableEq, Repr

/-- The wording of a fault. -/
def Fault.message : Fault → String
  | .encoding fault => "cannot decode input using UTF-8: " ++ fault.message
  | .unknown name => "unknown entity: &" ++ name ++ ";"
  | .sign => "invalid character reference: unexpected number sign"
  | .numeral fault => "invalid character reference: " ++ fault.message
  | .null => "invalid character reference: 0x0 character is not permitted in XML"
  | .noCharacter code =>
    "invalid character reference: `" ++ Numeral.decimal code ++ "` is not a valid codepoint"

/-- The character that a name stands for. -/
def predefined? : String → Option Char
  | "lt" => some '<'
  | "gt" => some '>'
  | "amp" => some '&'
  | "apos" => some '\''
  | "quot" => some '"'
  | _ => none

/-- The character whose code is the numeral `digits` of `base`. -/
def ofCode (base : Nat) (digits : List Char) : Except Fault Char :=
  if digits.head? = some '+' ∨ digits.head? = some '-' then .error .sign
  else
    match Numeral.readUnsigned base 32 digits with
    | .error fault => .error (.numeral fault)
    | .ok code =>
      if code = 0 then .error .null
      else if code.isValidChar then .ok (Char.ofNat code)
      else .error (.noCharacter code)

/-- The character that the reference `name` stands for: one with a number sign by its code, any
other by its name. -/
def ofName (name : String) : Except Fault Char :=
  match name.toList with
  | '#' :: 'x' :: digits => ofCode 16 digits
  | '#' :: digits => ofCode 10 digits
  | _ =>
    match predefined? name with
    | some c => .ok c
    | none => .error (.unknown name)

/-- The character that a reference stands for, without its `&` and `;`. -/
def resolve (raw : Bytes) : Except Fault Char :=
  match Utf8.decode raw with
  | .error fault => .error (.encoding fault)
  | .ok name => ofName name

end Reference

end BucketWire
