import BucketWire.Decode.Decoder

/-!
# Records by their fields

A record is decoded by a table of fields: the name of a child element, how the child is read, and
where the value goes. A child that the table does not name is skipped, or is an error, as the
record decides.

## Main definitions

* `Field` — a line of the table
* `Field.find?` — the line of a name
* `Field.lift` — a line for a part of a record as a line for the record
* `Decoder.record` — a record whose other children are skipped
* `Decoder.strictRecord` — a record that has no other children
* `Decoder.items` — a list of equally named children
-/

namespace BucketWire

/-- How the child element `name` changes a record of type `ρ`. -/
structure Field (ρ : Type) where
  name : String
  change : Decoder (ρ → ρ)

namespace Field

variable {ρ τ α : Type}

/-- The child `name` is read by `d` and stored by `set`. -/
def store (name : String) (d : Decoder α) (set : α → ρ → ρ) : Field ρ := ⟨name, d.map set⟩

/-- What the table says of the child `name`. -/
def find? (fields : List (Field ρ)) (name : String) : Option (Decoder (ρ → ρ)) :=
  (fields.find? fun field => field.name = name).map change

/-- A field of a part as a field of the whole; `modify` changes the part within the whole. -/
def lift (modify : (ρ → ρ) → τ → τ) (field : Field ρ) : Field τ :=
  ⟨field.name, field.change.map modify⟩

end Field

namespace Decoder

variable {ρ α : Type}

/-- Skip a child and leave everything as it is. -/
def ignore : Decoder (ρ → ρ) := skip.map fun _ => id

/-- A record whose children may be anything; `context` names the element. -/
def record (context : String) (fields : List (Field ρ)) (zero : ρ) : Decoder ρ :=
  children context (fun name => (Field.find? fields name).getD ignore) zero

/-- A record that has no children but its fields; `context` names the element. -/
def strictRecord (context : String) (fields : List (Field ρ)) (zero : ρ) : Decoder ρ :=
  children context (fun name => (Field.find? fields name).getD (unrecognized name)) zero

/-- The values of the children called `item`, in order; other children are skipped. -/
def items (item : String) (d : Decoder α) : Decoder (List α) :=
  record "list" [Field.store item d fun a items => items ++ [a]] []

end Decoder

end BucketWire
