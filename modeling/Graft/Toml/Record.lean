import Graft.Decimal.Positional
import Graft.Text.Quoted
import Graft.Toml.Value

/-!
# Records in configuration files

A record is a value of known fields, read from a table entry by entry in the order
of the table. The first entry that does not fit is reported. An array can stand
for a record too: its items are the fields in the order of their declaration, and
fields without an item keep what they had.
-/

namespace Graft.Toml

/-- What does not fit. -/
inductive Misfit where
  /-- A key is no field of the record. -/
  | unknownField (key : String) (fields : List String)
  /-- A value has another type than the field. -/
  | invalidType (found expected : String)
  /-- An integer is negative where none may be. -/
  | negative (value : Int) (expected : String)
deriving DecidableEq, Repr

/-- A name in a message. -/
def ticked (name : String) : String :=
  "`" ++ name ++ "`"

/-- The choice of names in a message. -/
def choices : List String → String
  | [only] => "expected " ++ ticked only
  | [first, second] => "expected " ++ ticked first ++ " or " ++ ticked second
  | names => "expected one of " ++ ", ".intercalate (names.map ticked)

/-- The message of what does not fit. -/
def Misfit.message : Misfit → String
  | .unknownField key fields => "unknown field " ++ ticked key ++ ", " ++ choices fields
  | .invalidType found expected => "invalid type: " ++ found ++ ", expected " ++ expected
  | .negative value expected =>
    "invalid value: integer " ++ ticked (toString value) ++ ", expected " ++ expected

/-- What a value is, in messages. -/
def Value.described : Value → String
  | .string text => "string " ++ Text.Quoted.quote text
  | .integer value => "integer " ++ ticked (toString value)
  | .float value => "floating point " ++ ticked (Decimal.markedText value)
  | .boolean value => "boolean " ++ ticked (toString value)
  | .array _ | .tables _ => "sequence"
  | .datetime | .table _ _ => "map"

/-- A reader of values. -/
abbrev Decoder (α : Type) := Value → Except Misfit α

/-- A text, called as messages are to call it. -/
def decodeText (expected : String) : Decoder String
  | .string text => .ok text
  | value => .error (.invalidType value.described expected)

/-- A natural number, called as messages are to call it. -/
def decodeNatural (expected : String) : Decoder Nat
  | .integer value =>
    if 0 ≤ value then .ok value.toNat else .error (.negative value expected)
  | value => .error (.invalidType value.described expected)

/-- A double. An integer stands for the nearest double. -/
def decodeDouble : Decoder Float
  | .float value => .ok value
  | .integer value => .ok (Float.ofInt value)
  | value => .error (.invalidType value.described "f64")

/-- A field of a record of type `ρ`. -/
structure RecordField (ρ : Type) where
  key : String
  /-- Take the field's value into the record. -/
  enter : ρ → Value → Except Misfit ρ

/-- A field that a decoder and an update make. -/
def RecordField.of {ρ α : Type} (key : String) (decode : Decoder α) (update : ρ → α → ρ) :
    RecordField ρ where
  key
  enter record value := (decode value).map (update record)

/-- The key by which a date presents itself where a record is wanted. -/
def datetimeKey : String := "$__toml_private_datetime"

/-- Take one entry of a table into a record. -/
def enterKeyed {ρ : Type} (fields : List (RecordField ρ)) (record : ρ) (key : String)
    (value : Value) : Except Misfit ρ :=
  match fields.find? (·.key == key) with
  | some field => field.enter record value
  | none => .error (.unknownField key (fields.map RecordField.key))

/-- Read a record, starting from its defaults. -/
def decodeRecord {ρ : Type} (name : String) (fields : List (RecordField ρ)) (defaults : ρ) :
    Decoder ρ
  | .table _ entries =>
    entries.foldlM (fun record entry => enterKeyed fields record entry.1 entry.2) defaults
  | .array items | .tables items =>
    (fields.zip items).foldlM (fun record entry => entry.1.enter record entry.2) defaults
  | .datetime => .error (.unknownField datetimeKey (fields.map RecordField.key))
  | value => .error (.invalidType value.described ("struct " ++ name))

end Graft.Toml
