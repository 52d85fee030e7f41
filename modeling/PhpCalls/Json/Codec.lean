import PhpCalls.Dict
import PhpCalls.Json.Basic

set_option autoImplicit false

/-!
# Records as JSON

What the encoders and decoders of the records are put together from. A record is read from an
object, where members may come in any order, unknown members are passed over and a known one may
not be repeated; or from an array of its fields in the order in which they are declared, where only
a tail of fields that have a default may be missing.

## Main definitions

* `Decoder`: reads a value from JSON, or fails.
* `Fields`, `Fields.read`: the fields that a value gives to a record.
* `Fields.required`, `Fields.optional`, `Fields.defaulted`: reading one field.
* `Fields.optionalTail`: an optional field that has a default as well.
-/

namespace PhpCalls

/-- Reads a value from JSON, or fails. -/
abbrev Decoder (α : Type) := Json → Option α

namespace Decoder

variable {α : Type}

/-- Numbers stay below this bound. -/
def natBound : Nat := 0x10000000000000000

/-- A natural number below the bound. -/
def nat : Decoder Nat
  | .nat n => if n < natBound then some n else none
  | _ => none

/-- A text. -/
def str : Decoder String
  | .str s => some s
  | _ => none

/-- A truth value. -/
def bool : Decoder Bool
  | .bool b => some b
  | _ => none

/-- A value that may be `null`. -/
def option (d : Decoder α) : Decoder (Option α)
  | .null => some none
  | j => (d j).map some

/-- An array of values. -/
def list (d : Decoder α) : Decoder (List α)
  | .arr elements => elements.mapM d
  | _ => none

/-- An object read as a map; of two members with one key the later counts. -/
def dict (d : Decoder α) : Decoder (Dict α)
  | .obj members => do
    let entries ← members.mapM fun m => (d m.2).map fun v => (m.1, v)
    some (Dict.ofList entries)
  | _ => none

/-- One of finitely many values, by its spelling; `{"spelling": null}` is read too. -/
def oneOf (values : List α) (spelling : α → String) : Decoder α
  | .str s => values.find? fun a => spelling a = s
  | .obj [(s, .null)] => values.find? fun a => spelling a = s
  | _ => none

end Decoder

namespace Json

variable {α : Type}

/-- A text or `null`. -/
def optStr (s : Option String) : Json := ofOption .str s

/-- An array. -/
def list (f : α → Json) (as : List α) : Json := .arr (as.map f)

/-- A map as an object, in the order of its keys. -/
def dict (f : α → Json) (d : Dict α) : Json := .obj (d.entries.map fun e => (e.1, f e.2))

/-- A member that is written only if `keep` holds. -/
def memberIf (keep : Bool) (name : String) (value : Json) : List (String × Json) :=
  if keep then [(name, value)] else []

end Json

/-- The fields that a JSON value gives to a record. -/
structure Fields where
  /-- Whether they came in an array, one after the other. -/
  positional : Bool
  given : List (String × Json)

namespace Fields

variable {α : Type}

/-- The fields of a record with the given field names, in the order of declaration. -/
def read (names : List String) : Json → Option Fields
  | .obj members =>
    let known := members.filter fun m => names.contains m.1
    if (known.map Prod.fst).Nodup then some ⟨false, known⟩ else none
  | .arr elements =>
    if elements.length ≤ names.length then some ⟨true, names.zip elements⟩ else none
  | _ => none

/-- A field that must be given. -/
def required (f : Fields) (name : String) (d : Decoder α) : Option α :=
  match f.given.lookup name with
  | some j => d j
  | none => none

/-- A field that may be `null`; an object may leave it out. -/
def optional (f : Fields) (name : String) (d : Decoder α) : Option (Option α) :=
  match f.given.lookup name with
  | some j => d.option j
  | none => if f.positional then none else some none

/-- A field that has a default. -/
def defaulted (f : Fields) (name : String) (default : α) (d : Decoder α) : Option α :=
  match f.given.lookup name with
  | some j => d j
  | none => some default

/-- A field that may be `null` and may be left out, in an array too. -/
def optionalTail (f : Fields) (name : String) (d : Decoder α) : Option (Option α) :=
  f.defaulted name none d.option

end Fields

end PhpCalls
