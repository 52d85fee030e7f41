set_option autoImplicit false

/-!
# TOML values

## Main definitions

* `Toml`: a value.
* `Toml.member?`: the value of a key in a table.
-/

namespace PhpCalls

/-- A TOML value. -/
inductive Toml where
  | str (s : String)
  | int (n : Int)
  | bool (b : Bool)
  /-- A value that no configuration holds: a float, a date or a time. -/
  | other
  | arr (elements : List Toml)
  | table (entries : List (String × Toml))
deriving Inhabited

/-- The value of a key in a table. -/
def Toml.member? (t : Toml) (key : String) : Option Toml :=
  match t with
  | .table entries => entries.lookup key
  | _ => none

end PhpCalls
