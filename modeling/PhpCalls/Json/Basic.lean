set_option autoImplicit false

/-!
# JSON values

A JSON value as records use it. Objects keep their members in the order of the text, repeated keys
included. The records hold no number but naturals and no text that is not well-formed Unicode, so
values that only a reader of something else could use are not told apart: they are `other`.
-/

namespace PhpCalls

/-- A JSON value. -/
inductive Json where
  | null
  | bool (b : Bool)
  /-- A number written with digits alone. -/
  | nat (n : Nat)
  | str (s : String)
  | arr (elements : List Json)
  | obj (members : List (String × Json))
  /-- A value that no record can hold: another number, a text with half of a surrogate pair, or an
  object with such a text as a key. -/
  | other
deriving Inhabited

namespace Json

/-- The value of a member of an object; the first counts. -/
def member? (j : Json) (key : String) : Option Json :=
  match j with
  | .obj members => members.lookup key
  | _ => none

/-- A text as a value. -/
def ofOption {α : Type} (f : α → Json) : Option α → Json
  | none => .null
  | some a => f a

end Json

end PhpCalls
