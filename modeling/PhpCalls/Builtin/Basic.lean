import PhpCalls.Builtin.Names
import PhpCalls.Text.Basic
import Std.Data.HashSet

set_option autoImplicit false

/-!
# Names with a meaning of their own

PHP functions are found without regard to letter case, and a leading backslash only names the
global namespace. Some method names are reserved for hooks of an object's life; they too are
compared without regard to case.

## Main definitions

* `Builtin.isFunction`: whether a name is that of a provided function.
* `Builtin.isMagic`, `Builtin.isConstructor`: whether a method name is a hook, or the constructor.
-/

namespace PhpCalls.Builtin

/-- The provided functions as a set. -/
def functionSet : Std.HashSet String := Std.HashSet.ofList functionNames

/-- The number of provided functions. -/
def functionCount : Nat := functionSet.size

/-- Whether a name, leading backslashes aside and in any letter case, is that of a provided
function. -/
def isFunction (name : String) : Bool :=
  let name := Text.trimStart (· == '\\') name
  functionSet.contains name || functionSet.contains (Text.foldCase name)

/-- The method names that PHP reserves for hooks. -/
def magicNames : List String :=
  ["__construct", "__destruct", "__call", "__callStatic", "__get", "__set", "__isset", "__unset",
   "__toString", "__invoke", "__clone", "__sleep", "__wakeup", "__serialize", "__unserialize",
   "__set_state", "__debugInfo", "__autoload"]

/-- Whether a method name is a hook, in any letter case. -/
def isMagic (name : String) : Bool :=
  magicNames.any fun hook => Text.sameFold hook name

/-- The name of the constructor. -/
def constructor : String := "__construct"

/-- Whether a method name is the constructor's, in any letter case. -/
def isConstructor (name : String) : Bool :=
  Text.sameFold name constructor

/-- The name of the constructor is written in small letters. -/
theorem isConstructor_eq_decide (name : String) :
    isConstructor name = decide (Text.foldCase name = constructor) := by
  have hfold : Text.foldCase constructor = constructor := by decide
  rw [isConstructor, Text.sameFold, hfold, Bool.beq_eq_decide_eq]

end PhpCalls.Builtin
