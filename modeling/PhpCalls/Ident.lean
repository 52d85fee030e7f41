import PhpCalls.Text.Sha256
import PhpCalls.Text.Utf8

set_option autoImplicit false

/-!
# Identifiers made from contents

A declaration is known across files by an identifier: a prefix for its sort and eight hexadecimal
digits of the digest of a key text. The key text joins file, owner, name and lines with bars.

## Main definitions

* `shortHash`, `checksum`: eight digits of the digest of a text, all digits of that of bytes.
* `Ident.key`, `Ident.routine`, `Ident.classDecl`: the key text and the two sorts of identifier.
-/

namespace PhpCalls

/-- The first eight hexadecimal digits of the digest of a text. -/
def shortHash (s : String) : String :=
  Sha256.hex ((Sha256.digest (Text.toBytes s).toList).take 4)

/-- All hexadecimal digits of the digest of bytes. -/
def checksum (bytes : ByteArray) : String :=
  Sha256.hex (Sha256.digest bytes.toList)

namespace Ident

/-- The key text of a declaration: its file, its owner (a class or a namespace, empty when there is
none), its name, and its first and last line. -/
def key (file : String) (owner : Option String) (name : String) (first last : Nat) : String :=
  "|".intercalate [file, owner.getD "", name, toString first, toString last]

/-- The identifier of a function or method. -/
def routine (file : String) (owner : Option String) (name : String) (first last : Nat) : String :=
  "method_" ++ shortHash (key file owner name first last)

/-- The identifier of a class. -/
def classDecl (file : String) (owner : Option String) (name : String) (first last : Nat) :
    String :=
  "class_" ++ shortHash (key file owner name first last)

end Ident

end PhpCalls
