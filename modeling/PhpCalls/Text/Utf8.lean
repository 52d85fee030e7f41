set_option autoImplicit false

/-!
# Texts from bytes

Reading bytes as UTF-8 in two ways: strictly, where ill-formed bytes give no text, and leniently,
where each maximal ill-formed run is read as one replacement character.

## Main definitions

* `Text.ofBytes?`: the text, if the bytes are well-formed.
* `Text.ofBytesLossy`: always a text. An ill-formed sequence counts as one replacement character
  for its longest part that could have begun a well-formed one, and reading goes on after it.
-/

namespace PhpCalls.Text

/-- The bytes of the text. -/
def toBytes (s : String) : ByteArray := s.toUTF8

/-- The text of well-formed bytes. -/
def ofBytes? (bytes : ByteArray) : Option String := String.fromUTF8? bytes

/-- A byte that continues a character. -/
def isTail (b : Nat) : Bool := 0x80 ≤ b && b ≤ 0xBF

/-- The range of the second byte of a character, by its first byte; `none` if no longer character
begins so. -/
def secondRange (b : Nat) : Option (Nat × Nat) :=
  if 0xC2 ≤ b && b ≤ 0xDF then some (0x80, 0xBF)
  else if b == 0xE0 then some (0xA0, 0xBF)
  else if b == 0xED then some (0x80, 0x9F)
  else if 0xE1 ≤ b && b ≤ 0xEF then some (0x80, 0xBF)
  else if b == 0xF0 then some (0x90, 0xBF)
  else if b == 0xF4 then some (0x80, 0x8F)
  else if 0xF1 ≤ b && b ≤ 0xF3 then some (0x80, 0xBF)
  else none

/-- The number of bytes of a character, by its first byte. -/
def charWidth (b : Nat) : Nat :=
  if b < 0x80 then 1 else if b < 0xE0 then 2 else if b < 0xF0 then 3 else 4

/-- U+FFFD, which stands for what cannot be read. -/
def replacement : Char := '�'

/-- Reads the character at the head of `b :: bs`: the character and the number of bytes of `bs`
that belong to it. -/
def readChar (b : Nat) (bs : List Nat) : Char × Nat :=
  if b < 0x80 then (Char.ofNat b, 0)
  else
    match secondRange b, bs with
    | some (lo, hi), b₁ :: rest =>
      if b₁ < lo || hi < b₁ then (replacement, 0)
      else if charWidth b == 2 then (Char.ofNat ((b - 0xC0) * 64 + (b₁ - 0x80)), 1)
      else
        match rest with
        | [] => (replacement, 1)
        | b₂ :: rest' =>
          if !isTail b₂ then (replacement, 1)
          else if charWidth b == 3 then
            (Char.ofNat ((b - 0xE0) * 4096 + (b₁ - 0x80) * 64 + (b₂ - 0x80)), 2)
          else
            match rest' with
            | [] => (replacement, 2)
            | b₃ :: _ =>
              if !isTail b₃ then (replacement, 2)
              else
                (Char.ofNat ((b - 0xF0) * 262144 + (b₁ - 0x80) * 4096 + (b₂ - 0x80) * 64 +
                  (b₃ - 0x80)), 3)
    | _, _ => (replacement, 0)

/-- Reads all characters; the number counts bytes of the last character still to be passed. -/
def readChars : Nat → List Nat → List Char
  | _, [] => []
  | n + 1, _ :: bs => readChars n bs
  | 0, b :: bs =>
    let (c, used) := readChar b bs
    c :: readChars used bs

/-- The text of the bytes, ill-formed parts replaced. -/
def ofBytesLossy (bytes : ByteArray) : String :=
  String.ofList (readChars 0 (bytes.toList.map UInt8.toNat))

end PhpCalls.Text
