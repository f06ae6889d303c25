set_option autoImplicit false

/-! # Hexadecimal text

Bytes and numbers in lower-case hexadecimal digits, and numbers filled up to a width. -/

namespace ShaderBytecode

/-- A byte as two hexadecimal digits. -/
def hexByte (b : UInt8) : List Char :=
  [Nat.digitChar (b.toNat / 16), Nat.digitChar (b.toNat % 16)]

/-- Bytes as hexadecimal digits. -/
def hexText (bytes : List UInt8) : String := String.ofList (bytes.flatMap hexByte)

/-- Text filled up on the left to at least `width` characters. -/
def padLeft (fill : Char) (width : Nat) (s : String) : String :=
  "".pushn fill (width - s.length) ++ s

/-- A number as `0x` and at least `width` hexadecimal digits. -/
def hexNumber (width n : Nat) : String :=
  "0x" ++ padLeft '0' width (String.ofList (Nat.toDigits 16 n))

end ShaderBytecode
