import ShaderBytecode.Bytes.LittleEndian
import ShaderBytecode.Signature.Basic

set_option autoImplicit false

/-! # Writing signatures

Signatures are written with short entries. The names follow the table in the same order, each with a
zero byte at its end, and the chunk is filled up to a multiple of four bytes. -/

namespace ShaderBytecode

namespace Signature

/-- A name with the zero byte after it. -/
def nameBytes (name : String) : List UInt8 := name.toUTF8.data.toList ++ [0]

/-- The entry of an element whose name is at the given offset. Of stream and precision the lowest
    byte is kept. -/
def entryBytes (nameOffset : Nat) (e : SignatureElement) : List UInt8 :=
  LittleEndian.encodeAll 4 [nameOffset, e.index.toNat, e.systemValue.toNat,
      e.componentType.toNat, e.register.toNat]
    ++ [e.mask, e.usageMask, e.stream.toUInt8, e.precision.toUInt8]

/-- The entries of elements whose names follow each other from the given offset on. -/
def tableBytes (nameOffset : Nat) : Signature → List UInt8
  | [] => []
  | e :: rest =>
      entryBytes nameOffset e ++ tableBytes (nameOffset + (nameBytes e.name).length) rest

/-- The names one after another. -/
def namesBytes (signature : Signature) : List UInt8 :=
  signature.flatMap fun e => nameBytes e.name

/-- The payload of a signature chunk. -/
def toBytes (signature : Signature) : List UInt8 :=
  let tableEnd := headerLength + ElementLayout.short.size * signature.length
  let names := namesBytes signature
  LittleEndian.encodeAll 4 [signature.length, headerLength]
    ++ tableBytes tableEnd signature
    ++ names
    ++ List.replicate ((4 - names.length % 4) % 4) 0xAB

end Signature

end ShaderBytecode
