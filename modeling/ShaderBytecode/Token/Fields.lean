import ShaderBytecode.Token.BitRange
import ShaderBytecode.Lanes

set_option autoImplicit false

/-! # Where the fields of each token lie

The layout of every kind of token, written down once: the decoder reads through these ranges and the
encoder writes through them. -/

namespace ShaderBytecode

/-! ## The first token of a program -/

namespace VersionToken

def minor : BitRange := { lo := 0, hi := 3 }
def major : BitRange := { lo := 4, hi := 7 }
def programType : BitRange := { lo := 16, hi := 31 }

end VersionToken

/-! ## The first token of an instruction -/

namespace OpcodeToken

def opcode : BitRange := { lo := 0, hi := 10 }

/-- The instruction's length in tokens, this one included. -/
def length : BitRange := { lo := 24, hi := 30 }

/-- Set when extension tokens follow. -/
def extended : BitRange := .bit 31

/-- Constant buffers: set when the buffer is indexed with computed values. -/
def dynamicAccess : BitRange := .bit 11

def samplerMode : BitRange := { lo := 11, hi := 14 }
def resourceDimension : BitRange := { lo := 11, hi := 15 }
def sampleCount : BitRange := { lo := 16, hi := 22 }

/-- The longest instruction the length field can express. -/
def maxLength : Nat := 127

end OpcodeToken

/-! ## Extension tokens of an instruction -/

namespace ExtensionToken

def kind : BitRange := { lo := 0, hi := 5 }

/-- Set when another extension token follows. -/
def continues : BitRange := .bit 31

/-- The kind that carries a resource dimension. -/
def resourceDimensionKind : UInt32 := 2

/-- The kind that carries four return types. -/
def returnTypesKind : UInt32 := 3

def resourceDimension : BitRange := { lo := 6, hi := 10 }

def returnTypes : Lanes BitRange :=
  ⟨{ lo := 6, hi := 9 }, { lo := 10, hi := 13 }, { lo := 14, hi := 17 }, { lo := 18, hi := 21 }⟩

end ExtensionToken

/-! ## Tokens after the operand of a declaration -/

namespace DeclarationToken

def systemValue : BitRange := { lo := 0, hi := 15 }

def returnTypes : Lanes BitRange :=
  ⟨{ lo := 0, hi := 3 }, { lo := 4, hi := 7 }, { lo := 8, hi := 11 }, { lo := 12, hi := 15 }⟩

end DeclarationToken

/-! ## The first token of an operand -/

namespace OperandToken

/-- How many components: 0 for none, 1 for one, 2 for four. -/
def componentCount : BitRange := { lo := 0, hi := 1 }

/-- How four components are picked: 0 by mask, 1 by swizzle, 2 by a single component. -/
def selectionMode : BitRange := { lo := 2, hi := 3 }

def writeMask : BitRange := { lo := 4, hi := 7 }

def swizzle : Lanes BitRange :=
  ⟨{ lo := 4, hi := 5 }, { lo := 6, hi := 7 }, { lo := 8, hi := 9 }, { lo := 10, hi := 11 }⟩

def selectedComponent : BitRange := { lo := 4, hi := 5 }
def kind : BitRange := { lo := 12, hi := 19 }
def indexCount : BitRange := { lo := 20, hi := 21 }

/-- How each of up to three indices is written: 0 as one token, 1 as two. -/
def indexForms : List BitRange :=
  [{ lo := 22, hi := 24 }, { lo := 25, hi := 27 }, { lo := 28, hi := 30 }]

/-- Set when an extended operand token follows. -/
def extended : BitRange := .bit 31

end OperandToken

end ShaderBytecode
