import ShaderBytecode.Operand.Basic
import ShaderBytecode.Decimal.Layout

set_option autoImplicit false

/-! # Operands as assembly text

A register is written as its letters and first index, further indices in brackets, and the components
it picks after a point. Immediate values are written as floating-point numbers, whatever the
instruction makes of them. -/

namespace ShaderBytecode

namespace Components

/-- The components after a register, with the point before them. -/
def text : Components → String
  | .none | .scalar => ""
  | .mask bits =>
      let numbers : List UInt8 := [0, 1, 2, 3]
      let written := numbers.filter fun n => (bits >>> n) &&& 1 == 1
      "." ++ String.ofList (written.map laneName)
  | .swizzle lanes => "." ++ String.ofList (lanes.toList.map laneName)
  | .select component => "." ++ (laneName component).toString

end Components

namespace Immediate

/-- Values are written in full from a ten-thousandth up to, not including, ten to the sixteenth. -/
def layout : DecimalLayout where
  leastPositional := -4
  leastScientific := 16
  notANumber := "NaN"
  infinity := "inf"
  zero := "0.0"

/-- The values as numbers, after `l` for the narrow and `d` for the wide format. -/
def text : Immediate → String
  | .words values =>
      let numbers := values.map fun bits => layout.text .single bits.toNat
      "l(" ++ ", ".intercalate numbers ++ ")"
  | .doubleWords values =>
      let numbers := values.map fun bits => layout.text .double bits.toNat
      "d(" ++ ", ".intercalate numbers ++ ")"

end Immediate

namespace Operand

/-- The indices of a register; all but the first stand in brackets. -/
def indexText : List RegisterIndex → String
  | [] => ""
  | first :: rest =>
      toString first.toNat ++ String.join (rest.map fun index => s!"[{index.toNat}]")

/-- The operand in assembly text. Values are shown whenever there are any. -/
def text (op : Operand) : String :=
  match op.immediate with
  | some values => values.text
  | none => op.kind.symbol ++ indexText op.indices ++ op.components.text

end Operand

end ShaderBytecode
