import ShaderBytecode.Coded

set_option autoImplicit false

/-! # Opcodes

The operations of shader model 4.0. Only some of them have a decoded form (`Instruction`); the rest
are listed so that a message about an instruction can still name it. Declarations are the closing
block of the list. -/

namespace ShaderBytecode

/-- An operation of shader model 4.0. -/
inductive Opcode where
  | add | and | «break» | breakc | call | callc | «case» | «continue» | continuec | cut
  | default | derivRtx | derivRty | discard | div | dp2 | dp3 | dp4 | «else» | emit
  | emitThenCut | endIf | endLoop | endSwitch | eq | exp | frc | ftoi | ftou | ge | iadd | «if»
  | ieq | ige | ilt | imad | imax | imin | imul | ine | ineg | ishl | ishr | itof | label | ld
  | ldMs | log | loop | lt | mad | min | max | customData | mov | movc | mul | ne | nop
  | not | or | resInfo | ret | retc | roundNe | roundNi | roundPi | roundZ | rsq | sample
  | sampleC | sampleCLz | sampleL | sampleD | sampleB | sqrt | switch | sincos | udiv | ult
  | uge | umul | umad | umax | umin | ushr | utof | xor | dclResource | dclConstantBuffer
  | dclSampler | dclIndexRange | dclGsOutputPrimitiveTopology | dclGsInputPrimitive
  | dclMaxOutputVertexCount | dclInput | dclInputSgv | dclInputSiv | dclInputPs | dclInputPsSgv
  | dclInputPsSiv | dclOutput | dclOutputSgv | dclOutputSiv | dclTemps | dclIndexableTemp
  | dclGlobalFlags
  deriving DecidableEq, Repr

namespace Opcode

/-- The number of each operation and its name in assembly text. -/
def entry : Opcode → UInt32 × String
  | .add => (0, "add")
  | .and => (1, "and")
  | .«break» => (2, "break")
  | .breakc => (3, "breakc")
  | .call => (4, "call")
  | .callc => (5, "callc")
  | .«case» => (6, "case")
  | .«continue» => (7, "continue")
  | .continuec => (8, "continuec")
  | .cut => (9, "cut")
  | .default => (10, "default")
  | .derivRtx => (11, "deriv_rtx")
  | .derivRty => (12, "deriv_rty")
  | .discard => (13, "discard")
  | .div => (14, "div")
  | .dp2 => (15, "dp2")
  | .dp3 => (16, "dp3")
  | .dp4 => (17, "dp4")
  | .«else» => (18, "else")
  | .emit => (19, "emit")
  | .emitThenCut => (20, "emit_then_cut")
  | .endIf => (21, "endif")
  | .endLoop => (22, "endloop")
  | .endSwitch => (23, "endswitch")
  | .eq => (24, "eq")
  | .exp => (25, "exp")
  | .frc => (26, "frc")
  | .ftoi => (27, "ftoi")
  | .ftou => (28, "ftou")
  | .ge => (29, "ge")
  | .iadd => (30, "iadd")
  | .«if» => (31, "if")
  | .ieq => (32, "ieq")
  | .ige => (33, "ige")
  | .ilt => (34, "ilt")
  | .imad => (35, "imad")
  | .imax => (36, "imax")
  | .imin => (37, "imin")
  | .imul => (38, "imul")
  | .ine => (39, "ine")
  | .ineg => (40, "ineg")
  | .ishl => (41, "ishl")
  | .ishr => (42, "ishr")
  | .itof => (43, "itof")
  | .label => (44, "label")
  | .ld => (45, "ld")
  | .ldMs => (46, "ld_ms")
  | .log => (47, "log")
  | .loop => (48, "loop")
  | .lt => (49, "lt")
  | .mad => (50, "mad")
  | .min => (51, "min")
  | .max => (52, "max")
  | .customData => (53, "customdata")
  | .mov => (54, "mov")
  | .movc => (55, "movc")
  | .mul => (56, "mul")
  | .ne => (57, "ne")
  | .nop => (58, "nop")
  | .not => (59, "not")
  | .or => (60, "or")
  | .resInfo => (61, "resinfo")
  | .ret => (62, "ret")
  | .retc => (63, "retc")
  | .roundNe => (64, "round_ne")
  | .roundNi => (65, "round_ni")
  | .roundPi => (66, "round_pi")
  | .roundZ => (67, "round_z")
  | .rsq => (68, "rsq")
  | .sample => (69, "sample")
  | .sampleC => (70, "sample_c")
  | .sampleCLz => (71, "sample_c_lz")
  | .sampleL => (72, "sample_l")
  | .sampleD => (73, "sample_d")
  | .sampleB => (74, "sample_b")
  | .sqrt => (75, "sqrt")
  | .switch => (76, "switch")
  | .sincos => (77, "sincos")
  | .udiv => (78, "udiv")
  | .ult => (79, "ult")
  | .uge => (80, "uge")
  | .umul => (81, "umul")
  | .umad => (82, "umad")
  | .umax => (83, "umax")
  | .umin => (84, "umin")
  | .ushr => (85, "ushr")
  | .utof => (86, "utof")
  | .xor => (87, "xor")
  | .dclResource => (88, "dcl_resource")
  | .dclConstantBuffer => (89, "dcl_constantbuffer")
  | .dclSampler => (90, "dcl_sampler")
  | .dclIndexRange => (91, "dcl_indexrange")
  | .dclGsOutputPrimitiveTopology => (92, "dcl_outputtopology")
  | .dclGsInputPrimitive => (93, "dcl_inputprimitive")
  | .dclMaxOutputVertexCount => (94, "dcl_maxout")
  | .dclInput => (95, "dcl_input")
  | .dclInputSgv => (96, "dcl_input_sgv")
  | .dclInputSiv => (97, "dcl_input_siv")
  | .dclInputPs => (98, "dcl_input_ps")
  | .dclInputPsSgv => (99, "dcl_input_ps_sgv")
  | .dclInputPsSiv => (100, "dcl_input_ps_siv")
  | .dclOutput => (101, "dcl_output")
  | .dclOutputSgv => (102, "dcl_output_sgv")
  | .dclOutputSiv => (103, "dcl_output_siv")
  | .dclTemps => (104, "dcl_temps")
  | .dclIndexableTemp => (105, "dcl_indexableTemp")
  | .dclGlobalFlags => (106, "dcl_globalFlags")

/-- The operation's name in assembly text. -/
def mnemonic (op : Opcode) : String := op.entry.2

/-- Every operation in the order of its number. -/
def all : List Opcode :=
    [.add, .and, .«break», .breakc, .call, .callc, .«case», .«continue», .continuec, .cut,
     .default, .derivRtx, .derivRty, .discard, .div, .dp2, .dp3, .dp4, .«else», .emit,
     .emitThenCut, .endIf, .endLoop, .endSwitch, .eq, .exp, .frc, .ftoi, .ftou, .ge, .iadd,
     .«if», .ieq, .ige, .ilt, .imad, .imax, .imin, .imul, .ine, .ineg, .ishl, .ishr, .itof,
     .label, .ld, .ldMs, .log, .loop, .lt, .mad, .min, .max, .customData, .mov, .movc, .mul,
     .ne, .nop, .not, .or, .resInfo, .ret, .retc, .roundNe, .roundNi, .roundPi, .roundZ,
     .rsq, .sample, .sampleC, .sampleCLz, .sampleL, .sampleD, .sampleB, .sqrt, .switch,
     .sincos, .udiv, .ult, .uge, .umul, .umad, .umax, .umin, .ushr, .utof, .xor, .dclResource,
     .dclConstantBuffer, .dclSampler, .dclIndexRange, .dclGsOutputPrimitiveTopology,
     .dclGsInputPrimitive, .dclMaxOutputVertexCount, .dclInput, .dclInputSgv, .dclInputSiv,
     .dclInputPs, .dclInputPsSgv, .dclInputPsSiv, .dclOutput, .dclOutputSgv, .dclOutputSiv,
     .dclTemps, .dclIndexableTemp, .dclGlobalFlags]

instance : Coded Opcode where
  members := all
  code op := op.entry.1
  find?_code op := by cases op <;> rfl

/-- Declarations are the operations from `dcl_resource` to `dcl_globalFlags`. -/
def isDeclaration (op : Opcode) : Bool :=
  Coded.code dclResource ≤ Coded.code op && Coded.code op ≤ Coded.code dclGlobalFlags

/-- What a message calls the operation with the number `n`. -/
def labelOf (n : UInt32) : String :=
  match (Coded.ofCode? n : Option Opcode) with
  | some op => op.mnemonic
  | none => "unknown"

end Opcode

end ShaderBytecode
