import ShaderBytecode.Token.BitRange
import ShaderBytecode.Opcode
import ShaderBytecode.Lanes
import ShaderBytecode.Instruction.Attributes
import ShaderBytecode.Operand.Kind
import ShaderBytecode.Token.Fields
import ShaderBytecode.Operand.Basic
import ShaderBytecode.DecodeError
import ShaderBytecode.Token.Cursor
import ShaderBytecode.EmitError
import ShaderBytecode.Token.Emitter
import ShaderBytecode.Operand.Decoder
import ShaderBytecode.Operand.Encoder
import ShaderBytecode.Instruction.Basic
import ShaderBytecode.Instruction.Decoder
import ShaderBytecode.Instruction.Encoder
import ShaderBytecode.Operand.Text
import ShaderBytecode.Instruction.Text
import ShaderBytecode.Program.Decoder
import ShaderBytecode.Program.Encoder
import ShaderBytecode.Builder.Call
import ShaderBytecode.Bytes.Cursor
import ShaderBytecode.Digest.Basic
import ShaderBytecode.Signature.Parser
import ShaderBytecode.Signature.Writer
import ShaderBytecode.Resources.Parser
import ShaderBytecode.Resources.Builder
import ShaderBytecode.Container.Contents
import ShaderBytecode.Container.Parser
import ShaderBytecode.Container.Writer
import ShaderBytecode.Shader
import ShaderBytecode.CommandLine.FileTree
import ShaderBytecode.CommandLine.Run
import ShaderBytecode.Main
import ShaderBytecode.Proofs.Token.BitRange
import ShaderBytecode.Proofs.Token.Independence
import ShaderBytecode.Proofs.Token.Reading
import ShaderBytecode.Proofs.Token.Position
import ShaderBytecode.Proofs.Operand.Form
import ShaderBytecode.Proofs.Instruction.Form
import ShaderBytecode.Proofs.Instruction.Encoding
import ShaderBytecode.Proofs.Instruction.Sequence
import ShaderBytecode.Proofs.Program.RoundTrip
import ShaderBytecode.Proofs.Instruction.Position
import ShaderBytecode.Proofs.Program.Concatenation
import ShaderBytecode.Proofs.Builder.Failure
import ShaderBytecode.Proofs.Shader.Roles
import ShaderBytecode.Proofs.Builder.Step
import ShaderBytecode.Proofs.Builder.Temps
import ShaderBytecode.Proofs.Bytes.Reading
import ShaderBytecode.Proofs.Bytes.Words
import ShaderBytecode.Proofs.Instruction.Refusal
import ShaderBytecode.Proofs.Instruction.Emission
import ShaderBytecode.Proofs.Container.Checks
import ShaderBytecode.Proofs.Shader.Integrity
import ShaderBytecode.Proofs.Digest.Blocks
import ShaderBytecode.Proofs.Digest.BlockStep
import ShaderBytecode.Proofs.Container.Writing
import ShaderBytecode.Proofs.Container.Layout
import ShaderBytecode.Proofs.Shader.Contents
import ShaderBytecode.Proofs.Shader.Order
import ShaderBytecode.Proofs.Builder.RoundTrip
import ShaderBytecode.Proofs.Shader.Verification
import ShaderBytecode.Proofs.Bytes.Records
import ShaderBytecode.Proofs.Resources.Layout
import ShaderBytecode.Proofs.Resources.Reading
import ShaderBytecode.Proofs.Resources.RoundTrip
import ShaderBytecode.Proofs.Resources.Unlimited
import ShaderBytecode.Proofs.Resources.TypeLimit
import ShaderBytecode.Proofs.Bytes.Seeking
import ShaderBytecode.Proofs.Signature.Layout
import ShaderBytecode.Proofs.Signature.RoundTrip
import ShaderBytecode.Proofs.Signature.LongEntries
import ShaderBytecode.Proofs.Builder.Sampling
import ShaderBytecode.Proofs.Operand.FreeBits
import ShaderBytecode.Proofs.Instruction.Length
import ShaderBytecode.Proofs.Container.Signatures
import ShaderBytecode.Proofs.Instruction.Bounds
import ShaderBytecode.Proofs.Program.Bounds
import ShaderBytecode.Proofs.Program.Framing
import ShaderBytecode.Proofs.Bytes.Stepping
import ShaderBytecode.Proofs.TagText
